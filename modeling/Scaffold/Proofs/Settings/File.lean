import Scaffold.Proofs.Files.Changes
import Scaffold.Proofs.Settings.Document
import Scaffold.Settings.File

/-!
# Settings files

Loading a file with a document of the grammar, and loading what was saved.
-/

namespace Scaffold.Settings

open Json
open Text (bytes)

variable {tree : FileTree} {path : Path}

private theorem load_of_read {text : List Char} (h : tree.read path = .ok (Text.encode (String.ofList text))) :
    load tree path = (parse (bytes text)).mapError (Error.settingsUnreadable path (bytes text)) := by
  have htext : tree.readText path = .ok (String.ofList text) := by
    rw [FileTree.readText, h]
    simp only [bind, Except.bind, Text.decode_encode]
    rfl
  rw [load, htext, ← Text.encode_ofList]
  rfl

/-- A file holds an object of any layout, whose members give fields their values or have other names, and a tail.
If no field is given twice and the tail is blank, it is loaded as settings that have the given values, and defaults
elsewhere; the same members in another order, or another layout, come to the same. Otherwise the error names a field
that is given twice, or else the tail. -/
theorem load_text {given : List Given} {object tail : List Char}
    (hread : tree.read path = .ok (Text.encode (String.ofList (object ++ tail)))) (h : ObjectText given object) :
    ((given.map Given.field).Nodup → Blank tail →
      (∃ s, load tree path = .ok s ∧ s.Holds given) ∧
        ∀ (other : FileTree) (otherPath : Path) (given' : List Given) (object' tail' : List Char),
          other.read otherPath = .ok (Text.encode (String.ofList (object' ++ tail'))) → ObjectText given' object' →
            Blank tail' → given'.Perm given → load other otherPath = load tree path) ∧
    (¬(given.map Given.field).Nodup →
      ∃ field left, 2 ≤ (given.map Given.field).count field ∧
        load tree path = .error (.settingsUnreadable path (bytes (object ++ tail)) ⟨.duplicateField field.name, left⟩)) ∧
    ((given.map Given.field).Nodup → ¬Blank tail →
      ∃ left, load tree path
        = .error (.settingsUnreadable path (bytes (object ++ tail)) ⟨.trailingCharacters, left⟩)) := by
  rw [load_of_read hread]
  refine ⟨fun hnodup htail => ?_, fun hdup => ?_, fun hnodup htail => ?_⟩
  · rw [parse_accepted h hnodup htail]
    refine ⟨⟨_, rfl, putAll_holds hnodup⟩, fun other otherPath given' object' tail' hread' h' htail' hperm => ?_⟩
    have hnodup' : (given'.map Given.field).Nodup := (hperm.map Given.field).nodup_iff.mpr hnodup
    rw [load_of_read hread', parse_accepted h' hnodup' htail']
    exact congrArg Except.ok ((putAll_holds hnodup).unique (putAll_holds hnodup') hperm).symm
  · obtain ⟨field, left, hcount, hparse⟩ := parse_repeated h hdup tail
    rw [hparse]
    exact ⟨field, left, hcount, rfl⟩
  · obtain ⟨left, hparse⟩ := parse_trailing h hnodup htail
    rw [hparse]
    exact ⟨left, rfl⟩

/-- A document with an unknown member, an escaped name and a line break between its members. -/
def sample : List Char :=
  "\x7b\"x\": [null],\n\"\\u0066lavor\":\"jaxrs\"\x7d".toList

private theorem spelled_plain {cs : List Char} (h : cs.all (Plain ·) = true) : Spelled cs cs := by
  induction cs with
  | nil => exact .nil
  | cons c cs ih =>
    rw [List.all_cons, Bool.and_eq_true, decide_eq_true_eq] at h
    exact .cons (.plain h.1) (ih h.2)

private theorem sample_object : ObjectText [⟨.flavor, Flavor.jaxrs⟩] sample := by
  have hx : Quoted "x" ('"' :: (['x'] ++ ['"'])) := .quotes (spelled_plain (by decide))
  have hlist : Derives .value ('[' :: (([] ++ (['n', 'u', 'l', 'l'] ++ [])) ++ [']'])) :=
    .list (.lastItem (by decide) .nullWord (by decide))
  have hother : MemberText none (_ ++ ([] ++ ':' :: ([' '] ++ _))) :=
    .other (fun field => by cases field <;> decide) hx (by decide) (by decide) hlist
  have hex : Hex4 (((0 * 16 + 0) * 16 + 6) * 16 + 6) ['0', '0', '6', '6'] :=
    .digits (.inl rfl) (.inl rfl) (.inl rfl) (.inl rfl)
  have hf : Spells 'f' (['\\', 'u'] ++ ['0', '0', '6', '6']) := .unit hex
  have hname : Quoted "flavor" ('"' :: ((_ ++ ['l', 'a', 'v', 'o', 'r']) ++ ['"'])) :=
    .quotes (.cons hf (spelled_plain (by decide)))
  have hvalue : Quoted "jaxrs" ('"' :: (['j', 'a', 'x', 'r', 's'] ++ ['"'])) := .quotes (spelled_plain (by decide))
  have hflavor : MemberText (some ⟨.flavor, Flavor.jaxrs⟩) (_ ++ ([] ++ ':' :: ([] ++ _))) :=
    .given hname (by decide) (by decide) hvalue
  have hmembers : MembersText _ ([] ++ (_ ++ ([] ++ ',' :: (['\n'] ++ (_ ++ []))))) :=
    .member (by decide) hother (by decide) (.last (by decide) hflavor (by decide))
  have hobject : ObjectText _ ([] ++ '{' :: (_ ++ ['}'])) := .members (by decide) hmembers
  exact hobject

private theorem plain_name : FileTree.Plain (Path.ofString "s.json") :=
  ⟨by decide, by decide, by decide⟩

/-- The unknown member and the escape change nothing. -/
theorem load_text_sample :
    ObjectText [⟨.flavor, Flavor.jaxrs⟩] sample ∧
      load ⟨.dir [(Path.ofString "s.json", .file (Text.encode (String.ofList (sample ++ ['\n']))))], []⟩
        (Path.ofString "s.json") = .ok { flavor := .jaxrs } := by
  have hread (content : Bytes) : FileTree.read ⟨.dir [(Path.ofString "s.json", .file content)], []⟩
      (Path.ofString "s.json") = .ok content := by
    have hrooted : (⟨.dir [(Path.ofString "s.json", .file content)], []⟩ : FileTree).Rooted := rfl
    refine (FileTree.read_ok_iff hrooted).mpr ⟨[], Path.ofString "s.json", ?_⟩
    exact FileTree.locate_ok_iff.mpr ⟨by decide, .file plain_name rfl⟩
  have hnodup : ([⟨.flavor, Flavor.jaxrs⟩].map Given.field).Nodup := by decide
  have htail : Blank ['\n'] := by decide
  obtain ⟨⟨s, hload, hholds⟩, -⟩ := (load_text (hread _) sample_object).1 hnodup htail
  have hs : s = ({} : Settings).putAll [⟨.flavor, Flavor.jaxrs⟩] := hholds.unique (putAll_holds hnodup) (.refl _)
  rw [hload, hs]
  exact ⟨sample_object, rfl⟩

/-! ## What is written -/

private theorem hexDigits_hex4 {n : Nat} (h : n < 0x20) : Hex4 n (Text.hexDigits n 4) := by
  have hdigits : ∀ k : Fin 0x20,
      Text.hexDigits k.val 4 = ['0', '0', Text.hexDigit (k.val / 16), Text.hexDigit (k.val % 16)] := by decide
  have hdigit : ∀ k : Fin 16, "0123456789abcdef".toList[k.val]? = some (Text.hexDigit k.val) := by decide
  have hzero : HexDigit 0 '0' := .inl rfl
  have hhigh : HexDigit (n / 16) (Text.hexDigit (n / 16)) := .inl (hdigit ⟨n / 16, by omega⟩)
  have hlow : HexDigit (n % 16) (Text.hexDigit (n % 16)) := .inl (hdigit ⟨n % 16, by omega⟩)
  have hvalue : ((0 * 16 + 0) * 16 + n / 16) * 16 + n % 16 = n := by omega
  have hex := Hex4.digits hzero hzero hhigh hlow
  rw [hvalue] at hex
  exact hdigits ⟨n, h⟩ ▸ hex

private theorem writeChar_spells (c : Char) : Spells c (writeChar c) := by
  by_cases hshort : c ∈ ['"', '\\', '\x08', '\x0c', '\n', '\r', '\t']
  · simp only [List.mem_cons, List.not_mem_nil, or_false] at hshort
    rcases hshort with rfl | rfl | rfl | rfl | rfl | rfl | rfl <;> exact .short (by decide)
  · simp only [List.mem_cons, List.not_mem_nil, or_false, not_or] at hshort
    obtain ⟨hquote, hbackslash, hb, hf, hn, hr, ht⟩ := hshort
    rw [writeChar, if_neg hquote, if_neg hbackslash, if_neg hb, if_neg hf, if_neg hn, if_neg hr, if_neg ht]
    by_cases hcontrol : c.toNat < 0x20
    · rw [if_pos hcontrol]
      exact .unit (hexDigits_hex4 hcontrol)
    · rw [if_neg hcontrol]
      exact .plain ⟨Nat.le_of_not_lt hcontrol, hquote, hbackslash⟩

private theorem spelled_written (cs : List Char) : Spelled cs (cs.flatMap writeChar) := by
  induction cs with
  | nil => exact .nil
  | cons c cs ih => exact .cons (writeChar_spells c) ih

private theorem writeString_quoted (s : String) : Quoted s (writeString s) :=
  .quotes (spelled_written s.toList)

private theorem writeBool_text (b : Bool) : BoolText b (writeBool b) := by
  cases b with
  | true => rfl
  | false => rfl

/-- What is written of the settings gives the value of each field. -/
def written (s : Settings) (field : Field) : Given :=
  ⟨field, s.get field⟩

private theorem writeField_text (s : Settings) (field : Field) :
    ValueText field (s.get field) (writeField s field) := by
  cases field with
  | projectName | groupId | artifactId | version | javaPackage => exact writeString_quoted _
  | flavor => exact writeString_quoted s.flavor.name
  | codeOnly | updateOnly => exact writeBool_text _

private theorem writeMember_text (s : Settings) (field : Field) :
    ∃ text, MemberText (some (s.written field)) text ∧ writeMember s field = [' ', ' '] ++ text := by
  have hmember : MemberText (some (s.written field))
      (writeString field.name ++ ([] ++ ':' :: ([' '] ++ writeField s field))) :=
    .given (writeString_quoted field.name) (by decide) (by decide) (writeField_text s field)
  refine ⟨_, hmember, ?_⟩
  simp [writeMember]

private theorem writeMembers_text (s : Settings) (first : Field) (fields : List Field) :
    MembersText ((first :: fields).map s.written)
      ('\n' :: ([',', '\n'].intercalate ((first :: fields).map (writeMember s)) ++ ['\n'])) := by
  induction fields generalizing first with
  | nil =>
    obtain ⟨text, hmember, htext⟩ := writeMember_text s first
    have hlast : MembersText (some (s.written first)).toList (['\n', ' ', ' '] ++ (text ++ ['\n'])) :=
      .last (by decide) hmember (by decide)
    simpa [htext] using hlast
  | cons second fields ih =>
    obtain ⟨text, hmember, htext⟩ := writeMember_text s first
    have hmembers : MembersText ((some (s.written first)).toList ++ (second :: fields).map s.written)
        (['\n', ' ', ' '] ++ (text ++ ([] ++ ',' :: _))) :=
      .member (by decide) hmember (by decide) (ih second)
    simpa [htext, List.intercalate_cons_cons] using hmembers

/-- Settings are written as an object that gives every field its value. -/
theorem write_object (s : Settings) : ObjectText (Field.all.map s.written) s.write.toList := by
  have hmembers := writeMembers_text s .projectName
    [.groupId, .artifactId, .version, .javaPackage, .flavor, .codeOnly, .updateOnly]
  have hobject : ObjectText _ ([] ++ '{' :: (_ ++ ['}'])) := .members (by decide) hmembers
  simpa [write, Field.all] using hobject

/-- Whatever the settings are, the file in which they were saved is loaded as the same settings. -/
theorem save_load {new : FileTree} {s : Settings} (hroot : tree.Rooted) (h : save tree path s = .ok new) :
    load new path = .ok s := by
  have hwrite : tree.write path (Text.encode s.write) = .ok new := by
    rw [save] at h
    cases hwrite : tree.write path (Text.encode s.write) with
    | error e =>
      rw [hwrite] at h
      cases h
    | ok after =>
      rw [hwrite] at h
      cases h
      rfl
  have hread : new.read path = .ok (Text.encode (String.ofList (s.write.toList ++ []))) := by
    rw [List.append_nil, String.ofList_toList]
    exact FileTree.read_write hroot hwrite
  have hnodup : ((Field.all.map s.written).map Given.field).Nodup := by
    rw [List.map_map]
    exact (by decide : Field.all.Nodup)
  rw [load_of_read hread, parse_accepted s.write_object hnodup (by decide)]
  refine congrArg Except.ok (ext_get fun field => ?_)
  have hfield : s.written field ∈ Field.all.map s.written := List.mem_map_of_mem (by cases field <;> decide)
  exact get_putAll _ hnodup hfield

/-- Settings whose texts are hard to write: quotes, control characters, one that needs two surrogates, none at all. -/
def hard : Settings where
  projectName := "\"\\/\n"
  groupId := "\x00\x1f\x7f"
  artifactId := ""
  version := "\u00e4\u2028"
  javaPackage := "😀"
  flavor := .jaxrs
  updateOnly := true

theorem save_load_hard :
    (⟨.dir [], []⟩ : FileTree).Rooted ∧
      ∃ new, save ⟨.dir [], []⟩ (Path.ofString "s.json") hard = .ok new ∧
        load new (Path.ofString "s.json") = .ok hard := by
  have hroot : (⟨.dir [], []⟩ : FileTree).Rooted := rfl
  refine ⟨hroot, ?_⟩
  have hwrite (content : Bytes) : FileTree.write ⟨.dir [], []⟩ (Path.ofString "s.json") content
      = .ok ⟨.dir [(Path.ofString "s.json", .file content)], []⟩ := by
    refine FileTree.write_ok_iff.mpr ⟨[], Path.ofString "s.json", none, ?_, rfl⟩
    exact FileTree.locate_ok_iff.mpr ⟨by decide, .missing plain_name rfl⟩
  have hsave : save ⟨.dir [], []⟩ (Path.ofString "s.json") hard
      = .ok ⟨.dir [(Path.ofString "s.json", .file (Text.encode hard.write))], []⟩ := by
    rw [save, hwrite]
    rfl
  exact ⟨_, hsave, save_load hroot hsave⟩

end Scaffold.Settings
