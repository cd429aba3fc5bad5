import Scaffold.Proofs.Pipeline.Assembled
import Scaffold.Proofs.Text.Decoded

/-!
# The files of a whole application

They are made in three groups, a line of the log before each. What ends them early is the first path whose file cannot
be made, and the log says how far they came: up to the group of that path.
-/

namespace Scaffold.Layout

/-- A file of a whole application can be made of what a store has at its path: of any content, but properties have to
be a text. -/
def Usable (store : Store) (path : String) : Prop :=
  ∃ content, (store.load path).result = .ok content ∧
    (path = "src/main/resources/application.properties" → ∃ text, content = Text.encode text)

/-- Why a file of a whole application cannot be made. -/
def Unusable (store : Store) (path : String) (e : Error) : Prop :=
  (store.load path).result = .error e ∨
    path = "src/main/resources/application.properties" ∧ ∃ content cause,
      (store.load path).result = .ok content ∧ Text.decode content = .error cause ∧ e = .templateNotText path cause

/-- The first of some paths whose file cannot be made. -/
def FirstUnusable (store : Store) (paths : List String) (path : String) (e : Error) : Prop :=
  ∃ before after, paths = before ++ path :: after ∧ (∀ p ∈ before, Usable store p) ∧ Unusable store path e

/-- The lines of groups up to that of a path. -/
def linesUpTo (path : String) : List (String × List String) → List String
  | [] => []
  | (line, paths) :: rest => if path ∈ paths then [line] else line :: linesUpTo path rest

variable {store : Store} {path : String} {paths : List String} {e : Error} {lines : List String}

/-! ## The first fault -/

theorem Usable.not_unusable (h : Usable store path) : ¬Unusable store path e := by
  intro hfault
  obtain ⟨content, hload, htext⟩ := h
  rcases hfault with herror | ⟨hpath, other, cause, hother, hcause, -⟩
  · cases hload.symm.trans herror
  · obtain ⟨text, rfl⟩ := htext hpath
    cases hload.symm.trans hother
    cases (Text.decode_encode text).symm.trans hcause

private theorem firstUnusable_cons {first : String} :
    FirstUnusable store (first :: paths) path e ↔
      path = first ∧ Unusable store path e ∨ Usable store first ∧ FirstUnusable store paths path e := by
  constructor
  · rintro ⟨before, after, hpaths, hbefore, hfault⟩
    rcases List.cons_eq_append_iff.mp hpaths with ⟨rfl, hhere⟩ | ⟨more, rfl, hlater⟩
    · exact .inl ⟨(List.cons.inj hhere).1, hfault⟩
    · obtain ⟨hfirst, hmore⟩ := List.forall_mem_cons.mp hbefore
      exact .inr ⟨hfirst, more, after, hlater, hmore, hfault⟩
  · rintro (⟨rfl, hfault⟩ | ⟨hfirst, before, after, rfl, hbefore, hfault⟩)
    · exact ⟨[], paths, rfl, fun p hp => absurd hp List.not_mem_nil, hfault⟩
    · exact ⟨first :: before, after, rfl, List.forall_mem_cons.mpr ⟨hfirst, hbefore⟩, hfault⟩

private theorem not_firstUnusable_nil : ¬FirstUnusable store [] path e := by
  rintro ⟨before, after, hpaths, -⟩
  cases before with
  | nil => cases hpaths
  | cons p before => cases hpaths

private theorem firstUnusable_append {later : List String} :
    FirstUnusable store (paths ++ later) path e ↔
      FirstUnusable store paths path e ∨ (∀ p ∈ paths, Usable store p) ∧ FirstUnusable store later path e := by
  induction paths with
  | nil => simp [not_firstUnusable_nil]
  | cons first rest ih =>
    rw [List.cons_append, firstUnusable_cons, firstUnusable_cons, ih, List.forall_mem_cons]
    tauto

theorem FirstUnusable.mem (h : FirstUnusable store paths path e) : path ∈ paths := by
  obtain ⟨before, after, rfl, -⟩ := h
  exact List.mem_append_right before List.mem_cons_self

theorem FirstUnusable.unusable (h : FirstUnusable store paths path e) : Unusable store path e := by
  obtain ⟨-, -, -, -, hfault⟩ := h
  exact hfault

/-! ## One file -/

private theorem load_fails : (store.load path).Fails e lines ↔ (store.load path).result = .error e ∧ lines = [] := by
  rw [Attempt.Fails, store.quiet]
  exact and_congr_right fun _ => eq_comm

private theorem loadText_fails :
    (store.loadText path).Fails e lines ↔
      ((store.load path).result = .error e ∨ ∃ content cause, (store.load path).result = .ok content ∧
        Text.decode content = .error cause ∧ e = .templateNotText path cause) ∧ lines = [] := by
  rw [Store.loadText, Attempt.fails_bind, load_fails]
  constructor
  · rintro (⟨hload, rfl⟩ | ⟨content, before, after, hload, hdecode, rfl⟩)
    · exact ⟨.inl hload, rfl⟩
    · obtain ⟨hcontent, rfl⟩ := load_yields.mp hload
      cases htext : Text.decode content with
      | ok text =>
        simp only [htext] at hdecode
        exact absurd hdecode Attempt.not_fails_pure
      | error cause =>
        simp only [htext] at hdecode
        obtain ⟨rfl, rfl⟩ := Attempt.fails_fail.mp hdecode
        exact ⟨.inr ⟨content, cause, hcontent, htext, rfl⟩, rfl⟩
  · rintro ⟨hload | ⟨content, cause, hload, htext, rfl⟩, rfl⟩
    · exact .inl ⟨hload, rfl⟩
    · refine .inr ⟨content, [], [], load_yields.mpr ⟨hload, rfl⟩, ?_, rfl⟩
      simp only [htext]
      exact Attempt.fails_fail.mpr ⟨rfl, rfl⟩

private theorem fails_bind_pure {first : Attempt α} {value : α → β} :
    (first >>= fun a => pure (value a)).Fails e lines ↔ first.Fails e lines := by
  rw [Attempt.fails_bind]
  constructor
  · rintro (hfirst | ⟨a, before, after, -, hpure, -⟩)
    · exact hfirst
    · exact absurd hpure Attempt.not_fails_pure
  · exact .inl

private theorem fails_bind_two {first : Attempt α} {second : Attempt β} {value : α → β → γ} :
    (first >>= fun a => second >>= fun b => pure (value a b)).Fails e lines ↔
      first.Fails e lines ∨ ∃ a before after, first.Yields a before ∧ second.Fails e after ∧ lines = before ++ after := by
  rw [Attempt.fails_bind]
  simp only [fails_bind_pure]

private theorem makeExtra_fails : (makeExtra store path).Fails e lines ↔ Unusable store path e ∧ lines = [] := by
  by_cases hpath : path = propertiesPath
  · have hproperties : path = "src/main/resources/application.properties" := hpath
    rw [makeExtra, if_pos hpath, fails_bind_pure, loadText_fails, Unusable]
    simp only [hproperties, true_and]
  · have hproperties : path ≠ "src/main/resources/application.properties" := hpath
    rw [makeExtra, if_neg hpath, copyTemplate, fails_bind_pure, load_fails, Unusable]
    simp only [hproperties, false_and, or_false]

/-- A file is made of every path that is usable, and of no other. -/
theorem usable_iff : Usable store path ↔ ∃ entry, ExtraEntry store path entry := by
  by_cases hpath : path = "src/main/resources/application.properties"
  · simp only [Usable, ExtraEntry, LoadsText, hpath, forall_const]
    constructor
    · rintro ⟨content, hload, text, htext⟩
      exact ⟨_, text, ⟨content, hload, Text.decode_eq_iff.mpr htext.symm⟩, rfl⟩
    · rintro ⟨entry, text, ⟨content, hload, htext⟩, -⟩
      exact ⟨content, hload, text, (Text.decode_eq_iff.mp htext).symm⟩
  · simp only [Usable, ExtraEntry, hpath, false_implies, and_true]
    constructor
    · rintro ⟨content, hload⟩
      exact ⟨_, content, hload, rfl⟩
    · rintro ⟨entry, content, hload, -⟩
      exact ⟨content, hload⟩

private theorem usable_all_iff :
    (∀ p ∈ paths, Usable store p) ↔ ∃ entries, List.Forall₂ (ExtraEntry store) paths entries := by
  induction paths with
  | nil => simp
  | cons first rest ih =>
    rw [List.forall_mem_cons, ih, usable_iff]
    simp only [List.forall₂_cons_left_iff]
    constructor
    · rintro ⟨⟨entry, hentry⟩, entries, hentries⟩
      exact ⟨entry :: entries, entry, entries, hentry, hentries, rfl⟩
    · rintro ⟨_, entry, entries, hentry, hentries, -⟩
      exact ⟨⟨entry, hentry⟩, entries, hentries⟩

/-! ## All files -/

private theorem makeExtras_fails :
    (makeExtras store paths).Fails e lines ↔ (∃ path, FirstUnusable store paths path e) ∧ lines = [] := by
  induction paths generalizing lines with
  | nil =>
    rw [makeExtras]
    exact iff_of_false Attempt.not_fails_pure fun h => not_firstUnusable_nil h.1.choose_spec
  | cons first rest ih =>
    rw [makeExtras, fails_bind_two, makeExtra_fails]
    simp only [ih, firstUnusable_cons, makeExtra_yields]
    constructor
    · rintro (⟨hfault, rfl⟩ | ⟨entry, before, after, ⟨hentry, rfl⟩, ⟨⟨path, hlater⟩, rfl⟩, rfl⟩)
      · exact ⟨⟨first, .inl ⟨rfl, hfault⟩⟩, rfl⟩
      · exact ⟨⟨path, .inr ⟨usable_iff.mpr ⟨entry, hentry⟩, hlater⟩⟩, rfl⟩
    · rintro ⟨⟨path, ⟨rfl, hfault⟩ | ⟨hfirst, hlater⟩⟩, rfl⟩
      · exact .inl ⟨hfault, rfl⟩
      · obtain ⟨entry, hentry⟩ := usable_iff.mp hfirst
        exact .inr ⟨entry, [], [], ⟨hentry, rfl⟩, ⟨⟨path, hlater⟩, rfl⟩, rfl⟩

/-- Groups fail at the first path whose file cannot be made. The groups before that of the path have left their lines,
and its own has, but no later one. -/
theorem makeGroups_fails {groups : List (String × List String)} :
    (makeGroups store groups).Fails e lines ↔
      ∃ path, FirstUnusable store (groups.flatMap Prod.snd) path e ∧ lines = linesUpTo path groups := by
  induction groups generalizing lines with
  | nil =>
    rw [makeGroups]
    refine iff_of_false Attempt.not_fails_pure fun h => ?_
    obtain ⟨path, hfirst, -⟩ := h
    exact not_firstUnusable_nil hfirst
  | cons group rest ih =>
    obtain ⟨line, paths⟩ := group
    rw [makeGroups, Attempt.fails_note_bind]
    simp only [fails_bind_two, makeExtras_fails, makeExtras_yields, ih, List.flatMap_cons, firstUnusable_append]
    constructor
    · rintro ⟨_, ⟨⟨path, hfirst⟩, rfl⟩ | ⟨entries, before, after, ⟨hentries, rfl⟩, ⟨path, hfirst, rfl⟩, rfl⟩, rfl⟩
      · refine ⟨path, .inl hfirst, ?_⟩
        rw [linesUpTo, if_pos hfirst.mem]
      · have husable := usable_all_iff.mpr ⟨entries, hentries⟩
        refine ⟨path, .inr ⟨husable, hfirst⟩, ?_⟩
        rw [linesUpTo, if_neg fun hmem => (husable path hmem).not_unusable hfirst.unusable, List.nil_append]
    · rintro ⟨path, hfirst | ⟨husable, hfirst⟩, rfl⟩
      · refine ⟨[], .inl ⟨⟨path, hfirst⟩, rfl⟩, ?_⟩
        rw [linesUpTo, if_pos hfirst.mem]
      · obtain ⟨entries, hentries⟩ := usable_all_iff.mp husable
        refine ⟨linesUpTo path rest, .inr ⟨entries, [], _, ⟨hentries, rfl⟩, ⟨path, hfirst, rfl⟩, rfl⟩, ?_⟩
        rw [linesUpTo, if_neg fun hmem => (husable path hmem).not_unusable hfirst.unusable]

/-- The files of a whole application, for every store and every log so far. None are made where only sources are, and no
template is looked up. Else there is an entry for each path in order, just when there is a usable content for each; and
if there is not, the error is that of the first path that has none, and the log ends with the line of its group. -/
theorem extras_outcome (s : Settings) (store : Store) (log : Log) :
    let attempt := extras s store
    if s.codeOnly ∨ s.updateOnly then attempt.result = .ok [] ∧ attempt.logAfter log = log
    else
      ((∃ entries, attempt.result = .ok entries) ↔ ∀ path ∈ extraPaths, Usable store path) ∧
        (∀ entries, attempt.result = .ok entries → List.Forall₂ (ExtraEntry store) extraPaths entries ∧
          attempt.logAfter log = ⟨log.lines ++ extraGroups.map Prod.fst⟩) ∧
        ∀ e, attempt.result = .error e → ∃ path, FirstUnusable store extraPaths path e ∧
          attempt.logAfter log = ⟨log.lines ++ linesUpTo path extraGroups⟩ := by
  intro attempt
  by_cases hout : s.codeOnly ∨ s.updateOnly
  · have hskip : attempt = pure [] := by
      have hpartial : s.isFullProject = false := eq_false_of_ne_true fun h => full_iff.mp h hout
      simp [attempt, extras, hpartial]
    rw [if_pos hout, hskip]
    exact ⟨rfl, congrArg Log.mk (List.append_nil log.lines)⟩
  · have hgroups : attempt = makeGroups store extraGroups := extras_grouped (full_iff.mpr hout)
    have hyields {entries : List Entry} {lines : List String} : attempt.Yields entries lines ↔
        List.Forall₂ (ExtraEntry store) extraPaths entries ∧ lines = extraGroups.map Prod.fst := by
      rw [hgroups, makeGroups_yields, extraGroups_paths]
    rw [if_neg hout, usable_all_iff]
    refine ⟨⟨?_, ?_⟩, fun entries hok => ?_, fun e herror => ?_⟩
    · rintro ⟨entries, hok⟩
      exact ⟨entries, (hyields.mp ⟨hok, rfl⟩).1⟩
    · rintro ⟨entries, hentries⟩
      exact ⟨entries, (hyields.mpr ⟨hentries, rfl⟩).1⟩
    · obtain ⟨hentries, hlines⟩ := hyields.mp ⟨hok, rfl⟩
      exact ⟨hentries, by rw [Attempt.logAfter, hlines]⟩
    · have hfails : attempt.Fails e attempt.lines := ⟨herror, rfl⟩
      rw [hgroups, makeGroups_fails, extraGroups_paths, ← hgroups] at hfails
      obtain ⟨path, hfirst, hlines⟩ := hfails
      exact ⟨path, hfirst, by rw [Attempt.logAfter, hlines]⟩

end Scaffold.Layout
