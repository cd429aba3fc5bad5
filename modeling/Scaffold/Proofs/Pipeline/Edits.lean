import Scaffold.Pipeline.Layout

/-!
# Edited pipelines

A pipeline is changed step by step: a step is put into it, gets another body, or is taken out. After any such history,
names are there once, in the order in which they were last newly put at the end, and each step has the body it was
given last since then. A history says so without a pipeline: what was put there and not taken out since is there.
-/

namespace Scaffold

/-- A change to a pipeline. -/
inductive Edit where
  | step (name : String) (body : StepBody)
  | replace (name : String) (body : StepBody)
  | remove (name : String)

namespace Pipeline

def edit (p : Pipeline) : Edit → Pipeline
  | .step name body => p.step name body
  | .replace name body => p.replace name body
  | .remove name => p.remove name

def editAll (p : Pipeline) (edits : List Edit) : Pipeline :=
  edits.foldl edit p

end Pipeline

namespace Edit

/-- The body that an edit gives to the step of a name. -/
def body? (name : String) : Edit → Option StepBody
  | .step n body => if n = name then some body else none
  | .replace n body => if n = name then some body else none
  | .remove _ => none

/-- A step of a name was put there in the course of a history, and none was taken out since. -/
def Stands (history : List Edit) (name : String) : Prop :=
  ∃ before body since, history = before ++ .step name body :: since ∧ .remove name ∉ since

/-- The step of a name was newly put at the end by the edit of an index, when there was none, and it was not taken out
since. -/
def AppendedAt (history : List Edit) (name : String) (i : Nat) : Prop :=
  ∃ before body since, history = before ++ .step name body :: since ∧ before.length = i ∧ ¬Stands before name ∧
    .remove name ∉ since

/-- The body that the step of a name was given last since it was newly put at the end. -/
def Latest (history : List Edit) (name : String) (body : StepBody) : Prop :=
  ∃ i, AppendedAt history name i ∧ ((history.drop i).filterMap (body? name)).getLast? = some body

variable {history : List Edit} {name : String} {body : StepBody} {i j : Nat} {e : Edit}

/-! ## Histories -/

theorem AppendedAt.lt (h : AppendedAt history name i) : i < history.length := by
  obtain ⟨before, body, since, rfl, rfl, -⟩ := h
  rw [List.length_append, List.length_cons]
  omega

theorem AppendedAt.stands (h : AppendedAt history name i) : Stands history name := by
  obtain ⟨before, body, since, rfl, -, -, hsince⟩ := h
  exact ⟨before, body, since, rfl, hsince⟩

private theorem not_before {before before' since since' : List Edit} {body body' : StepBody}
    (heq : before ++ .step name body :: since = before' ++ .step name body' :: since') (hsince : .remove name ∉ since)
    (hnew : ¬Stands before' name) : before'.length ≤ before.length := by
  rcases List.append_eq_append_iff.mp heq with ⟨more, rfl, hmore⟩ | ⟨more, rfl, -⟩
  · cases more with
    | nil => exact Nat.le_of_eq (congrArg List.length (List.append_nil before))
    | cons first others =>
      -- the first place lies before the second, where the name already stood
      obtain ⟨rfl, rfl⟩ := List.cons.inj hmore
      exact absurd ⟨before, body, others, rfl, fun hmem => hsince (List.mem_append_left _ hmem)⟩ hnew
  · rw [List.length_append]
    omega

theorem AppendedAt.unique (hi : AppendedAt history name i) (hj : AppendedAt history name j) : i = j := by
  obtain ⟨before, body, since, rfl, rfl, hnew, hsince⟩ := hi
  obtain ⟨before', body', since', heq, rfl, hnew', hsince'⟩ := hj
  exact Nat.le_antisymm (not_before heq.symm hsince' hnew) (not_before heq hsince hnew')

theorem AppendedAt.concat (h : AppendedAt history name i) (he : e ≠ .remove name) :
    AppendedAt (history ++ [e]) name i := by
  obtain ⟨before, body, since, rfl, hlength, hnew, hsince⟩ := h
  refine ⟨before, body, since ++ [e], ?_, hlength, hnew, ?_⟩
  · rw [List.append_assoc, List.cons_append]
  · intro hmem
    rcases List.mem_append.mp hmem with hmem | hmem
    · exact hsince hmem
    · exact he (List.mem_singleton.mp hmem).symm

private theorem appendedAt_new (hnew : ¬Stands history name) :
    AppendedAt (history ++ [.step name body]) name history.length :=
  ⟨history, body, [], rfl, rfl, hnew, List.not_mem_nil⟩

private theorem stands_concat :
    Stands (history ++ [e]) name ↔ (∃ body, e = .step name body) ∨ Stands history name ∧ e ≠ .remove name := by
  constructor
  · rintro ⟨before, body, since, heq, hsince⟩
    rcases List.eq_nil_or_concat since with rfl | ⟨front, last, rfl⟩
    · obtain ⟨-, heq⟩ := List.append_inj' heq rfl
      exact .inl ⟨body, List.singleton_inj.mp heq⟩
    · rw [List.concat_eq_append, ← List.cons_append, ← List.append_assoc] at heq
      obtain ⟨rfl, hlast⟩ := List.append_inj' heq rfl
      obtain rfl := List.singleton_inj.mp hlast
      rw [List.concat_eq_append] at hsince
      refine .inr ⟨⟨before, body, front, rfl, fun hmem => hsince (List.mem_append_left _ hmem)⟩, ?_⟩
      rintro rfl
      exact hsince (List.mem_append_right _ (List.mem_singleton_self _))
  · rintro (⟨body, rfl⟩ | ⟨⟨before, body, since, rfl, hsince⟩, he⟩)
    · exact ⟨history, body, [], rfl, List.not_mem_nil⟩
    · refine ⟨before, body, since ++ [e], by rw [List.append_assoc, List.cons_append], ?_⟩
      intro hmem
      rcases List.mem_append.mp hmem with hmem | hmem
      · exact hsince hmem
      · exact he (List.mem_singleton.mp hmem).symm

private theorem latest_new (hnew : ¬Stands history name) : Latest (history ++ [.step name body]) name body := by
  refine ⟨history.length, appendedAt_new hnew, ?_⟩
  rw [List.drop_left]
  simp [body?]

/-- A step that is not taken out has the body of the edit, or else the one it had. -/
theorem Latest.concat (h : Latest history name body) (he : e ≠ .remove name) :
    Latest (history ++ [e]) name ((e.body? name).getD body) := by
  obtain ⟨i, hi, hbody⟩ := h
  refine ⟨i, hi.concat he, ?_⟩
  rw [List.drop_append_of_le_length (Nat.le_of_lt hi.lt), List.filterMap_append, List.getLast?_append, hbody]
  cases hgiven : e.body? name with
  | none => simp [hgiven]
  | some given => simp [hgiven]

end Edit

namespace Pipeline

variable {p : Pipeline} {history : List Edit} {name : String} {body : StepBody}

/-! ## Single edits -/

private theorem replaceIn_unknown {steps : List Step} (h : name ∉ steps.map Step.name) :
    replaceIn name body steps = steps := by
  induction steps with
  | nil => rfl
  | cons step rest ih =>
    rw [List.map_cons, List.mem_cons, not_or] at h
    rw [replaceIn, if_neg (Ne.symm h.1), ih h.2]

private theorem replace_unknown (h : name ∉ p.names) : p.replace name body = p := by
  rw [replace, replaceIn_unknown h]

private theorem remove_unknown (h : name ∉ p.names) : p.remove name = p := by
  have hkeep : p.steps.filter (·.name != name) = p.steps := by
    rw [List.filter_eq_self]
    intro s hs
    exact bne_iff_ne.mpr fun heq => h (heq ▸ List.mem_map_of_mem hs)
  rw [remove, hkeep]

private theorem mem_replaceIn {steps : List Step} (hnodup : (steps.map Step.name).Nodup) {s : Step}
    (hs : s ∈ replaceIn name body steps) : s = ⟨name, body⟩ ∨ s ∈ steps ∧ s.name ≠ name := by
  induction steps with
  | nil => cases hs
  | cons first rest ih =>
    rw [List.map_cons, List.nodup_cons] at hnodup
    rw [replaceIn] at hs
    by_cases hname : first.name = name
    · rw [if_pos hname] at hs
      rcases List.mem_cons.mp hs with rfl | hs
      · exact .inl (by rw [hname])
      · exact .inr ⟨List.mem_cons_of_mem _ hs, fun heq => hnodup.1 (hname ▸ heq ▸ List.mem_map_of_mem hs)⟩
    · rw [if_neg hname] at hs
      rcases List.mem_cons.mp hs with rfl | hs
      · exact .inr ⟨List.mem_cons_self, hname⟩
      · rcases ih hnodup.2 hs with rfl | ⟨hs, hne⟩
        · exact .inl rfl
        · exact .inr ⟨List.mem_cons_of_mem _ hs, hne⟩

/-! ## Histories -/

/-- A pipeline is what a history of edits leaves. -/
structure Records (history : List Edit) (p : Pipeline) : Prop where
  names (name : String) : name ∈ p.names ↔ Edit.Stands history name
  nodup : p.names.Nodup
  order : p.names.Pairwise fun a b => ∃ i j, Edit.AppendedAt history a i ∧ Edit.AppendedAt history b j ∧ i < j
  bodies (s : Step) : s ∈ p.steps → Edit.Latest history s.name s.body

theorem records_nil : Records [] {} where
  names name := by
    refine ⟨fun h => absurd h List.not_mem_nil, ?_⟩
    rintro ⟨before, body, since, heq, -⟩
    exact absurd heq.symm (List.append_ne_nil_of_right_ne_nil _ (List.cons_ne_nil _ _))
  nodup := List.nodup_nil
  order := .nil
  bodies s h := absurd h List.not_mem_nil

private theorem Records.order_concat (h : Records history p) {e : Edit} {names : List String}
    (hnames : names.Sublist p.names) (he : ∀ name ∈ names, e ≠ .remove name) :
    names.Pairwise fun a b => ∃ i j, Edit.AppendedAt (history ++ [e]) a i ∧ Edit.AppendedAt (history ++ [e]) b j ∧
      i < j := by
  refine (h.order.sublist hnames).imp_of_mem ?_
  intro a b ha hb hab
  obtain ⟨i, j, hi, hj, hij⟩ := hab
  exact ⟨i, j, hi.concat (he a ha), hj.concat (he b hb), hij⟩

private theorem Records.replace (h : Records history p) {e : Edit} (hremove : ∀ name, e ≠ .remove name)
    (hstep : ∀ n body, e = .step n body → n ∈ p.names) (hbody : e.body? name = some body)
    (hother : ∀ n, n ≠ name → e.body? n = none) : Records (history ++ [e]) (p.replace name body) where
  names n := by
    rw [names_replace, h.names, Edit.stands_concat]
    constructor
    · exact fun hstands => .inr ⟨hstands, hremove n⟩
    · rintro (⟨given, he⟩ | ⟨hstands, -⟩)
      · exact (h.names n).mp (hstep n given he)
      · exact hstands
  nodup := by
    rw [names_replace]
    exact h.nodup
  order := by
    rw [names_replace]
    exact h.order_concat (List.Sublist.refl _) fun n _ => hremove n
  bodies s hs := by
    by_cases hname : name ∈ p.names
    · rcases mem_replaceIn h.nodup hs with rfl | ⟨hmem, hne⟩
      · obtain ⟨old, hold, hn⟩ := List.mem_map.mp hname
        have hlatest := (h.bodies old hold).concat (hremove old.name)
        rw [hn, hbody] at hlatest
        exact hlatest
      · have hlatest := (h.bodies s hmem).concat (hremove s.name)
        rw [hother s.name hne] at hlatest
        exact hlatest
    · rw [replace_unknown hname] at hs
      have hlatest := (h.bodies s hs).concat (hremove s.name)
      rw [hother s.name fun heq => hname (heq ▸ List.mem_map_of_mem hs)] at hlatest
      exact hlatest

private theorem Records.append (h : Records history p) (hnew : name ∉ p.names) (body : StepBody) :
    Records (history ++ [.step name body]) ⟨p.steps ++ [⟨name, body⟩]⟩ := by
  have hnames : Pipeline.names ⟨p.steps ++ [⟨name, body⟩]⟩ = p.names ++ [name] := List.map_append
  have hstands : ¬Edit.Stands history name := fun hs => hnew ((h.names name).mpr hs)
  constructor
  · intro n
    rw [hnames, List.mem_append, List.mem_singleton, h.names, Edit.stands_concat]
    constructor
    · rintro (hn | rfl)
      · exact .inr ⟨hn, nofun⟩
      · exact .inl ⟨body, rfl⟩
    · rintro (⟨given, he⟩ | ⟨hn, -⟩)
      · cases he
        exact .inr rfl
      · exact .inl hn
  · rw [hnames, List.nodup_append]
    refine ⟨h.nodup, List.nodup_cons.mpr ⟨List.not_mem_nil, List.nodup_nil⟩, ?_⟩
    rintro a ha b hb rfl
    exact hnew (List.mem_singleton.mp hb ▸ ha)
  · rw [hnames, List.pairwise_append]
    refine ⟨h.order_concat (List.Sublist.refl _) fun _ _ => nofun, List.pairwise_singleton _ _, ?_⟩
    intro a ha b hb
    obtain rfl := List.mem_singleton.mp hb
    obtain ⟨s, hs, rfl⟩ := List.mem_map.mp ha
    obtain ⟨i, hi, -⟩ := h.bodies s hs
    exact ⟨i, history.length, hi.concat nofun, Edit.appendedAt_new hstands, hi.lt⟩
  · intro s hs
    rcases List.mem_append.mp hs with hs | hs
    · have hlatest : Edit.Latest (history ++ [.step name body]) s.name _ := (h.bodies s hs).concat nofun
      have hne : name ≠ s.name := fun heq => hnew (heq ▸ List.mem_map_of_mem hs)
      rw [Edit.body?, if_neg hne] at hlatest
      exact hlatest
    · obtain rfl := List.mem_singleton.mp hs
      exact Edit.latest_new hstands

private theorem Records.remove (h : Records history p) (name : String) :
    Records (history ++ [.remove name]) (p.remove name) := by
  have hother {n : String} (hn : n ∈ (p.remove name).names) : n ∈ p.names ∧ (Edit.remove name) ≠ .remove n := by
    rw [names_remove, List.mem_filter, bne_iff_ne] at hn
    exact ⟨hn.1, fun heq => hn.2 (Edit.remove.inj heq).symm⟩
  constructor
  · intro n
    rw [Edit.stands_concat, ← h.names]
    constructor
    · exact fun hn => .inr (hother hn)
    · rintro (⟨body, he⟩ | ⟨hn, hne⟩)
      · cases he
      · rw [names_remove, List.mem_filter, bne_iff_ne]
        exact ⟨hn, fun heq => hne (heq ▸ rfl)⟩
  · rw [names_remove]
    exact h.nodup.filter _
  · exact h.order_concat (by rw [names_remove]; exact List.filter_sublist) fun n hn => (hother hn).2
  · intro s hs
    have hmem := (List.mem_filter.mp hs).1
    exact (h.bodies s hmem).concat (hother (List.mem_map_of_mem hs)).2

theorem Records.edit (h : Records history p) (e : Edit) : Records (history ++ [e]) (p.edit e) := by
  cases e with
  | step name body =>
    have hother (n : String) (hn : n ≠ name) : (Edit.step name body).body? n = none := if_neg (Ne.symm hn)
    by_cases hname : name ∈ p.names
    · rw [Pipeline.edit, Pipeline.step, if_pos ((contains_iff p name).mpr hname)]
      refine h.replace (fun n he => ?_) (fun n given he => ?_) (if_pos rfl) hother
      · cases he
      · cases he
        exact hname
    · rw [Pipeline.edit, Pipeline.step, if_neg fun hc => hname ((contains_iff p name).mp hc)]
      exact h.append hname body
  | replace name body =>
    refine h.replace (fun n he => ?_) (fun n given he => ?_) (if_pos rfl) fun n hn => if_neg (Ne.symm hn)
    · cases he
    · cases he
  | remove name => exact h.remove name

theorem Records.editAll (h : Records history p) (edits : List Edit) :
    Records (history ++ edits) (p.editAll edits) := by
  induction edits generalizing history p with
  | nil =>
    rw [List.append_nil]
    exact h
  | cons e rest ih =>
    have hrest := ih (h.edit e)
    rw [List.append_assoc] at hrest
    exact hrest

end Pipeline

namespace Layout

/-- The pipeline that edits start from: the one of a flavor, or one without steps. -/
def base (provider : Sources) : Option Flavor → Pipeline
  | none => {}
  | some flavor => ofFlavor flavor provider

/-- The edits that make the steps of a plain project. -/
def plainEdits (provider : Sources) : List Edit :=
  [.step pomStep pom, .step sourcesStep (sources provider), .step documentStep document,
    .step applicationStep application]

/-- The edits that a base was made by. -/
def baseEdits (provider : Sources) : Option Flavor → List Edit
  | none => []
  | some .jaxrs => plainEdits provider
  | some .quarkus =>
    plainEdits provider ++
      [.remove applicationStep, .step extrasStep fun context _ => extras context.settings context.store]

private theorem base_records (provider : Sources) (flavor : Option Flavor) :
    Pipeline.Records (baseEdits provider flavor) (base provider flavor) := by
  have hmade : base provider flavor = Pipeline.editAll {} (baseEdits provider flavor) := by
    rcases flavor with _ | _ | _
    · rfl
    · rfl
    · rfl
  rw [hmade]
  exact Pipeline.records_nil.editAll _

end Layout

namespace Pipeline

/-- Whatever edits are made to a base: each name is there once, the names stand in the order in which they were last
newly put at the end, and each step has the body of the last edit that gave it one since. A name that is taken out and
put there again comes last, one that is there keeps its place, and other names are not known to edits that replace or
take out. -/
theorem editAll_steps (provider : Sources) (flavor : Option Flavor) (edits : List Edit) :
    let p := (Layout.base provider flavor).editAll edits
    let history := Layout.baseEdits provider flavor ++ edits
    p.names.Nodup ∧ (∀ name, p.contains name = true ↔ name ∈ p.names) ∧
      (∀ name, name ∈ p.names ↔ ∃ i, Edit.AppendedAt history name i) ∧
      (p.names.Pairwise fun a b => ∀ i j, Edit.AppendedAt history a i → Edit.AppendedAt history b j → i < j) ∧
      (∀ s ∈ p.steps, Edit.Latest history s.name s.body) ∧
      (∀ name ∈ p.names, ∀ body, (p.step name body).names = p.names ∧ (p.replace name body).names = p.names ∧
        ((p.remove name).step name body).names = p.names.filter (· != name) ++ [name]) ∧
      ∀ name ∉ p.names, ∀ body, (p.step name body).names = p.names ++ [name] ∧ p.replace name body = p ∧
        p.remove name = p := by
  intro p history
  have hrecords : Records history p := (Layout.base_records provider flavor).editAll edits
  refine ⟨hrecords.nodup, contains_iff p, fun name => ?_, ?_, hrecords.bodies, fun name hname body => ?_,
    fun name hname body => ?_⟩
  · constructor
    · intro hname
      obtain ⟨s, hs, rfl⟩ := List.mem_map.mp hname
      obtain ⟨i, hi, -⟩ := hrecords.bodies s hs
      exact ⟨i, hi⟩
    · rintro ⟨i, hi⟩
      exact (hrecords.names name).mpr hi.stands
  · refine hrecords.order.imp ?_
    rintro a b ⟨i, j, hi, hj, hij⟩ i' j' hi' hj'
    rwa [hi'.unique hi, hj'.unique hj]
  · refine ⟨?_, names_replace p name body, ?_⟩
    · rw [names_step, if_pos hname]
    · have hgone : name ∉ p.names.filter (· != name) := fun hmem => bne_iff_ne.mp (List.mem_filter.mp hmem).2 rfl
      rw [names_step, names_remove, if_neg hgone]
  · refine ⟨?_, replace_unknown hname, remove_unknown hname⟩
    rw [names_step, if_neg hname]

example :
    let body : StepBody := fun _ _ => pure []
    let edits : List Edit := [.step "own" body, .remove Layout.extrasStep, .replace "other" body,
      .step Layout.pomStep body, .step Layout.extrasStep body]
    ((Layout.base Sources.empty (some .quarkus)).editAll edits).names
      = [Layout.pomStep, Layout.sourcesStep, Layout.documentStep, "own", Layout.extrasStep] := by
  decide

end Pipeline

end Scaffold
