import Scaffold.Proofs.Json.Values
import Scaffold.Settings.Document

/-!
# Settings documents

The texts of settings as objects of any layout, with the fields that they give, and what reading makes of them:
given values and defaults, or the first fault when a field is given twice or something follows the object.
-/

namespace Scaffold.Settings

open Json
open Text (bytes)

/-! ## Fields and their values -/

/-- The values of a field. -/
def Field.Value : Field → Type
  | .projectName | .groupId | .artifactId | .version | .javaPackage => String
  | .flavor => Flavor
  | .codeOnly | .updateOnly => Bool

def get (s : Settings) : (field : Field) → field.Value
  | .projectName => s.projectName
  | .groupId => s.groupId
  | .artifactId => s.artifactId
  | .version => s.version
  | .javaPackage => s.javaPackage
  | .flavor => s.flavor
  | .codeOnly => s.codeOnly
  | .updateOnly => s.updateOnly

def put (s : Settings) : (field : Field) → field.Value → Settings
  | .projectName, v => { s with projectName := v }
  | .groupId, v => { s with groupId := v }
  | .artifactId, v => { s with artifactId := v }
  | .version, v => { s with version := v }
  | .javaPackage, v => { s with javaPackage := v }
  | .flavor, v => { s with flavor := v }
  | .codeOnly, v => { s with codeOnly := v }
  | .updateOnly, v => { s with updateOnly := v }

/-- A field with a value for it. -/
structure Given where
  field : Field
  value : field.Value

/-- The settings have the given values, and defaults for the fields that are not given. -/
structure Holds (s : Settings) (given : List Given) : Prop where
  values : ∀ g ∈ given, s.get g.field = g.value
  defaults : ∀ field, field ∉ given.map Given.field → s.get field = ({} : Settings).get field

def putAll (s : Settings) (given : List Given) : Settings :=
  given.foldl (fun s g => s.put g.field g.value) s

private theorem get_put (s : Settings) (field : Field) (v : field.Value) : (s.put field v).get field = v := by
  cases field <;> rfl

private theorem get_put_other (s : Settings) {field other : Field} (v : field.Value) (h : other ≠ field) :
    (s.put field v).get other = s.get other := by
  cases field <;> cases other <;> first | rfl | exact absurd rfl h

theorem ext_get {s t : Settings} (h : ∀ field, s.get field = t.get field) : s = t := by
  obtain ⟨_, _, _, _, _, _, _, _⟩ := s
  obtain ⟨_, _, _, _, _, _, _, _⟩ := t
  have h1 := h .projectName
  have h2 := h .groupId
  have h3 := h .artifactId
  have h4 := h .version
  have h5 := h .javaPackage
  have h6 := h .flavor
  have h7 := h .codeOnly
  have h8 := h .updateOnly
  simp only [get] at h1 h2 h3 h4 h5 h6 h7 h8
  subst h1 h2 h3 h4 h5 h6 h7 h8
  rfl

private theorem get_putAll_other (s : Settings) {given : List Given} {field : Field}
    (h : field ∉ given.map Given.field) :
    (s.putAll given).get field = s.get field := by
  induction given generalizing s with
  | nil => rfl
  | cons g given ih =>
    rw [List.map_cons, List.mem_cons, not_or] at h
    exact (ih (s.put g.field g.value) h.2).trans (get_put_other s g.value h.1)

/-- Where no field is given twice, the order of the given values makes no difference. -/
theorem get_putAll (s : Settings) {given : List Given} (h : (given.map Given.field).Nodup) {g : Given}
    (hg : g ∈ given) : (s.putAll given).get g.field = g.value := by
  induction given generalizing s with
  | nil => cases hg
  | cons first given ih =>
    obtain ⟨hfirst, hrest⟩ := List.nodup_cons.mp h
    rcases List.mem_cons.mp hg with rfl | hg
    · exact (get_putAll_other _ hfirst).trans (get_put s g.field g.value)
    · exact ih _ hrest hg

theorem putAll_holds {given : List Given} (h : (given.map Given.field).Nodup) :
    (({} : Settings).putAll given).Holds given where
  values _ hg := get_putAll _ h hg
  defaults _ hfield := get_putAll_other _ hfield

theorem Holds.unique {s t : Settings} {given given' : List Given} (h : s.Holds given) (h' : t.Holds given')
    (hperm : given'.Perm given) : s = t := by
  apply ext_get
  intro field
  by_cases hfield : field ∈ given.map Given.field
  · obtain ⟨g, hg, rfl⟩ := List.mem_map.mp hfield
    rw [h.values g hg, h'.values g (hperm.mem_iff.mpr hg)]
  · have hother : field ∉ given'.map Given.field := fun hmem => hfield ((hperm.map _).mem_iff.mp hmem)
    rw [h.defaults field hfield, h'.defaults field hother]

/-! ## Texts -/

/-- A string in quotes, in any spelling. -/
inductive Quoted (s : String) : List Char → Prop
  | quotes {text : List Char} : Spelled s.toList text → Quoted s ('"' :: (text ++ ['"']))

def BoolText (b : Bool) (text : List Char) : Prop :=
  text = if b then ['t', 'r', 'u', 'e'] else ['f', 'a', 'l', 's', 'e']

/-- The texts of a value of a field. -/
def ValueText : (field : Field) → field.Value → List Char → Prop
  | .projectName, v => Quoted v
  | .groupId, v => Quoted v
  | .artifactId, v => Quoted v
  | .version, v => Quoted v
  | .javaPackage, v => Quoted v
  | .flavor, v => Quoted v.name
  | .codeOnly, v => BoolText v
  | .updateOnly, v => BoolText v

/-- A member of an object: a field with its value, or another name with any value. -/
inductive MemberText : Option Given → List Char → Prop
  | given {g : Given} {name colon blank value : List Char} :
    Quoted g.field.name name → Blank colon → Blank blank → ValueText g.field g.value value →
      MemberText (some g) (name ++ (colon ++ ':' :: (blank ++ value)))
  | other {s : String} {name colon blank value : List Char} :
    (∀ field : Field, field.name ≠ s) → Quoted s name → Blank colon → Blank blank → Derives .value value →
      MemberText none (name ++ (colon ++ ':' :: (blank ++ value)))

/-- Members of an object, at least one, with what they give. -/
inductive MembersText : List Given → List Char → Prop
  | last {member : Option Given} {before text after : List Char} :
    Blank before → MemberText member text → Blank after → MembersText member.toList (before ++ (text ++ after))
  | member {member : Option Given} {given : List Given} {before text after members : List Char} :
    Blank before → MemberText member text → Blank after → MembersText given members →
      MembersText (member.toList ++ given) (before ++ (text ++ (after ++ ',' :: members)))

/-- An object with what its members give. -/
inductive ObjectText : List Given → List Char → Prop
  | empty {before blank : List Char} : Blank before → Blank blank → ObjectText [] (before ++ '{' :: (blank ++ ['}']))
  | members {given : List Given} {before members : List Char} :
    Blank before → MembersText given members → ObjectText given (before ++ '{' :: (members ++ ['}']))

/-! ## Reading values -/

theorem ofName?_name (field : Field) : Field.ofName? field.name = some field := by
  cases field <;> decide

private theorem ofName?_other {s : String} (h : ∀ field : Field, field.name ≠ s) : Field.ofName? s = none := by
  rw [Field.ofName?, List.find?_eq_none]
  intro field _ hname
  exact h field (beq_iff_eq.mp hname)

variable {text blank : List Char} {rest : Bytes}

theorem Quoted.read {s : String} (h : Quoted s text) :
    ∃ inner, bytes text = ascii '"' :: inner ∧ ∀ rest, readString (inner ++ rest) = .ok (s, rest) := by
  cases h with
  | @quotes text htext =>
    refine ⟨bytes text ++ [ascii '"'], ?_, ?_⟩
    · rw [Text.bytes_ascii _ (by decide), Text.bytes_append, Text.bytes_ascii _ (by decide), Text.bytes_nil]
    · intro rest
      rw [List.append_assoc, List.cons_append, List.nil_append, readString_spelled htext, String.ofList_toList]

private theorem skipSpace_quote (hblank : Blank blank) (rest : Bytes) :
    skipSpace (bytes blank ++ ascii '"' :: rest) = ascii '"' :: rest := by
  rw [skipSpace_blank hblank]
  rfl

private theorem readStringValue_quoted {s : String} (hblank : Blank blank) (h : Quoted s text) (expected : String)
    (rest : Bytes) : readStringValue expected (bytes blank ++ (bytes text ++ rest)) = .ok (s, rest) := by
  obtain ⟨inner, hquote, hread⟩ := h.read
  rw [hquote, List.cons_append, readStringValue, skipSpace_quote hblank]
  exact hread rest

private theorem readFlavorValue_quoted {flavor : Flavor} (hblank : Blank blank)
    (h : Quoted flavor.name text) (rest : Bytes) :
    readFlavorValue (bytes blank ++ (bytes text ++ rest)) = .ok (flavor, rest) := by
  obtain ⟨inner, hquote, hread⟩ := h.read
  rw [hquote, List.cons_append, readFlavorValue, skipSpace_quote hblank]
  simp only [if_true, hread, bind, Except.bind, flavorOf, Flavor.ofName?_name]

private theorem readBoolValue_text {b : Bool} (hblank : Blank blank) (h : BoolText b text) (rest : Bytes) :
    readBoolValue (bytes blank ++ (bytes text ++ rest)) = .ok (b, rest) := by
  rw [BoolText] at h
  subst h
  rw [readBoolValue, skipSpace_blank hblank]
  cases b with
  | true => rfl
  | false => rfl

private theorem readField_text (s : Settings) {field : Field} {value : field.Value} (hblank : Blank blank)
    (h : ValueText field value text) (rest : Bytes) :
    readField s field (bytes blank ++ (bytes text ++ rest)) = .ok (s.put field value, rest) := by
  cases field with
  | projectName | groupId | artifactId | version | javaPackage =>
    rw [readField, readStringValue_quoted hblank h]
    rfl
  | flavor =>
    rw [readField, readFlavorValue_quoted hblank h]
    rfl
  | codeOnly | updateOnly =>
    rw [readField, readBoolValue_text hblank h]
    rfl

private theorem readColon_blank {colon : List Char} (hcolon : Blank colon) (rest : Bytes) :
    readColon (bytes colon ++ ascii ':' :: rest) = .ok rest := by
  have hmark : skipSpace (ascii ':' :: rest) = ascii ':' :: rest := rfl
  rw [readColon, skipSpace_blank hcolon, hmark]
  rfl

/-! ## Reading members -/

/-- What becomes of the settings, and of the fields seen so far, by a member. -/
def Accepts (s : Settings) (seen : List Field) (member : Option Given) (rest : Bytes)
    (result : Except Fault (Settings × List Field × Bytes)) : Prop :=
  match member with
  | none => result = .ok (s, seen, rest)
  | some g =>
    if g.field ∈ seen then ∃ left, result = .error ⟨.duplicateField g.field.name, left⟩
    else result = .ok (s.put g.field g.value, g.field :: seen, rest)

theorem MemberText.read {member : Option Given} (h : MemberText member text) :
    ∃ inner, bytes text = ascii '"' :: inner ∧
      ∀ s seen rest, Ended rest → Accepts s seen member rest (readMember s seen (inner ++ rest)) := by
  cases h with
  | @given g name colon blank value hname hcolon hblank hvalue =>
    obtain ⟨inner, hquote, hread⟩ := hname.read
    refine ⟨inner ++ bytes (colon ++ ':' :: (blank ++ value)), ?_, fun s seen rest _ => ?_⟩
    · rw [Text.bytes_append, hquote, List.cons_append]
    · rw [Accepts, readMember, List.append_assoc, hread]
      simp only [bind, Except.bind, ofName?_name, List.contains_iff_mem]
      by_cases hseen : g.field ∈ seen
      · rw [if_pos hseen, if_pos hseen]
        exact ⟨_, rfl⟩
      · rw [if_neg hseen, if_neg hseen, Text.bytes_append, Text.bytes_ascii _ (by decide), List.append_assoc,
          List.cons_append, readColon_blank hcolon]
        dsimp only
        rw [Text.bytes_append, List.append_assoc, readField_text s hblank hvalue]
        rfl
  | @other name text colon blank value hother hname hcolon hblank hvalue =>
    obtain ⟨inner, hquote, hread⟩ := hname.read
    refine ⟨inner ++ bytes (colon ++ ':' :: (blank ++ value)), ?_, fun s seen rest hrest => ?_⟩
    · rw [Text.bytes_append, hquote, List.cons_append]
    · rw [Accepts, readMember, List.append_assoc, hread]
      simp only [bind, Except.bind, ofName?_other hother]
      rw [Text.bytes_append, Text.bytes_ascii _ (by decide), List.append_assoc, List.cons_append,
        readColon_blank hcolon]
      dsimp only
      rw [skipValue_derives hblank hvalue hrest]
      rfl

private theorem nextName_first (hblank : Blank blank) (rest : Bytes) :
    nextName true (bytes blank ++ ascii '"' :: rest) = .ok (true, rest) := by
  rw [nextName, skipSpace_quote hblank]
  rfl

private theorem MembersText.head {given : List Given} (h : MembersText given text) :
    ∃ before inner, Blank before ∧ bytes text = bytes before ++ ascii '"' :: inner := by
  cases h with
  | @last member before text after hbefore hmember _ =>
    obtain ⟨inner, hquote, -⟩ := hmember.read
    refine ⟨before, inner ++ bytes after, hbefore, ?_⟩
    rw [Text.bytes_append, Text.bytes_append, hquote, List.cons_append]
  | @member member given before text after members hbefore hmember _ _ =>
    obtain ⟨inner, hquote, -⟩ := hmember.read
    refine ⟨before, inner ++ bytes (after ++ ',' :: members), hbefore, ?_⟩
    rw [Text.bytes_append, Text.bytes_append, hquote, List.cons_append]

private theorem nextName_comma {after : List Char} {given : List Given} (hafter : Blank after)
    (h : MembersText given text) (rest : Bytes) :
    nextName false (bytes after ++ ascii ',' :: (bytes text ++ rest)) = nextName true (bytes text ++ rest) := by
  have hcomma (rest : Bytes) : skipSpace (ascii ',' :: rest) = ascii ',' :: rest := rfl
  obtain ⟨before, inner, hbefore, hbytes⟩ := h.head
  rw [hbytes, List.append_assoc, List.cons_append, nextName_first hbefore, nextName, skipSpace_blank hafter, hcomma]
  dsimp only
  rw [skipSpace_quote hbefore]
  rfl

private theorem nextName_end (first : Bool) (hblank : Blank blank) (rest : Bytes) :
    nextName first (bytes blank ++ ascii '}' :: rest) = .ok (false, rest) := by
  have hend : skipSpace (ascii '}' :: rest) = ascii '}' :: rest := rfl
  rw [nextName, skipSpace_blank hblank, hend]
  rfl

private theorem readMembers_end (fuel : Nat) (s : Settings) (seen : List Field) (first : Bool) (hblank : Blank blank)
    (rest : Bytes) :
    readMembers (fuel + 1) s seen first (bytes blank ++ ascii '}' :: rest) = .ok (s, rest) := by
  rw [readMembers, nextName_end first hblank]
  rfl

/-- What reading members makes of what they give: all of it, or a fault of a field that is given twice. -/
structure Outcome (s : Settings) (seen : List Field) (given : List Given) (rest : Bytes)
    (result : Except Fault (Settings × Bytes)) : Prop where
  accepted : (seen ++ given.map Given.field).Nodup → result = .ok (s.putAll given, rest)
  refused : seen.Nodup → ¬(seen ++ given.map Given.field).Nodup →
    ∃ field left, 2 ≤ (seen ++ given.map Given.field).count field ∧ result = .error ⟨.duplicateField field.name, left⟩

private theorem outcome_nil (s : Settings) (seen : List Field) (rest : Bytes) :
    Outcome s seen [] rest (.ok (s, rest)) where
  accepted _ := rfl
  refused hseen hdup := absurd (by simpa using hseen) hdup

/-- One member before others: the fields that it adds to those seen keep what counts as given twice. -/
private theorem outcome_member {s : Settings} {seen : List Field} {member : Option Given} {given : List Given}
    {result : Except Fault (Settings × List Field × Bytes)}
    {next : Settings × List Field × Bytes → Except Fault (Settings × Bytes)} {tail : Bytes}
    (h : Accepts s seen member tail result) (hnext : ∀ s seen, Outcome s seen given rest (next (s, seen, tail))) :
    Outcome s seen (member.toList ++ given) rest (result >>= next) := by
  cases member with
  | none =>
    rw [Accepts] at h
    subst h
    exact hnext s seen
  | some g =>
    rw [Accepts] at h
    have hperm : (seen ++ (g :: given).map Given.field).Perm (g.field :: seen ++ given.map Given.field) :=
      List.perm_middle
    by_cases hseen : g.field ∈ seen
    · obtain ⟨left, rfl⟩ := (if_pos hseen).mp h
      refine ⟨fun hnodup => ?_, fun _ _ => ⟨g.field, left, ?_, rfl⟩⟩
      · have hnot := (List.nodup_cons.mp (hperm.nodup_iff.mp hnodup)).1
        exact absurd (List.mem_append_left _ hseen) hnot
      · have hpos := List.count_pos_iff.mpr hseen
        show 2 ≤ (seen ++ (g :: given).map Given.field).count g.field
        rw [hperm.count_eq, List.cons_append, List.count_cons_self, List.count_append]
        omega
    · rw [if_neg hseen] at h
      subst h
      have hrest := hnext (s.put g.field g.value) (g.field :: seen)
      refine ⟨fun hnodup => hrest.accepted (hperm.nodup_iff.mp hnodup), fun hnodup hdup => ?_⟩
      have hcons : (g.field :: seen).Nodup := List.nodup_cons.mpr ⟨hseen, hnodup⟩
      obtain ⟨field, left, hcount, herror⟩ := hrest.refused hcons fun h => hdup (hperm.nodup_iff.mpr h)
      exact ⟨field, left, by rw [← hperm.count_eq] at hcount; exact hcount, herror⟩

private theorem readMembers_step {s : Settings} {seen : List Field} {first : Bool} {start next : Bytes} (fuel : Nat)
    (h : nextName first start = .ok (true, next)) :
    readMembers (fuel + 1) s seen first start
      = readMember s seen next >>= fun (s, seen, rest) => readMembers fuel s seen false rest := by
  simp only [readMembers, h, bind, Except.bind, if_true]

/-- Members are read up to the closing bracket of their object. The induction is on the members; all but the first
come after a comma, so the place of the next name is a parameter. -/
theorem MembersText.read {given : List Given} (h : MembersText given text) {fuel : Nat} {first : Bool} {start : Bytes}
    (s : Settings) (seen : List Field) (hfuel : (bytes text).length < fuel)
    (hstart : nextName first start = nextName true (bytes text ++ ascii '}' :: rest)) :
    Outcome s seen given rest (readMembers fuel s seen first start) := by
  induction h generalizing fuel first start s seen with
  | @last member before text after hbefore hmember hafter =>
    obtain ⟨inner, hquote, hread⟩ := hmember.read
    have hname : nextName first start = .ok (true, inner ++ (bytes after ++ ascii '}' :: rest)) := by
      rw [hstart, Text.bytes_append, Text.bytes_append, hquote]
      simp only [List.append_assoc, List.cons_append]
      exact nextName_first hbefore _
    rw [Text.bytes_append, Text.bytes_append, hquote] at hfuel
    simp only [List.length_append, List.length_cons] at hfuel
    obtain ⟨fuel, rfl⟩ : ∃ n, fuel = n + 2 := ⟨fuel - 2, by omega⟩
    rw [readMembers_step _ hname, ← List.append_nil member.toList]
    apply outcome_member (hread s seen _ (ended_blank hafter (ended_cons (by decide) rest)))
    intro s seen
    dsimp only
    rw [readMembers_end fuel s seen false hafter]
    exact outcome_nil s seen rest
  | @member member given before text after members hbefore hmember hafter hmembers ih =>
    obtain ⟨inner, hquote, hread⟩ := hmember.read
    have hname : nextName first start
        = .ok (true, inner ++ (bytes after ++ ascii ',' :: (bytes members ++ ascii '}' :: rest))) := by
      rw [hstart, Text.bytes_append, Text.bytes_append, Text.bytes_append, Text.bytes_ascii _ (by decide), hquote]
      simp only [List.append_assoc, List.cons_append]
      exact nextName_first hbefore _
    rw [Text.bytes_append, Text.bytes_append, Text.bytes_append, Text.bytes_ascii _ (by decide), hquote] at hfuel
    simp only [List.length_append, List.length_cons] at hfuel
    obtain ⟨fuel, rfl⟩ : ∃ n, fuel = n + 1 := ⟨fuel - 1, by omega⟩
    rw [readMembers_step _ hname]
    apply outcome_member (hread s seen _ (ended_blank hafter (ended_cons (by decide) _)))
    intro s seen
    apply ih s seen (by omega)
    exact nextName_comma hafter hmembers _

/-! ## Documents -/

private theorem blank_of_skipSpace {cs : List Char} (h : skipSpace (bytes cs) = []) : Blank cs := by
  intro c hc
  have hspace : ∀ b ∈ String.utf8EncodeChar c, isSpace b = true := fun b hb =>
    List.dropWhile_eq_nil_iff.mp h b (List.mem_flatMap.mpr ⟨c, hc, hb⟩)
  by_cases hascii : c.toNat < 0x80
  · rw [Text.encodeChar_ascii hascii] at hspace
    have hbyte := hspace _ List.mem_cons_self
    simp only [isSpace, Bool.or_eq_true, beq_iff_eq] at hbyte
    have hchar (d : Char) (hd : d.toNat < 0x80) (heq : ascii c = ascii d) (hmem : d ∈ [' ', '\n', '\t', '\r']) :
        c ∈ [' ', '\n', '\t', '\r'] :=
      ascii_inj hascii hd heq ▸ hmem
    rcases hbyte with ((h | h) | h) | h
    · exact hchar ' ' (by decide) h (by decide)
    · exact hchar '\n' (by decide) h (by decide)
    · exact hchar '\t' (by decide) h (by decide)
    · exact hchar '\r' (by decide) h (by decide)
  · obtain ⟨b, more, hb⟩ := List.exists_cons_of_ne_nil (Text.encodeChar_ne_nil c)
    have hmem : b ∈ String.utf8EncodeChar c := hb ▸ List.mem_cons_self
    have habove := Text.encodeChar_above hascii hmem
    have hbyte := hspace b hmem
    simp only [isSpace, Bool.or_eq_true, beq_iff_eq] at hbyte
    rcases hbyte with ((rfl | rfl) | rfl) | rfl <;> exact absurd habove (by decide)

private theorem readSettings_members {before : List Char} (hbefore : Blank before) (body : Bytes) :
    readSettings (bytes before ++ ascii '{' :: body) = readMembers (body.length + 1) {} [] true body := by
  have hopen (rest : Bytes) : skipSpace (ascii '{' :: rest) = ascii '{' :: rest := rfl
  rw [readSettings, skipSpace_blank hbefore, hopen]
  rfl

theorem ObjectText.read {given : List Given} (h : ObjectText given text) (rest : Bytes) :
    Outcome {} [] given rest (readSettings (bytes text ++ rest)) := by
  cases h with
  | empty hbefore hblank =>
    rw [Text.bytes_append, Text.bytes_ascii _ (by decide), List.append_assoc, List.cons_append,
      readSettings_members hbefore, Text.bytes_append, List.append_assoc, Text.bytes_ascii _ (by decide)]
    rw [Text.bytes_nil, List.cons_append, List.nil_append, readMembers_end _ _ _ _ hblank]
    exact outcome_nil {} [] rest
  | members hbefore hmembers =>
    rw [Text.bytes_append, Text.bytes_ascii _ (by decide), List.append_assoc, List.cons_append,
      readSettings_members hbefore, Text.bytes_append, List.append_assoc, Text.bytes_ascii _ (by decide)]
    rw [Text.bytes_nil, List.cons_append, List.nil_append]
    apply hmembers.read {} [] ?_ rfl
    rw [List.length_append]
    omega

/-- A document is accepted when no field is given twice and only blanks follow its object. -/
theorem parse_accepted {given : List Given} {tail : List Char} (h : ObjectText given text)
    (hnodup : (given.map Given.field).Nodup) (htail : Blank tail) :
    parse (bytes (text ++ tail)) = .ok (({} : Settings).putAll given) := by
  have hread := (h.read (bytes tail)).accepted hnodup
  have hspace : skipSpace (bytes tail) = [] := by
    rw [← List.append_nil (bytes tail), skipSpace_blank htail]
    rfl
  simp only [parse, Text.bytes_append, hread, bind, Except.bind, hspace]
  rfl

theorem parse_trailing {given : List Given} {tail : List Char} (h : ObjectText given text)
    (hnodup : (given.map Given.field).Nodup) (htail : ¬Blank tail) :
    ∃ left, parse (bytes (text ++ tail)) = .error ⟨.trailingCharacters, left⟩ := by
  have hread := (h.read (bytes tail)).accepted hnodup
  obtain ⟨b, left, hb⟩ := List.exists_cons_of_ne_nil fun hspace => htail (blank_of_skipSpace hspace)
  refine ⟨left, ?_⟩
  simp only [parse, Text.bytes_append, hread, bind, Except.bind, hb]

theorem parse_repeated {given : List Given} (h : ObjectText given text) (hdup : ¬(given.map Given.field).Nodup)
    (tail : List Char) :
    ∃ field left, 2 ≤ (given.map Given.field).count field ∧
      parse (bytes (text ++ tail)) = .error ⟨.duplicateField field.name, left⟩ := by
  obtain ⟨field, left, hcount, hread⟩ := (h.read (bytes tail)).refused List.nodup_nil hdup
  refine ⟨field, left, hcount, ?_⟩
  simp only [parse, Text.bytes_append, hread, bind, Except.bind]

end Scaffold.Settings
