import Mathlib.Data.List.Forall2
import Scaffold.Proofs.Template.Markup
import Scaffold.Proofs.Text.Encoded
import Scaffold.Store.Bundled
import Scaffold.Template.Context

/-!
# Rendered build files

The bundled build files are stencils in markup, in which four of the settings stand. What they render to keeps the
tags of the template for any settings, and determines the four.
-/

namespace Scaffold

open Template

/-- The names of the settings that stand in a build file. -/
def coordinates : List String :=
  ["group_id", "artifact_id", "version", "project_name"]

/-- What a template finds under the name of a coordinate. -/
def Settings.coordinate (s : Settings) (name : String) : String :=
  if name = "group_id" then s.groupId
  else if name = "artifact_id" then s.artifactId
  else if name = "version" then s.version
  else s.projectName

/-- The names under which a template finds settings. -/
def settingNames : List String :=
  "java_package" :: coordinates

/-- What a template finds under the name of a setting. -/
def Settings.named (s : Settings) (name : String) : String :=
  if name = "java_package" then s.javaPackage else s.coordinate name

/-- A coordinate as it is shown. -/
def Settings.shown (s : Settings) (name : String) : List Char :=
  (escape (s.coordinate name)).toList

/-- A plain stencil in markup in which the coordinates stand. -/
structure BuildFile (stencil : Stencil) : Prop where
  plain : stencil.Plain
  outside : stencil.Outside
  names (name : String) : name ∈ stencil.slots.map Prod.fst ↔ name ∈ coordinates

/-! ## Lines -/

/-- The lines of a source in parts. -/
def lineStencils (lines : List (List Char)) : List Stencil :=
  lines.map fun line => Stencil.cut (line ++ ['\n'])

/-- Lines of which each is a plain stencil. -/
def PlainLines (lines : List (List Char)) : Prop :=
  ∀ line ∈ lines, (Stencil.cut (line ++ ['\n'])).source = line ++ ['\n'] ∧ (Stencil.cut (line ++ ['\n'])).Plain

instance (lines : List (List Char)) : Decidable (PlainLines lines) :=
  inferInstanceAs (Decidable (∀ line ∈ lines, _ ∧ _))

/-- The lines of a build file: each is a plain stencil, tags may span some of them, and the coordinates stand in them. -/
def BuildLines (lines : List (List Char)) : Prop :=
  PlainLines lines ∧
    (lineStencils lines).foldlM (fun inTag stencil => stencil.scan inTag) false = some false ∧
    (∀ stencil ∈ lineStencils lines, ∀ slot ∈ stencil.slots, slot.1 ∈ coordinates) ∧
    ∀ name ∈ coordinates, ∃ stencil ∈ lineStencils lines, ∃ slot ∈ stencil.slots, slot.1 = name

instance (lines : List (List Char)) : Decidable (BuildLines lines) :=
  inferInstanceAs (Decidable (_ ∧ _ ∧ _ ∧ _))

/-- The lines in which a project is named. -/
def coordinateLines : List (List Char) :=
  ["  <groupId>{{group_id}}</groupId>".toList,
   "  <artifactId>{{artifact_id}}</artifactId>".toList,
   "  <version>{{version}}</version>".toList]

/-- Lines in which a project is named after the first five, and nothing stands for a setting before. -/
def NamesProject (lines : List (List Char)) : Prop :=
  (∀ stencil ∈ lineStencils (lines.take 5), stencil.slots = []) ∧ (lines.drop 5).take 3 = coordinateLines

instance (lines : List (List Char)) : Decidable (NamesProject lines) :=
  inferInstanceAs (Decidable (_ ∧ _))

theorem join_lines {lines : List (List Char)} (h : PlainLines lines) :
    (Stencil.join (lineStencils lines)).Plain ∧
      (Stencil.join (lineStencils lines)).source = lines.flatMap fun line => line ++ ['\n'] := by
  refine ⟨Stencil.join_plain ?_, ?_⟩
  · intro stencil hstencil
    obtain ⟨line, hline, rfl⟩ := List.mem_map.mp hstencil
    exact (h line hline).2
  · rw [Stencil.join_source, lineStencils, List.flatMap_map]
    exact List.flatMap_congr fun line hline => (h line hline).1

theorem join_buildFile {lines : List (List Char)} (h : BuildLines lines) :
    BuildFile (Stencil.join (lineStencils lines)) ∧
      (Stencil.join (lineStencils lines)).source = lines.flatMap fun line => line ++ ['\n'] := by
  obtain ⟨hlines, hscan, hnames, hall⟩ := h
  obtain ⟨hplain, hsource⟩ := join_lines hlines
  refine ⟨⟨hplain, outside_of_scan (scan_join hscan), fun name => ?_⟩, hsource⟩
  rw [Stencil.join_names, List.mem_flatMap]
  constructor
  · rintro ⟨stencil, hstencil, hname⟩
    obtain ⟨slot, hslot, rfl⟩ := List.mem_map.mp hname
    exact hnames stencil hstencil slot hslot
  · intro hname
    obtain ⟨stencil, hstencil, slot, hslot, rfl⟩ := hall name hname
    exact ⟨stencil, hstencil, List.mem_map_of_mem hslot⟩

theorem lines_chars {ls : List String} {lines : List (List Char)}
    (h : List.Forall₂ (fun l line => l = String.ofList line) ls lines) :
    (Text.lines ls).toList = lines.flatMap fun line => line ++ ['\n'] := by
  induction h with
  | nil => rfl
  | @cons l line ls lines hl _ ih =>
    have hcons : Text.lines (l :: ls) = l ++ "\n" ++ Text.lines ls := by
      rw [Text.lines, List.map_cons, String.join_cons]
      rfl
    rw [hcons, String.toList_append, String.toList_append, ih, hl, String.toList_ofList]
    rfl

/-- A text is made of the lines of a build file, in which the project is named. -/
def IsBuildText (text : String) : Prop :=
  ∃ lines, BuildLines lines ∧ NamesProject lines ∧ text.toList = lines.flatMap fun line => line ++ ['\n']

private theorem isBuildText_of_lines {text : String} {ls : List String} {lines : List (List Char)}
    (htext : text = Text.lines ls) (hlines : List.Forall₂ (fun l line => l = String.ofList line) ls lines)
    (h : BuildLines lines ∧ NamesProject lines) : IsBuildText text :=
  ⟨lines, h.1, h.2, by rw [htext, lines_chars hlines]⟩

theorem IsBuildText.buildFile {text : String} (h : IsBuildText text) :
    ∃ stencil, BuildFile stencil ∧ stencil.source = text.toList := by
  obtain ⟨lines, hlines, -, htext⟩ := h
  obtain ⟨hbuild, hsource⟩ := join_buildFile hlines
  exact ⟨_, hbuild, hsource.trans htext.symm⟩

theorem pom_isBuildText : IsBuildText Bundled.pom := by
  apply isBuildText_of_lines
  · exact rfl
  · repeat' constructor
  · decide +kernel

theorem plainPom_isBuildText : IsBuildText Bundled.plainPom := by
  apply isBuildText_of_lines
  · exact rfl
  · repeat' constructor
  · decide +kernel

theorem pom_buildFile : ∃ stencil, BuildFile stencil ∧ stencil.source = Bundled.pom.toList :=
  pom_isBuildText.buildFile

theorem plainPom_buildFile : ∃ stencil, BuildFile stencil ∧ stencil.source = Bundled.plainPom.toList :=
  plainPom_isBuildText.buildFile

/-! ## Rendering -/

theorem lookup_named (s : Settings) {name : String} (h : name ∈ settingNames) :
    [("artifact_id", Json.string s.artifactId), ("group_id", .string s.groupId), ("java_package", .string s.javaPackage),
      ("project_name", .string s.projectName), ("version", .string s.version)].lookup name
      = some (.string (s.named name)) := by
  simp only [settingNames, coordinates, List.mem_cons, List.not_mem_nil, or_false] at h
  rcases h with rfl | rfl | rfl | rfl | rfl <;> rfl

private theorem named_coordinate (s : Settings) {name : String} (h : name ∈ coordinates) :
    s.named name = s.coordinate name := by
  have hne : name ≠ "java_package" := by
    rintro rfl
    exact absurd h (by decide)
  rw [Settings.named, if_neg hne]

private theorem mem_coordinates {stencil : Stencil} (h : BuildFile stencil) {slot : String × List Char}
    (hslot : slot ∈ stencil.slots) : slot.1 ∈ coordinates :=
  (h.names slot.1).mp (List.mem_map_of_mem hslot)

theorem BuildFile.render {stencil : Stencil} (h : BuildFile stencil) (s : Settings) :
    Template.render (String.ofList stencil.source) (context s) = .ok (String.ofList (stencil.fill s.shown)) :=
  render_stencil h.plain fun _ hslot => by
    rw [lookup_named s (List.mem_cons_of_mem _ (mem_coordinates h hslot)), named_coordinate s (mem_coordinates h hslot)]

private theorem shown_less (s : Settings) (name : String) : '<' ∉ s.shown name := fun hmem =>
  escape_markup (s.coordinate name) '<' hmem (by decide)

/-- Settings render a build file alike exactly when they agree in the four coordinates. -/
theorem BuildFile.render_eq_iff {stencil : Stencil} (h : BuildFile stencil) (s other : Settings) :
    Template.render (String.ofList stencil.source) (context other)
        = Template.render (String.ofList stencil.source) (context s) ↔
      ∀ name ∈ coordinates, other.coordinate name = s.coordinate name := by
  rw [h.render, h.render]
  constructor
  · intro heq name hname
    have hfill := String.ofList_inj.mp (Except.ok.inj heq)
    obtain ⟨slot, hslot, rfl⟩ := List.mem_map.mp ((h.names name).mpr hname)
    have hshown := fill_injective h.outside (shown_less other) (shown_less s) hfill slot hslot
    exact escape_injective (String.toList_inj.mp hshown)
  · intro hnames
    have hslots : Stencil.fillSlots other.shown stencil.slots = Stencil.fillSlots s.shown stencil.slots := by
      apply List.flatMap_congr
      intro slot hslot
      simp only [Settings.shown, hnames slot.1 (mem_coordinates h hslot)]
    rw [Stencil.fill, Stencil.fill, hslots]

private theorem coordinates_iff (s other : Settings) :
    (∀ name ∈ coordinates, other.coordinate name = s.coordinate name) ↔
      other.groupId = s.groupId ∧ other.artifactId = s.artifactId ∧ other.version = s.version ∧
        other.projectName = s.projectName := by
  constructor
  · intro h
    have hgroup := h "group_id" (by decide)
    have hartifact := h "artifact_id" (by decide)
    have hversion := h "version" (by decide)
    exact ⟨hgroup, hartifact, hversion, h "project_name" (by decide)⟩
  · rintro ⟨hgroup, hartifact, hversion, hproject⟩ name hname
    simp only [coordinates, List.mem_cons, List.not_mem_nil, or_false] at hname
    rcases hname with rfl | rfl | rfl | rfl
    · exact hgroup
    · exact hartifact
    · exact hversion
    · exact hproject

theorem load_bundled {flavor : Flavor} {path text : String} (h : (Bundled.table flavor).lookup path = some text) :
    (Bundled.store flavor).load path = pure (Text.encode text) := by
  rw [Bundled.store]
  simp only [h]

private theorem loadText_bundled {flavor : Flavor} {path text : String}
    (h : (Bundled.table flavor).lookup path = some text) : ((Bundled.store flavor).loadText path).result = .ok text := by
  rw [Store.loadText, load_bundled h, pure_bind, Text.decode_encode]
  rfl

/-- The build file of each flavor is a stencil, and for any settings it renders to the same texts with the escaped
coordinates between them: no escaped value has a character of markup, and its references stand for the value. So the
tags are those of the template, and other settings give the same text exactly when the four coordinates are the
same. -/
theorem render_buildFile (flavor : Flavor) :
    ∃ (source : String) (stencil : Stencil), ((Bundled.store flavor).loadText "pom.xml").result = .ok source ∧
      stencil.source = source.toList ∧ stencil.Plain ∧
      (∀ name, name ∈ stencil.slots.map Prod.fst ↔ name ∈ coordinates) ∧
      ∀ s : Settings,
        Template.render source (context s) = .ok (String.ofList (stencil.fill s.shown)) ∧
        (∀ name, (∀ c ∈ s.shown name, c ∉ markup) ∧ unescape none (s.shown name) = some (s.coordinate name).toList) ∧
        tags none (stencil.fill s.shown) = tags none source.toList ∧
        ∀ other : Settings, Template.render source (context other) = Template.render source (context s) ↔
          other.groupId = s.groupId ∧ other.artifactId = s.artifactId ∧ other.version = s.version ∧
            other.projectName = s.projectName := by
  have hflavor : ∃ (source : String) (stencil : Stencil), (Bundled.table flavor).lookup "pom.xml" = some source ∧
      BuildFile stencil ∧ stencil.source = source.toList := by
    cases flavor with
    | quarkus =>
      obtain ⟨stencil, hbuild, hsource⟩ := pom_buildFile
      exact ⟨Bundled.pom, stencil, rfl, hbuild, hsource⟩
    | jaxrs =>
      obtain ⟨stencil, hbuild, hsource⟩ := plainPom_buildFile
      exact ⟨Bundled.plainPom, stencil, rfl, hbuild, hsource⟩
  obtain ⟨source, stencil, hlookup, hbuild, hsource⟩ := hflavor
  have htext : source = String.ofList stencil.source := by rw [hsource, String.ofList_toList]
  refine ⟨source, stencil, loadText_bundled hlookup, hsource, hbuild.plain, hbuild.names, fun s => ?_⟩
  rw [← hsource, htext]
  refine ⟨hbuild.render s, fun name => ?_, tags_fill hbuild.outside (shown_less s), fun other => ?_⟩
  · exact ⟨escape_markup (s.coordinate name), unescape_escape (s.coordinate name)⟩
  · rw [hbuild.render_eq_iff, coordinates_iff]

end Scaffold
