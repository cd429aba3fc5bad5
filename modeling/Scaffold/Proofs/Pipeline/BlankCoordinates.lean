import Scaffold.Proofs.Pipeline.LongPackages
import Scaffold.Proofs.Template.Coordinates

/-!
# Blank coordinates

Of the three coordinates of a project only the artifact is looked at before a run. So the build file of a whole project
always names an artifact, but its group and its version are blank when the settings have them so.
-/

namespace Scaffold

open Template

namespace Layout

variable {codec : Codec} {flavor : Flavor} {provider : Sources} {context : StepContext} {s : Settings}
  {project : Project}

private theorem isBuildText_bundled (flavor : Flavor) :
    ∃ text, (Bundled.table flavor).lookup "pom.xml" = some text ∧ IsBuildText text := by
  cases flavor with
  | quarkus => exact ⟨Bundled.pom, rfl, pom_isBuildText⟩
  | jaxrs => exact ⟨Bundled.plainPom, rfl, plainPom_isBuildText⟩

theorem PomEntries.rendered {source : String} {build : List Entry} (h : PomEntries context build)
    (hstore : context.store = Bundled.store flavor) (hfull : context.settings.isFullProject = true)
    (hlookup : (Bundled.table flavor).lookup "pom.xml" = some source) :
    ∃ text, Template.render source (Template.context context.settings) = .ok text ∧
      build = [⟨"pom.xml", Text.encode text, none⟩] := by
  have hin : ¬(context.settings.codeOnly = true ∨ context.settings.updateOnly = true) := by
    simpa [Settings.isFullProject] using hfull
  rw [PomEntries, if_neg hin] at h
  obtain ⟨text, ⟨own, hown, hrender⟩, rfl⟩ := h
  have hsource : LoadsText context.store "pom.xml" source := by
    rw [hstore]
    exact loadsText_of_lookup hlookup
  rw [hown.unique hsource] at hrender
  exact ⟨text, hrender, rfl⟩

/-- A whole project has its build file first, with the escaped settings where the template names the project. -/
theorem archive_pom {document : Option Document} (hfull : s.isFullProject = true)
    (h : ((ofFlavor flavor provider).generate codec ⟨s, Bundled.store flavor, document⟩).result = .ok project) :
    ∃ head rest tail others,
      (Bundled.table flavor).lookup "pom.xml" = some (head ++
        namingText "{{group_id}}" "{{artifact_id}}" "{{version}}" ++ rest) ∧
      project.archive = Zip.archive codec (⟨"pom.xml", Text.encode
        (head ++ namingText (escape s.groupId) (escape s.artifactId) (escape s.version) ++ tail), none⟩ :: others) := by
  obtain ⟨source, hlookup, hbuild⟩ := isBuildText_bundled flavor
  obtain ⟨-, entries, ⟨build, sources, last, hpom, -, -, rfl⟩, -, -, rfl⟩ := project_iff_assembled.mp h
  obtain ⟨text, hrender, rfl⟩ := hpom.rendered rfl hfull hlookup
  obtain ⟨head, rest, rfl, hrendered⟩ := hbuild.render
  obtain ⟨tail, htext⟩ := hrendered s
  cases hrender.symm.trans htext
  exact ⟨head, rest, tail, _, hlookup, rfl⟩

private theorem visible_artifact (hvalid : s.validate = .ok ()) : Text.Visible s.artifactId := by
  rw [validate_ok_iff, Settings.problem?] at hvalid
  split at hvalid
  · cases hvalid
  · split at hvalid
    · cases hvalid
    · rename_i hnamed
      simpa [Text.Visible] using hnamed

/-! ## A project without a group -/

/-- Settings with a blank for the group and nothing for the version. -/
def withoutGroup : Settings :=
  { groupId := " ", version := "" }

private theorem plainPom_fits {text : String} (h : ∀ name, (s.shown name).length ≤ 1000)
    (hrender : Template.render Bundled.plainPom (Template.context s) = .ok text) :
    Entry.Fits Codec.stored ⟨"pom.xml", Text.encode text, none⟩ := by
  obtain ⟨stencil, hbuild, hsource⟩ := plainPom_buildFile
  have hplain : stencil.source.length ≤ 10000 := by
    have hbytes : (Text.encode Bundled.plainPom).length ≤ 10000 := by
      rw [Text.length_encode]
      decide +kernel
    rw [hsource]
    exact Nat.le_trans (Text.length_flatMap_encodeChar _).1 hbytes
  have hslots : stencil.slots.length ≤ 10000 := by
    have hle := length_le_slotsSource stencil.slots
    rw [Stencil.source, List.length_append] at hplain
    omega
  have hfill := stencil.fill_length_le h
  have htext : text = String.ofList (stencil.fill s.shown) := by
    have hrendered := hbuild.render s
    rw [hsource, String.ofList_toList, hrender] at hrendered
    exact Except.ok.inj hrendered
  have hencoded := (Text.length_flatMap_encodeChar (stencil.fill s.shown)).2
  apply Entry.fits_stored
  simp only [htext, Text.encode, String.toList_ofList]
  omega

private theorem withoutGroup_valid : withoutGroup.validate = .ok () :=
  validate_ok_iff.mpr (by decide)

private theorem withoutGroup_made : ∃ project,
    ((jaxrs Sources.empty).generate Codec.stored ⟨withoutGroup, Bundled.store .jaxrs, none⟩).result = .ok project := by
  let context : StepContext := ⟨withoutGroup, Bundled.store .jaxrs, none⟩
  obtain ⟨words, hqualified⟩ :=
    JavaPackage.isValid_iff.mp (Settings.isValid_of_problem (validate_ok_iff.mp withoutGroup_valid))
  have hstore : context.store = Bundled.store .jaxrs := rfl
  obtain ⟨build, hbuild⟩ := pomEntries_bundled hstore
  have hshown (name : String) : (withoutGroup.shown name).length ≤ 1000 := by
    rw [Settings.shown, Settings.coordinate]
    split
    · decide
    · split
      · decide
      · split
        · decide
        · decide
  have hfits : ∀ e ∈ build, e.Fits Codec.stored := by
    obtain ⟨text, hrender, rfl⟩ := hbuild.rendered hstore rfl rfl
    exact List.forall_mem_singleton.mpr (plainPom_fits hshown hrender)
  exact generate_plain withoutGroup_valid hqualified rfl (by decide) hbuild hfits

/-! ## Blanks in build files -/

/-- A whole project of either flavor over the bundled templates has its build file first, in which the escaped settings
stand where the template names the project. The artifact there is never blank, and the group and the version are blank
just when the settings have them so; and these can have any texts there. -/
theorem coordinates_visible_iff (codec : Codec) (flavor : Flavor) (provider : Sources) (document : Option Document)
    (s : Settings) (project : Project) (hfull : s.isFullProject = true)
    (h : ((ofFlavor flavor provider).generate codec ⟨s, Bundled.store flavor, document⟩).result = .ok project) :
    let group := escape s.groupId
    let artifact := escape s.artifactId
    let version := escape s.version
    (∃ head rest tail others,
      (Bundled.table flavor).lookup "pom.xml" = some (head ++
        namingText "{{group_id}}" "{{artifact_id}}" "{{version}}" ++ rest) ∧
      project.archive = Zip.archive codec
        (⟨"pom.xml", Text.encode (head ++ namingText group artifact version ++ tail), none⟩ :: others)) ∧
    (Text.Visible group ∧ Text.Visible artifact ∧ Text.Visible version ↔
      Text.Visible s.groupId ∧ Text.Visible s.version) ∧
    ∀ newGroup newVersion, { s with groupId := newGroup, version := newVersion }.validate = .ok () := by
  intro group artifact version
  have hvalid : s.validate = .ok () := validate_ok_iff.mpr (project_iff_assembled.mp h).1
  refine ⟨?_, ?_, ?_⟩
  · exact archive_pom hfull h
  · simp only [group, artifact, version, visible_escape, visible_artifact hvalid, true_and]
  · intro newGroup newVersion
    exact hvalid

/-- A blank group and an empty version come into the build file as they are. -/
theorem coordinates_visible_iff_blank :
    withoutGroup.isFullProject = true ∧ ∃ project,
      ((jaxrs Sources.empty).generate Codec.stored ⟨withoutGroup, Bundled.store .jaxrs, none⟩).result = .ok project ∧
        ¬(Text.Visible (escape withoutGroup.groupId) ∧ Text.Visible (escape withoutGroup.artifactId) ∧
          Text.Visible (escape withoutGroup.version)) := by
  obtain ⟨project, h⟩ := withoutGroup_made
  obtain ⟨-, hvisible, -⟩ :=
    coordinates_visible_iff Codec.stored .jaxrs Sources.empty none withoutGroup project rfl h
  refine ⟨rfl, project, h, ?_⟩
  rw [hvisible]
  rintro ⟨⟨c, hc, hvisible⟩, -⟩
  obtain rfl := List.mem_singleton.mp hc
  cases hvisible

/-- A blank group and an empty version are valid, and a whole project is made with them in its build file. -/
theorem blank_coordinates_made :
    withoutGroup.isFullProject = true ∧ withoutGroup.validate = .ok () ∧
      ∃ project head tail others,
        ((jaxrs Sources.empty).generate Codec.stored ⟨withoutGroup, Bundled.store .jaxrs, none⟩).result = .ok project ∧
        project.archive = Zip.archive Codec.stored
          (⟨"pom.xml", Text.encode (head ++ namingText " " "generated-api" "" ++ tail), none⟩ :: others) ∧
        ¬Text.Visible " " ∧ ¬Text.Visible "" := by
  obtain ⟨project, h⟩ := withoutGroup_made
  have hflavor : ((ofFlavor .jaxrs Sources.empty).generate Codec.stored
      ⟨withoutGroup, Bundled.store .jaxrs, none⟩).result = .ok project := h
  obtain ⟨head, rest, tail, others, -, harchive⟩ := archive_pom rfl hflavor
  have hgroup : escape withoutGroup.groupId = " " := by decide
  have hartifact : escape withoutGroup.artifactId = "generated-api" := by decide
  have hversion : escape withoutGroup.version = "" := by decide
  rw [hgroup, hartifact, hversion] at harchive
  refine ⟨rfl, withoutGroup_valid, project, head, tail, others, h, harchive, ?_, ?_⟩
  · rintro ⟨c, hc, hvisible⟩
    obtain rfl := List.mem_singleton.mp hc
    cases hvisible
  · rintro ⟨c, hc, -⟩
    cases hc

end Layout

end Scaffold
