import Scaffold.Proofs.Archive.LongNames
import Scaffold.Proofs.Pipeline.Application

/-!
# Long packages

The path of the application class is as long as its package, and no package is too long to be valid. So a plain project
is made of any valid settings, but a reader finds all of its paths only when each has a length for its name.
-/

namespace Scaffold

/-! ## Lengths of packages -/

namespace JavaPackage

private theorem length_encode_path (name : String) : (Text.encode (path name)).length = (Text.encode name).length := by
  have hchar (c : Char) :
      (String.utf8EncodeChar (if c = '.' then '/' else c)).length = (String.utf8EncodeChar c).length := by
    split
    · rename_i h
      rw [h]
      rfl
    · rfl
  simp only [path, Text.encode, String.toList_ofList, List.length_flatMap, List.map_map, Function.comp_def, hchar]

/-- A package of one identifier, which is one letter again and again. -/
def repeated (n : Nat) : String :=
  String.ofList (List.replicate n 'a')

private theorem length_encode_repeated (n : Nat) : (Text.encode (repeated n)).length = n := by
  have hletter : 'a'.utf8Size = 1 := by decide
  simp [repeated, Text.encode, List.length_flatMap, hletter]

private theorem identifier_repeated (n : Nat) : Identifier (repeated (n + 1)) := by
  constructor
  · refine ⟨'a', List.replicate n 'a', String.toList_ofList, .inl rfl, ?_⟩
    intro c hc
    rw [List.eq_of_mem_replicate hc]
    exact .inl rfl
  · intro hreserved
    have hother : reservedWords.all (fun word => word.toList.any (· ≠ 'a')) = true := by decide
    obtain ⟨c, hc, hne⟩ := List.any_eq_true.mp (List.all_eq_true.mp hother _ hreserved)
    rw [repeated, String.toList_ofList] at hc
    exact of_decide_eq_true hne (List.eq_of_mem_replicate hc)

private theorem qualified_repeated (n : Nat) : Qualified [repeated (n + 1)] (repeated (n + 1)) where
  nonempty := List.cons_ne_nil _ _
  identifiers := List.forall_mem_singleton.mpr (identifier_repeated n)
  joined := String.intercalate_singleton.symm

end JavaPackage

open JavaPackage

/-! ## Projects -/

namespace Layout

variable {codec : Codec} {flavor : Flavor} {provider : Sources} {context : StepContext} {project : Project}

/-- The paths of a project are found in its archive just when each of them has a length for its name. -/
theorem finds_entries_iff (h : ((ofFlavor flavor provider).generate codec context).result = .ok project) :
    (∀ path ∈ project.entries, Zip.Finds codec project.archive path) ↔
      ∀ path ∈ project.entries, (Text.encode path).length ≤ Zip.max16 := by
  obtain ⟨-, entries, -, -, hfits, rfl⟩ := project_iff_assembled.mp h
  exact Zip.finds_archive_iff hfits

private theorem validate_repeated {s : Settings} (h : s.validate = .ok ()) (n : Nat) :
    { s with javaPackage := repeated (n + 1) }.validate = .ok () := by
  have hvalid : JavaPackage.isValid (repeated (n + 1)) = true := isValid_iff.mpr ⟨_, qualified_repeated n⟩
  rw [validate_ok_iff] at h ⊢
  rw [Settings.problem?] at h ⊢
  split at h
  · cases h
  · simp only [hvalid, Bool.not_true, Bool.false_eq_true, if_false]
    exact h

private theorem length_applicationPath (s : Settings) :
    (Text.encode ("src/main/java/" ++ s.packagePath ++ "/JaxRsApplication.java")).length
      = (Text.encode s.javaPackage).length + 36 := by
  have hroot : (Text.encode "src/main/java/").length = 14 := by decide
  have hname : (Text.encode "/JaxRsApplication.java").length = 22 := by decide
  have hpackage : (Text.encode s.packagePath).length = (Text.encode s.javaPackage).length := length_encode_path _
  rw [Text.encode_append, Text.encode_append, List.length_append, List.length_append, hroot, hname, hpackage]
  omega

private theorem application_mem_entries (h : ((ofFlavor .jaxrs provider).generate codec context).result = .ok project)
    (hupdate : context.settings.updateOnly = false) :
    "src/main/java/" ++ context.settings.packagePath ++ "/JaxRsApplication.java" ∈ project.entries := by
  obtain ⟨-, entries, ⟨build, sources, last, -, -, hlast, rfl⟩, -, -, rfl⟩ := project_iff_assembled.mp h
  have hlast : ApplicationEntries context last := hlast
  rw [ApplicationEntries, if_neg (Bool.eq_false_iff.mp hupdate)] at hlast
  obtain ⟨text, -, rfl⟩ := hlast
  simp

private theorem applicationText_fits {package rest : String}
    (hclass : Bundled.applicationClass = "package {{java_package}};" ++ rest) (path : String)
    (hlength : (Text.encode package).length ≤ 2 ^ 29) :
    Entry.Fits Codec.stored ⟨path, Text.encode (applicationText package rest), none⟩ := by
  have hrest : (Text.encode rest).length ≤ 1000 := by
    have hwhole : (Text.encode Bundled.applicationClass).length ≤ 1000 := by
      rw [Text.length_encode]
      decide +kernel
    rw [hclass, Text.encode_append, List.length_append] at hwhole
    exact Nat.le_trans (Nat.le_add_left _ _) hwhole
  have hword : (Text.encode "package ").length = 8 := by decide
  have hend : (Text.encode ";").length = 1 := by decide
  apply Entry.fits_stored
  simp only [applicationText, Text.encode_append, List.length_append, hword, hend]
  omega

/-- A plain project without sources is made of any valid settings, with a package of at most half a gigabyte. -/
theorem generate_plain {s : Settings} {words : List String} {build : List Entry} (hvalid : s.validate = .ok ())
    (hqualified : Qualified words s.javaPackage) (hupdate : s.updateOnly = false)
    (hlength : (Text.encode s.javaPackage).length ≤ 2 ^ 29)
    (hbuild : PomEntries ⟨s, Bundled.store .jaxrs, none⟩ build) (hfits : ∀ e ∈ build, e.Fits Codec.stored) :
    ∃ project, ((jaxrs Sources.empty).generate Codec.stored ⟨s, Bundled.store .jaxrs, none⟩).result = .ok project := by
  let context : StepContext := ⟨s, Bundled.store .jaxrs, none⟩
  obtain ⟨rest, hplain, hclass⟩ := applicationClass_declares
  have hrendered : Rendered context "JaxRsApplication.java" (applicationText s.javaPackage rest) :=
    rendered_application rfl hqualified hplain hclass
  let own : Entry := ⟨"src/main/java/" ++ s.packagePath ++ "/JaxRsApplication.java",
    Text.encode (applicationText s.javaPackage rest), none⟩
  have hlast : ApplicationEntries context [own] := by
    rw [ApplicationEntries, if_neg (Bool.eq_false_iff.mp hupdate)]
    exact ⟨_, hrendered, rfl⟩
  have hassembled : Assembled .jaxrs Sources.empty context (build ++ [own]) :=
    ⟨build, [], [own], hbuild, rfl, hlast, by simp [documentEntries, context]⟩
  have hnodup : ((build ++ [own]).map Entry.path).Nodup := by
    have hother : own.path ≠ "pom.xml" := by
      intro heq
      have hlong := length_applicationPath s
      have hpom : (Text.encode "pom.xml").length = 7 := by decide
      have hsame : (Text.encode own.path).length = 7 := by rw [heq, hpom]
      have hpath : (Text.encode own.path).length = (Text.encode s.javaPackage).length + 36 := hlong
      omega
    rw [List.map_append]
    refine (hbuild.paths.append_right _).nodup ?_
    rw [List.map_singleton, List.singleton_append, List.nodup_cons, List.mem_singleton]
    exact ⟨hother.symm, List.nodup_singleton _⟩
  have hown : own.Fits Codec.stored := applicationText_fits hclass _ hlength
  have hall : ∀ e ∈ build ++ [own], e.Fits Codec.stored :=
    List.forall_mem_append.mpr ⟨hfits, List.forall_mem_singleton.mpr hown⟩
  have hcontext : context.settings.validate = .ok () := hvalid
  obtain ⟨project, hproject, -⟩ := generate_of_assembled hcontext hassembled hnodup hall
  exact ⟨project, hproject⟩

/-! ## Paths that are found -/

/-- A writer over a sink without limit takes an entry just when its path is new, the entry before can be closed and the
content is not too large. How long the path is does not matter to it, but a reader finds all the paths that were taken
just when each has at most 65535 bytes. So it is with every plain project that is made, which has a path 36 bytes longer
than its package unless it is only updated; and packages of every length are valid. -/
theorem paths_found_iff (codec : Codec) :
    (∀ entries, let w := (Writer.writeEach codec {} entries).1
      (∀ e, (w.write codec e).2 = .ok () ↔
        e.path ∉ w.attempted ∧ (w.close codec).2 = .ok () ∧ e.content.length ≤ Zip.max32) ∧
      ∀ archive, w.finish codec = .ok archive →
        ((∀ path ∈ w.paths, Zip.Finds codec archive path) ↔
          ∀ path ∈ w.paths, (Text.encode path).length ≤ 65535)) ∧
    (∀ provider s document project,
      ((jaxrs provider).generate codec ⟨s, Bundled.store .jaxrs, document⟩).result = .ok project →
      ((∀ path ∈ project.entries, Zip.Finds codec project.archive path) ↔
        ∀ path ∈ project.entries, (Text.encode path).length ≤ 65535) ∧
      (s.updateOnly = false →
        ∃ path ∈ project.entries, (Text.encode path).length = (Text.encode s.javaPackage).length + 36)) ∧
    ∀ s : Settings, s.validate = .ok () → ∀ n, { s with javaPackage := repeated (n + 1) }.validate = .ok () ∧
      (Text.encode (repeated (n + 1))).length = n + 1 := by
  refine ⟨?_, ?_, ?_⟩
  · intro entries w
    have hsettled : w.Settled codec := (Writer.settled_empty codec).writeEach entries
    exact ⟨hsettled.write_ok_iff, fun archive hfinish => hsettled.finds_iff hfinish⟩
  · intro provider s document project h
    have hflavor : ((ofFlavor .jaxrs provider).generate codec ⟨s, Bundled.store .jaxrs, document⟩).result
        = .ok project := h
    refine ⟨finds_entries_iff hflavor, ?_⟩
    intro hupdate
    exact ⟨_, application_mem_entries hflavor hupdate, length_applicationPath s⟩
  · intro s hvalid n
    exact ⟨validate_repeated hvalid n, length_encode_repeated (n + 1)⟩

/-- A package of 65500 letters, whose application class has a path of one byte too many. The project is made, and no
reader finds that path. -/
theorem long_package_lost :
    let s : Settings := { javaPackage := repeated 65500, codeOnly := true }
    s.validate = .ok () ∧
      (({} : Writer).write Codec.stored ⟨repeated 65536, [0x78], none⟩).2 = .ok () ∧
      (Text.encode (repeated 65536)).length = 65536 ∧
      ∃ project, ((jaxrs Sources.empty).generate Codec.stored ⟨s, Bundled.store .jaxrs, none⟩).result = .ok project ∧
        ∃ path ∈ project.entries, (Text.encode path).length = 65536 ∧
          ¬Zip.Finds Codec.stored project.archive path := by
  intro s
  have hdefault : ({ codeOnly := true } : Settings).validate = .ok () := validate_ok_iff.mpr (by decide)
  have hvalid : s.validate = .ok () := validate_repeated hdefault 65499
  have hpackage : (Text.encode s.javaPackage).length = 65500 := length_encode_repeated 65500
  have hwrite : (({} : Writer).write Codec.stored ⟨repeated 65536, [0x78], none⟩).2 = .ok () :=
    ((Writer.settled_empty Codec.stored).write_ok_iff _).mpr ⟨List.not_mem_nil, rfl, by decide⟩
  have hbuild : PomEntries ⟨s, Bundled.store .jaxrs, none⟩ [] := by
    rw [PomEntries, if_pos (.inl rfl)]
  obtain ⟨project, h⟩ := generate_plain hvalid (qualified_repeated 65499) rfl (by rw [hpackage]; decide) hbuild
    (List.forall_mem_nil _)
  have hflavor : ((ofFlavor .jaxrs Sources.empty).generate Codec.stored ⟨s, Bundled.store .jaxrs, none⟩).result
      = .ok project := h
  have hlength := length_applicationPath s
  rw [hpackage] at hlength
  refine ⟨hvalid, hwrite, length_encode_repeated 65536, project, h, _, application_mem_entries hflavor rfl, hlength, ?_⟩
  intro hfound
  have hle := hfound.length_le
  rw [hlength] at hle
  exact absurd hle (by decide)

end Layout

end Scaffold
