import Scaffold.Proofs.Pipeline.Duplicates
import Scaffold.Proofs.Settings.Valid

/-!
# The application class

The package reaches the application class on two ways: its text is put into the declaration by a template, and its
points are replaced for the path. For a valid package both come to the same identifiers.
-/

namespace Scaffold

open Template JavaPackage

/-! ## The template -/

private theorem class_of_lines {text : String} {more : List String} {lines : List (List Char)}
    (htext : text = Text.lines ("package {{java_package}};" :: more))
    (hlines : List.Forall₂ (fun l line => l = String.ofList line) more lines)
    (h : PlainText (';' :: '\n' :: lines.flatMap fun line => line ++ ['\n'])) :
    ∃ rest : String, PlainText (';' :: rest.toList) ∧ text = "package {{java_package}};" ++ rest := by
  rw [← String.toList_ofList (l := '\n' :: _)] at h
  refine ⟨_, h, ?_⟩
  apply String.toList_inj.mp
  have hfirst : "package {{java_package}};"
      = String.ofList "package {{java_package}};".toList := String.ofList_toList.symm
  rw [htext, lines_chars (.cons hfirst hlines), String.toList_append, String.toList_ofList, List.flatMap_cons,
    String.toList_ofList, List.append_assoc]
  rfl

theorem applicationClass_declares : ∃ rest : String, PlainText (';' :: rest.toList) ∧
    Bundled.applicationClass = "package {{java_package}};" ++ rest := by
  apply class_of_lines
  · exact rfl
  · repeat' constructor
  · decide +kernel

theorem JavaPackage.Qualified.escape {words : List String} {name : String} (h : Qualified words name) :
    Template.escape name = name := by
  have hspecial : special.all (fun c => !c.isAlphanum && c != '_' && c != '.') = true := by decide
  apply escape_plain
  intro c hc hmem
  have hplain := List.all_eq_true.mp hspecial c hmem
  simp only [Bool.and_eq_true, Bool.not_eq_true', bne_iff_ne] at hplain
  exact h.not_mem hplain.1.1 hplain.1.2 hplain.2 hc

namespace Layout

variable {codec : Codec} {provider : Sources} {context : StepContext} {words : List String} {rest : String}

/-- The application class of a package: its template, with the package in the place of its name. -/
def applicationText (package rest : String) : String :=
  "package " ++ package ++ ";" ++ rest

/-- The application class in the directory that its package's identifiers are the names of. -/
def applicationEntry (words : List String) (package rest : String) : Entry :=
  ⟨"/".intercalate (["src", "main", "java"] ++ words ++ ["JaxRsApplication.java"]),
    Text.encode (applicationText package rest), none⟩

/-! ## The entry -/

theorem rendered_application (hstore : context.store = Bundled.store .jaxrs)
    (hqualified : Qualified words context.settings.javaPackage) (hplain : PlainText (';' :: rest.toList))
    (hclass : Bundled.applicationClass = "package {{java_package}};" ++ rest) :
    Rendered context "JaxRsApplication.java" (applicationText context.settings.javaPackage rest) := by
  let stencil : Stencil := ⟨"package ".toList, [("java_package", ';' :: rest.toList)]⟩
  have hnamed : Named stencil := by
    have hhead : PlainText "package ".toList := by decide +kernel
    have hname : PlainName "java_package" := by decide +kernel
    exact ⟨⟨hhead, List.forall_mem_singleton.mpr ⟨hname, hplain⟩⟩, List.forall_mem_singleton.mpr List.mem_cons_self⟩
  have hsource : Bundled.applicationClass = String.ofList stencil.source := by
    apply String.toList_inj.mp
    have hline : "package {{java_package}};".toList
        = "package ".toList ++ (opening ++ "java_package".toList ++ closing ++ [';']) := by decide +kernel
    simp only [hclass, String.toList_append, String.toList_ofList, hline, stencil, Stencil.source, Stencil.slotsSource,
      List.flatMap_singleton, List.append_assoc, List.singleton_append]
  have hfill : applicationText context.settings.javaPackage rest
      = String.ofList (stencil.fill fun name => (Template.escape (context.settings.named name)).toList) := by
    apply String.toList_inj.mp
    have hvalue : context.settings.named "java_package" = context.settings.javaPackage := rfl
    simp only [applicationText, Stencil.fill, Stencil.fillSlots, stencil, List.flatMap_cons, List.flatMap_nil, hvalue,
      hqualified.escape, String.toList_append, String.toList_ofList, List.append_assoc, List.append_nil]
    rfl
  refine ⟨Bundled.applicationClass, ?_, ?_⟩
  · rw [hstore]
    exact loadsText_of_lookup rfl
  · rw [hsource, hfill]
    exact hnamed.render context.settings

private theorem applicationPath_words {s : Settings} (hqualified : Qualified words s.javaPackage) :
    "src/main/java/" ++ s.packagePath ++ "/JaxRsApplication.java"
      = "/".intercalate (["src", "main", "java"] ++ words ++ ["JaxRsApplication.java"]) := by
  have hpackage : s.packagePath = "/".intercalate words := hqualified.path
  have hfront : "/".intercalate ["src", "main", "java"] ++ "/" = "src/main/java/" := by decide
  have hname : "/" ++ "JaxRsApplication.java" = "/JaxRsApplication.java" := by decide
  rw [hpackage, List.append_assoc,
    String.intercalate_append_of_ne_nil (List.cons_ne_nil _ _) (List.append_ne_nil_of_left_ne_nil hqualified.nonempty _),
    String.intercalate_append_of_ne_nil hqualified.nonempty (List.cons_ne_nil _ _), hfront,
    String.intercalate_singleton, ← hname]
  simp only [String.append_assoc]

private theorem applicationEntries_iff_bundled {entries : List Entry} (hupdate : context.settings.updateOnly = false)
    (hstore : context.store = Bundled.store .jaxrs) (hqualified : Qualified words context.settings.javaPackage)
    (hplain : PlainText (';' :: rest.toList))
    (hclass : Bundled.applicationClass = "package {{java_package}};" ++ rest) :
    ApplicationEntries context entries ↔ entries = [applicationEntry words context.settings.javaPackage rest] := by
  have hrendered := rendered_application hstore hqualified hplain hclass
  rw [ApplicationEntries, if_neg (Bool.eq_false_iff.mp hupdate), applicationPath_words hqualified, applicationEntry]
  constructor
  · rintro ⟨text, htext, rfl⟩
    rw [htext.unique hrendered]
  · intro h
    exact ⟨_, hrendered, h⟩

/-! ## Runs -/

/-- What a plain project has before its application class. -/
def BeforeApplication (provider : Sources) (context : StepContext) (others : List Entry) : Prop :=
  ∃ build sources, PomEntries context build ∧ (provider context.settings).result = .ok sources ∧
    others = build ++ sources ++ documentEntries context

/-- No entry before the application class has its name, unless it is a source. -/
theorem BeforeApplication.sources_of_name {others : List Entry} (h : BeforeApplication provider context others) :
    ∃ sources, (provider context.settings).result = .ok sources ∧
      ∀ e ∈ others, "JaxRsApplication.java".toList <:+ e.path.toList → e ∈ sources := by
  obtain ⟨build, sources, hbuild, hsources, rfl⟩ := h
  refine ⟨sources, hsources, fun e he hname => ?_⟩
  have hnone : ∀ path ∈ fixedPaths, ¬"JaxRsApplication.java".toList <:+ path.toList := by decide +kernel
  have hpaths : ((build ++ documentEntries context).map Entry.path).Sublist fixedPaths := by
    rw [List.map_append]
    exact (hbuild.paths.append (documentEntries_paths context)).trans (List.sublist_append_left _ extraPaths)
  have hother (hmem : e ∈ build ++ documentEntries context) : False :=
    hnone e.path (hpaths.subset (List.mem_map_of_mem hmem)) hname
  rcases List.mem_append.mp he with hmem | hmem
  · rcases List.mem_append.mp hmem with hmem | hmem
    · exact (hother (List.mem_append_left _ hmem)).elim
    · exact hmem
  · exact (hother (List.mem_append_right _ hmem)).elim

/-- A run that comes out well wrote the application class last, at a path that was new to it. -/
theorem run_application {own : Entry} {w : Writer} {log : Log}
    (hown : ∀ entries, ApplicationEntries context entries → entries = [own])
    (h : ((jaxrs provider).run codec context w log).2.result = .ok ()) :
    ∃ others, BeforeApplication provider context others ∧
      w.writeAll codec (others ++ [own]) = (((jaxrs provider).run codec context w log).1, .ok ()) ∧
      ((jaxrs provider).run codec context w log).1.paths = w.paths ++ others.map Entry.path ++ [own.path] ∧
      own.path ∉ w.attempted ∧ own.path ∉ others.map Entry.path := by
  have hflavor : ((ofFlavor .jaxrs provider).run codec context w log).2.result = .ok () := h
  obtain ⟨entries, ⟨build, sources, last, hbuild, hsources, hlast, rfl⟩, hwrite, -⟩ := run_assembled hflavor
  rw [hown last hlast] at hwrite
  obtain ⟨hnodup, hnew⟩ := Writer.writeAll_fresh hwrite
  rw [List.map_append, List.nodup_append] at hnodup
  refine ⟨_, ⟨build, sources, hbuild, hsources, rfl⟩, hwrite, ?_, hnew own (by simp), ?_⟩
  · have hpaths := Writer.writeAll_paths hwrite
    rw [List.map_append, ← List.append_assoc] at hpaths
    exact hpaths
  · exact fun hmem => hnodup.2.2 _ hmem _ List.mem_cons_self rfl

/-- Whatever the sources and the document are, a plain project of valid settings that is not only updated gets one
application class of its own. It is the template but for its first line, which declares the package as the settings have
it, and its directories are the identifiers of the package. A run that comes out well wrote it last, at a path that
nothing else has, and a project holds it last. -/
theorem jaxrs_application (codec : Codec) (provider : Sources) (s : Settings) (document : Option Document)
    (hvalid : s.validate = .ok ()) (hupdate : s.updateOnly = false) :
    let context : StepContext := ⟨s, Bundled.store .jaxrs, document⟩
    let p := jaxrs provider
    ∃ words rest, Qualified words s.javaPackage ∧
      (Bundled.table .jaxrs).lookup "JaxRsApplication.java"
        = some ("package {{java_package}};" ++ rest) ∧
      let own := applicationEntry words s.javaPackage rest
      (∀ log, (application context log).result = .ok [own]) ∧
      (∀ others, BeforeApplication provider context others → ∃ sources, (provider s).result = .ok sources ∧
        ∀ e ∈ others, "JaxRsApplication.java".toList <:+ e.path.toList → e ∈ sources) ∧
      (∀ w log, (p.run codec context w log).2.result = .ok () → ∃ others, BeforeApplication provider context others ∧
        w.writeAll codec (others ++ [own]) = ((p.run codec context w log).1, .ok ()) ∧
        (p.run codec context w log).1.paths = w.paths ++ others.map Entry.path ++ [own.path] ∧
        own.path ∉ w.attempted ∧ own.path ∉ others.map Entry.path) ∧
      ∀ project, (p.generate codec context).result = .ok project → ∃ others, BeforeApplication provider context others ∧
        project.entries = others.map Entry.path ++ [own.path] ∧ own.path ∉ others.map Entry.path ∧
        ((∀ e ∈ others ++ [own], e.Fits codec ∧ (Text.encode e.path).length ≤ 65535) →
          ∃ items, Zip.read codec project.archive = some items ∧
            items.map Zip.Item.seen = (others ++ [own]).map Entry.seen) := by
  intro context p
  -- The words come from the package and the rest from the template, so neither depends on how the run goes.
  obtain ⟨words, hqualified⟩ := JavaPackage.isValid_iff.mp (Settings.isValid_of_problem (validate_ok_iff.mp hvalid))
  obtain ⟨rest, hplain, hclass⟩ := applicationClass_declares
  have hstore : context.store = Bundled.store .jaxrs := rfl
  have hlookup : (Bundled.table .jaxrs).lookup "JaxRsApplication.java" = some Bundled.applicationClass := rfl
  refine ⟨words, rest, hqualified, hlookup.trans (congrArg some hclass), ?_⟩
  intro own
  have hown {entries : List Entry} : ApplicationEntries context entries ↔ entries = [own] :=
    applicationEntries_iff_bundled hupdate hstore hqualified hplain hclass
  have hlast (entries : List Entry) (h : ApplicationEntries context entries) : entries = [own] := hown.mp h
  refine ⟨fun log => ?_, fun others h => h.sources_of_name, fun w log h => run_application hlast h, fun project h => ?_⟩
  · have hyields : (application context log).Yields [own] _ := application_yields.mpr ⟨hown.mpr rfl, rfl⟩
    exact hyields.1
  · obtain ⟨hok, hfinish, hentries, -⟩ := Pipeline.run_of_generate h
    obtain ⟨others, hothers, hwrite, hpaths, -, hnew⟩ := run_application hlast hok
    refine ⟨others, hothers, hentries.trans hpaths, hnew, fun hsizes => ?_⟩
    obtain ⟨hfits, harchive⟩ := Writer.finish_writeAll hwrite hfinish
    rw [harchive]
    exact Zip.read_archive_seen hfits fun e he => (hsizes e he).2

/-- A package with words that look like reserved ones, next to a source that is an application class as well. -/
theorem jaxrs_application_sibling :
    let s : Settings := { javaPackage := "_a.Class.x1", codeOnly := true }
    let provider := Sources.fixed [⟨"src/main/java/JaxRsApplication.java", [0x61], none⟩]
    let context : StepContext := ⟨s, Bundled.store .jaxrs, none⟩
    s.validate = .ok () ∧ s.updateOnly = false ∧
      ∃ project rest, ((jaxrs provider).generate Codec.stored context).result = .ok project ∧
        project.entries = ["src/main/java/JaxRsApplication.java", "src/main/java/_a/Class/x1/JaxRsApplication.java"] ∧
        (application context {}).result = .ok [⟨"src/main/java/_a/Class/x1/JaxRsApplication.java",
          Text.encode ("package _a.Class.x1;" ++ rest), none⟩] := by
  intro s provider context
  have hvalid : s.validate = .ok () := validate_ok_iff.mpr (by decide)
  obtain ⟨words, rest, hqualified, hlookup, happlication, -, -, hproject⟩ :=
    jaxrs_application Codec.stored provider s none hvalid rfl
  have hclass : Bundled.applicationClass = "package {{java_package}};" ++ rest :=
    Option.some.inj hlookup
  have hpath : (applicationEntry words s.javaPackage rest).path = "src/main/java/_a/Class/x1/JaxRsApplication.java" :=
    (applicationPath_words hqualified).symm.trans (by decide)
  have htext : applicationText s.javaPackage rest = "package _a.Class.x1;" ++ rest := by
    have hdeclares : "package " ++ "_a.Class.x1" ++ ";" = "package _a.Class.x1;" := by decide
    rw [applicationText, hdeclares]
  let sibling : Entry := ⟨"src/main/java/JaxRsApplication.java", [0x61], none⟩
  let own : Entry :=
    ⟨"src/main/java/_a/Class/x1/JaxRsApplication.java", Text.encode ("package _a.Class.x1;" ++ rest), none⟩
  have hown : applicationEntry words s.javaPackage rest = own := by
    rw [applicationEntry, htext]
    exact congrArg (Entry.mk · _ none) hpath
  have hgiven : (application context {}).result = .ok [own] := hown ▸ happlication {}
  have hlast : ApplicationEntries context [own] := (application_yields.mp ⟨hgiven, rfl⟩).1
  have hassembled : Assembled .jaxrs provider context [sibling, own] := ⟨[], [sibling], [own], rfl, rfl, hlast, rfl⟩
  have hshort : own.content.length ≤ 2000 := by
    have hwhole : (Text.encode Bundled.applicationClass).length ≤ 1000 := by
      rw [Text.length_encode]
      decide +kernel
    have hline : (Text.encode "package _a.Class.x1;").length ≤ 1000 := by decide
    rw [hclass, Text.encode_append, List.length_append] at hwhole
    simp only [own, Text.encode_append, List.length_append]
    omega
  have hfits : ∀ e ∈ [sibling, own], e.Fits Codec.stored := by
    intro e he
    apply Entry.fits_stored
    rcases List.mem_pair.mp he with rfl | rfl
    · decide
    · exact Nat.le_trans hshort (by decide)
  have hnodup : [sibling.path, own.path].Nodup := by
    simp only [sibling, own]
    decide
  have hcontext : context.settings.validate = .ok () := hvalid
  obtain ⟨project, hresult, hentries⟩ := generate_of_assembled hcontext hassembled hnodup hfits
  exact ⟨hvalid, rfl, project, rest, hresult, hentries, hgiven⟩

end Layout

end Scaffold
