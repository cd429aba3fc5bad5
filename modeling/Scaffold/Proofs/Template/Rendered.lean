import Scaffold.Proofs.Template.BuildFile

/-!
# Rendered templates

Of the bundled templates those that are rendered are plain stencils, and only names of settings stand in them. So they
render for any settings, whatever the texts in these are.
-/

namespace Scaffold

open Template

/-- The bundled templates that a flavor renders. -/
def Bundled.renderedPaths : Flavor → List String
  | .quarkus => ["pom.xml"]
  | .jaxrs => ["pom.xml", "JaxRsApplication.java"]

/-- A plain stencil in which only settings stand. -/
structure Named (stencil : Stencil) : Prop where
  plain : stencil.Plain
  names : ∀ slot ∈ stencil.slots, slot.1 ∈ settingNames

theorem BuildFile.named {stencil : Stencil} (h : BuildFile stencil) : Named stencil where
  plain := h.plain
  names slot hslot := List.mem_cons_of_mem _ ((h.names slot.1).mp (List.mem_map_of_mem hslot))

/-- Lines of which each is a plain stencil in which only settings stand. -/
def NamedLines (lines : List (List Char)) : Prop :=
  PlainLines lines ∧ ∀ stencil ∈ lineStencils lines, ∀ slot ∈ stencil.slots, slot.1 ∈ settingNames

instance (lines : List (List Char)) : Decidable (NamedLines lines) :=
  inferInstanceAs (Decidable (_ ∧ _))

private theorem named_of_lines {text : String} {ls : List String} {lines : List (List Char)}
    (htext : text = Text.lines ls)
    (hlines : List.Forall₂ (fun l line => l = String.ofList line) ls lines) (h : NamedLines lines) :
    ∃ stencil, Named stencil ∧ stencil.source = text.toList := by
  obtain ⟨hplain, hsource⟩ := join_lines h.1
  refine ⟨_, ⟨hplain, fun slot hslot => ?_⟩, by rw [hsource, htext, lines_chars hlines]⟩
  have hname : slot.1 ∈ (Stencil.join (lineStencils lines)).slots.map Prod.fst := List.mem_map_of_mem hslot
  rw [Stencil.join_names, List.mem_flatMap] at hname
  obtain ⟨stencil, hstencil, hname⟩ := hname
  obtain ⟨own, hown, heq⟩ := List.mem_map.mp hname
  rw [← heq]
  exact h.2 stencil hstencil own hown

private theorem applicationClass_named :
    ∃ stencil, Named stencil ∧ stencil.source = Bundled.applicationClass.toList := by
  apply named_of_lines
  · exact rfl
  · repeat' constructor
  · decide +kernel

theorem rendered_named {flavor : Flavor} {path : String} (h : path ∈ Bundled.renderedPaths flavor) :
    ∃ source stencil, (Bundled.table flavor).lookup path = some source ∧ Named stencil ∧
      stencil.source = source.toList := by
  cases flavor with
  | quarkus =>
    obtain rfl := List.mem_singleton.mp h
    obtain ⟨stencil, hbuild, hsource⟩ := pom_buildFile
    exact ⟨Bundled.pom, stencil, rfl, hbuild.named, hsource⟩
  | jaxrs =>
    rcases List.mem_cons.mp h with rfl | h
    · obtain ⟨stencil, hbuild, hsource⟩ := plainPom_buildFile
      exact ⟨Bundled.plainPom, stencil, rfl, hbuild.named, hsource⟩
    · obtain rfl := List.mem_singleton.mp h
      obtain ⟨stencil, hnamed, hsource⟩ := applicationClass_named
      exact ⟨Bundled.applicationClass, stencil, rfl, hnamed, hsource⟩

theorem Named.render {stencil : Stencil} (h : Named stencil) (s : Settings) :
    Template.render (String.ofList stencil.source) (context s)
      = .ok (String.ofList (stencil.fill fun name => (escape (s.named name)).toList)) :=
  render_stencil h.plain fun slot hslot => lookup_named s (h.names slot hslot)

end Scaffold
