import Scaffold.Proofs.Template.Rendered
import Scaffold.Text.Blank

/-!
# Coordinates of a project

Each build file names its project in three lines, and what is rendered has the escaped settings there. To escape a text
neither makes it blank nor puts anything into a blank one, so a coordinate is blank when its setting is.
-/

namespace Scaffold

open Template

/-- A text has a character that is not blank. -/
def Text.Visible (text : String) : Prop :=
  ∃ c ∈ text.toList, Text.isBlank c = false

/-- The lines of a build file in which a project is named. -/
def namingText (group artifact version : String) : String :=
  "  <groupId>" ++ group ++ "</groupId>\n  <artifactId>" ++ artifact ++ "</artifactId>\n  <version>" ++ version ++
    "</version>\n"

/-! ## Blanks -/

private theorem visible_escapeChar (c : Char) :
    (∃ d ∈ escapeChar c, Text.isBlank d = false) ↔ Text.isBlank c = false := by
  by_cases h : c ∈ special
  · have hspecial : special.all (fun c => !Text.isBlank c) = true := by decide
    have hstands : special.all (fun c => (escapeChar c).any fun d => !Text.isBlank d) = true := by decide
    have hvisible := List.all_eq_true.mp hspecial c h
    have hany := List.any_eq_true.mp (List.all_eq_true.mp hstands c h)
    simp only [Bool.not_eq_true'] at hvisible hany
    exact iff_of_true hany hvisible
  · rw [escapeChar_plain h]
    simp

theorem visible_escape (value : String) : Text.Visible (escape value) ↔ Text.Visible value := by
  simp only [Text.Visible, escape, String.toList_ofList, List.mem_flatMap]
  constructor
  · rintro ⟨d, ⟨c, hc, hd⟩, hvisible⟩
    exact ⟨c, hc, (visible_escapeChar c).mp ⟨d, hd, hvisible⟩⟩
  · rintro ⟨c, hc, hvisible⟩
    obtain ⟨d, hd, hvisible⟩ := (visible_escapeChar c).mpr hvisible
    exact ⟨d, ⟨c, hc, hd⟩, hvisible⟩

/-! ## Build files -/

private theorem fill_of_no_slots {stencils : List Stencil} (h : ∀ stencil ∈ stencils, stencil.slots = [])
    (value : String → List Char) : stencils.flatMap (Stencil.fill value) = stencils.flatMap Stencil.source := by
  apply List.flatMap_congr
  intro stencil hstencil
  rw [Stencil.fill, Stencil.source, h stencil hstencil]
  rfl

private theorem toList_namingText (group artifact version : String) :
    (namingText group artifact version).toList
      = "  <groupId>".toList ++ (group.toList ++ ("</groupId>\n".toList ++
        ("  <artifactId>".toList ++ (artifact.toList ++ ("</artifactId>\n".toList ++
          ("  <version>".toList ++ (version.toList ++ "</version>\n".toList))))))) := by
  have hgroup : "</groupId>\n  <artifactId>".toList = "</groupId>\n".toList ++ "  <artifactId>".toList := by decide
  have hartifact : "</artifactId>\n  <version>".toList = "</artifactId>\n".toList ++ "  <version>".toList := by decide
  delta namingText
  simp only [String.toList_append, hgroup, hartifact, List.append_assoc]

private theorem fill_coordinateLines (value : String → List Char) :
    (lineStencils coordinateLines).flatMap (Stencil.fill value)
      = (namingText (String.ofList (value "group_id")) (String.ofList (value "artifact_id"))
          (String.ofList (value "version"))).toList := by
  have hstencils : lineStencils coordinateLines
      = [⟨"  <groupId>".toList, [("group_id", "</groupId>\n".toList)]⟩,
         ⟨"  <artifactId>".toList, [("artifact_id", "</artifactId>\n".toList)]⟩,
         ⟨"  <version>".toList, [("version", "</version>\n".toList)]⟩] := by decide +kernel
  simp only [hstencils, toList_namingText, Stencil.fill, Stencil.fillSlots, List.flatMap_cons, List.flatMap_nil,
    String.toList_ofList, List.append_assoc, List.append_nil]

theorem NamesProject.cut {lines : List (List Char)} (h : NamesProject lines) :
    ∃ first last, lines = first ++ (coordinateLines ++ last) ∧
      ∀ stencil ∈ lineStencils first, stencil.slots = [] := by
  obtain ⟨hfirst, hnaming⟩ := h
  refine ⟨lines.take 5, (lines.drop 5).drop 3, ?_, hfirst⟩
  rw [← hnaming, List.take_append_drop, List.take_append_drop]

/-- A build file renders with the escaped settings in the lines in which the project is named, and has the same before
them for all settings. -/
theorem IsBuildText.render {text : String} (h : IsBuildText text) :
    ∃ head rest,
      text = head ++
        namingText "{{group_id}}" "{{artifact_id}}" "{{version}}" ++ rest ∧
      ∀ s : Settings, ∃ tail, Template.render text (context s)
        = .ok (head ++ namingText (escape s.groupId) (escape s.artifactId) (escape s.version) ++ tail) := by
  obtain ⟨lines, hlines, hnames, htext⟩ := h
  obtain ⟨first, last, rfl, hfirst⟩ := hnames.cut
  obtain ⟨hbuild, hsource⟩ := join_buildFile hlines
  have hnaming : coordinateLines.flatMap (fun line => line ++ ['\n'])
      = (namingText "{{group_id}}" "{{artifact_id}}" "{{version}}").toList := by
    decide +kernel
  have hhead : (lineStencils first).flatMap Stencil.source = first.flatMap fun line => line ++ ['\n'] := by
    rw [← Stencil.join_source]
    exact (join_lines fun line hline => hlines.1 line (List.mem_append_left _ hline)).2
  refine ⟨String.ofList (first.flatMap fun line => line ++ ['\n']),
    String.ofList (last.flatMap fun line => line ++ ['\n']), ?_, ?_⟩
  · apply String.toList_inj.mp
    simp only [htext, List.flatMap_append, hnaming, String.toList_append, String.toList_ofList, List.append_assoc]
  · intro s
    refine ⟨String.ofList ((lineStencils last).flatMap (Stencil.fill s.shown)), ?_⟩
    have hofList : text = String.ofList (Stencil.join (lineStencils (first ++ (coordinateLines ++ last)))).source := by
      rw [hsource, ← htext, String.ofList_toList]
    have hshown (name : String) : String.ofList (s.shown name) = escape (s.coordinate name) := String.ofList_toList
    have hparts : (Stencil.join (lineStencils (first ++ (coordinateLines ++ last)))).fill s.shown
        = (lineStencils first).flatMap (Stencil.fill s.shown) ++ ((lineStencils coordinateLines).flatMap
          (Stencil.fill s.shown) ++ (lineStencils last).flatMap (Stencil.fill s.shown)) := by
      rw [Stencil.join_fill]
      simp only [lineStencils, List.map_append, List.flatMap_append]
    rw [hofList, hbuild.render]
    apply congrArg Except.ok
    apply String.toList_inj.mp
    simp only [hparts, fill_of_no_slots hfirst, hhead, fill_coordinateLines, hshown, String.toList_append,
      String.toList_ofList, List.append_assoc]
    rfl

end Scaffold
