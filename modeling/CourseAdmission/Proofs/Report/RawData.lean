import CourseAdmission.Proofs.Markup.Enclosed
import CourseAdmission.Proofs.Markup.Escape
import CourseAdmission.Proofs.Report.Page

/-!
The text of a report can be taken back out of its page.

The page has one element in which the text is kept as it is; what stands there is the escaped text,
and an escaped text is read back as it was.
-/

namespace CourseAdmission

namespace Page

open Markup

/-! ## Where the page has preformatted text -/

theorem openings_explanation : ∀ lines : List String, openings "pre" (explanation lines) = 0
  | [] => openings_nil
  | [_] => by simp [explanation]
  | line :: next :: lines => by
    change openings "pre" (.text line :: .void "br" [] :: explanation (next :: lines)) = 0
    simp [openings_void_cons, wellNamed_iff, openings_explanation (next :: lines)]

theorem openings_studentRow (student : StudentVerdict) :
    openings "pre" [studentRow student] = 0 := by
  simp [studentRow, label, openings_element_cons, wellNamed_iff, openings_explanation]

theorem openings_bar (total row : Nat) (tally : RuleTally) :
    openings "pre" (Chart.bar total row tally) = 0 := by
  simp [Chart.bar, Chart.textAttributes, openings_element_cons, openings_closed_cons, wellNamed_iff]

theorem openings_chart (summary : Summary) : openings "pre" (chart summary) = 0 := by
  have hbars : openings "pre" (Chart.bars summary) = 0 :=
    openings_flatMap_eq_zero fun _ _ => openings_bar ..
  have hshapes : openings "pre"
      ((Chart.bars summary).flatMap fun shape => [.text "  ", shape, newline]) = 0 := by
    refine openings_flatMap_eq_zero fun shape hshape => ?_
    rw [openings_text_cons, openings_cons, openings_eq_zero_iff.1 hbars shape hshape,
      openings_newline_cons, openings_nil]
  rw [chart]
  split
  · simp [Chart.markup, openings_element_cons, wellNamed_iff, hshapes]
  · exact openings_nil

theorem openings_head (report : Report) : openings "pre" (head report) = 0 := by
  simp [head, label, openings_element_cons, openings_void_cons, wellNamed_iff]

theorem openings_header (report : Report) : openings "pre" [header report] = 0 := by
  simp [header, block, paragraph, strong, label, openings_lines, openings_element_cons,
    wellNamed_iff]

theorem openings_dashboard (summary : Summary) : openings "pre" [dashboard summary] = 0 := by
  have hrows : openings "pre"
      (summary.rules.map fun tally => tableRow (tally.cells.map (label "td"))) = 0 := by
    refine openings_map_eq_zero fun tally _ => ?_
    have hcells : openings "pre" (tally.cells.map (label "td")) = 0 :=
      openings_map_eq_zero fun cell _ => by simp [label, openings_element_cons, wellNamed_iff]
    simp [tableRow, openings_element_cons, wellNamed_iff, hcells]
  simp [dashboard, block, table, paragraph, strong, label, openings_lines, openings_element_cons,
    wellNamed_iff, openings_chart, hrows]

theorem openings_results (students : List StudentVerdict) :
    openings "pre" [results students] = 0 := by
  have hrows : openings "pre" (students.map studentRow) = 0 :=
    openings_map_eq_zero fun student _ => openings_studentRow student
  simp [results, sortingHead, block, table, label, openings_lines, openings_element_cons,
    wellNamed_iff, hrows]

theorem openings_script : openings "pre" [script] = 0 := by
  simp [script, openings_element_cons, wellNamed_iff]

theorem openings_rawData (report : Report) : openings "pre" [rawData report] = 1 := by
  simp [rawData, block, label, openings_lines, openings_element_cons, wellNamed_iff]

end Page

namespace Report

open Markup

section

variable (report : Report)

theorem openingsIn_page : openingsIn "pre" report.page = 1 := by
  have hbody : openings "pre" [Page.header report, Page.dashboard report.summary,
      Page.results report.students, Page.rawData report, Page.script] = 1 := by
    rw [openings_cons (Page.header report), openings_cons (Page.dashboard report.summary),
      openings_cons (Page.results report.students), openings_cons (Page.rawData report),
      Page.openings_header, Page.openings_dashboard, Page.openings_results, Page.openings_rawData,
      Page.openings_script]
  have hpage : openings "pre" [block "html" [("lang", "en")]
      [block "head" [] (Page.head report), block "body" [] [Page.header report,
        Page.dashboard report.summary, Page.results report.students, Page.rawData report,
        Page.script]]] = 1 := by
    simp [block, openings_lines, openings_element_cons, wellNamed_iff, Page.openings_head, hbody]
  rw [openingsIn, page, tagsOf_page (Page.tidyAll_head report) (Page.tidyAll_body report),
    List.count_cons_of_ne (by decide)]
  rw [openings, tagsAll, tagsAll, List.append_nil] at hpage
  exact hpage

/-- The text of a report stands, escaped, in its page. -/
theorem standsIn_page :
    StandsIn ("<pre><code>" ++ escape report.save ++ "</code></pre>") report.page := by
  have hpre : (element "pre" [] [label "code" report.save]).render =
      "<pre><code>" ++ escape report.save ++ "</code></pre>" := by
    rw [label, render, renderAll, renderAll, render, renderAll, renderAll, render,
      ← String.toList_inj]
    simp [tag]
  rw [← hpre]
  have hdetails : StandsIn (element "pre" [] [label "code" report.save]).render
      (block "details" [] [label "summary" "Raw JSON Data",
        element "pre" [] [label "code" report.save]]).render := standsIn_block (by simp)
  have hsection : StandsIn (element "pre" [] [label "code" report.save]).render
      (Page.rawData report).render := hdetails.trans (standsIn_block (by simp))
  exact hsection.trans (Markup.standsIn_page (by simp))

/-- The text of a report stands in front of the next end of the element that it is kept in. -/
theorem encloses_page :
    Encloses "<pre><code>" "</code></pre>" (escape report.save) report.page := by
  refine ⟨report.standsIn_page, fun earlier later h => ?_⟩
  have hlacks : '<' ∉ (escape report.save).toList := fun hmem =>
    lacks_escape report.save '<' hmem (by simp)
  rw [← String.toList_inj] at h ⊢
  simp only [String.toList_append] at h
  exact eq_nil_of_append_eq hlacks h

/-- The tag in front of the text of a report has one place. -/
theorem front_eq_of_page {front before back later : String}
    (hfront : report.page = front ++ "<pre><code>" ++ back)
    (hbefore : report.page = before ++ "<pre><code>" ++ later) : front = before := by
  have hlists {front back : String} (h : report.page = front ++ "<pre><code>" ++ back) :
      report.page.toList = front.toList ++ '<' :: ("pre".toList ++ '>' ::
        ("<code>".toList ++ back.toList)) := by
    rw [h]
    simp
  have hcount := report.openingsIn_page
  rw [openingsIn, show "<" ++ "pre" ++ ">" = String.ofList ('<' :: "pre".toList ++ ['>']) by
    decide, count_tagsOf] at hcount
  rw [← String.toList_inj]
  exact front_eq_of_count (by decide) hcount (hlists hfront) (hlists hbefore)

end

/-- An escaped text is read back as it was. It is what replacing the characters of markup one after
    the other gives, it has none of them but ampersands, and each of these begins an entity. So in
    the page of a report the text between the tags of its raw data is found again, and it is read
    back as the text that the report is saved as. -/
theorem unescape_enclosed_page :
    (∀ s, unescape (escape s) = s ∧
      escape s = String.ofList (markupChars.foldl replaceChar s.toList) ∧
      Text.Lacks ['<', '>', '"', '\x27'] (escape s) ∧
      ∀ front back, (escape s).toList = front ++ '&' :: back →
        ∃ c ∈ markupChars, escapeChar c <+: '&' :: back) ∧
    ∀ report : Report, ∃ inner, unescape inner = report.save ∧
      ∀ text, Encloses "<pre><code>" "</code></pre>" text report.page ↔ text = inner := by
  refine ⟨fun s => ⟨unescape_escape s, ?_, lacks_escape s, fun front back h => ?_⟩,
    fun report => ⟨escape report.save, unescape_escape report.save, fun text => ?_⟩⟩
  · rw [escape, foldl_replaceChar]
  · rw [escape, String.toList_ofList] at h
    exact exists_escapeChar_prefix h
  · exact report.encloses_page.iff_eq fun _ _ _ _ => report.front_eq_of_page

end Report

end CourseAdmission
