import CourseAdmission.Proofs.Markup.Tags

/-!
What stands between the tags of an element that a page has once.

A tag that is found once among the tags of a text stands at one place of it, so the text that it
opens can be found again by looking for the tag.
-/

namespace CourseAdmission.Markup

/-! ## How often an element is opened -/

/-- None of these names could be taken for markup. -/
def WellNamed (names : List String) : Prop := ∀ name ∈ names, Text.Lacks ['<', '>', '"', '/'] name

theorem wellNamed_iff {names : List String} :
    WellNamed names ↔ ∀ name ∈ names, ∀ c ∈ name.toList, c ∉ ['<', '>', '"', '/'] :=
  Iff.rfl

/-- How often the tag of a name without attributes stands in a text. -/
def openingsIn (name text : String) : Nat := (tagsOf text).count ("<" ++ name ++ ">")

/-- How many elements of a name, without attributes, are among these trees and in them. -/
def openings (name : String) (ms : List Markup) : Nat := (tagsAll ms).count ("<" ++ name ++ ">")

section

variable {name other : String} {attributes : List (String × String)} {ms others : List Markup}

theorem throughEnd_of_not_mem {inside : List Char} (hend : '>' ∉ inside) (ds : List Char) :
    throughEnd (inside ++ '>' :: ds) = inside ++ ['>'] := by
  induction inside with
  | nil => rfl
  | cons c inside ih =>
    rw [List.mem_cons, not_or] at hend
    rw [List.cons_append, throughEnd, if_neg (Ne.symm hend.1), ih hend.2, List.cons_append]

theorem tagsIn_tag {inside : List Char} (hstart : '<' ∉ inside) (hend : '>' ∉ inside) :
    tagsIn ('<' :: inside ++ ['>']) = ['<' :: inside ++ ['>']] := by
  rw [List.cons_append, tagsIn, if_pos rfl, throughEnd_of_not_mem hend,
    tagsIn_of_not_mem (by simp [hstart])]

theorem count_tagsOf (text : String) (cs : List Char) :
    (tagsOf text).count (String.ofList cs) = (tagsIn text.toList).count cs := by
  rw [tagsOf, List.count, List.countP_map, List.count]
  congr 1
  funext ds
  rw [Bool.eq_iff_iff]
  simp [String.ofList_inj]

/-- A tag whose inside has no part of another one is the only tag of its text. -/
theorem tagsOf_tag {inside : String} (h : Text.Lacks ['<', '>'] inside) :
    tagsOf ("<" ++ inside ++ ">") = ["<" ++ inside ++ ">"] := by
  have hlist : ("<" ++ inside ++ ">").toList = '<' :: inside.toList ++ ['>'] := by simp
  have hstart : '<' ∉ inside.toList := fun hmem => h _ hmem (by simp)
  have hend : '>' ∉ inside.toList := fun hmem => h _ hmem (by simp)
  rw [tagsOf, hlist, tagsIn_tag hstart hend, List.map_singleton, ← hlist, String.ofList_toList]

theorem lacks_tag (h : WellNamed (name :: attributes.map Prod.fst)) :
    Text.Lacks ['<', '>'] (tag name attributes) := by
  rw [WellNamed, List.forall_mem_cons, List.forall_mem_map] at h
  obtain ⟨hname, hattributes⟩ := h
  rw [tag, Text.lacks_append]
  refine ⟨hname.of_subset (by simp), ?_⟩
  induction attributes with
  | nil => simp [Text.Lacks]
  | cons first attributes ih =>
    obtain ⟨key, value⟩ := first
    rw [List.forall_mem_cons] at hattributes
    have hkey : Text.Lacks ['<', '>'] key := hattributes.1.of_subset (by simp)
    have hvalue : Text.Lacks ['<', '>'] (escape value) := (lacks_escape value).of_subset (by simp)
    rw [List.map_cons, String.join_cons, Text.lacks_append]
    refine ⟨?_, ih hattributes.2⟩
    simp only [attributeText, Text.lacks_append, hkey, hvalue]
    simp [Text.Lacks]

/-- A tag with attributes is none of a name alone. -/
theorem tag_eq_iff (h : WellNamed [name]) :
    tag other attributes = name ↔ other = name ∧ attributes = [] := by
  cases attributes with
  | nil => simp [tag]
  | cons first attributes =>
    refine iff_of_false ?_ (by simp)
    rintro rfl
    exact h (tag other (first :: attributes)) (by simp) '"' (by simp [tag, attributeText]) (by simp)

/-- An end is no tag of a name. -/
theorem slash_append_ne (h : WellNamed [name]) (s : String) : "/" ++ s ≠ name := by
  rintro rfl
  exact h ("/" ++ s) (by simp) '/' (by simp) (by simp)

theorem append_slash_ne (h : WellNamed [name]) (s : String) : s ++ "/" ≠ name := by
  rintro rfl
  exact h (s ++ "/") (by simp) '/' (by simp) (by simp)

@[simp]
theorem openings_nil : openings name [] = 0 := by
  simp [openings, tagsAll]

theorem openings_append :
    openings name (ms ++ others) = openings name ms + openings name others := by
  rw [openings, tagsAll_eq_flatMap, List.flatMap_append, List.count_append, openings, openings,
    tagsAll_eq_flatMap, tagsAll_eq_flatMap]

theorem openings_cons (m : Markup) (ms : List Markup) :
    openings name (m :: ms) = openings name [m] + openings name ms := by
  rw [← List.singleton_append, openings_append]

theorem openings_eq_zero_iff : openings name ms = 0 ↔ ∀ m ∈ ms, openings name [m] = 0 := by
  induction ms with
  | nil => simp
  | cons m ms ih => rw [openings_cons, Nat.add_eq_zero_iff, ih, List.forall_mem_cons]

@[simp]
theorem openings_text_cons (content : String) :
    openings name (text content :: ms) = openings name ms := by
  rw [openings, tagsAll, tags, List.nil_append, openings]

@[simp]
theorem openings_verbatim_cons (content : String) :
    openings name (verbatim content :: ms) = openings name ms := by
  rw [openings, tagsAll, tags, List.nil_append, openings]

variable (hname : WellNamed [name]) (hother : WellNamed (other :: attributes.map Prod.fst))
include hname hother

theorem openings_element_cons : openings name (element other attributes ms :: others) =
    (if other = name ∧ attributes = [] then 1 else 0) + openings name ms +
      openings name others := by
  have hend : Text.Lacks ['<', '>'] ("/" ++ other) := by
    rw [Text.lacks_append]
    exact ⟨by simp [Text.Lacks], (hother _ (by simp)).of_subset (by simp)⟩
  have hends : "</" ++ other ++ ">" = "<" ++ ("/" ++ other) ++ ">" := by
    rw [← String.append_assoc]
    rfl
  rw [openings, tagsAll, tags, hends, tagsOf_tag (lacks_tag hother), tagsOf_tag hend]
  simp [List.count_cons, tag_eq_iff hname, slash_append_ne hname, openings, Nat.add_assoc,
    Nat.add_comm]

theorem openings_void_cons : openings name (void other attributes :: ms) =
    (if other = name ∧ attributes = [] then 1 else 0) + openings name ms := by
  rw [openings, tagsAll, tags, tagsOf_tag (lacks_tag hother)]
  simp [List.count_cons, tag_eq_iff hname, openings, Nat.add_comm]

theorem openings_closed_cons :
    openings name (closed other attributes :: ms) = openings name ms := by
  have hinside : Text.Lacks ['<', '>'] (tag other attributes ++ "/") := by
    rw [Text.lacks_append]
    exact ⟨lacks_tag hother, by simp [Text.Lacks]⟩
  have hends :
      "<" ++ tag other attributes ++ "/>" = "<" ++ (tag other attributes ++ "/") ++ ">" := by
    simp [String.append_assoc]
  rw [openings, tagsAll, tags, hends, tagsOf_tag hinside]
  simp [append_slash_ne hname, openings]

end

section

variable {name content : String} {ms others : List Markup}

theorem openings_lines : openings name (lines ms) = openings name ms := by
  rw [openings, tagsAll_lines, openings]

@[simp]
theorem openings_newline_cons : openings name (newline :: ms) = openings name ms :=
  openings_text_cons "\n"

theorem openings_map_eq_zero {α : Type} {l : List α} {f : α → Markup}
    (h : ∀ x ∈ l, openings name [f x] = 0) : openings name (l.map f) = 0 :=
  openings_eq_zero_iff.2 (List.forall_mem_map.2 h)

theorem openings_flatMap_eq_zero {α : Type} {l : List α} {f : α → List Markup}
    (h : ∀ x ∈ l, openings name (f x) = 0) : openings name (l.flatMap f) = 0 := by
  rw [openings_eq_zero_iff, List.forall_mem_flatMap]
  exact fun x hx => openings_eq_zero_iff.1 (h x hx)

end

/-! ## A tag that stands at one place -/

theorem tagsIn_suffix (cs ds : List Char) : tagsIn ds <:+ tagsIn (cs ++ ds) := by
  induction cs with
  | nil => exact List.suffix_rfl
  | cons c cs ih =>
    rw [List.cons_append, tagsIn]
    split
    · exact ih.trans (List.suffix_cons _ _)
    · exact ih

section

variable {inside : List Char} (hend : '>' ∉ inside)
include hend

/-- Between two places of a tag there is a tag of its own. -/
theorem two_le_count {between back later : List Char} (hne : between ≠ [])
    (h : '<' :: (inside ++ '>' :: back) = between ++ '<' :: (inside ++ '>' :: later)) :
    2 ≤ (tagsIn ('<' :: (inside ++ '>' :: back))).count ('<' :: inside ++ ['>']) := by
  obtain ⟨c, between, rfl⟩ := List.exists_cons_of_ne_nil hne
  obtain ⟨-, hrest⟩ := List.cons_eq_cons.1 h
  have hlater : 1 ≤ (tagsIn ('<' :: (inside ++ '>' :: later))).count ('<' :: inside ++ ['>']) := by
    rw [tagsIn, if_pos rfl, throughEnd_of_not_mem hend, List.cons_append, List.count_cons_self]
    exact Nat.le_add_left 1 _
  have hback := (tagsIn_suffix between ('<' :: (inside ++ '>' :: later))).sublist.count_le
    ('<' :: inside ++ ['>'])
  rw [tagsIn, if_pos rfl, throughEnd_of_not_mem hend, List.cons_append, List.count_cons_self, hrest]
  exact Nat.succ_le_succ (Nat.le_trans hlater hback)

/-- A tag that is found once stands at one place. -/
theorem front_eq_of_count {cs front before back later : List Char}
    (hcount : (tagsIn cs).count ('<' :: inside ++ ['>']) = 1)
    (hfront : cs = front ++ '<' :: (inside ++ '>' :: back))
    (hbefore : cs = before ++ '<' :: (inside ++ '>' :: later)) : front = before := by
  have hnot {front between back later : List Char}
      (hcs : cs = front ++ '<' :: (inside ++ '>' :: back))
      (h : '<' :: (inside ++ '>' :: back) = between ++ '<' :: (inside ++ '>' :: later)) :
      between = [] := by
    refine Decidable.byContradiction fun hne => ?_
    have htwo := two_le_count hend hne h
    have hle := (tagsIn_suffix front ('<' :: (inside ++ '>' :: back))).sublist.count_le
      ('<' :: inside ++ ['>'])
    rw [← hcs, hcount] at hle
    omega
  rcases List.append_eq_append_iff.1 (hfront.symm.trans hbefore) with
    ⟨between, rfl, hbetween⟩ | ⟨between, rfl, hbetween⟩
  · rw [hnot hfront hbetween, List.append_nil]
  · rw [hnot hbefore hbetween, List.append_nil]

end

/-! ## What stands between two texts -/

def StandsIn (part text : String) : Prop := ∃ front back, text = front ++ part ++ back

theorem StandsIn.trans {part whole text : String} (h : StandsIn part whole)
    (hwhole : StandsIn whole text) : StandsIn part text := by
  obtain ⟨front, back, rfl⟩ := h
  obtain ⟨before, later, rfl⟩ := hwhole
  exact ⟨before ++ front, back ++ later, by simp only [String.append_assoc]⟩

/-- The text between a place of `opening` and the `closing` that follows it. -/
def Encloses (opening closing inner text : String) : Prop :=
  StandsIn (opening ++ inner ++ closing) text ∧
    ∀ earlier later, inner ++ closing = earlier ++ closing ++ later → later = ""

/-- A text without the first character of an end stands in front of this end. -/
theorem eq_nil_of_append_eq {c : Char} {inner cs earlier later : List Char} (hinner : c ∉ inner)
    (h : inner ++ c :: cs = earlier ++ c :: cs ++ later) : later = [] := by
  rw [List.append_assoc, List.append_eq_append_iff] at h
  rcases h with ⟨more, -, hclosing⟩ | ⟨more, hmore, hclosing⟩
  · have hlength := congrArg List.length hclosing
    simp only [List.length_append] at hlength
    exact List.eq_nil_of_length_eq_zero (by omega)
  · cases more with
    | nil => simpa using hclosing
    | cons d more =>
      obtain ⟨rfl, -⟩ := List.cons_eq_cons.1 hclosing
      exact absurd (hmore ▸ by simp) hinner

/-- Two texts that end before the same end are one text. -/
theorem Encloses.eq_of_append_eq {opening closing inner other text page back later : String}
    (hinner : Encloses opening closing inner text) (hother : Encloses opening closing other page)
    (h : inner ++ closing ++ back = other ++ closing ++ later) : other = inner := by
  rw [← String.toList_inj] at h
  simp only [String.toList_append] at h
  rcases List.append_eq_append_iff.1 h with ⟨more, hmore, -⟩ | ⟨more, hmore, -⟩
  · have hsame : other ++ closing = inner ++ closing ++ String.ofList more := by
      rw [← String.toList_inj]
      simpa using hmore
    rw [hother.2 _ _ hsame, String.append_empty] at hsame
    exact String.append_left_inj closing |>.1 hsame
  · have hsame : inner ++ closing = other ++ closing ++ String.ofList more := by
      rw [← String.toList_inj]
      simpa using hmore
    rw [hinner.2 _ _ hsame, String.append_empty] at hsame
    exact (String.append_left_inj closing |>.1 hsame).symm

/-- Where the opening has one place, it encloses one text. -/
theorem Encloses.iff_eq {opening closing inner text other : String}
    (h : Encloses opening closing inner text)
    (hplace : ∀ front before back later : String, text = front ++ opening ++ back →
      text = before ++ opening ++ later → front = before) :
    Encloses opening closing other text ↔ other = inner := by
  refine ⟨fun hother => ?_, by rintro rfl; exact h⟩
  obtain ⟨front, back, htext⟩ := h.1
  obtain ⟨before, later, hsame⟩ := hother.1
  have hfront : front = before := by
    refine hplace front before (inner ++ closing ++ back) (other ++ closing ++ later) ?_ ?_
    · simpa only [String.append_assoc] using htext
    · simpa only [String.append_assoc] using hsame
  subst hfront
  rw [htext] at hsame
  have hends : inner ++ closing ++ back = other ++ closing ++ later := by
    simpa only [String.append_assoc, String.append_right_inj] using hsame
  exact h.eq_of_append_eq hother hends

/-! ## The text of a part of a page -/

section

variable {m : Markup} {name : String} {attributes : List (String × String)} {ms : List Markup}

theorem renderAll_append (others : List Markup) :
    renderAll (ms ++ others) = renderAll ms ++ renderAll others := by
  induction ms with
  | nil => rw [List.nil_append, renderAll, String.empty_append]
  | cons m ms ih => rw [List.cons_append, renderAll, renderAll, ih, String.append_assoc]

theorem standsIn_renderAll (h : m ∈ ms) : StandsIn m.render (renderAll ms) := by
  obtain ⟨before, later, rfl⟩ := List.append_of_mem h
  refine ⟨renderAll before, renderAll later, ?_⟩
  rw [renderAll_append, renderAll, String.append_assoc]

theorem standsIn_element (h : m ∈ ms) : StandsIn m.render (element name attributes ms).render := by
  rw [render]
  exact (standsIn_renderAll h).trans
    ⟨"<" ++ tag name attributes ++ ">", "</" ++ name ++ ">", by simp only [String.append_assoc]⟩

theorem standsIn_block (h : m ∈ ms) : StandsIn m.render (block name attributes ms).render := by
  refine standsIn_element (List.mem_cons_of_mem _ ?_)
  rw [lines, List.mem_flatMap]
  exact ⟨m, h, List.mem_cons_self⟩

/-- The elements of the body of a page stand in it. -/
theorem standsIn_page {head body : List Markup} (h : m ∈ body) :
    StandsIn m.render (page head body) := by
  have hbody : StandsIn m.render (block "body" [] body).render := standsIn_block h
  have hhtml : StandsIn (block "body" [] body).render
      (block "html" [("lang", "en")] [block "head" [] head, block "body" [] body]).render :=
    standsIn_block (by simp)
  exact (hbody.trans hhtml).trans ⟨"<!DOCTYPE html>\n", "", by rw [page, String.append_empty]⟩

end

end CourseAdmission.Markup
