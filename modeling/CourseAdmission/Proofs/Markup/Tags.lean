import CourseAdmission.Markup
import CourseAdmission.Proofs.Text.Lacks

/-!
The tags of a page.

In a text every character that can begin a tag is looked at, whether it was meant to or not. The
tags of the text of a tree are those of its elements all the same, as long as nothing that is
written as it stands holds such a character; so they do not depend on the texts of the tree.
-/

namespace CourseAdmission.Markup

/-! ## The tags of a text -/

/-- The text up to the next end of a tag. -/
def throughEnd : List Char → List Char
  | [] => []
  | c :: cs => if c = '>' then ['>'] else c :: throughEnd cs

/-- The parts of a text from each `<` to the next `>`. -/
def tagsIn : List Char → List (List Char)
  | [] => []
  | c :: cs => if c = '<' then ('<' :: throughEnd cs) :: tagsIn cs else tagsIn cs

def tagsOf (text : String) : List String := (tagsIn text.toList).map String.ofList

example : tagsOf "<p>1 < 2</p>" = ["<p>", "< 2</p>", "</p>"] := by decide

/-- Each `<` has a `>` behind it. -/
def Closed : List Char → Prop
  | [] => True
  | c :: cs => (c = '<' → '>' ∈ cs) ∧ Closed cs

theorem closed_of_not_mem {cs : List Char} (h : '<' ∉ cs) : Closed cs := by
  induction cs with
  | nil => trivial
  | cons c cs ih =>
    rw [List.mem_cons, not_or] at h
    exact ⟨fun hc => absurd hc.symm h.1, ih h.2⟩

theorem closed_append_end (cs : List Char) : Closed (cs ++ ['>']) := by
  induction cs with
  | nil => exact ⟨nofun, trivial⟩
  | cons c cs ih => exact ⟨fun _ => List.mem_append_right cs (List.mem_singleton.2 rfl), ih⟩

theorem Closed.append {cs ds : List Char} (hcs : Closed cs) (hds : Closed ds) :
    Closed (cs ++ ds) := by
  induction cs with
  | nil => exact hds
  | cons c cs ih => exact ⟨fun hc => List.mem_append_left ds (hcs.1 hc), ih hcs.2⟩

theorem tagsIn_of_not_mem {cs : List Char} (h : '<' ∉ cs) : tagsIn cs = [] := by
  induction cs with
  | nil => rfl
  | cons c cs ih =>
    rw [List.mem_cons, not_or] at h
    rw [tagsIn, if_neg (Ne.symm h.1), ih h.2]

theorem throughEnd_append {cs : List Char} (h : '>' ∈ cs) (ds : List Char) :
    throughEnd (cs ++ ds) = throughEnd cs := by
  induction cs with
  | nil => cases h
  | cons c cs ih =>
    rw [List.cons_append, throughEnd, throughEnd]
    by_cases hc : c = '>'
    · rw [if_pos hc, if_pos hc]
    · rw [if_neg hc, if_neg hc, ih (List.mem_of_ne_of_mem (Ne.symm hc) h)]

theorem tagsIn_append {cs : List Char} (h : Closed cs) (ds : List Char) :
    tagsIn (cs ++ ds) = tagsIn cs ++ tagsIn ds := by
  induction cs with
  | nil => rfl
  | cons c cs ih =>
    rw [List.cons_append, tagsIn, tagsIn, ih h.2]
    by_cases hc : c = '<'
    · rw [if_pos hc, if_pos hc, throughEnd_append (h.1 hc), List.cons_append]
    · rw [if_neg hc, if_neg hc]

/-- A text that leaves no tag open, with its tags. -/
structure HasTags (text : String) (tags : List String) : Prop where
  closed : Closed text.toList
  tagsOf_eq : tagsOf text = tags

theorem HasTags.append {s t : String} {tags others : List String} (hs : HasTags s tags)
    (ht : HasTags t others) : HasTags (s ++ t) (tags ++ others) := by
  constructor
  · rw [String.toList_append]
    exact hs.closed.append ht.closed
  · rw [← hs.tagsOf_eq, ← ht.tagsOf_eq, tagsOf, String.toList_append, tagsIn_append hs.closed,
      List.map_append]
    rfl

theorem hasTags_of_lacks {text : String} (h : Text.Lacks ['<'] text) : HasTags text [] := by
  have hnone : '<' ∉ text.toList := fun hmem => h '<' hmem (List.mem_singleton.2 rfl)
  exact ⟨closed_of_not_mem hnone, by rw [tagsOf, tagsIn_of_not_mem hnone, List.map_nil]⟩

theorem hasTags_append_end (text : String) : HasTags (text ++ ">") (tagsOf (text ++ ">")) where
  closed := by
    rw [String.toList_append]
    exact closed_append_end text.toList
  tagsOf_eq := rfl

/-! ## The tags of a tree -/

mutual

def tags : Markup → List String
  | text _ => []
  | verbatim _ => []
  | element name attributes children =>
    tagsOf ("<" ++ tag name attributes ++ ">") ++ tagsAll children ++ tagsOf ("</" ++ name ++ ">")
  | void name attributes => tagsOf ("<" ++ tag name attributes ++ ">")
  | closed name attributes => tagsOf ("<" ++ tag name attributes ++ "/>")

def tagsAll : List Markup → List String
  | [] => []
  | child :: children => child.tags ++ tagsAll children

end

mutual

/-- What is written as it stands begins no tag. -/
def Tidy : Markup → Prop
  | text _ => True
  | verbatim content => Text.Lacks ['<'] content
  | element _ _ children => TidyAll children
  | void _ _ => True
  | closed _ _ => True

def TidyAll : List Markup → Prop
  | [] => True
  | child :: children => child.Tidy ∧ TidyAll children

end

/-- In an escaped text nothing begins or ends a tag or the value of an attribute. -/
theorem lacks_escape (s : String) : Text.Lacks ['<', '>', '"', '\x27'] (escape s) := by
  intro c hc
  rw [escape, String.toList_ofList, List.mem_flatMap] at hc
  obtain ⟨d, -, hc⟩ := hc
  revert c
  unfold escapeChar
  split
  case h_6 hamp hlt hgt hquote hapostrophe =>
    intro c hc
    rw [List.mem_singleton.1 hc]
    simpa using ⟨hlt, hgt, hquote, hapostrophe⟩
  all_goals simp

mutual

theorem hasTags_render : ∀ (m : Markup), m.Tidy → HasTags m.render m.tags
  | text content, _ => by
    rw [render, tags]
    exact hasTags_of_lacks ((lacks_escape content).of_subset (by simp))
  | verbatim content, htidy => by
    rw [render, tags]
    exact hasTags_of_lacks htidy
  | element name attributes children, htidy => by
    have hstart := hasTags_append_end ("<" ++ tag name attributes)
    have hend := hasTags_append_end ("</" ++ name)
    have hrender : (element name attributes children).render =
        "<" ++ tag name attributes ++ ">" ++ renderAll children ++ ("</" ++ name ++ ">") := by
      rw [render]
      simp only [String.append_assoc]
    rw [hrender, tags]
    exact (hstart.append (hasTags_renderAll children htidy)).append hend
  | void name attributes, _ => by
    rw [render, tags]
    exact hasTags_append_end ("<" ++ tag name attributes)
  | closed name attributes, _ => by
    have hend := hasTags_append_end ("<" ++ tag name attributes ++ "/")
    rw [String.append_assoc] at hend
    rw [render, tags]
    exact hend

theorem hasTags_renderAll : ∀ (ms : List Markup), TidyAll ms →
    HasTags (renderAll ms) (tagsAll ms)
  | [], _ => by
    rw [renderAll, tagsAll]
    exact hasTags_of_lacks nofun
  | m :: ms, htidy => by
    rw [renderAll, tagsAll]
    exact (hasTags_render m htidy.1).append (hasTags_renderAll ms htidy.2)

end

/-! ## The parts of a page -/

section

variable {name content : String} {attributes : List (String × String)} {ms others : List Markup}

theorem tagsAll_eq_flatMap : tagsAll ms = ms.flatMap tags := by
  induction ms with
  | nil => rfl
  | cons m ms ih => rw [tagsAll, ih, List.flatMap_cons]

theorem tidyAll_iff : TidyAll ms ↔ ∀ m ∈ ms, m.Tidy := by
  induction ms with
  | nil => simp [TidyAll]
  | cons m ms ih => rw [TidyAll, ih, List.forall_mem_cons]

@[simp]
theorem tidyAll_map {α : Type} {l : List α} {f : α → Markup} :
    TidyAll (l.map f) ↔ ∀ x ∈ l, (f x).Tidy := by
  rw [tidyAll_iff, List.forall_mem_map]

@[simp]
theorem tidyAll_flatMap {α : Type} {l : List α} {f : α → List Markup} :
    TidyAll (l.flatMap f) ↔ ∀ x ∈ l, TidyAll (f x) := by
  simp only [tidyAll_iff, List.forall_mem_flatMap]

@[simp]
theorem tidy_text : (text content).Tidy := trivial

@[simp]
theorem tidy_newline : newline.Tidy := trivial

@[simp]
theorem tidy_label : (label name content).Tidy := ⟨trivial, trivial⟩

@[simp]
theorem tidyAll_lines : TidyAll (lines ms) ↔ TidyAll ms := by
  simp only [lines, tidyAll_flatMap, TidyAll, tidy_newline, and_true]
  exact tidyAll_iff.symm

@[simp]
theorem tidy_block : (block name attributes ms).Tidy ↔ TidyAll ms := by
  rw [block, Tidy, TidyAll, and_iff_right tidy_newline, tidyAll_lines]

@[simp]
theorem tidy_tableRow : (tableRow ms).Tidy ↔ TidyAll ms := by
  rw [tableRow, Tidy]

@[simp]
theorem tidy_table : (table attributes ms others).Tidy ↔ TidyAll ms ∧ TidyAll others := by
  simp [table, Tidy, TidyAll]

theorem tagsAll_lines : tagsAll (lines ms) = tagsAll ms := by
  rw [tagsAll_eq_flatMap, tagsAll_eq_flatMap, lines, List.flatMap_assoc]
  simp [newline, tags]

theorem tags_block : (block name attributes ms).tags =
    tagsOf ("<" ++ tag name attributes ++ ">") ++ tagsAll ms ++ tagsOf ("</" ++ name ++ ">") := by
  rw [block, tags, tagsAll, tagsAll_lines]
  rfl

end

/-- The tags of a page are those of its head and its body between the ones that every page has. -/
theorem tagsOf_page {head body : List Markup} (hhead : TidyAll head) (hbody : TidyAll body) :
    tagsOf (page head body) = "<!DOCTYPE html>" ::
      (block "html" [("lang", "en")] [block "head" [] head, block "body" [] body]).tags := by
  have hfirst : HasTags "<!DOCTYPE html>\n" ["<!DOCTYPE html>"] :=
    ⟨by simp [Closed], by decide⟩
  have htree := hasTags_render
    (block "html" [("lang", "en")] [block "head" [] head, block "body" [] body])
    (by simp [TidyAll, hhead, hbody])
  exact (hfirst.append htree).tagsOf_eq

end CourseAdmission.Markup
