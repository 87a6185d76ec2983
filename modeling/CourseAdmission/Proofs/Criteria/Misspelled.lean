import CourseAdmission.Proofs.Criteria.Spelling

/-!
Criteria in which a name belongs to no field are refused, wherever it stands.
-/

namespace CourseAdmission

open Document

namespace CriteriaPart

/-- Nothing is read of the part. -/
def Refuses : CriteriaPart → Node → Prop
  | .criteria, node => ∀ drafts, CriteriaDraft.decoder .refused node ≠ .ok drafts
  | .rules, node => ∀ drafts, Decoder.list (RuleDraft.decoder .refused) node ≠ .ok drafts
  | .rule, node => ∀ draft, RuleDraft.decoder .refused node ≠ .ok draft
  | .rounding, node => ∀ draft, RoundingDraft.decoder .refused node ≠ .ok draft
  | .assignmentType, node => ∀ text, Decoder.text node ≠ .ok text

variable {part : CriteriaPart} {node : Node}

/-- An object is refused for a member that belongs to no field. -/
theorem refuses_of_unknown {members : List (Text × Node)} {m : Text × Node} (hm : m ∈ members)
    (hunknown : ∀ field ∈ part.fields, hasName field.1 m = false) :
    part.Refuses (.object members) := by
  have hfills (needed : Nat) : ¬(Node.object members).Fills part.names needed .refused := by
    intro hfill
    obtain ⟨field, hfield, hname⟩ := hasName_flatten_names.1 (hfill m hm)
    rw [hunknown field hfield] at hname
    cases hname
  cases part with
  | criteria => exact fun drafts h => hfills _ (CriteriaDraft.decoder_iff_reads.1 h).1
  | rule => exact fun draft h => hfills _ (RuleDraft.decoder_iff_reads.1 h).1
  | rounding => exact fun draft h => hfills _ (RoundingDraft.decoder_iff_reads.1 h).1
  | rules => exact nofun
  | assignmentType => exact nofun

theorem not_readsOptional {α : Type} {decode : Decoder α} {written : List Node} {value : Node}
    {slot : Option α} (hmem : value ∈ written) (hnull : value ≠ .null)
    (hrefuses : ∀ a, decode value ≠ .ok a) : ¬ReadsOptional decode written slot := by
  rintro (⟨rfl, -⟩ | ⟨node, rfl, hread⟩)
  · cases hmem
  · rw [List.mem_singleton] at hmem
    subst hmem
    rcases nullable_eq_ok_iff.1 hread with ⟨h, -⟩ | ⟨-, a, ha, -⟩
    · exact hnull h
    · exact hrefuses a ha

/-- A part is refused for a part that one of its fields holds. -/
theorem refuses_of_field {place : Nat} {names : List String} {child : CriteriaPart} {value : Node}
    (hfield : part.fields[place]? = some (names, some child))
    (hmem : value ∈ node.written names place) (hnull : value ≠ .null)
    (hrefuses : child.Refuses value) : part.Refuses node := by
  cases part with
  | criteria =>
    obtain rfl : place = 0 := by
      have := (List.getElem?_eq_some_iff.1 hfield).1
      simpa [fields] using this
    cases hfield
    intro drafts hdrafts
    rcases (CriteriaDraft.decoder_iff_reads.1 hdrafts).2 with ⟨hnil, -⟩ | ⟨list, hlist, hread⟩
    · rw [hnil] at hmem
      cases hmem
    · rw [hlist, List.mem_singleton] at hmem
      subst hmem
      exact hrefuses drafts hread
  | rule =>
    intro draft hdraft
    obtain ⟨-, -, htype, -, hrounding, -, hshareRounding⟩ := RuleDraft.decoder_iff_reads.1 hdraft
    match place, hfield with
    | 1, rfl => exact not_readsOptional hmem hnull hrefuses htype
    | 3, rfl => exact not_readsOptional hmem hnull hrefuses hrounding
    | 5, rfl => exact not_readsOptional hmem hnull hrefuses hshareRounding
  | rounding =>
    match place, hfield with
    | 0, h => cases h
    | 1, h => cases h
  | rules => cases hfield
  | assignmentType => cases hfield

/-- A list of rules is refused for one that is. -/
theorem refuses_rules {value : Node} {before after : List Node} (h : rule.Refuses value) :
    rules.Refuses (.array (before ++ value :: after)) := by
  intro drafts hdrafts
  rw [Decoder.list, List.mapM_append, bind_eq_ok_iff] at hdrafts
  obtain ⟨first, -, hmore⟩ := hdrafts
  obtain ⟨rest, hrest, -⟩ := bind_eq_ok_iff.1 hmore
  rw [List.mapM_cons, bind_eq_ok_iff] at hrest
  obtain ⟨draft, hdraft, -⟩ := hrest
  exact h draft hdraft

end CriteriaPart

namespace Misspelling

open CriteriaPart

theorem ne_null {part : CriteriaPart} {node node' : Node} (h : Misspelling part node node') :
    node' ≠ .null := by
  cases h <;> nofun

/-- Nothing is read of a part that is misspelled, however deep inside. -/
theorem refuses {part : CriteriaPart} {node node' : Node} (h : Misspelling part node node') :
    part.Refuses node' := by
  induction h with
  | name before after hunknown => exact refuses_of_unknown (by simp) hunknown
  | @member part child names name value value' before after hfield hname h ih =>
    obtain ⟨place, hplace⟩ := List.getElem?_of_mem hfield
    have hname' : hasName names (name, value') = true := hname
    refine refuses_of_field hplace ?_ h.ne_null ih
    rw [Node.written, valuesOf_append_cons, if_pos hname']
    simp
  | @item part child value value' before after hchild h ih =>
    by_cases hrules : part = .rules
    · subst hrules
      cases hchild
      exact refuses_rules ih
    · obtain ⟨names, hfield⟩ := exists_field_of_item? hrules hchild
      refine refuses_of_field hfield ?_ h.ne_null ih
      simp [Node.written]

end Misspelling

end CourseAdmission
