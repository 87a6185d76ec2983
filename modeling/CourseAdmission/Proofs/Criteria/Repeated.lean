import CourseAdmission.Proofs.Criteria.Lint
import CourseAdmission.Proofs.Results.TypeTag
import Mathlib.Data.List.Induction
import Mathlib.Data.List.Nodup
import Mathlib.Data.List.Perm.Basic

/-!
Which rules are taken for repeated ones, and which types have several overall rules.

The places of the overall rules may be gathered by type in one pass over the rules. A map that is
built so may be gone through in any order: once the entries with several places are sorted by type,
they are those of the types in the order of their declaration.
-/

namespace CourseAdmission

/-- A map from types to places. -/
abbrev PlacesByType := AssignmentType → Option (List Nat)

namespace PlacesByType

/-- One more place in the entry of a type, which is made if there is none. -/
def push (map : PlacesByType) (type : AssignmentType) (place : Nat) : PlacesByType := fun type' =>
  if type' = type then some ((map type).getD [] ++ [place]) else map type'

/-- The entry of these places, if there are some. -/
def entry (places : List Nat) : Option (List Nat) := if places = [] then none else some places

@[simp]
theorem getD_entry (places : List Nat) : (entry places).getD [] = places := by
  unfold entry
  split <;> simp [*]

@[simp]
theorem entry_append_singleton (places : List Nat) (place : Nat) :
    entry (places ++ [place]) = some (places ++ [place]) := if_neg (by simp)

theorem entry_eq_some_iff {places places' : List Nat} :
    entry places = some places' ↔ places' = places ∧ places' ≠ [] := by
  rw [entry, Option.ite_none_left_eq_some, Option.some_inj]
  constructor
  · rintro ⟨hne, rfl⟩
    exact ⟨rfl, hne⟩
  · rintro ⟨rfl, hne⟩
    exact ⟨hne, rfl⟩

/-- The entries of a map, in any order. -/
structure Lists (map : PlacesByType) (entries : List (AssignmentType × List Nat)) : Prop where
  nodup : (entries.map Prod.fst).Nodup
  mem_iff : ∀ type places, (type, places) ∈ entries ↔ map type = some places

end PlacesByType

/-- The type of one entry is not declared after that of the other. -/
def ByType (a b : AssignmentType × List Nat) : Prop :=
  AssignmentType.all.idxOf a.1 ≤ AssignmentType.all.idxOf b.1

instance (a b : AssignmentType × List Nat) : Decidable (ByType a b) :=
  inferInstanceAs (Decidable (_ ≤ _))

/-- The entries with several places, in the order in which their types are declared. -/
def sortedRepeated (entries : List (AssignmentType × List Nat)) :
    List (AssignmentType × List Nat) :=
  (entries.filter fun entry => decide (1 < entry.2.length)).mergeSort fun a b =>
    decide (ByType a b)

/-- The warning on a type with overall rules at several places. -/
def repeatedWarning (entry : AssignmentType × List Nat) : LintWarning :=
  ⟨none, toString entry.2.length ++ " " ++ RuleKind.overall.tag ++ " rules for " ++ entry.1.tag ++
    " (rules " ++ ", ".intercalate (entry.2.map toString) ++ ")"⟩

namespace Criteria

variable {criteria : Criteria} {type : AssignmentType} {place first : Nat} {places : List Nat}

/-- The rules at two places are equal. -/
def SameAt (criteria : Criteria) (place other : Nat) : Prop :=
  ∃ rule rule', criteria.rules[place]? = some rule ∧ criteria.rules[other]? = some rule' ∧
    (rule == rule') = true

/-- A rule is a duplicate of the first rule that equals it, if that is an earlier one. -/
theorem mem_duplicates_iff : (place, first) ∈ criteria.duplicates ↔
    first < place ∧ criteria.SameAt first place ∧
      ∀ earlier < first, ¬criteria.SameAt earlier place := by
  simp only [duplicates, indexed, List.mem_filterMap, Prod.exists, List.mk_mem_zipIdx_iff_getElem?,
    Option.map_eq_some_iff, Prod.mk.injEq, List.findIdx?_eq_some_iff_getElem]
  constructor
  · rintro ⟨rule, _, hrule, _, ⟨hfirst, hsame, hleast⟩, rfl, rfl⟩
    rw [List.length_take, Nat.lt_min] at hfirst
    rw [List.getElem_take] at hsame
    refine ⟨hfirst.1, ⟨_, rule, List.getElem?_eq_getElem hfirst.2, hrule, hsame⟩, ?_⟩
    rintro earlier hearlier ⟨other, rule', hother, hrule', hsame'⟩
    apply hleast earlier hearlier
    obtain rfl := Option.some.inj (hrule.symm.trans hrule')
    obtain ⟨_, rfl⟩ := List.getElem?_eq_some_iff.1 hother
    rwa [List.getElem_take]
  · rintro ⟨hlt, ⟨other, rule, hother, hrule, hsame⟩, hleast⟩
    obtain ⟨hfirst, rfl⟩ := List.getElem?_eq_some_iff.1 hother
    refine ⟨rule, place, hrule, first, ⟨?_, ?_, ?_⟩, rfl, rfl⟩
    · rw [List.length_take]
      exact Nat.lt_min.2 ⟨hlt, hfirst⟩
    · rwa [List.getElem_take]
    · intro earlier hearlier hsame'
      rw [List.getElem_take] at hsame'
      exact hleast earlier hearlier ⟨_, rule, List.getElem?_eq_getElem _, hrule, hsame'⟩

theorem pairwise_indexed (criteria : Criteria) :
    criteria.indexed.Pairwise fun a b => a.2 < b.2 := by
  have hplaces : (criteria.indexed.map Prod.snd).Pairwise (· < ·) := by
    rw [indexed, List.zipIdx_map_snd]
    exact List.pairwise_lt_range'
  exact List.pairwise_map.1 hplaces

theorem pairwise_duplicates (criteria : Criteria) :
    criteria.duplicates.Pairwise fun a b => a.1 < b.1 := by
  rw [duplicates, List.pairwise_filterMap]
  refine criteria.pairwise_indexed.imp fun hlt c hc d hd => ?_
  obtain ⟨_, -, rfl⟩ := Option.map_eq_some_iff.1 hc
  obtain ⟨_, -, rfl⟩ := Option.map_eq_some_iff.1 hd
  exact hlt

theorem pairwise_overallPlaces (criteria : Criteria) (type : AssignmentType) :
    (criteria.overallPlaces type).Pairwise (· < ·) := by
  rw [overallPlaces, List.pairwise_filterMap]
  refine criteria.pairwise_indexed.imp fun hlt c hc d hd => ?_
  obtain ⟨-, hc⟩ := Option.ite_none_right_eq_some.1 hc
  obtain ⟨-, hd⟩ := Option.ite_none_right_eq_some.1 hd
  rwa [← Option.some.inj hc, ← Option.some.inj hd]

theorem mem_overallPlaces_iff : place ∈ criteria.overallPlaces type ↔
    ∃ average, criteria.rules[place]? = some (.overall type average) := by
  simp only [overallPlaces, indexed, List.mem_filterMap, Prod.exists,
    List.mk_mem_zipIdx_iff_getElem?]
  constructor
  · rintro ⟨rule, index, hrule, hplace⟩
    split at hplace
    case isFalse => cases hplace
    case isTrue h =>
      obtain rfl : index = place := by simpa using hplace
      cases rule with
      | overall type' average =>
        obtain rfl : type' = type := by simpa [Rule.kind, Rule.type] using h
        exact ⟨average, hrule⟩
      | passedShare => simp [Rule.kind] at h
  · rintro ⟨average, hrule⟩
    exact ⟨_, _, hrule, by simp [Rule.kind, Rule.type]⟩

/-- The places of the overall rules by type, gathered in one pass over the rules. -/
def overallByType (criteria : Criteria) : PlacesByType :=
  criteria.indexed.foldl
    (fun map (rule, place) => if rule.kind == .overall then map.push rule.type place else map)
    fun _ => none

theorem overallPlaces_add (criteria : Criteria) (rule : Rule) (type : AssignmentType) :
    (criteria.add rule).overallPlaces type = criteria.overallPlaces type ++
      if rule.kind = .overall ∧ rule.type = type then [criteria.size] else [] := by
  simp only [overallPlaces, indexed, add, List.zipIdx_append, List.filterMap_append]
  by_cases h : rule.kind = .overall ∧ rule.type = type <;> simp [h, size]

theorem overallByType_add (criteria : Criteria) (rule : Rule) :
    (criteria.add rule).overallByType =
      if rule.kind = .overall then criteria.overallByType.push rule.type criteria.size
      else criteria.overallByType := by
  simp [overallByType, indexed, add, List.zipIdx_append, size]

/-- After the pass the entry of a type holds the places of its overall rules. -/
theorem overallByType_apply (criteria : Criteria) (type : AssignmentType) :
    criteria.overallByType type = PlacesByType.entry (criteria.overallPlaces type) := by
  obtain ⟨rules⟩ := criteria
  induction rules using List.reverseRecOn generalizing type with
  | nil => rfl
  | append_singleton rules rule ih =>
    rw [show (⟨rules ++ [rule]⟩ : Criteria) = .add ⟨rules⟩ rule from rfl, overallByType_add,
      overallPlaces_add]
    by_cases hkind : rule.kind = .overall
    · rw [if_pos hkind, PlacesByType.push]
      by_cases htype : rule.type = type
      · rw [if_pos htype.symm, if_pos ⟨hkind, htype⟩, ih, htype]
        simp
      · rw [if_neg (Ne.symm htype), if_neg fun h => htype h.2, ih, List.append_nil]
    · rw [if_neg hkind, if_neg fun h => hkind h.1, ih, List.append_nil]

theorem mem_repeatedTypes_iff : (type, places) ∈ criteria.repeatedTypes ↔
    places = criteria.overallPlaces type ∧ 1 < places.length := by
  have hmem : (type, places) ∈ AssignmentType.all.map (fun t => (t, criteria.overallPlaces t)) ↔
      places = criteria.overallPlaces type := by
    simp [AssignmentType.mem_all, eq_comm]
  rw [repeatedTypes, List.mem_filter, hmem, decide_eq_true_iff]

/-- The types of which there are several overall rules, in the order of their declaration. -/
theorem repeatedTypes_eq (criteria : Criteria) : criteria.repeatedTypes =
    (AssignmentType.all.filter fun type => 1 < (criteria.overallPlaces type).length).map
      fun type => (type, criteria.overallPlaces type) := by
  rw [repeatedTypes, List.filter_map]
  rfl

theorem nodup_repeatedTypes (criteria : Criteria) : criteria.repeatedTypes.Nodup := by
  rw [repeatedTypes]
  have hall : AssignmentType.all.Nodup := by decide
  exact (hall.map fun _ _ heq => (Prod.mk.inj heq).1).filter _

theorem pairwise_repeatedTypes (criteria : Criteria) :
    criteria.repeatedTypes.Pairwise ByType := by
  have hall : AssignmentType.all.Pairwise fun a b =>
      AssignmentType.all.idxOf a ≤ AssignmentType.all.idxOf b := by decide
  refine List.Pairwise.filter _ (List.pairwise_map.2 ?_)
  exact hall

/-- Whatever the order of the entries was, sorting them leads to the same list. -/
theorem sortedRepeated_eq {entries : List (AssignmentType × List Nat)}
    (hentries : criteria.overallByType.Lists entries) :
    sortedRepeated entries = criteria.repeatedTypes := by
  have hmem (entry : AssignmentType × List Nat) :
      entry ∈ sortedRepeated entries ↔ entry ∈ criteria.repeatedTypes := by
    obtain ⟨type, places⟩ := entry
    rw [mem_repeatedTypes_iff, sortedRepeated, List.mem_mergeSort, List.mem_filter,
      hentries.mem_iff, overallByType_apply, PlacesByType.entry_eq_some_iff, decide_eq_true_iff,
      and_assoc]
    refine and_congr_right fun _ => and_iff_right_of_imp fun hlength => ?_
    exact List.ne_nil_of_length_pos (Nat.zero_lt_of_lt hlength)
  have hsorted : (sortedRepeated entries).Pairwise ByType := by
    refine (List.pairwise_mergeSort (fun a b c hab hbc => ?_) (fun a b => ?_) _).imp fun h =>
      of_decide_eq_true h
    · exact decide_eq_true (Nat.le_trans (of_decide_eq_true hab) (of_decide_eq_true hbc))
    · rw [Bool.or_eq_true, decide_eq_true_iff, decide_eq_true_iff]
      exact Nat.le_total _ _
  have hnodup : (sortedRepeated entries).Nodup :=
    (List.mergeSort_perm _ _).nodup_iff.2 (hentries.nodup.of_map.filter _)
  have hperm := (List.perm_ext_iff_of_nodup hnodup criteria.nodup_repeatedTypes).2 hmem
  refine hperm.eq_of_pairwise ?_ hsorted criteria.pairwise_repeatedTypes
  rintro ⟨type, places⟩ ⟨type', places'⟩ ha hb hle hge
  obtain rfl := (List.idxOf_inj type.mem_all).1 (Nat.le_antisymm hle hge)
  rw [hmem, mem_repeatedTypes_iff] at ha
  rw [mem_repeatedTypes_iff] at hb
  rw [ha.1, hb.1]

/-- The warnings on thresholds of zero. -/
def zeroWarnings (criteria : Criteria) : List LintWarning :=
  criteria.indexed.flatMap fun (rule, place) =>
    (zeroThresholds rule).map fun message => ⟨some place, message⟩

theorem lint_eq (criteria : Criteria) : criteria.lint =
    (criteria.duplicates.map fun entry => ⟨some entry.1, duplicateText entry.2⟩) ++
      criteria.zeroWarnings ++ criteria.repeatedTypes.map repeatedWarning := rfl

theorem exists_of_mem_zeroWarnings {warning : LintWarning} (h : warning ∈ criteria.zeroWarnings) :
    ∃ place message rule, warning = ⟨some place, message⟩ ∧ message ∈ zeroThresholds rule := by
  obtain ⟨⟨rule, place⟩, -, hmem⟩ := List.mem_flatMap.1 h
  obtain ⟨message, hmessage, rfl⟩ := List.mem_map.1 hmem
  exact ⟨place, message, rule, rfl, hmessage⟩

/-- Duplicates are warned about once each, in the order of the rules. -/
theorem pairwise_lint (criteria : Criteria) : criteria.lint.Pairwise fun before after =>
    ∀ place first place' first', before = ⟨some place, duplicateText first⟩ →
      after = ⟨some place', duplicateText first'⟩ → place < place' := by
  have hother : ∀ warning ∈ criteria.zeroWarnings ++ criteria.repeatedTypes.map repeatedWarning,
      ∀ place first, warning ≠ ⟨some place, duplicateText first⟩ := by
    rintro warning hmem place first rfl
    rcases List.mem_append.1 hmem with hmem | hmem
    · obtain ⟨_, message, rule, heq, hmessage⟩ := exists_of_mem_zeroWarnings hmem
      obtain ⟨-, rfl⟩ := LintWarning.mk.inj heq
      exact duplicateText_notMem_zeroThresholds first rule hmessage
    · obtain ⟨entry, -, heq⟩ := List.mem_map.1 hmem
      cases (LintWarning.mk.inj heq).1
  rw [lint_eq, List.append_assoc, List.pairwise_append, List.pairwise_map]
  refine ⟨criteria.pairwise_duplicates.imp fun hlt place first place' first' ha hb => ?_, ?_, ?_⟩
  · obtain ⟨ha, -⟩ := LintWarning.mk.inj ha
    obtain ⟨hb, -⟩ := LintWarning.mk.inj hb
    rwa [← Option.some.inj ha, ← Option.some.inj hb]
  · exact List.pairwise_of_forall_mem_list fun _ hmem _ _ place first _ _ heq =>
      absurd heq (hother _ hmem place first)
  · exact fun _ _ _ hmem _ _ place first _ heq => absurd heq (hother _ hmem place first)

/-- The warnings on repeated types come after those on rules. -/
theorem exists_lint_eq (criteria : Criteria) :
    ∃ onRules, (∀ warning ∈ onRules, warning.rule ≠ none) ∧
      criteria.lint = onRules ++ criteria.repeatedTypes.map repeatedWarning := by
  refine ⟨_, fun warning hmem => ?_, criteria.lint_eq⟩
  rcases List.mem_append.1 hmem with hmem | hmem
  · obtain ⟨entry, -, rfl⟩ := List.mem_map.1 hmem
    exact Option.some_ne_none _
  · obtain ⟨place, message, rule, rfl, -⟩ := exists_of_mem_zeroWarnings hmem
    exact Option.some_ne_none _

end Criteria

end CourseAdmission
