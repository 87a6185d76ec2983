import CourseAdmission.Results.Aggregate
import Mathlib.Data.Finset.Card

/-!
A cache of aggregates answers every request with the aggregate of the requested type, whatever was
requested before, and holds one aggregate for each type requested so far.
-/

namespace CourseAdmission.AggregateCache

/-- Every aggregate that the cache holds is the one of its type, computed from the results. -/
def Fresh (cache : AggregateCache) : Prop :=
  ∀ type aggregate, cache.computed.lookup type = some aggregate →
    aggregate = TypeAggregate.ofResults cache.results type

variable {cache : AggregateCache} {type : AssignmentType}

theorem fresh_ofResults (results : List AssignmentResult) : (ofResults results).Fresh := by
  intro type aggregate hlookup
  simp [ofResults] at hlookup

@[simp]
theorem results_get (cache : AggregateCache) (type : AssignmentType) :
    (cache.get type).2.results = cache.results := by
  unfold get
  split <;> rfl

theorem get_eq_ofResults (hfresh : cache.Fresh) :
    (cache.get type).1 = TypeAggregate.ofResults cache.results type := by
  unfold get
  split
  case h_1 aggregate hlookup => exact hfresh type aggregate hlookup
  case h_2 => rfl

/-- What is computed for one type does not touch what is held for another. -/
theorem Fresh.get (hfresh : cache.Fresh) : (cache.get type).2.Fresh := by
  unfold AggregateCache.get
  split
  case h_1 => exact hfresh
  case h_2 =>
    intro asked aggregate hlookup
    rw [List.lookup_cons] at hlookup
    by_cases heq : asked = type
    · subst heq
      simpa using hlookup.symm
    · rw [beq_eq_false_iff_ne.2 heq] at hlookup
      exact hfresh asked aggregate hlookup

/-- The types of which the cache holds an aggregate. -/
def types (cache : AggregateCache) : List AssignmentType := cache.computed.map Prod.fst

theorem size_eq_length_types (cache : AggregateCache) : cache.size = cache.types.length :=
  (List.length_map Prod.fst).symm

theorem isEmpty_iff_types (cache : AggregateCache) : cache.isEmpty = true ↔ cache.types = [] :=
  List.isEmpty_iff.trans List.map_eq_nil_iff.symm

theorem lookup_eq_none_iff : cache.computed.lookup type = none ↔ type ∉ cache.types := by
  rw [List.lookup_eq_none_iff, types, List.mem_map]
  constructor
  · rintro hall ⟨entry, hentry, rfl⟩
    exact bne_iff_ne.1 (hall entry hentry) rfl
  · intro hnot entry hentry
    rw [bne_iff_ne]
    rintro rfl
    exact hnot ⟨entry, hentry, rfl⟩

theorem get_of_mem (hmem : type ∈ cache.types) : (cache.get type).2 = cache := by
  unfold AggregateCache.get
  split
  case h_1 => rfl
  case h_2 hlookup => exact absurd hmem (lookup_eq_none_iff.1 hlookup)

theorem types_get (cache : AggregateCache) (type : AssignmentType) :
    (cache.get type).2.types = cache.types.insert type := by
  by_cases hmem : type ∈ cache.types
  · rw [get_of_mem hmem, List.insert_of_mem hmem]
  · rw [List.insert_of_not_mem hmem, AggregateCache.get, lookup_eq_none_iff.2 hmem]
    rfl

/-- The cache after some requests, one after the other. -/
def after (results : List AssignmentResult) (requests : List AssignmentType) : AggregateCache :=
  requests.foldl (fun cache type => (cache.get type).2) (ofResults results)

/-- The cache holds the aggregates of the requested types, each of them once. -/
structure Remembers (cache : AggregateCache) (results : List AssignmentResult)
    (requests : List AssignmentType) : Prop where
  results_eq : cache.results = results
  fresh : cache.Fresh
  nodup : cache.types.Nodup
  mem_types : ∀ type, type ∈ cache.types ↔ type ∈ requests

variable {results : List AssignmentResult} {requests : List AssignmentType}

theorem Remembers.get (h : cache.Remembers results requests) (type : AssignmentType) :
    (cache.get type).2.Remembers results (requests ++ [type]) where
  results_eq := (results_get cache type).trans h.results_eq
  fresh := h.fresh.get
  nodup := by
    rw [types_get]
    exact h.nodup.insert
  mem_types asked := by
    rw [types_get, List.mem_insert_iff, h.mem_types asked, List.mem_append, List.mem_singleton,
      or_comm]

theorem remembers_after (results : List AssignmentResult) (requests : List AssignmentType) :
    (after results requests).Remembers results requests := by
  induction requests using List.reverseRecOn with
  | nil => exact ⟨rfl, fresh_ofResults results, List.nodup_nil, fun _ => Iff.rfl⟩
  | append_singleton requests type ih =>
    rw [after, List.foldl_append]
    exact ih.get type

theorem Remembers.size_eq (h : cache.Remembers results requests) :
    cache.size = requests.toFinset.card := by
  have htypes : cache.types.toFinset = requests.toFinset := by
    ext type
    rw [List.mem_toFinset, List.mem_toFinset, h.mem_types]
  rw [size_eq_length_types, ← List.toFinset_card_of_nodup h.nodup, htypes]

/-- Only a request for a type not requested before changes the cache. -/
theorem Remembers.get_eq_self_iff (h : cache.Remembers results requests) :
    (cache.get type).2 = cache ↔ type ∈ requests := by
  rw [← h.mem_types]
  constructor
  · intro hself
    have htypes := types_get cache type
    rw [hself] at htypes
    rw [htypes]
    exact List.mem_insert_self
  · exact get_of_mem

/-- After any requests, made one after the other of an empty cache, the next one is answered with the
    aggregate computed from the results. The cache holds as many aggregates as there are types among
    the requests, never fewer than before, and none only as long as there was no request; a repeated
    request leaves it as it is, and no other does. -/
theorem get_after (results : List AssignmentResult) (requests : List AssignmentType)
    (type : AssignmentType) :
    ((after results requests).get type).1 = TypeAggregate.ofResults results type ∧
      (after results requests).size = requests.toFinset.card ∧
      (∀ more, (after results requests).size ≤ (after results (requests ++ more)).size) ∧
      ((after results requests).isEmpty = true ↔ requests = []) ∧
      (((after results requests).get type).2 = after results requests ↔ type ∈ requests) := by
  have h := remembers_after results requests
  refine ⟨?_, h.size_eq, fun more => ?_, ?_, h.get_eq_self_iff⟩
  · rw [get_eq_ofResults h.fresh, h.results_eq]
  · rw [h.size_eq, (remembers_after results (requests ++ more)).size_eq]
    apply Finset.card_le_card
    rw [List.toFinset_append]
    exact Finset.subset_union_left
  · rw [isEmpty_iff_types, List.eq_nil_iff_forall_not_mem, List.eq_nil_iff_forall_not_mem]
    simp only [h.mem_types]

end CourseAdmission.AggregateCache
