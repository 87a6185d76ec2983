import CourseAdmission.Results.ExactSum

/-!
Adding a value to the partials works in place.

What is lost is written where partials stood, but never behind the place that is read next. So every
partial is read as it was, and the outcome is that of `absorb`, which builds a new list.
-/

namespace CourseAdmission.ExactSum

/-- Adds a value to the partials one after the other: what is lost stays behind, the rounded sum
    goes on to the next and ends as the greatest partial. -/
def absorb (value : Binary64) : List Binary64 → List Binary64
  | [] => [value]
  | partialSum :: greater =>
    let (high, low) := twoSum value partialSum
    if low == 0 then absorb high greater else low :: absorb high greater

namespace Sweep

/-- The writes have not overtaken the reads: what is still to be read is as it was. -/
structure Unspoiled (sweep : Sweep) (partials : List Binary64) (read : Nat) : Prop where
  kept_le : sweep.kept ≤ read
  length_eq : sweep.buffer.length = partials.length
  unread : ∀ place, read ≤ place → sweep.buffer[place]? = partials[place]?

variable {sweep : Sweep} {partials : List Binary64} {read : Nat}

/-- The place that is written is not among those still to be read. -/
theorem Unspoiled.step (h : sweep.Unspoiled partials read) :
    (sweep.step read).Unspoiled partials (read + 1) := by
  obtain ⟨hkept, hlength, hunread⟩ := h
  unfold Sweep.step
  dsimp only
  split
  case isTrue => exact ⟨Nat.le_succ_of_le hkept, hlength, fun place hle => hunread place (by omega)⟩
  case isFalse =>
    refine ⟨Nat.succ_le_succ hkept, by rwa [List.length_set], fun place hle => ?_⟩
    rw [List.getElem?_set_ne (by omega)]
    exact hunread place (by omega)

theorem after_succ (value : Binary64) (partials : List Binary64) (count : Nat) :
    after value partials (count + 1) = (after value partials count).step count := by
  rw [after, List.range_succ, List.foldl_append]
  rfl

theorem unspoiled_after (value : Binary64) (partials : List Binary64) (count : Nat) :
    (after value partials count).Unspoiled partials count := by
  induction count with
  | zero => exact ⟨Nat.le_refl 0, rfl, fun _ _ => rfl⟩
  | succ count ih =>
    rw [after_succ]
    exact ih.step

/-- What a step leaves to `absorb` gives the same as before it. -/
theorem Unspoiled.absorb_step (h : sweep.Unspoiled partials read) (hread : read < partials.length) :
    (sweep.step read).buffer.take (sweep.step read).kept ++
        absorb (sweep.step read).running (partials.drop (read + 1)) =
      sweep.buffer.take sweep.kept ++ absorb sweep.running (partials.drop read) := by
  have hpartial : sweep.buffer.getD read 0 = partials[read] := by
    rw [List.getD_eq_getElem?_getD, h.unread read (Nat.le_refl _), List.getElem?_eq_getElem hread]
    rfl
  have hroom : sweep.kept < sweep.buffer.length := by
    rw [h.length_eq]
    exact Nat.lt_of_le_of_lt h.kept_le hread
  rw [List.drop_eq_getElem_cons hread, absorb, Sweep.step, hpartial]
  dsimp only
  split
  case isTrue => rfl
  case isFalse =>
    rw [List.take_add_one, List.take_set_of_le (Nat.le_refl _), List.getElem?_set_self hroom,
      Option.toList_some, List.append_assoc]
    rfl

theorem close_after (value : Binary64) (partials : List Binary64) :
    (after value partials partials.length).close = absorb value partials := by
  have hcount (count : Nat) (hle : count ≤ partials.length) :
      (after value partials count).buffer.take (after value partials count).kept ++
          absorb (after value partials count).running (partials.drop count) =
        absorb value partials := by
    induction count with
    | zero => rfl
    | succ count ih =>
      rw [after_succ, (unspoiled_after value partials count).absorb_step hle]
      exact ih (Nat.le_of_succ_le hle)
  have hall := hcount partials.length (Nat.le_refl _)
  rwa [List.drop_length] at hall

end Sweep

theorem add_eq (sum : ExactSum) (value : Binary64) :
    sum.add value = if value.isFinite then { sum with partials := absorb value sum.partials }
      else { sum with nonFinite := sum.nonFinite + value } := by
  rw [add, Sweep.close_after]

end CourseAdmission.ExactSum
