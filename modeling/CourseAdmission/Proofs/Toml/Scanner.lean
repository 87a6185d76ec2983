import CourseAdmission.Toml.Scanner

/-!
What scanners take, one after the other.
-/

namespace CourseAdmission.Toml.Scanner

variable {α β : Type} {p q : Scanner α} {f : α → Scanner β} {cs rest : List Char} {a : α}

/-! Sequences and choices -/

theorem bind_of_eq_some (h : p cs = some (a, rest)) : (p >>= f) cs = f a rest := by
  change (p cs >>= fun r => f r.1 r.2) = _
  rw [h]
  rfl

theorem bind_of_eq_none (h : p cs = none) : (p >>= f) cs = none := by
  change (p cs >>= fun r => f r.1 r.2) = _
  rw [h]
  rfl

theorem bind_eq_some_iff {r : β × List Char} :
    (p >>= f) cs = some r ↔ ∃ a rest, p cs = some (a, rest) ∧ f a rest = some r := by
  change (p cs >>= fun r => f r.1 r.2) = _ ↔ _
  rcases p cs with _ | ⟨a, rest⟩
  · simp
  · constructor
    · exact fun h => ⟨a, rest, rfl, h⟩
    · rintro ⟨_, _, ⟨⟩, h⟩
      exact h

theorem guard_eq_some_iff {holds : Prop} [Decidable holds] {r : Unit × List Char} :
    (guard holds : Scanner Unit) cs = some r ↔ holds ∧ ((), cs) = r := by
  unfold guard
  split
  case isTrue h =>
    rw [and_iff_right h]
    exact Option.some_inj
  case isFalse h => exact iff_of_false nofun fun hr => h hr.1

theorem orElse_of_eq_some {r : α × List Char} (h : p cs = some r) : (p <|> q) cs = some r := by
  change (p cs <|> q cs) = _
  rw [h]
  rfl

theorem orElse_of_eq_none (h : p cs = none) : (p <|> q) cs = q cs := by
  change (p cs <|> q cs) = _
  rw [h]
  rfl

theorem map_of_eq_some {g : α → β} (h : p cs = some (a, rest)) :
    (g <$> p) cs = some (g a, rest) := by
  change (p cs >>= fun r => some (g r.1, r.2)) = _
  rw [h]
  rfl

theorem discard_of_eq_some (h : p cs = some (a, rest)) :
    (Functor.discard p : Scanner PUnit) cs = some (⟨⟩, rest) :=
  map_of_eq_some h

theorem map_of_eq_none {g : α → β} (h : p cs = none) : (g <$> p) cs = none := by
  change (p cs >>= fun r => some (g r.1, r.2)) = _
  rw [h]
  rfl

theorem discard_of_eq_none (h : p cs = none) : (Functor.discard p : Scanner PUnit) cs = none :=
  map_of_eq_none h

theorem optional_of_eq_some (h : p cs = some (a, rest)) : optional p cs = some (some a, rest) :=
  orElse_of_eq_some (map_of_eq_some h)

theorem optional_of_eq_none (h : p cs = none) : optional p cs = some (none, cs) :=
  orElse_of_eq_none (map_of_eq_none h)

/-! Characters -/

theorem satisfy_of_pos {c : Char} {p : Char → Bool} (h : p c = true) (cs : List Char) :
    satisfy p (c :: cs) = some (c, cs) := if_pos h

theorem satisfy_of_neg {c : Char} {p : Char → Bool} (h : p c = false) (cs : List Char) :
    satisfy p (c :: cs) = none := if_neg (by simp [h])

@[simp]
theorem char_self (c : Char) (cs : List Char) : char c (c :: cs) = some ((), cs) :=
  discard_of_eq_some (satisfy_of_pos (by simp) cs)

theorem char_of_ne {c d : Char} (h : d ≠ c) (cs : List Char) : char c (d :: cs) = none :=
  discard_of_eq_none (satisfy_of_neg (by simpa using h) cs)

theorem word_append (text rest : List Char) : word text (text ++ rest) = some ((), rest) := by
  induction text with
  | nil => rfl
  | cons c text ih => rw [word, List.cons_append, bind_of_eq_some (char_self c _), ih]

theorem takeWhile_append {p : Char → Bool} {text rest : List Char}
    (htext : ∀ c ∈ text, p c = true) (hrest : ∀ c ∈ rest.head?, p c = false) :
    takeWhile p (text ++ rest) = some (text, rest) := by
  have hstop : rest.takeWhile p = [] ∧ rest.dropWhile p = rest := by
    cases rest with
    | nil => exact ⟨rfl, rfl⟩
    | cons c rest =>
      have hc := hrest c rfl
      exact ⟨List.takeWhile_cons_of_neg (by simp [hc]), List.dropWhile_cons_of_neg (by simp [hc])⟩
  rw [takeWhile, List.takeWhile_append_of_pos htext, List.dropWhile_append_of_pos htext, hstop.1,
    hstop.2, List.append_nil]

/-! Repetitions -/

/-- The scanner takes these values one after the other, and fails where they end. -/
inductive Run (p : Scanner α) : List Char → List α → List Char → Prop where
  | stop {cs : List Char} (h : p cs = none) : Run p cs [] cs
  | step {cs middle rest : List Char} {a : α} {as : List α} (h : p cs = some (a, middle))
      (hlength : middle.length < cs.length) (hmore : Run p middle as rest) :
      Run p cs (a :: as) rest

/-- A limit that is not smaller than the text does not cut a run short. -/
theorem upTo_of_run {as : List α} (h : Run p cs as rest) {limit : Nat}
    (hlimit : cs.length ≤ limit) : upTo p limit cs = some (as, rest) := by
  induction h generalizing limit with
  | @stop cs hfail =>
    cases limit with
    | zero => rfl
    | succ limit => exact bind_of_eq_some (optional_of_eq_none hfail)
  | @step cs middle rest a as htake hlength _ ih =>
    obtain ⟨limit, rfl⟩ : ∃ smaller, limit = smaller + 1 := ⟨limit - 1, by omega⟩
    rw [upTo, bind_of_eq_some (optional_of_eq_some htake)]
    exact bind_of_eq_some (ih (by omega))

theorem many_of_run {as : List α} (h : Run p cs as rest) : many p cs = some (as, rest) :=
  upTo_of_run h (Nat.le_refl _)

theorem many_of_eq_none (h : p cs = none) : many p cs = some ([], cs) := many_of_run (.stop h)

/-- A scanner takes texts one after the other, each of which it takes before the next. -/
theorem run_flatMap {γ : Type} {p : Scanner α} (text : γ → List Char) (value : γ → α)
    (Follows : List Char → Prop) {parts : List γ}
    (htake : ∀ part ∈ parts, ∀ rest, Follows rest →
      p (text part ++ rest) = some (value part, rest))
    (hsome : ∀ part ∈ parts, text part ≠ [])
    (hfollows : ∀ part ∈ parts, ∀ rest, Follows (text part ++ rest))
    {rest : List Char} (hrest : Follows rest) (hstop : p rest = none) :
    Run p (parts.flatMap text ++ rest) (parts.map value) rest := by
  induction parts with
  | nil => exact .stop hstop
  | cons part parts ih =>
    rw [List.forall_mem_cons] at htake hsome hfollows
    have hmore := ih htake.2 hsome.2 hfollows.2
    rw [List.flatMap_cons, List.append_assoc, List.map_cons]
    refine .step (htake.1 _ ?_) ?_ hmore
    · cases parts with
      | nil => exact hrest
      | cons next parts =>
        rw [List.flatMap_cons, List.append_assoc]
        exact hfollows.2 next (by simp) _
    · have hpos := List.length_pos_iff.2 hsome.1
      simp only [List.length_append]
      omega

/-- Values between which the scanner finds separators. -/
theorem separated_of_run {γ : Type} {p : Scanner α} {separator : Scanner γ} {as : List α}
    {middle : List Char} (hfirst : p cs = some (a, middle))
    (hmore : Run (do let _ ← separator; p) middle as rest) :
    separated p separator cs = some (a :: as, rest) := by
  rw [separated, bind_of_eq_some (optional_of_eq_some hfirst)]
  exact bind_of_eq_some (many_of_run hmore)

theorem separated_of_eq_none {γ : Type} {p : Scanner α} {separator : Scanner γ}
    (h : p cs = none) : separated p separator cs = some ([], cs) :=
  bind_of_eq_some (optional_of_eq_none h)

end CourseAdmission.Toml.Scanner
