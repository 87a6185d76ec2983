import CourseAdmission.Proofs.Document.Shape

/-!
What is written in the fields of a record that is decoded, in either of its two forms.

An object holds its fields by name and an array by place. A decoder of several optional fields reads
each of them from what is written there, so what is known of the values is known of the document.
-/

namespace CourseAdmission.Document

namespace Node

/-- What is written in the field of these names that has this place in its record. -/
def written (node : Node) (names : List String) (place : Nat) : List Node :=
  match node with
  | .object members => valuesOf names members
  | .array items => items[place]?.toList
  | _ => []

/-- The node has no more than the fields of these names: an object whose members all belong to one
    of them, or an array with an item for each of the first `needed`. -/
def Fills (names : List (List String)) (needed : Nat) (surplus : Surplus) : Node → Prop
  | .object members => ∀ m ∈ members, hasName names.flatten m = true
  | .array items => needed ≤ items.length ∧ (surplus = .refused → items.length ≤ names.length)
  | _ => False

end Node

/-- What is written in an optional field is read as the value: it is written at most once, and
    there is no value if it is not written, or written as `null`. -/
def ReadsOptional {α : Type} (decode : Decoder α) (written : List Node) (value : Option α) : Prop :=
  (written = [] ∧ value = none) ∨ ∃ node, written = [node] ∧ decode.nullable node = .ok value

/-- A value is read of the one node that stands in the field. -/
theorem ReadsOptional.exists_eq_singleton {α : Type} {decode : Decoder α} {written : List Node}
    {a : α} (h : ReadsOptional decode written (some a)) :
    ∃ node, written = [node] ∧ decode node = .ok a := by
  rcases h with ⟨-, ⟨⟩⟩ | ⟨node, hwritten, hnode⟩
  rcases nullable_eq_ok_iff.1 hnode with ⟨-, ⟨⟩⟩ | ⟨-, b, hb, heq⟩
  cases heq
  exact ⟨node, hwritten, hb⟩

namespace Record

variable {α β : Type} {names further : List (List String)} {first : Nat}

/-- The items of an array are taken, and none may be left over where that is refused. -/
theorem decode_array_iff {record : Record α} {unknown : Unknown} {surplus : Surplus}
    {items : List Node} {a : α} : record.decode unknown surplus (.array items) = .ok a ↔
      ∃ slots left, record.takeItems record.start items = .ok (slots, left) ∧
        (surplus = .refused → left = []) ∧ record.finish slots = .ok a := by
  rw [decode, bind_eq_ok_iff]
  have hcond (left : List Node) : (left.isEmpty = true ∨ surplus = .ignored) ↔
      (surplus = .refused → left = []) := by
    cases surplus <;> simp
  constructor
  · rintro ⟨⟨slots, left⟩, htake, hmore⟩
    dsimp only at hmore
    split at hmore
    case isTrue hleft => exact ⟨slots, left, htake, (hcond left).1 hleft, hmore⟩
    case isFalse => cases hmore
  · rintro ⟨slots, left, htake, hleft, hfinish⟩
    exact ⟨(slots, left), htake, (if_pos ((hcond left).2 hleft)).trans hfinish⟩

/-- A field reads the one value that stands under its names, or has its value without any. -/
theorem reads_field_iff_valuesOf {name : String} {otherNames : List String} {absent : Absent α}
    {decode : Decoder α} {members : List (Text × Node)} {value : α} :
    (field name otherNames absent decode).Reads .refused
        (members.filter (hasName (name :: otherNames))) value ↔
      (valuesOf (name :: otherNames) members = [] ∧ absent.value? = some value) ∨
        ∃ node, valuesOf (name :: otherNames) members = [node] ∧ decode node = .ok value := by
  rw [reads_field, valuesOf, List.map_eq_nil_iff]
  refine or_congr_right ?_
  constructor
  · rintro ⟨member, hmember, -, hread⟩
    exact ⟨member.2, by rw [hmember, List.map_singleton], hread⟩
  · rintro ⟨node, hwritten, hread⟩
    obtain ⟨member, hmember, rfl⟩ := List.map_eq_singleton_iff.1 hwritten
    have hname := List.mem_filter.1 (hmember ▸ List.mem_singleton_self member)
    exact ⟨member, hmember, hname.2, hread⟩

/-- The record has fields of these names, the places of which begin with `first`. It reads the
    values that are related to what is written in its fields. -/
structure Relates (record : Record α) (first : Nat) (names : List (List String))
    (R : (List String → Nat → List Node) → α → Prop) : Prop where
  named : record.Named names.flatten
  ofMembers : ∀ {members a}, record.Reads .refused (members.filter (hasName names.flatten)) a ↔
    R (Node.object members).written a
  ofItems : ∀ before {items rest a}, before.length = first →
    ((∃ slots, record.takeItems record.start items = .ok (slots, rest) ∧
        record.finish slots = .ok a) ↔
      R (Node.array (before ++ items)).written a ∧
        ∃ taken, items = taken ++ rest ∧ taken.length = names.length)

theorem relates_optional (first : Nat) (name : String) (otherNames : List String)
    (decode : Decoder α) :
    (optional name otherNames decode).Relates first [name :: otherNames]
      fun written value => ReadsOptional decode (written (name :: otherNames) first) value where
  named := by simpa using named_optional name otherNames decode
  ofMembers := by
    intro members value
    rw [optional, List.flatten_singleton, reads_field_iff_valuesOf]
    exact or_congr_left (and_congr_right fun _ => by rw [Absent.value?, Option.some_inj, eq_comm])
  ofItems := by
    rintro before items rest value rfl
    cases items with
    | nil =>
      constructor
      · rintro ⟨slots, htake, -⟩
        cases htake
      · rintro ⟨-, taken, hitems, htaken⟩
        simp [List.nil_eq_append_iff.1 hitems] at htaken
    | cons item items =>
      have hwritten : (Node.array (before ++ item :: items)).written (name :: otherNames)
          before.length = [item] := by simp [Node.written]
      rw [hwritten]
      constructor
      · rintro ⟨slots, htake, hfinish⟩
        obtain ⟨read, hread, heq⟩ := map_eq_ok_iff.1 htake
        cases heq
        cases hfinish
        exact ⟨.inr ⟨item, rfl, hread⟩, [item], rfl, rfl⟩
      · rintro ⟨⟨⟨⟩, -⟩ | ⟨node, heq, hread⟩, taken, hitems, htaken⟩
        cases heq
        obtain ⟨first, rfl⟩ := List.length_eq_one_iff.1 htaken
        cases hitems
        exact ⟨some value, map_eq_ok_iff.2 ⟨value, hread, rfl⟩, rfl⟩

namespace Relates

variable {R : (List String → Nat → List Node) → α → Prop}

theorem map {record : Record α} (h : record.Relates first names R) (f : α → β) :
    (f <$> record).Relates first names fun written b => ∃ a, R written a ∧ f a = b where
  named := named_map h.named f
  ofMembers := by
    intro members b
    rw [reads_map]
    simp only [h.ofMembers]
  ofItems := by
    intro before items rest b hfirst
    constructor
    · rintro ⟨slots, htake, hfinish⟩
      obtain ⟨a, ha, rfl⟩ := map_eq_ok_iff.1 hfinish
      obtain ⟨hrelated, htaken⟩ := (h.ofItems before hfirst).1 ⟨slots, htake, ha⟩
      exact ⟨⟨a, hrelated, rfl⟩, htaken⟩
    · rintro ⟨⟨a, hrelated, rfl⟩, htaken⟩
      obtain ⟨slots, htake, ha⟩ := (h.ofItems before hfirst).2 ⟨hrelated, htaken⟩
      exact ⟨slots, htake, map_eq_ok_iff.2 ⟨a, ha, rfl⟩⟩

/-- Two records side by side relate what each of them relates. -/
theorem seq {functions : Record (α → β)} {arguments : Record α}
    {F : (List String → Nat → List Node) → (α → β) → Prop} (hf : functions.Relates first names F)
    (ha : arguments.Relates (first + names.length) further R)
    (hdisjoint : ∀ name ∈ names.flatten, name ∉ further.flatten) :
    (functions <*> arguments).Relates first (names ++ further)
      fun written b => ∃ f a, F written f ∧ R written a ∧ f a = b where
  named := by
    rw [List.flatten_append]
    exact named_seq hf.named ha.named
  ofMembers := by
    intro members b
    rw [List.flatten_append, reads_seq hf.named hdisjoint]
    simp only [hf.ofMembers, ha.ofMembers]
  ofItems := by
    intro before items rest b hfirst
    constructor
    · rintro ⟨⟨slotsf, slotsa⟩, htake, hfinish⟩
      obtain ⟨⟨s, mid⟩, hs, hmore⟩ := bind_eq_ok_iff.1 htake
      obtain ⟨⟨t, last⟩, ht, heq⟩ := bind_eq_ok_iff.1 hmore
      cases heq
      obtain ⟨pair, hpair, rfl⟩ := map_eq_ok_iff.1 hfinish
      obtain ⟨f, hfinishf, hmore⟩ := bind_eq_ok_iff.1 hpair
      obtain ⟨a, hfinisha, heq⟩ := bind_eq_ok_iff.1 hmore
      cases heq
      obtain ⟨hrelf, taken, rfl, htaken⟩ := (hf.ofItems before hfirst).1 ⟨_, hs, hfinishf⟩
      -- The arguments take their items where the functions stop.
      obtain ⟨hrela, takena, rfl, htakena⟩ := (ha.ofItems (before ++ taken)
        (by simp [hfirst, htaken])).1 ⟨_, ht, hfinisha⟩
      rw [List.append_assoc] at hrela
      exact ⟨⟨f, a, hrelf, hrela, rfl⟩, taken ++ takena, by simp, by simp [htaken, htakena]⟩
    · rintro ⟨⟨f, a, hrelf, hrela, rfl⟩, taken, rfl, htaken⟩
      obtain ⟨takenf, takena, rfl, htakenf, htakena⟩ :
          ∃ takenf takena, taken = takenf ++ takena ∧ takenf.length = names.length ∧
            takena.length = further.length := by
        rw [List.length_append] at htaken
        exact ⟨taken.take names.length, taken.drop names.length, by simp,
          by rw [List.length_take]; omega, by rw [List.length_drop]; omega⟩
      rw [List.append_assoc] at hrelf hrela ⊢
      rw [← List.append_assoc before] at hrela
      obtain ⟨s, hs, hfinishf⟩ := (hf.ofItems before hfirst).2 ⟨hrelf, takenf, rfl, htakenf⟩
      obtain ⟨t, ht, hfinisha⟩ := (ha.ofItems (before ++ takenf)
        (by simp [hfirst, htakenf])).2 ⟨hrela, takena, rfl, htakena⟩
      refine ⟨(s, t), bind_eq_ok_iff.2 ⟨_, hs, bind_eq_ok_iff.2 ⟨_, ht, rfl⟩⟩, ?_⟩
      exact map_eq_ok_iff.2 ⟨(f, a), bind_eq_ok_iff.2 ⟨f, hfinishf,
        bind_eq_ok_iff.2 ⟨a, hfinisha, rfl⟩⟩, rfl⟩

/-- A node in either form is decoded if it has all the fields and no more, as the values that are
    related to what is written in them. -/
theorem decode_iff {record : Record α} {surplus : Surplus} {node : Node} {a : α}
    (h : record.Relates 0 names R) : record.decode .refused surplus node = .ok a ↔
      node.Fills names names.length surplus ∧ R node.written a := by
  cases node with
  | object members =>
    rw [decode_object_eq_ok_iff, reads_refused_iff h.named, h.ofMembers]
    rfl
  | array items =>
    rw [decode_array_iff]
    constructor
    · rintro ⟨slots, rest, htake, hrest, hfinish⟩
      obtain ⟨hrelated, taken, rfl, htaken⟩ := (h.ofItems [] rfl).1 ⟨slots, htake, hfinish⟩
      exact ⟨⟨by simp [htaken], fun hrefused => by simp [hrest hrefused, htaken]⟩, hrelated⟩
    · rintro ⟨⟨hneeded, hsurplus⟩, hrelated⟩
      obtain ⟨slots, htake, hfinish⟩ := (h.ofItems [] rfl).2 ⟨hrelated, items.take names.length,
        (List.take_append_drop _ _).symm, by simp [hneeded]⟩
      exact ⟨slots, _, htake, fun hrefused => by simpa using hsurplus hrefused, hfinish⟩
  | _ => simp [decode, Node.Fills]

end Relates

/-- A record of one field with a value by default is read from what is written in the field. An
    array may be empty. -/
theorem decode_defaulted_iff {name : String} {otherNames : List String} {default a : α}
    {decode : Decoder α} {surplus : Surplus} {node : Node} :
    (defaulted name otherNames default decode).decode .refused surplus node = .ok a ↔
      node.Fills [name :: otherNames] 0 surplus ∧
        ((node.written (name :: otherNames) 0 = [] ∧ a = default) ∨
          ∃ value, node.written (name :: otherNames) 0 = [value] ∧ decode value = .ok a) := by
  cases node with
  | object members =>
    rw [decode_object_eq_ok_iff, defaulted, reads_refused_iff (named_field _ _ _ _),
      reads_field_iff_valuesOf, Node.Fills, List.flatten_singleton, Node.written]
    exact and_congr_right fun _ =>
      or_congr_left (and_congr_right fun _ => by rw [Absent.value?, Option.some_inj, eq_comm])
  | array items =>
    rw [decode_array_iff]
    cases items with
    | nil =>
      constructor
      · rintro ⟨_, _, htake, -, hfinish⟩
        cases htake
        cases hfinish
        exact ⟨⟨Nat.le_refl _, fun _ => Nat.zero_le _⟩, .inl ⟨rfl, rfl⟩⟩
      · rintro ⟨-, ⟨-, rfl⟩ | ⟨value, hwritten, -⟩⟩
        · exact ⟨_, _, rfl, fun _ => rfl, rfl⟩
        · cases hwritten
    | cons item items =>
      have hwritten : (Node.array (item :: items)).written (name :: otherNames) 0 = [item] := rfl
      rw [hwritten]
      constructor
      · rintro ⟨_, _, htake, hleft, hfinish⟩
        obtain ⟨value, hvalue, heq⟩ := map_eq_ok_iff.1 htake
        cases heq
        cases hfinish
        exact ⟨⟨Nat.zero_le _, fun hrefused => by simp [hleft hrefused]⟩, .inr ⟨item, rfl, hvalue⟩⟩
      · rintro ⟨⟨-, hsurplus⟩, ⟨hnil, -⟩ | ⟨value, heq, hvalue⟩⟩
        · cases hnil
        · cases heq
          exact ⟨_, _, map_eq_ok_iff.2 ⟨a, hvalue, rfl⟩,
            fun hrefused => by simpa using hsurplus hrefused, rfl⟩
  | _ => simp [Record.decode, Node.Fills]

end Record

end CourseAdmission.Document
