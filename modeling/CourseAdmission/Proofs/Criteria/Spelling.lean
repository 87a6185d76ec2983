import CourseAdmission.Proofs.Criteria.Written
import CourseAdmission.Proofs.Results.TypeTag

/-!
The spelling of criteria: which texts say the same, and which names are no names of a field.

The order of members, the two names of a field, members that hold `null`, and the blanks and cases
of an assignment type are matters of spelling. A document is respelled by one change after another,
each in one place.
-/

namespace CourseAdmission

open Document

/-- The parts of criteria that may be spelled in several ways. -/
inductive CriteriaPart where
  | criteria
  | rules
  | rule
  | rounding
  | assignmentType
  deriving DecidableEq

namespace CriteriaPart

/-- The fields of a part: the names of each, and the part that it holds. -/
def fields : CriteriaPart → List (List String × Option CriteriaPart)
  | .criteria => [(CriteriaDraft.rulesNames, some .rules)]
  | .rule => [
    ([RuleField.kind.name], none),
    ([RuleField.assignmentType.name], some .assignmentType),
    ([RuleField.requiredPercent.name], none),
    (RuleDraft.roundingNames, some .rounding),
    ([RuleField.passedPercent.name], none),
    ([RuleField.passedRounding.name], some .rounding)]
  | .rounding => [([RoundingField.kind.name], none), ([RoundingField.decimals.name], none)]
  | .rules | .assignmentType => []

/-- The part that stands at a place of an array: a list of rules, or the fields in their order. -/
def item? : CriteriaPart → Nat → Option CriteriaPart
  | .rules, _ => some .rule
  | part, place => part.fields[place]?.bind (·.2)

/-- The fields of rules and roundings may hold `null`. -/
def MayHoldNull (part : CriteriaPart) : Prop := part = .rule ∨ part = .rounding

end CriteriaPart

/-- One change of the spelling of a part. -/
inductive Respelling : CriteriaPart → Node → Node → Prop where
  /-- The members of an object change places. -/
  | permuted {part : CriteriaPart} {members members' : List (Text × Node)}
      (h : members.Perm members') : Respelling part (.object members) (.object members')
  /-- A member goes by another name of its field. -/
  | renamed {part : CriteriaPart} {names : List String} {child : Option CriteriaPart}
      {name name' : String} {value : Node} (before after : List (Text × Node))
      (hfield : (names, child) ∈ part.fields) (hname : name ∈ names) (hname' : name' ∈ names) :
      Respelling part (.object (before ++ (.whole name, value) :: after))
        (.object (before ++ (.whole name', value) :: after))
  /-- A member that holds `null` is left out. -/
  | nullDropped {part : CriteriaPart} {name : Text} (before after : List (Text × Node))
      (hnull : part.MayHoldNull) :
      Respelling part (.object (before ++ (name, .null) :: after)) (.object (before ++ after))
  /-- A field without a member gets one that holds `null`. -/
  | nullAdded {part : CriteriaPart} {names : List String} {child : Option CriteriaPart}
      {name : String} (before after : List (Text × Node)) (hnull : part.MayHoldNull)
      (hfield : (names, child) ∈ part.fields) (hname : name ∈ names)
      (habsent : ∀ m ∈ before ++ after, hasName names m = false) :
      Respelling part (.object (before ++ after))
        (.object (before ++ (.whole name, .null) :: after))
  /-- The tag of an assignment type is spelled in another way. -/
  | tag {text text' : String} {type : AssignmentType}
      (htext : AssignmentType.ofText? text = some type) (htext' : type.Spells text') :
      Respelling .assignmentType (.ofText text) (.ofText text')
  /-- The part that a member holds is spelled in another way. -/
  | member {part child : CriteriaPart} {names : List String} {name : Text} {value value' : Node}
      (before after : List (Text × Node)) (hfield : (names, some child) ∈ part.fields)
      (hname : hasName names (name, value) = true) (h : Respelling child value value') :
      Respelling part (.object (before ++ (name, value) :: after))
        (.object (before ++ (name, value') :: after))
  /-- The part at a place of an array is spelled in another way. -/
  | item {part child : CriteriaPart} {value value' : Node} (before after : List Node)
      (hchild : part.item? before.length = some child) (h : Respelling child value value') :
      Respelling part (.array (before ++ value :: after)) (.array (before ++ value' :: after))

/-- One name in one object, of the part itself or anywhere inside it, is replaced by a text that is
    not the name of a field there. -/
inductive Misspelling : CriteriaPart → Node → Node → Prop where
  | name {part : CriteriaPart} {name name' : Text} {value : Node}
      (before after : List (Text × Node))
      (hunknown : ∀ field ∈ part.fields, hasName field.1 (name', value) = false) :
      Misspelling part (.object (before ++ (name, value) :: after))
        (.object (before ++ (name', value) :: after))
  | member {part child : CriteriaPart} {names : List String} {name : Text} {value value' : Node}
      (before after : List (Text × Node)) (hfield : (names, some child) ∈ part.fields)
      (hname : hasName names (name, value) = true) (h : Misspelling child value value') :
      Misspelling part (.object (before ++ (name, value) :: after))
        (.object (before ++ (name, value') :: after))
  | item {part child : CriteriaPart} {value value' : Node} (before after : List Node)
      (hchild : part.item? before.length = some child) (h : Misspelling child value value') :
      Misspelling part (.array (before ++ value :: after)) (.array (before ++ value' :: after))

/-! The fields of a part -/

namespace Document

theorem valuesOf_append (names : List String) (members further : List (Text × Node)) :
    valuesOf names (members ++ further) = valuesOf names members ++ valuesOf names further := by
  rw [valuesOf, List.filter_append, List.map_append]
  rfl

/-- What stands before, in and after a member of an object. -/
theorem valuesOf_append_cons (names : List String) (before after : List (Text × Node))
    (m : Text × Node) : valuesOf names (before ++ m :: after) =
      valuesOf names before ++ if hasName names m = true then m.2 :: valuesOf names after
        else valuesOf names after := by
  rw [valuesOf_append]
  congr 1
  split
  case isTrue h => exact congrArg (List.map _) (List.filter_cons_of_pos h)
  case isFalse h => exact congrArg (List.map _) (List.filter_cons_of_neg h)

end Document

namespace CriteriaPart

variable {part : CriteriaPart}

/-- The names of the fields of a part. -/
def names (part : CriteriaPart) : List (List String) := part.fields.map (·.1)

/-- An array of fields holds a part where the field at that place does. -/
theorem exists_field_of_item? {child : CriteriaPart} {place : Nat} (hrules : part ≠ .rules)
    (hchild : part.item? place = some child) :
    ∃ names, part.fields[place]? = some (names, some child) := by
  have hfield : part.fields[place]?.bind (·.2) = some child := by
    cases part with
    | rules => exact absurd rfl hrules
    | _ => exact hchild
  obtain ⟨⟨names, _⟩, hsome, rfl⟩ := Option.bind_eq_some_iff.1 hfield
  exact ⟨names, hsome⟩

/-- No name belongs to two fields of a part. -/
theorem field_unique (part : CriteriaPart) : ∀ field ∈ part.fields, ∀ field' ∈ part.fields,
    ∀ name ∈ field.1, name ∈ field'.1 → field = field' := by
  cases part <;> decide

theorem hasName_flatten_names {m : Text × Node} : hasName part.names.flatten m = true ↔
    ∃ field ∈ part.fields, hasName field.1 m = true := by
  simp [names, hasName_flatten]

theorem eq_of_hasName {field field' : List String × Option CriteriaPart} {m : Text × Node}
    (hfield : field ∈ part.fields) (hfield' : field' ∈ part.fields)
    (hname : hasName field.1 m = true) (hname' : hasName field'.1 m = true) : field = field' := by
  obtain ⟨name, hmem, hwhole⟩ := hasName_iff.1 hname
  obtain ⟨same, hsame, hwhole'⟩ := hasName_iff.1 hname'
  cases hwhole.symm.trans hwhole'
  exact part.field_unique _ hfield _ hfield' _ hmem hsame

end CriteriaPart

end CourseAdmission
