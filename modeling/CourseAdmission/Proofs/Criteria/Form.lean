import CourseAdmission.Proofs.Criteria.SameNumbers
import CourseAdmission.Proofs.Criteria.Written
import CourseAdmission.Proofs.Decimal.Plain

/-!
Rules as they are filled in: any of their fields, with their texts and numbers.

A form is decoded to the draft of its values from the tree that either format makes of it. The
formats differ in what they make of a number alone.
-/

namespace CourseAdmission

open Document

/-! Forms -/

/-- An integer of 64 bits. -/
abbrev Integer64 : Type :=
  {k : Int // -(Word.limit 63 : Nat) ≤ k ∧ k < (Word.limit 63 : Nat)}

/-- A number that both formats can write. -/
abbrev FormNumber : Type := {n : PlainNumber // n.InRange}


theorem PlainNumber.inRange_ofInt (k : Integer64) : (ofInt k.1).InRange := by
  refine .inl ⟨rfl, ?_⟩
  rw [integer_ofInt]
  exact k.2

inductive Scalar where
  | text (s : String)
  | number (n : FormNumber)

def Scalar.ofInteger (k : Integer64) : Scalar := .number ⟨.ofInt k.1, PlainNumber.inRange_ofInt k⟩

/-- The fields of a rounding, any of which may be left out. -/
structure RoundingForm where
  kind : Option String
  decimals : Option Integer64

/-- The fields of a rule, any of which may be left out. -/
structure RuleForm where
  kind : Option String
  assignmentType : Option String
  requiredPercent : Option FormNumber
  averageRounding : Option RoundingForm
  passedPercent : Option FormNumber
  passedRounding : Option RoundingForm

/-- A value under its name, if it is filled in. -/
def filledIn {α β : Type} (name : String) (value : α → β) (given : Option α) : List (String × β) :=
  given.toList.map fun a => (name, value a)

/-- What is filled in, in order. -/
def RoundingForm.values (form : RoundingForm) : List (String × Scalar) :=
  filledIn RoundingField.kind.name .text form.kind ++
    filledIn RoundingField.decimals.name .ofInteger form.decimals

/-- What is filled in for a field of a rule. -/
inductive FormValue where
  | scalar (s : Scalar)
  | rounding (form : RoundingForm)

def FormValue.text (s : String) : FormValue := .scalar (.text s)

def FormValue.number (n : FormNumber) : FormValue := .scalar (.number n)

/-- What is filled in, in order. -/
def RuleForm.values (form : RuleForm) : List (String × FormValue) :=
  filledIn RuleField.kind.name .text form.kind ++
    filledIn RuleField.assignmentType.name .text form.assignmentType ++
    filledIn RuleField.requiredPercent.name .number form.requiredPercent ++
    filledIn RuleField.averageRounding.name .rounding form.averageRounding ++
    filledIn RuleField.passedPercent.name .number form.passedPercent ++
    filledIn RuleField.passedRounding.name .rounding form.passedRounding

/-! Trees and drafts -/

/-- How a format reads numbers: what they are in its documents, and which doubles they stand for. An
    integer of 64 bits is read as itself. -/
structure NumberReading where
  number : PlainNumber → Document.Number
  double : PlainNumber → Binary64
  double_number : ∀ {n : PlainNumber}, n.InRange →
    Decoder.double (.number (number n)) = .ok (double n)
  number_ofInt : ∀ k : Integer64, number (.ofInt k.1) = .integer k.1

variable (reading : NumberReading)

def Scalar.node : Scalar → Node
  | .text s => .ofText s
  | .number n => .number (reading.number n.1)

/-- The object of named values. -/
def nodeOfValues {β : Type} (node : β → Node) (values : List (String × β)) : Node :=
  .ofMembers (values.map fun value => (value.1, node value.2))

def RoundingForm.node (form : RoundingForm) : Node :=
  nodeOfValues (Scalar.node reading) form.values

def FormValue.node : FormValue → Node
  | .scalar s => s.node reading
  | .rounding form => form.node reading

def RuleForm.node (form : RuleForm) : Node := nodeOfValues (FormValue.node reading) form.values

/-- An object is sound if its values are. -/
theorem sound_nodeOfValues {β : Type} {node : β → Node} (values : List (String × β))
    (h : ∀ v, (node v).sound = true) : (nodeOfValues node values).sound = true := by
  induction values with
  | nil => rfl
  | cons v values ih => exact Bool.and_eq_true_iff.2 ⟨h v.2, ih⟩

theorem RuleForm.sound_node (form : RuleForm) :
    (form.node reading).sound = true := by
  refine sound_nodeOfValues form.values fun v => ?_
  cases v with
  | scalar s => cases s <;> rfl
  | rounding form =>
    refine sound_nodeOfValues form.values fun s => ?_
    cases s <;> rfl

/-- The draft of a rounding, which is the same in all formats. -/
def RoundingForm.draft (form : RoundingForm) : RoundingDraft :=
  ⟨form.kind, form.decimals.map (·.1)⟩

/-- The draft of a rule. -/
def RuleForm.draft (form : RuleForm) : RuleDraft where
  kind := form.kind
  assignmentType := form.assignmentType
  requiredPercent := form.requiredPercent.map fun n => reading.double n.1
  averageRounding := form.averageRounding.map RoundingForm.draft
  passedPercent := form.passedPercent.map fun n => reading.double n.1
  passedRounding := form.passedRounding.map RoundingForm.draft

/-! Decoding -/

section

variable {α β γ : Type} {names : List String} {node : β → Node} {values : List (String × β)}

/-- What stands in a field of an object of named values. -/
theorem written_nodeOfValues (node : β → Node) (values : List (String × β)) (names : List String)
    (place : Nat) : (nodeOfValues node values).written names place =
      (values.filter fun v => decide (v.1 ∈ names)).map fun v => node v.2 := by
  rw [nodeOfValues, Node.ofMembers, Node.written, valuesOf, List.map_map, List.filter_map,
    List.map_map]
  rfl

/-- A value stands in the field of its name alone. -/
theorem filter_filledIn (names : List String) (name : String) (value : α → β) (given : Option α) :
    (filledIn name value given).filter (fun v => decide (v.1 ∈ names)) =
      if name ∈ names then filledIn name value given else [] := by
  cases given <;> by_cases hname : name ∈ names <;> simp [filledIn, hname]

/-- A field is read as the value that is filled in, if it is the only one of its names. -/
theorem readsOptional_filledIn {decode : Decoder γ} {read : α → γ} {slot : Option γ} {place : Nat}
    (name : String) (value : α → β) (given : Option α)
    (hfilled : values.filter (fun v => decide (v.1 ∈ names)) = filledIn name value given)
    (hread : ∀ a, node (value a) ≠ .null ∧ decode (node (value a)) = .ok (read a))
    (hslot : given.map read = slot) :
    ReadsOptional decode ((nodeOfValues node values).written names place) slot := by
  rw [written_nodeOfValues, hfilled, ← hslot]
  cases given with
  | none => exact .inl ⟨rfl, rfl⟩
  | some a =>
    obtain ⟨hnull, hdecode⟩ := hread a
    exact .inr ⟨_, rfl, nullable_eq_ok_iff.2 (.inr ⟨hnull, _, hdecode, rfl⟩)⟩

theorem fills_nodeOfValues {fields : List (List String)} {needed : Nat} {surplus : Surplus}
    (hnames : values.map (·.1) ⊆ fields.flatten) :
    (nodeOfValues node values).Fills fields needed surplus := by
  intro m hm
  obtain ⟨member, hmember, rfl⟩ := List.mem_map.1 hm
  obtain ⟨v, hv, rfl⟩ := List.mem_map.1 hmember
  exact decide_eq_true (hnames (List.mem_map_of_mem hv))

theorem sublist_filledIn (name : String) (value : α → β) (given : Option α) :
    ((filledIn name value given).map (·.1)).Sublist [name] := by
  cases given with
  | none => exact List.nil_sublist _
  | some a => exact .refl _

end

namespace RoundingForm

/-- The names that are filled in, in the order of the fields. -/
theorem sublist_names (form : RoundingForm) :
    (form.values.map (·.1)).Sublist [RoundingField.kind.name, RoundingField.decimals.name] := by
  rw [values, List.map_append]
  exact (sublist_filledIn _ _ _).append (sublist_filledIn _ _ _)

theorem filter_values (form : RoundingForm) (names : List String) :
    form.values.filter (fun v => decide (v.1 ∈ names)) =
      (if RoundingField.kind.name ∈ names then
        filledIn RoundingField.kind.name .text form.kind else []) ++
      if RoundingField.decimals.name ∈ names then
        filledIn RoundingField.decimals.name Scalar.ofInteger form.decimals else [] := by
  rw [values, List.filter_append, filter_filledIn, filter_filledIn]

/-- A rounding is decoded to the draft of what is filled in. -/
theorem decoder_node (surplus : Surplus) (form : RoundingForm) :
    RoundingDraft.decoder surplus (form.node reading) = .ok form.draft := by
  refine RoundingDraft.decoder_iff_reads.2 ⟨fills_nodeOfValues form.sublist_names.subset, ?_, ?_⟩
  · refine readsOptional_filledIn RoundingField.kind.name .text form.kind ?_
      (fun _ => ⟨nofun, rfl⟩) Option.map_id'
    simp +decide only [filter_values, if_true, if_false, List.append_nil]
  · refine readsOptional_filledIn RoundingField.decimals.name .ofInteger form.decimals ?_
      (fun k => ⟨nofun, ?_⟩) rfl
    · simp +decide only [filter_values, if_true, if_false, List.nil_append]
    · change Decoder.signedWord (.number (reading.number (.ofInt k.1))) = _
      rw [reading.number_ofInt]
      have hpos : 0 < Word.limit 63 := by decide
      obtain ⟨hlow, hhigh⟩ := k.2
      exact signedWord_eq_ok_iff.2 ⟨⟨k.1, rfl, hlow, by omega⟩, rfl⟩

end RoundingForm

namespace RuleForm

def fieldNames : List String :=
  [RuleField.kind.name, RuleField.assignmentType.name, RuleField.requiredPercent.name,
    RuleField.averageRounding.name, RuleField.passedPercent.name, RuleField.passedRounding.name]

theorem sublist_names (form : RuleForm) : (form.values.map (·.1)).Sublist fieldNames := by
  simp only [values, List.map_append]
  exact (((((sublist_filledIn _ _ _).append (sublist_filledIn _ _ _)).append
    (sublist_filledIn _ _ _)).append (sublist_filledIn _ _ _)).append
    (sublist_filledIn _ _ _)).append (sublist_filledIn _ _ _)

theorem filter_values (form : RuleForm) (names : List String) :
    form.values.filter (fun v => decide (v.1 ∈ names)) =
      (if RuleField.kind.name ∈ names then
        filledIn RuleField.kind.name .text form.kind else []) ++
      (if RuleField.assignmentType.name ∈ names then
        filledIn RuleField.assignmentType.name .text form.assignmentType else []) ++
      (if RuleField.requiredPercent.name ∈ names then
        filledIn RuleField.requiredPercent.name .number form.requiredPercent else []) ++
      (if RuleField.averageRounding.name ∈ names then
        filledIn RuleField.averageRounding.name .rounding form.averageRounding else []) ++
      (if RuleField.passedPercent.name ∈ names then
        filledIn RuleField.passedPercent.name .number form.passedPercent else []) ++
      if RuleField.passedRounding.name ∈ names then
        filledIn RuleField.passedRounding.name .rounding form.passedRounding else [] := by
  simp only [values, List.filter_append, filter_filledIn]

/-- A rule is decoded to the draft of what is filled in. -/
theorem decoder_node (surplus : Surplus) (form : RuleForm) :
    RuleDraft.decoder surplus (form.node reading) = .ok (form.draft reading) := by
  have hnames : form.values.map (·.1) ⊆ RuleDraft.fieldNames.flatten :=
    List.Subset.trans form.sublist_names.subset (by decide)
  have hnumber (n : FormNumber) : FormValue.node reading (.number n) ≠ .null ∧
      Decoder.double (FormValue.node reading (.number n)) = .ok (reading.double n.1) :=
    ⟨nofun, reading.double_number n.2⟩
  have hrounding (form : RoundingForm) : FormValue.node reading (.rounding form) ≠ .null ∧
      RoundingDraft.decoder surplus (FormValue.node reading (.rounding form)) = .ok form.draft :=
    ⟨nofun, form.decoder_node reading surplus⟩
  refine RuleDraft.decoder_iff_reads.2 ⟨fills_nodeOfValues hnames,
    readsOptional_filledIn RuleField.kind.name .text form.kind ?_ (fun _ => ⟨nofun, rfl⟩)
      Option.map_id',
    readsOptional_filledIn RuleField.assignmentType.name .text form.assignmentType ?_
      (fun _ => ⟨nofun, rfl⟩) Option.map_id',
    readsOptional_filledIn RuleField.requiredPercent.name .number form.requiredPercent ?_ hnumber
      rfl,
    readsOptional_filledIn RuleField.averageRounding.name .rounding form.averageRounding ?_
      hrounding rfl,
    readsOptional_filledIn RuleField.passedPercent.name .number form.passedPercent ?_ hnumber rfl,
    readsOptional_filledIn RuleField.passedRounding.name .rounding form.passedRounding ?_ hrounding
      rfl⟩ <;>
  simp +decide only [filter_values, if_true, if_false, List.append_nil, List.nil_append]

/-- The rules of a document are decoded to the drafts of their forms. -/
theorem decoder_rules (surplus : Surplus) (forms : List RuleForm) :
    CriteriaDraft.decoder surplus (.ofMembers [("rules", .array (forms.map (node reading)))]) =
      .ok (forms.map (draft reading)) := by
  have hrules : Decoder.list (RuleDraft.decoder surplus) (.array (forms.map (node reading))) =
      .ok (forms.map (draft reading)) := by
    refine mapM_eq_ok_iff_forall₂.2 ?_
    rw [List.forall₂_map_left_iff, List.forall₂_map_right_iff]
    exact List.forall₂_same.2 fun form _ => form.decoder_node reading surplus
  refine CriteriaDraft.decoder_iff_reads.2 ⟨?_, .inr ⟨_, rfl, hrules⟩⟩
  intro m hm
  obtain rfl := List.mem_singleton.1 hm
  rfl

/-- Where two formats read percentages as equal numbers, the drafts of a form are the same but for
    the signs of zeros. -/
theorem sameNumbers_draft {reading reading' : NumberReading}
    (hsame : ∀ n : PlainNumber, n.InRange → (reading.double n == reading'.double n) = true)
    (form : RuleForm) : (form.draft reading).SameNumbers (form.draft reading') := by
  have hpercent (percent : Option FormNumber) : Option.Rel (fun x y => (x == y) = true)
      (percent.map fun n => reading.double n.1) (percent.map fun n => reading'.double n.1) := by
    cases percent with
    | none => exact .none
    | some n => exact .some (hsame n.1 n.2)
  exact ⟨rfl, rfl, hpercent _, rfl, hpercent _, rfl⟩

end RuleForm

end CourseAdmission
