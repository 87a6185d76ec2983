import CourseAdmission.Proofs.Binary64.Order
import CourseAdmission.Proofs.Criteria.Form
import CourseAdmission.Proofs.Json.Compact
import CourseAdmission.Proofs.Json.Plain
import CourseAdmission.Proofs.Toml.Tables

/-!
The same rules written in both formats.

A list of forms is written as one JSON document and as TOML tables, each number with the same
digits. Both texts are read as the trees of the forms, so they are decoded to drafts that differ in
the signs of zeros at most: the one number that the formats read differently is `-0`, which JSON
takes for a double and TOML for an integer.
-/

namespace CourseAdmission

open Document

/-! Numbers -/

theorem Json.beq_negativeZero : (-Binary64.ofNat 0 == Binary64.ofInt 0) = true := by decide +kernel

/-- The double that a number without an exponent stands for in JSON. -/
def Json.percentOf (n : PlainNumber) : Binary64 :=
  if n.places ≠ 0 then n.toDouble
  else if n.negative = true ∧ n.digits = 0 then -.ofNat 0
  else .ofInt n.integer

def Json.reading : NumberReading where
  number n := n.numeral.number
  double := percentOf
  double_number := by
    intro n hrange
    unfold percentOf
    split
    case isTrue hplaces =>
      rw [PlainNumber.number_numeral_of_places hplaces hrange]
      rfl
    case isFalse hplaces =>
      rw [not_not] at hplaces
      split
      case isTrue hzero =>
        rw [PlainNumber.number_numeral_of_zero hplaces hzero.1 hzero.2]
        rfl
      case isFalse hzero =>
        rw [PlainNumber.number_numeral_of_whole hplaces hrange fun hnegative hdigits =>
          hzero ⟨hnegative, hdigits⟩]
        rfl
  number_ofInt := by
    intro k
    have hzero : (PlainNumber.ofInt k.1).negative = true → (PlainNumber.ofInt k.1).digits ≠ 0 := by
      intro hnegative
      have hlt : k.1 < 0 := of_decide_eq_true hnegative
      exact Int.natAbs_ne_zero.2 hlt.ne
    rw [PlainNumber.number_numeral_of_whole rfl (PlainNumber.inRange_ofInt k) hzero,
      PlainNumber.integer_ofInt]

def Toml.percentOf (n : PlainNumber) : Binary64 :=
  if n.places = 0 then .ofInt n.integer else n.toDouble

def Toml.reading : NumberReading where
  number := scannedNumber
  double := percentOf
  double_number := by
    intro n _
    unfold scannedNumber percentOf
    split <;> rfl
  number_ofInt k := by
    change Number.integer (PlainNumber.ofInt k.1).integer = _
    rw [PlainNumber.integer_ofInt]

theorem Binary64.beq_ofInt (k : Int) : (ofInt k == ofInt k) = true := by
  have hnan := (place_ofQuotient (decide (k < 0)) (k.natAbs * unitsPerOne) 1).1
  exact beq_iff_place.2 ⟨hnan, hnan, rfl⟩

/-- Both formats read a number as the same one, but for the sign of a zero. -/
theorem beq_percentOf {n : PlainNumber} (hrange : n.InRange) :
    (Json.reading.double n == Toml.reading.double n) = true := by
  change (Json.percentOf n == Toml.percentOf n) = true
  unfold Json.percentOf Toml.percentOf
  by_cases hplaces : n.places = 0
  · rw [if_neg (not_not.2 hplaces), if_pos hplaces]
    split
    case isTrue hzero =>
      have hinteger : n.integer = 0 := by simp [PlainNumber.integer, hzero.2]
      rw [hinteger]
      exact Json.beq_negativeZero
    case isFalse => exact Binary64.beq_ofInt _
  · obtain ⟨hdigits, hfew⟩ := hrange.resolve_left fun h => hplaces h.1
    rw [if_pos hplaces, if_neg hplaces]
    exact Binary64.beq_self (Binary64.isFinite_ofDecimal _ hdigits (by omega))

/-! JSON -/

section

open Json Json.Token

/-- An object of named values. -/
def Json.ofValues {β : Type} (json : β → String) (values : List (String × β)) : String :=
  enclose "\x7b" "\x7d" (values.map fun v => quote v.1 ++ ":" ++ json v.2)

/-- An object is scanned as the tokens of its values. -/
theorem Json.scannedAs_ofValues {β : Type} {json : β → String} {node : β → Node}
    (values : List (String × β)) (h : ∀ v, ScannedAs (json v).toList (tokens (node v))) :
    ScannedAs (ofValues json values).toList (tokens (nodeOfValues node values)) := by
  have hparts : List.Forall₂ ScannedAs
      ((values.map fun v => quote v.1 ++ ":" ++ json v.2).map String.toList)
      (tokensOfMembers ((values.map fun v => (v.1, node v.2)).map fun m => (.whole m.1, m.2))) := by
    induction values with
    | nil => exact .nil
    | cons v values ih => exact .cons (scannedAs_member v.1 (h v.2)) ih
  exact scannedAs_enclose '\x7b' '\x7d' (fun _ => rfl) (fun _ => rfl) (by decide) hparts

def Scalar.json : Scalar → String
  | .text s => quote s
  | .number n => String.ofList n.1.text

def FormValue.json : FormValue → String
  | .scalar s => s.json
  | .rounding form => ofValues Scalar.json form.values

def RuleForm.json (form : RuleForm) : String := ofValues FormValue.json form.values

/-- The rules in one JSON document. -/
def RuleForm.jsonText (forms : List RuleForm) : String :=
  enclose "\x7b" "\x7d" [quote "rules" ++ ":" ++ enclose "[" "]" (forms.map json)]

theorem Scalar.scannedAs_json (s : Scalar) :
    ScannedAs s.json.toList (tokens (s.node Json.reading)) := by
  cases s with
  | text s => exact fun rest _ => scan_quote s rest
  | number n =>
    intro rest hrest
    rw [Scalar.json, String.toList_ofList, ← PlainNumber.spelled_numeral]
    exact scan_spelled PlainNumber.wellFormed_numeral hrest

theorem FormValue.scannedAs_json (v : FormValue) :
    ScannedAs v.json.toList (tokens (v.node Json.reading)) := by
  cases v with
  | scalar s => exact s.scannedAs_json
  | rounding form => exact scannedAs_ofValues form.values Scalar.scannedAs_json

namespace RuleForm

theorem scannedAs_jsonText (forms : List RuleForm) : ScannedAs (jsonText forms).toList
    (tokens (.ofMembers [("rules", .array (forms.map (node Json.reading)))])) := by
  have hitems : List.Forall₂ ScannedAs ((forms.map json).map String.toList)
      (tokensOfItems (forms.map (node Json.reading))) := by
    induction forms with
    | nil => exact .nil
    | cons form forms ih =>
      exact .cons (scannedAs_ofValues form.values FormValue.scannedAs_json) ih
  have harray := scannedAs_enclose '[' ']' (fun _ => rfl) (fun _ => rfl) (by decide) hitems
  exact scannedAs_enclose '\x7b' '\x7d' (fun _ => rfl) (fun _ => rfl) (by decide)
    (.cons (scannedAs_member "rules" harray) .nil)

theorem read_jsonText (forms : List RuleForm) : Json.read (jsonText forms) =
    ⟨.ofMembers [("rules", .array (forms.map (node Json.reading)))], true⟩ := by
  refine read_of_scannedAs ?_ (scannedAs_jsonText forms)
  have hitems : Node.soundItems (forms.map (node Json.reading)) = true := by
    induction forms with
    | nil => rfl
    | cons form forms ih => exact Bool.and_eq_true_iff.2 ⟨sound_node _ form, ih⟩
  exact Bool.and_eq_true_iff.2 ⟨hitems, rfl⟩

end RuleForm

end

/-! TOML -/

section

open Toml

def Scalar.toml : Scalar → List Char
  | .text s => quote s
  | .number n => n.1.text

/-- Named values, each with its text and what it is read as. -/
def Toml.assignments {β : Type} (toml : β → List Char) (node : β → Node)
    (values : List (String × β)) : List Assignment :=
  values.map fun v => ⟨v.1, toml v.2, node v.2⟩

def FormValue.toml : FormValue → List Char
  | .scalar s => s.toml
  | .rounding form => braces (assignments Scalar.toml (Scalar.node Toml.reading) form.values)

def RuleForm.assignments (form : RuleForm) : List Assignment :=
  Toml.assignments FormValue.toml (FormValue.node Toml.reading) form.values

/-- The rules as an array of tables. -/
def RuleForm.tomlText (forms : List RuleForm) : String :=
  String.ofList ((forms.map assignments).flatMap (table "rules"))

theorem Scalar.scannedAs_toml (depth : Nat) (s : Scalar) :
    Toml.ScannedAs depth s.toml (s.node Toml.reading) := by
  cases s with
  | text s => exact scannedAs_quote depth s
  | number n => exact scannedAs_text depth n.2

theorem Toml.sound_assignments {β : Type} {toml : β → List Char} {node : β → Node} {depth : Nat}
    {names : List String} {values : List (String × β)}
    (hnames : (values.map (·.1)).Sublist names) (hbare : ∀ name ∈ names, IsBare name)
    (hscanned : ∀ v, Toml.ScannedAs depth (toml v) (node v)) :
    ∀ a ∈ assignments toml node values, a.Sound depth := by
  intro a ha
  obtain ⟨v, hv, rfl⟩ := List.mem_map.1 ha
  exact ⟨hbare v.1 (hnames.subset (List.mem_map_of_mem hv)), hscanned v.2⟩

theorem Toml.nodup_assignments {β : Type} {toml : β → List Char} {node : β → Node}
    {names : List String} {values : List (String × β)}
    (hnames : (values.map (·.1)).Sublist names) (hnodup : names.Nodup) :
    ((assignments toml node values).map Assignment.name).Nodup := by
  rw [assignments, List.map_map]
  exact hnames.nodup hnodup

theorem Toml.objectOf_assignments {β : Type} (toml : β → List Char) (node : β → Node)
    (values : List (String × β)) :
    objectOf (assignments toml node values) = nodeOfValues node values := by
  rw [objectOf, assignments, List.map_map]
  rfl

theorem FormValue.scannedAs_toml (depth : Nat) (v : FormValue) :
    Toml.ScannedAs (depth + 1) v.toml (v.node Toml.reading) := by
  cases v with
  | scalar s => exact s.scannedAs_toml _
  | rounding form =>
    have hscanned := scannedAs_braces
      (sound_assignments form.sublist_names (by decide) (Scalar.scannedAs_toml depth))
      (nodup_assignments form.sublist_names (by decide))
    rw [objectOf_assignments] at hscanned
    exact hscanned

namespace RuleForm

theorem read_tomlText (forms : List RuleForm) : Toml.read (tomlText forms) =
    some (.ofMembers (if forms = [] then [] else
      [("rules", .array (forms.map (node Toml.reading)))])) := by
  have hsound : ∀ entries ∈ forms.map assignments, ∀ a ∈ entries, a.Sound depthLimit := by
    intro entries hentries
    obtain ⟨form, -, rfl⟩ := List.mem_map.1 hentries
    exact sound_assignments form.sublist_names (by decide) (FormValue.scannedAs_toml _)
  have hnames : ∀ entries ∈ forms.map assignments, (entries.map Assignment.name).Nodup := by
    intro entries hentries
    obtain ⟨form, -, rfl⟩ := List.mem_map.1 hentries
    exact nodup_assignments form.sublist_names (by decide)
  have hobjects : (forms.map assignments).map objectOf = forms.map (node Toml.reading) := by
    rw [List.map_map]
    exact List.map_congr_left fun form _ => objectOf_assignments _ _ form.values
  rw [tomlText, read_tables (by decide) hsound hnames, objectOfTables, hobjects]
  simp only [List.map_eq_nil_iff]

end RuleForm

end

/-! Both formats -/

namespace Criteria

theorem ofJson_jsonText (forms : List RuleForm) : ofJson (RuleForm.jsonText forms) =
    ((CriteriaDraft.check (forms.map (RuleForm.draft Json.reading))).mapError .ofFault) := by
  rw [ofJson, Json.decode, RuleForm.read_jsonText, Document.value_complete,
    RuleForm.decoder_rules]
  rfl

theorem ofToml_tomlText (forms : List RuleForm) : ofToml (RuleForm.tomlText forms) =
    ((CriteriaDraft.check (forms.map (RuleForm.draft Toml.reading))).mapError .ofFault) := by
  rw [ofToml, RuleForm.read_tomlText]
  cases forms with
  | nil => rfl
  | cons form forms =>
    rw [if_neg (List.cons_ne_nil _ _)]
    dsimp only
    rw [RuleForm.decoder_rules]
    rfl

end Criteria

/-- A rule with the one number that the formats read differently. -/
def minusZero : RuleForm where
  kind := some "REQUIRED_PERCENT_OVERALL"
  assignmentType := some "homework"
  requiredPercent := some ⟨⟨true, 0, 0⟩, .inr ⟨by decide, by decide⟩⟩
  averageRounding := some ⟨some "NONE", none⟩
  passedPercent := none
  passedRounding := none

example : RuleForm.jsonText [minusZero] =
    "\x7b\"rules\":[\x7b\"type\":\"REQUIRED_PERCENT_OVERALL\",\"assignmentType\":\"homework\"," ++
      "\"requiredPercent\":-0,\"achievedPercentRounding\":\x7b\"type\":\"NONE\"\x7d\x7d]\x7d" := by
  decide +kernel

example : RuleForm.tomlText [minusZero] =
    "[[rules]]\ntype = \"REQUIRED_PERCENT_OVERALL\"\nassignmentType = \"homework\"\n" ++
      "requiredPercent = -0\nachievedPercentRounding = \x7btype = \"NONE\"\x7d\n" := by
  decide +kernel

end CourseAdmission
