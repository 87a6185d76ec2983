import CourseAdmission.Criteria.Draft
import CourseAdmission.Proofs.Document.Shape

/-!
The shape of criteria in a document, and the drafts that are read from it.

Criteria whose objects are written as objects are decoded exactly if they are of the shape, and then
each draft holds what the members of its object say.
-/

namespace CourseAdmission

open Document

/-! Roundings -/

namespace RoundingDraft

def shape : List FieldShape :=
  [.nullable [RoundingField.kind.name] Node.IsText,
    .nullable [RoundingField.decimals.name] Node.IsWord]

/-- The draft of a rounding that is written as an object. -/
def ofNode (node : Node) : RoundingDraft where
  kind := node.read [RoundingField.kind.name] Node.text?
  decimals := node.read [RoundingField.decimals.name] Node.integer?

theorem readsAs_record (members : List (Text × Node)) :
    record.ReadsAs shape members (ofNode (.object members)) :=
  ((Record.readsAs_text _).map RoundingDraft.mk).seq (Record.readsAs_signedWord _) (by decide)

theorem decoder_eq_ok_iff {surplus : Surplus} {node : Node} {draft : RoundingDraft}
    (hobject : node.isArray = false) :
    decoder surplus node = .ok draft ↔ node.HasShape shape ∧ draft = ofNode node := by
  cases node with
  | object members => exact (readsAs_record members).decode_eq_ok_iff
  | array items => simp [Node.isArray] at hobject
  | _ => simp [decoder, Record.decode, Node.HasShape]

end RoundingDraft

/-! Rules -/

namespace RuleDraft

/-- A rounding in a rule is an object of its own shape. -/
def IsRounding (node : Node) : Prop := node.HasShape RoundingDraft.shape

def roundingNames : List String := [RuleField.averageRounding.name, "rounding"]

def shape : List FieldShape :=
  [.nullable [RuleField.kind.name] Node.IsText,
    .nullable [RuleField.assignmentType.name] Node.IsText,
    .nullable [RuleField.requiredPercent.name] Node.IsNumber,
    .nullable roundingNames IsRounding,
    .nullable [RuleField.passedPercent.name] Node.IsNumber,
    .nullable [RuleField.passedRounding.name] IsRounding]

/-- The draft of a rounding that a node holds. -/
def rounding? : Node → Option RoundingDraft
  | .object members => some (RoundingDraft.ofNode (.object members))
  | _ => none

/-- The draft of a rule that is written as an object. -/
def ofNode (node : Node) : RuleDraft where
  kind := node.read [RuleField.kind.name] Node.text?
  assignmentType := node.read [RuleField.assignmentType.name] Node.text?
  requiredPercent := node.read [RuleField.requiredPercent.name] Node.double?
  averageRounding := node.read roundingNames rounding?
  passedPercent := node.read [RuleField.passedPercent.name] Node.double?
  passedRounding := node.read [RuleField.passedRounding.name] rounding?

/-- No rounding of the rule is written as an array. -/
def RoundingsAreObjects (members : List (Text × Node)) : Prop :=
  (∀ node ∈ valuesOf roundingNames members, node.isArray = false) ∧
    ∀ node ∈ valuesOf [RuleField.passedRounding.name] members, node.isArray = false

instance (members : List (Text × Node)) : Decidable (RoundingsAreObjects members) :=
  inferInstanceAs (Decidable (_ ∧ _))

theorem rounding_eq_ok_iff {surplus : Surplus} {node : Node} {draft : RoundingDraft}
    (hobject : node.isArray = false) :
    RoundingDraft.decoder surplus node = .ok draft ↔
      IsRounding node ∧ rounding? node = some draft := by
  rw [RoundingDraft.decoder_eq_ok_iff hobject]
  cases node with
  | object members => simp [IsRounding, rounding?, eq_comm]
  | _ => simp [IsRounding, Node.HasShape]

theorem readsAs_rounding {surplus : Surplus} {name : String} {otherNames : List String}
    {members : List (Text × Node)}
    (hobjects : ∀ node ∈ valuesOf (name :: otherNames) members, node.isArray = false) :
    (Record.optional name otherNames (RoundingDraft.decoder surplus)).ReadsAs
      [.nullable (name :: otherNames) IsRounding] members
      ((Node.object members).read (name :: otherNames) rounding?) := by
  apply Record.readsAs_optional rfl
  · intro node hnode
    cases node with
    | object members => exact ⟨_, rfl⟩
    | _ => cases hnode
  · exact fun node hnode _ => rounding_eq_ok_iff (hobjects node hnode)

theorem readsAs_record {surplus : Surplus} {members : List (Text × Node)}
    (hobjects : RoundingsAreObjects members) :
    (record surplus).ReadsAs shape members (ofNode (.object members)) :=
  ((Record.readsAs_text _).map RuleDraft.mk).seq (Record.readsAs_text _) (by decide)
    |>.seq (Record.readsAs_double _) (by decide)
    |>.seq (readsAs_rounding hobjects.1) (by decide)
    |>.seq (Record.readsAs_double _) (by decide)
    |>.seq (readsAs_rounding hobjects.2) (by decide)

theorem decoder_eq_ok_iff {surplus : Surplus} {node : Node} {draft : RuleDraft}
    (harray : node.isArray = false) (hobjects : RoundingsAreObjects node.members) :
    decoder surplus node = .ok draft ↔ node.HasShape shape ∧ draft = ofNode node := by
  cases node with
  | object members => exact (readsAs_record hobjects).decode_eq_ok_iff
  | array items => simp [Node.isArray] at harray
  | _ => simp [decoder, Record.decode, Node.HasShape]

end RuleDraft

/-! Criteria -/

namespace CriteriaDraft

def rulesNames : List String := ["rules", "criteria"]

/-- A list of rules that are objects of their own shape. -/
def AreRules (node : Node) : Prop :=
  ∃ items, node = .array items ∧ ∀ item ∈ items, item.HasShape RuleDraft.shape

def shape : List FieldShape := [⟨rulesNames, AreRules⟩]

/-- The rules of criteria that are written as an object. -/
def ruleNodes (node : Node) : List Node :=
  ((valuesOf rulesNames node.members).head?.map Node.items).getD []

/-- The drafts of the rules in order. -/
def ofNode (node : Node) : CriteriaDraft := (ruleNodes node).map RuleDraft.ofNode

/-- Neither the criteria nor a rule nor a rounding is written as an array of its fields. -/
def WrittenAsObjects (node : Node) : Prop :=
  node.isArray = false ∧ ∀ list ∈ valuesOf rulesNames node.members, ∀ rule ∈ list.items,
    rule.isArray = false ∧ RuleDraft.RoundingsAreObjects rule.members

instance (node : Node) : Decidable (WrittenAsObjects node) :=
  inferInstanceAs (Decidable (_ ∧ _))

theorem rules_eq_ok_iff {surplus : Surplus} {node : Node} {drafts : CriteriaDraft}
    (hobjects : ∀ rule ∈ node.items,
      rule.isArray = false ∧ RuleDraft.RoundingsAreObjects rule.members) :
    Decoder.list (RuleDraft.decoder surplus) node = .ok drafts ↔
      AreRules node ∧ drafts = node.items.map RuleDraft.ofNode := by
  cases node with
  | array items =>
    have hdecode : items.mapM (RuleDraft.decoder surplus) = .ok drafts ↔
        (∀ rule ∈ items, rule.HasShape RuleDraft.shape) ∧ drafts = items.map RuleDraft.ofNode :=
      mapM_eq_ok_iff fun rule hrule draft =>
        RuleDraft.decoder_eq_ok_iff (hobjects rule hrule).1 (hobjects rule hrule).2
    simpa [AreRules, Decoder.list, Node.items] using hdecode
  | _ => simp [AreRules, Decoder.list]

theorem readsAs_record {surplus : Surplus} {members : List (Text × Node)}
    (hobjects : WrittenAsObjects (.object members)) :
    (record surplus).ReadsAs shape members (ofNode (.object members)) := by
  have hvalue : ofNode (.object members) = ((valuesOf rulesNames members).head?.map
      fun list => list.items.map RuleDraft.ofNode).getD [] := by
    unfold ofNode ruleNodes Node.members
    cases (valuesOf rulesNames members).head? <;> rfl
  rw [hvalue]
  exact Record.readsAs_defaulted fun list hlist drafts => rules_eq_ok_iff (hobjects.2 list hlist)

theorem decoder_eq_ok_iff {surplus : Surplus} {node : Node} {drafts : CriteriaDraft}
    (hobjects : WrittenAsObjects node) :
    decoder surplus node = .ok drafts ↔ node.HasShape shape ∧ drafts = ofNode node := by
  cases node with
  | object members => exact (readsAs_record hobjects).decode_eq_ok_iff
  | array items => simp [WrittenAsObjects, Node.isArray] at hobjects
  | _ => simp [decoder, Record.decode, Node.HasShape]

end CriteriaDraft

end CourseAdmission
