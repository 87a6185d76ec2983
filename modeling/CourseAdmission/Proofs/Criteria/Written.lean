import CourseAdmission.Criteria.Format
import CourseAdmission.Proofs.Criteria.Document
import CourseAdmission.Proofs.Criteria.Json
import CourseAdmission.Proofs.Document.Fields

/-!
What stands in the rules of a document that is accepted, in either format.

A rule is one flat object for both kinds, and which of its fields are checked depends on the kind:
all that a rule is made of is checked, and what its kind or its rounding has no use for is only
read.
-/

namespace CourseAdmission

open Document

namespace DocumentFormat

/-- The tree that a text is read as. -/
def root? : DocumentFormat → String → Option Node
  | .json, text => some (Json.read text).root
  | .toml, text => Toml.read text

/-- What becomes of further items of an array of fields. -/
def surplus : DocumentFormat → Surplus
  | .json => .refused
  | .toml => .ignored

end DocumentFormat

namespace Document

theorem eq_ofText_of_text? {node : Node} {s : String} (h : node.text? = some s) :
    node = .ofText s := by
  unfold Node.text? at h
  split at h
  · cases h
    rfl
  · cases h

theorem eq_integer_of_integer? {node : Node} {n : Int} (h : node.integer? = some n) :
    node = .number (.integer n) := by
  unfold Node.integer? at h
  split at h
  · cases h
    rfl
  · cases h

end Document

theorem firstFault_append_eq_none_iff {checks further : List (Option RuleError)} :
    firstFault (checks ++ further) = none ↔
      firstFault checks = none ∧ firstFault further = none := by
  simp [firstFault]

/-! Roundings -/

namespace RoundingDraft

def fieldNames : List (List String) := [[RoundingField.kind.name], [RoundingField.decimals.name]]

/-- The fields of a rounding are read from what is written in them. -/
theorem decoder_iff_reads {surplus : Surplus} {node : Node} {draft : RoundingDraft} :
    decoder surplus node = .ok draft ↔ node.Fills fieldNames 2 surplus ∧
      ReadsOptional Decoder.text (node.written [RoundingField.kind.name] 0) draft.kind ∧
      ReadsOptional Decoder.signedWord (node.written [RoundingField.decimals.name] 1)
        draft.decimals := by
  have hrelates := ((Record.relates_optional 0 RoundingField.kind.name [] Decoder.text).map
    RoundingDraft.mk).seq (Record.relates_optional 1 RoundingField.decimals.name []
      Decoder.signedWord) (by decide)
  refine hrelates.decode_iff.trans (and_congr_right fun _ => ?_)
  constructor
  · rintro ⟨_, decimals, ⟨kind, hkind, rfl⟩, hdecimals, rfl⟩
    exact ⟨hkind, hdecimals⟩
  · rintro ⟨hkind, hdecimals⟩
    exact ⟨_, _, ⟨_, hkind, rfl⟩, hdecimals, rfl⟩

/-- The rounding has a known type, and one to decimal places has at most ten of them. -/
def Sound (rounding : Node) : Prop :=
  ∃ tag ∈ tags, rounding.written [RoundingField.kind.name] 0 = [.ofText tag] ∧
    (tag = "DECIMALS" → ∃ n : Int,
      rounding.written [RoundingField.decimals.name] 1 = [.number (.integer n)] ∧
        0 ≤ n ∧ n ≤ RoundingPolicy.maxPlaces)

/-- What a draft without a fault says. -/
theorem spec_of_firstFault_eq_none {field : RuleField} {draft : Option RoundingDraft}
    (h : firstFault (checks field draft) = none) :
    ∃ tag ∈ tags, ∃ decimals, draft = some ⟨some tag, decimals⟩ ∧
      (tag = "DECIMALS" → ∃ n, decimals = some n ∧ 0 ≤ n ∧ n ≤ RoundingPolicy.maxPlaces) := by
  simp only [firstFault, List.findSome?_eq_none_iff, checks, List.forall_mem_cons, id] at h
  obtain ⟨hdraft, hkind, htag, hmissing, hrange, -⟩ := h
  rcases draft with _ | ⟨_ | tag, decimals⟩
  · simp [faultIf] at hdraft
  · simp [faultIf] at hkind
  · refine ⟨tag, by simpa [faultIf] using htag, decimals, rfl, ?_⟩
    rintro rfl
    rcases decimals with _ | n
    · simp [faultIf] at hmissing
    · exact ⟨n, rfl, by simpa [faultIf] using hrange⟩

/-- A rounding without a fault is sound where it is written. -/
theorem sound_of_decoder {surplus : Surplus} {field : RuleField} {node : Node}
    {draft : RoundingDraft} (hdecode : decoder surplus node = .ok draft)
    (hchecks : firstFault (checks field (some draft)) = none) : Sound node := by
  obtain ⟨tag, htag, decimals, hdraft, hplaces⟩ := spec_of_firstFault_eq_none hchecks
  cases hdraft
  obtain ⟨-, hkind, hdecimals⟩ := decoder_iff_reads.1 hdecode
  obtain ⟨kindNode, hkindWritten, hkindRead⟩ := hkind.exists_eq_singleton
  have hkindNode := eq_ofText_of_text? (text_eq_ok_iff.1 hkindRead).2
  refine ⟨tag, htag, by rw [hkindWritten, hkindNode], fun hdecimalsTag => ?_⟩
  obtain ⟨n, rfl, hrange⟩ := hplaces hdecimalsTag
  obtain ⟨placesNode, hplacesWritten, hplacesRead⟩ := hdecimals.exists_eq_singleton
  have hplacesNode := eq_integer_of_integer? (signedWord_eq_ok_iff.1 hplacesRead).2
  exact ⟨n, by rw [hplacesWritten, hplacesNode], hrange⟩

end RoundingDraft

/-! Rules -/

namespace RuleDraft

def fieldNames : List (List String) :=
  [[RuleField.kind.name], [RuleField.assignmentType.name], [RuleField.requiredPercent.name],
    roundingNames, [RuleField.passedPercent.name], [RuleField.passedRounding.name]]

/-- The fields of a rule are read from what is written in them. -/
theorem decoder_iff_reads {surplus : Surplus} {node : Node} {draft : RuleDraft} :
    decoder surplus node = .ok draft ↔ node.Fills fieldNames 6 surplus ∧
      ReadsOptional Decoder.text (node.written [RuleField.kind.name] 0) draft.kind ∧
      ReadsOptional Decoder.text (node.written [RuleField.assignmentType.name] 1)
        draft.assignmentType ∧
      ReadsOptional Decoder.double (node.written [RuleField.requiredPercent.name] 2)
        draft.requiredPercent ∧
      ReadsOptional (RoundingDraft.decoder surplus) (node.written roundingNames 3)
        draft.averageRounding ∧
      ReadsOptional Decoder.double (node.written [RuleField.passedPercent.name] 4)
        draft.passedPercent ∧
      ReadsOptional (RoundingDraft.decoder surplus) (node.written [RuleField.passedRounding.name] 5)
        draft.passedRounding := by
  have hrelates := (Record.relates_optional 0 RuleField.kind.name [] Decoder.text).map RuleDraft.mk
    |>.seq (Record.relates_optional 1 RuleField.assignmentType.name [] Decoder.text) (by decide)
    |>.seq (Record.relates_optional 2 RuleField.requiredPercent.name [] Decoder.double) (by decide)
    |>.seq (Record.relates_optional 3 RuleField.averageRounding.name ["rounding"]
      (RoundingDraft.decoder surplus)) (by decide)
    |>.seq (Record.relates_optional 4 RuleField.passedPercent.name [] Decoder.double) (by decide)
    |>.seq (Record.relates_optional 5 RuleField.passedRounding.name []
      (RoundingDraft.decoder surplus)) (by decide)
  refine hrelates.decode_iff.trans (and_congr_right fun _ => ?_)
  constructor
  · rintro ⟨_, shareRounding, ⟨_, share, ⟨_, rounding, ⟨_, percent, ⟨_, type, ⟨kind, hkind, rfl⟩,
      htype, rfl⟩, hpercent, rfl⟩, hrounding, rfl⟩, hshare, rfl⟩, hshareRounding, rfl⟩
    exact ⟨hkind, htype, hpercent, hrounding, hshare, hshareRounding⟩
  · rintro ⟨hkind, htype, hpercent, hrounding, hshare, hshareRounding⟩
    exact ⟨_, _, ⟨_, _, ⟨_, _, ⟨_, _, ⟨_, _, ⟨_, hkind, rfl⟩, htype, rfl⟩, hpercent, rfl⟩,
      hrounding, rfl⟩, hshare, rfl⟩, hshareRounding, rfl⟩

/-- A node holds a percentage. -/
def IsPercent (node : Node) : Prop :=
  ∃ x : Binary64, Decoder.double node = .ok x ∧ x.isFinite ∧ 0 ≤ x ∧ x ≤ 100

/-- All that a rule of its kind is made of is written, and written in range: of both kinds one
    percentage and its rounding, and of a rule for the share of passed assignments two. -/
structure Sound (rule : Node) : Prop where
  kind : ∃ kind : RuleKind, rule.written [RuleField.kind.name] 0 = [.ofText kind.tag]
  requiredPercent : ∃ node, rule.written [RuleField.requiredPercent.name] 2 = [node] ∧
    IsPercent node
  averageRounding : ∃ node, rule.written roundingNames 3 = [node] ∧ RoundingDraft.Sound node
  passedPercent : rule.written [RuleField.kind.name] 0 = [.ofText RuleKind.passedShare.tag] →
    ∃ node, rule.written [RuleField.passedPercent.name] 4 = [node] ∧ IsPercent node
  passedRounding : rule.written [RuleField.kind.name] 0 = [.ofText RuleKind.passedShare.tag] →
    ∃ node, rule.written [RuleField.passedRounding.name] 5 = [node] ∧ RoundingDraft.Sound node

theorem exists_isPercent {written : List Node} {percent : Option Binary64} {required : Binary64}
    (hreads : ReadsOptional Decoder.double written percent) (hpercent : percent = some required)
    (hrange : required.IsPercent) : ∃ node, written = [node] ∧ IsPercent node := by
  subst hpercent
  obtain ⟨node, hwritten, hread⟩ := hreads.exists_eq_singleton
  exact ⟨node, hwritten, required, hread, hrange.isFinite, hrange⟩

theorem exists_sound {surplus : Surplus} {field : RuleField} {written : List Node}
    {rounding : Option RoundingDraft}
    (hreads : ReadsOptional (RoundingDraft.decoder surplus) written rounding)
    (hchecks : firstFault (RoundingDraft.checks field rounding) = none) :
    ∃ node, written = [node] ∧ RoundingDraft.Sound node := by
  obtain ⟨tag, -, decimals, rfl, -⟩ := RoundingDraft.spec_of_firstFault_eq_none hchecks
  obtain ⟨node, hwritten, hread⟩ := hreads.exists_eq_singleton
  exact ⟨node, hwritten, RoundingDraft.sound_of_decoder hread hchecks⟩

theorem isPercent_of_percentCheck {field : RuleField} {required : Binary64}
    (h : firstFault [percentCheck field (some required)] = none) : required.IsPercent := by
  simpa [firstFault, percentCheck, faultIf] using h

/-- A rule whose draft passes its checks is sound where it is written. -/
theorem sound_of_decoder {surplus : Surplus} {node : Node} {draft : RuleDraft} {rule : Rule}
    (hdecode : decoder surplus node = .ok draft) (hcheck : draft.check = .ok rule) :
    Sound node := by
  obtain ⟨-, hkind, -, hpercent, hrounding, hshare, hshareRounding⟩ :=
    decoder_iff_reads.1 hdecode
  obtain ⟨hnone, hbuilds⟩ := draft.checked.of_eq_ok hcheck
  obtain ⟨_, required, _, _, hrequired, _, hcases⟩ := hbuilds
  simp only [checks, firstFault_append_eq_none_iff] at hnone
  obtain ⟨-, -, -, -, -, hroundingChecks, hshareChecks, hpercentCheck, hshareCheck⟩ := hnone
  rw [hrequired] at hpercentCheck
  have htag {tag : String} (h : draft.kind = some tag) :
      node.written [RuleField.kind.name] 0 = [.ofText tag] := by
    rw [h] at hkind
    obtain ⟨kindNode, hwritten, hread⟩ := hkind.exists_eq_singleton
    rw [hwritten, eq_ofText_of_text? (text_eq_ok_iff.1 hread).2]
  have hpercentSound := exists_isPercent hpercent hrequired
    (isPercent_of_percentCheck hpercentCheck)
  have hroundingSound := exists_sound hrounding hroundingChecks
  rcases hcases with ⟨hoverall, -⟩ | ⟨hpassed, passedRequired, _, hpassedRequired, -⟩
  · have hother (h : node.written [RuleField.kind.name] 0 = [.ofText RuleKind.passedShare.tag]) :
        False := by
      rw [htag hoverall] at h
      revert h
      simp [Node.ofText, RuleKind.tag]
    exact ⟨⟨.overall, htag hoverall⟩, hpercentSound, hroundingSound, fun h => (hother h).elim,
      fun h => (hother h).elim⟩
  · have hasks : draft.AsksForShare := hpassed
    rw [if_pos hasks, hpassedRequired] at hshareCheck
    rw [if_pos hasks, firstFault_append_eq_none_iff] at hshareChecks
    exact ⟨⟨.passedShare, htag hpassed⟩, hpercentSound, hroundingSound,
      fun _ => exists_isPercent hshare hpassedRequired (isPercent_of_percentCheck hshareCheck),
      fun _ => exists_sound hshareRounding hshareChecks.2⟩

end RuleDraft

/-! Criteria -/

namespace CriteriaDraft

/-- The rules that stand in criteria that are written in either form. -/
def writtenRules (root : Node) : List Node := (root.written rulesNames 0).flatMap Node.items

/-- The drafts are read from what is written in the one field of criteria. -/
theorem decoder_iff_reads {surplus : Surplus} {root : Node} {drafts : CriteriaDraft} :
    decoder surplus root = .ok drafts ↔ root.Fills [rulesNames] 0 surplus ∧
      ((root.written rulesNames 0 = [] ∧ drafts = []) ∨ ∃ list, root.written rulesNames 0 = [list] ∧
        Decoder.list (RuleDraft.decoder surplus) list = .ok drafts) :=
  Record.decode_defaulted_iff

/-- A draft is read of each rule. -/
theorem forall₂_writtenRules {surplus : Surplus} {root : Node} {drafts : CriteriaDraft}
    (hdecode : decoder surplus root = .ok drafts) :
    List.Forall₂ (fun node draft => RuleDraft.decoder surplus node = .ok draft)
      (writtenRules root) drafts := by
  rw [writtenRules]
  rcases (decoder_iff_reads.1 hdecode).2 with ⟨hwritten, rfl⟩ | ⟨list, hwritten, hread⟩
  · rw [hwritten]
    exact .nil
  · rw [hwritten, List.flatMap_singleton]
    cases list with
    | array items => exact mapM_eq_ok_iff_forall₂.1 hread
    | _ => cases hread

end CriteriaDraft

namespace Criteria

variable {format : DocumentFormat} {text : String} {criteria : Criteria}

/-- An accepted text is read as the tree that its rules are drafted from. -/
theorem exists_root_of_ofText (h : ofText format text = .ok criteria) :
    ∃ root drafts, format.root? text = some root ∧
      CriteriaDraft.decoder format.surplus root = .ok drafts ∧ drafts.check = .ok criteria := by
  have hdrafts {decoded : Except DecodeError CriteriaDraft} (h : ofDrafts decoded = .ok criteria) :
      ∃ drafts, decoded = .ok drafts ∧ drafts.check = .ok criteria := by
    obtain ⟨drafts, hdecoded, hcheck⟩ := bind_eq_ok_iff.1 h
    exact ⟨drafts, mapError_eq_ok_iff.1 hdecoded, mapError_eq_ok_iff.1 hcheck⟩
  cases format with
  | json =>
    obtain ⟨drafts, hdecoded, hcheck⟩ := hdrafts h
    exact ⟨_, drafts, rfl, (Json.decode_eq_ok_iff.1 hdecoded).1, hcheck⟩
  | toml =>
    obtain ⟨drafts, hdecoded, hcheck⟩ := hdrafts h
    cases hroot : Toml.read text with
    | none => simp [hroot] at hdecoded
    | some root =>
      rw [hroot] at hdecoded
      exact ⟨root, drafts, hroot, hdecoded, hcheck⟩

end Criteria

/-- A rule for the share of passed assignments, with the greatest number of decimal places. -/
def tenPlaces : Node :=
  .ofMembers [("rules", .array [.ofMembers [
    (RuleField.kind.name, .ofText RuleKind.passedShare.tag),
    (RuleField.assignmentType.name, .ofText "HOMEWORK"),
    (RuleField.requiredPercent.name, .number (.integer 100)),
    (RuleField.averageRounding.name,
      .ofMembers [("type", .ofText "DECIMALS"), ("decimals", .number (.integer 10))]),
    (RuleField.passedPercent.name, .number (.integer 0)),
    (RuleField.passedRounding.name, .ofMembers [("type", .ofText "NONE")])]])]

/-- A rule for the average that also writes a percentage and a rounding of passed assignments, and
    decimal places for a rounding without them. -/
def unusedFields : Node :=
  .ofMembers [("rules", .array [.ofMembers [
    (RuleField.kind.name, .ofText RuleKind.overall.tag),
    (RuleField.assignmentType.name, .ofText "HOMEWORK"),
    (RuleField.requiredPercent.name, .number (.integer 50)),
    (RuleField.averageRounding.name,
      .ofMembers [("type", .ofText "NONE"), ("decimals", .number (.integer 99))]),
    (RuleField.passedPercent.name, .number (.integer 500)),
    (RuleField.passedRounding.name, .ofMembers [("type", .ofText "HALF_EVEN")])]])]

end CourseAdmission
