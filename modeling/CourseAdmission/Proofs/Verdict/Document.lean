import CourseAdmission.Verdict.Document
import CourseAdmission.Proofs.Document.Tagged
import CourseAdmission.Proofs.Document.Written

/-!
Verdicts are read back from the documents that they are written to, but for their doubles: these
become what their own texts are read as.
-/

namespace CourseAdmission

open Document

namespace RoundingPolicy

/-- The number of places fits into eight bits. -/
def Fits : RoundingPolicy → Prop
  | .decimals places => places < Word.limit 8
  | _ => True

instance : DecidablePred Fits
  | .none => inferInstanceAs (Decidable True)
  | .up => inferInstanceAs (Decidable True)
  | .down => inferInstanceAs (Decidable True)
  | .decimals places => inferInstanceAs (Decidable (places < Word.limit 8))

variable {policy p : RoundingPolicy} {form : TagForm} {room : Nat}

@[simp]
theorem isWritable_toNode (policy : RoundingPolicy) : policy.toNode.isWritable = true := by
  cases policy <;> rfl

theorem lt_limit_of_lt {n bits : Nat} (hn : n < Word.limit bits) (hbits : bits ≤ 64) :
    n < Word.limit 64 :=
  Nat.lt_of_lt_of_le hn (Nat.pow_le_pow_right (by decide) hbits)

theorem reread_toNode (hfits : policy.Fits) : policy.toNode.reread = policy.toNode := by
  cases policy with
  | decimals places =>
    simp [toNode, Node.reread_ofNat (lt_limit_of_lt hfits (by decide))]
  | _ => rfl

theorem readable_toNode (policy : RoundingPolicy) (hroom : 0 < room) :
    policy.toNode.readable room = true := by
  cases policy <;>
    simp [toNode, Node.ofMembers, Node.ofText, Node.ofNat, Node.readable, Node.readableMembers,
      Node.readableName, hroom]

/-- A policy without further members is read from its tag alone. -/
theorem decode_tag_iff {tag : String} (hfind : variants.find? (·.tag == tag) =
      some (.ofRecord tag (Record.none policy))) :
    Variant.decode variants form room (.ofMembers [("type", .ofText tag)]) = .ok p ↔
      policy = p := by
  refine (Variant.decode_iff hfind (by simp)).trans ?_
  constructor
  · rintro ⟨-, ⟨⟩⟩
    rfl
  · rintro rfl
    exact ⟨by simp, rfl⟩

/-- A policy is read back in either form of the tag. -/
theorem decoder_iff (hfits : policy.Fits) :
    decoder form room policy.toNode = .ok p ↔ policy = p := by
  cases policy with
  | none => exact decode_tag_iff rfl
  | up => exact decode_tag_iff rfl
  | down => exact decode_tag_iff rfl
  | decimals places =>
    have hfind : variants.find? (·.tag == "DECIMALS") =
        some (.ofRecord "DECIMALS" (.decimals <$> .required "decimals" (Decoder.natural 8))) := rfl
    have hreads : (RoundingPolicy.decimals <$>
        Record.required "decimals" (Decoder.natural 8)).ReadsVia _ .passedOver
          [("decimals", .ofNat places)] _ :=
      (Record.readsVia_field 0 rfl).map RoundingPolicy.decimals
    refine (Variant.decode_iff hfind (by simp [Variant.tagName])).trans ?_
    refine (and_congr_right' (hreads.lenient_iff (by simp) (by simp))).trans ?_
    simp [natural_ofNat_iff hfits]

end RoundingPolicy

namespace OverallDetails

variable {d e : OverallDetails} {room : Nat}

/-- The numbers fit into the bits that they are read with. -/
def Fits (d : OverallDetails) : Prop := d.count < Word.limit 64 ∧ d.rounding.Fits

instance (d : OverallDetails) : Decidable d.Fits := inferInstanceAs (Decidable (_ ∧ _))

/-- The doubles of the one are read from the texts of those of the other, and all else is equal. -/
@[mk_iff]
structure RereadAs (d e : OverallDetails) : Prop where
  count : d.count = e.count
  average : d.average.RereadAs e.average
  rounding : d.rounding = e.rounding
  rounded : d.rounded.RereadAs e.rounded
  required : d.required.RereadAs e.required

/-- The members as they are read. -/
def rereadMembers (d : OverallDetails) : List (String × Node) :=
  d.members.map fun m => (m.1, m.2.reread)

theorem RereadAs.readable (h : d.RereadAs e) (hfits : d.Fits) (hroom : 0 < room) :
    ∀ m ∈ d.rereadMembers, m.2.readable room = true := by
  have haverage := readable_of_rereadAs h.average room
  have hrounded := readable_of_rereadAs h.rounded room
  have hrequired := readable_of_rereadAs h.required room
  have hrounding := d.rounding.readable_toNode hroom
  simp [rereadMembers, members, haverage, hrounded, hrequired, hrounding,
    RoundingPolicy.reread_toNode hfits.2, Node.reread_ofNat hfits.1]

theorem record_iff (hfits : d.Fits) :
    (record room).lenient (.ofMembers d.rereadMembers) = .ok e ↔ d.RereadAs e := by
  have hreads : (record room).ReadsVia _ .passedOver d.rereadMembers _ :=
    ((Record.readsVia_field 0 rfl).map OverallDetails.mk).seq
      (Record.readsVia_field 1 rfl) (by simp)
    |>.seq (Record.readsVia_field 2 rfl) (by simp)
    |>.seq (Record.readsVia_field 3 rfl) (by simp)
    |>.seq (Record.readsVia_field 4 rfl) (by simp)
  rw [hreads.lenient_iff (by simp [rereadMembers, members]) (by simp [rereadMembers, members])]
  simp only [count_reread_iff hfits.1, Node.double_reread_iff,
    RoundingPolicy.reread_toNode hfits.2, RoundingPolicy.decoder_iff hfits.2]
  constructor
  · rintro ⟨_, rfl, _, haverage, _, rfl, _, hrounded, _, hrequired, rfl⟩
    exact ⟨rfl, haverage, rfl, hrounded, hrequired⟩
  · rintro ⟨hcount, haverage, hrounding, hrounded, hrequired⟩
    exact ⟨_, rfl, _, haverage, _, rfl, _, hrounded, _, hrequired, by rw [hcount, hrounding]⟩

end OverallDetails

namespace PassedShareDetails

variable {d e : PassedShareDetails} {room : Nat}

/-- The numbers fit into the bits that they are read with. -/
def Fits (d : PassedShareDetails) : Prop :=
  d.count < Word.limit 64 ∧ d.passedCount < Word.limit 64 ∧ d.averageRounding.Fits ∧
    d.shareRounding.Fits

instance (d : PassedShareDetails) : Decidable d.Fits := inferInstanceAs (Decidable (_ ∧ _))

/-- The doubles of the one are read from the texts of those of the other, and all else is equal. -/
@[mk_iff]
structure RereadAs (d e : PassedShareDetails) : Prop where
  count : d.count = e.count
  passedCount : d.passedCount = e.passedCount
  average : d.average.RereadAs e.average
  averageRounding : d.averageRounding = e.averageRounding
  averageRounded : d.averageRounded.RereadAs e.averageRounded
  averageRequired : d.averageRequired.RereadAs e.averageRequired
  averageMet : d.averageMet = e.averageMet
  share : d.share.RereadAs e.share
  shareRounding : d.shareRounding = e.shareRounding
  shareRounded : d.shareRounded.RereadAs e.shareRounded
  shareRequired : d.shareRequired.RereadAs e.shareRequired
  shareMet : d.shareMet = e.shareMet

/-- The members as they are read. -/
def rereadMembers (d : PassedShareDetails) : List (String × Node) :=
  d.members.map fun m => (m.1, m.2.reread)

theorem RereadAs.readable (h : d.RereadAs e) (hfits : d.Fits) (hroom : 0 < room) :
    ∀ m ∈ d.rereadMembers, m.2.readable room = true := by
  have haverage := readable_of_rereadAs h.average room
  have hrounded := readable_of_rereadAs h.averageRounded room
  have hrequired := readable_of_rereadAs h.averageRequired room
  have hshare := readable_of_rereadAs h.share room
  have hshareRounded := readable_of_rereadAs h.shareRounded room
  have hshareRequired := readable_of_rereadAs h.shareRequired room
  have hrounding := d.averageRounding.readable_toNode hroom
  have hshareRounding := d.shareRounding.readable_toNode hroom
  simp [rereadMembers, members, haverage, hrounded, hrequired, hshare, hshareRounded,
    hshareRequired, hrounding, hshareRounding, RoundingPolicy.reread_toNode hfits.2.2.1,
    RoundingPolicy.reread_toNode hfits.2.2.2, Node.reread_ofNat hfits.1,
    Node.reread_ofNat hfits.2.1]

theorem record_iff (hfits : d.Fits) :
    (record room).lenient (.ofMembers d.rereadMembers) = .ok e ↔ d.RereadAs e := by
  have hreads : (record room).ReadsVia _ .passedOver d.rereadMembers _ :=
    ((Record.readsVia_field 0 rfl).map PassedShareDetails.mk).seq
      (Record.readsVia_field 1 rfl) (by simp)
    |>.seq (Record.readsVia_field 2 rfl) (by simp)
    |>.seq (Record.readsVia_field 3 rfl) (by simp)
    |>.seq (Record.readsVia_field 4 rfl) (by simp)
    |>.seq (Record.readsVia_field 5 rfl) (by simp)
    |>.seq (Record.readsVia_field 6 rfl) (by simp)
    |>.seq (Record.readsVia_field 7 rfl) (by simp)
    |>.seq (Record.readsVia_field 8 rfl) (by simp)
    |>.seq (Record.readsVia_field 9 rfl) (by simp)
    |>.seq (Record.readsVia_field 10 rfl) (by simp)
    |>.seq (Record.readsVia_field 11 rfl) (by simp)
  rw [hreads.lenient_iff (by simp [rereadMembers, members]) (by simp [rereadMembers, members])]
  simp only [count_reread_iff hfits.1, count_reread_iff hfits.2.1, Node.double_reread_iff,
    RoundingPolicy.reread_toNode hfits.2.2.1, RoundingPolicy.decoder_iff hfits.2.2.1,
    RoundingPolicy.reread_toNode hfits.2.2.2, RoundingPolicy.decoder_iff hfits.2.2.2,
    Node.reread_bool, bool_bool_iff]
  constructor
  · rintro ⟨_, rfl, _, rfl, _, haverage, _, rfl, _, hrounded, _, hrequired, _, rfl, _, hshare, _,
      rfl, _, hshareRounded, _, hshareRequired, _, rfl, rfl⟩
    exact ⟨rfl, rfl, haverage, rfl, hrounded, hrequired, rfl, hshare, rfl, hshareRounded,
      hshareRequired, rfl⟩
  · rintro ⟨hcount, hpassed, haverage, hrounding, hrounded, hrequired, hmet, hshare,
      hshareRounding, hshareRounded, hshareRequired, hshareMet⟩
    exact ⟨_, rfl, _, rfl, _, haverage, _, rfl, _, hrounded, _, hrequired, _, rfl, _, hshare, _,
      rfl, _, hshareRounded, _, hshareRequired, _, rfl,
      by rw [hcount, hpassed, hrounding, hmet, hshareRounding, hshareMet]⟩

end PassedShareDetails

namespace RuleDetails

variable {d e : RuleDetails} {room : Nat}

def Fits : RuleDetails → Prop
  | .overall d => d.Fits
  | .passedShare d => d.Fits

instance : DecidablePred Fits
  | .overall d => inferInstanceAs (Decidable d.Fits)
  | .passedShare d => inferInstanceAs (Decidable d.Fits)

/-- The details are of one kind, and their doubles are read from the texts of the others. -/
def RereadAs : RuleDetails → RuleDetails → Prop
  | .overall d, .overall e => d.RereadAs e
  | .passedShare d, .passedShare e => d.RereadAs e
  | _, _ => False

theorem decoder_iff (hfits : d.Fits) (hroom : 2 ≤ room) :
    decoder room d.toNode.reread = .ok e ↔ d.RereadAs e := by
  cases d with
  | overall d =>
    have hnode : (RuleDetails.overall d).toNode.reread =
        .ofMembers (("type", .ofText RuleKind.overall.tag) :: d.rereadMembers) := by
      simp [toNode, OverallDetails.rereadMembers]
    rw [hnode, decoder]
    refine (Variant.decode_iff rfl (by
      simp [OverallDetails.rereadMembers, OverallDetails.members, Variant.tagName])).trans ?_
    refine (and_congr_right' Record.lenient_map_iff).trans ?_
    simp only [OverallDetails.record_iff hfits]
    constructor
    · rintro ⟨-, e, hreread, rfl⟩
      exact hreread
    · intro hreread
      cases e with
      | overall e => exact ⟨hreread.readable hfits (by omega), e, hreread, rfl⟩
      | passedShare e => exact hreread.elim
  | passedShare d =>
    have hnode : (RuleDetails.passedShare d).toNode.reread =
        .ofMembers (("type", .ofText RuleKind.passedShare.tag) :: d.rereadMembers) := by
      simp [toNode, PassedShareDetails.rereadMembers]
    rw [hnode, decoder]
    refine (Variant.decode_iff rfl (by
      simp [PassedShareDetails.rereadMembers, PassedShareDetails.members,
        Variant.tagName])).trans ?_
    refine (and_congr_right' Record.lenient_map_iff).trans ?_
    simp only [PassedShareDetails.record_iff hfits]
    constructor
    · rintro ⟨-, e, hreread, rfl⟩
      exact hreread
    · intro hreread
      cases e with
      | overall e => exact hreread.elim
      | passedShare e => exact ⟨hreread.readable hfits (by omega), e, hreread, rfl⟩

@[simp]
theorem isWritable_toNode (d : RuleDetails) : d.toNode.isWritable = true := by
  cases d <;> simp [toNode, OverallDetails.members, PassedShareDetails.members]

end RuleDetails

namespace AssignmentType

@[simp]
theorem isWritable_toNode (type : AssignmentType) : type.toNode.isWritable = true := rfl

@[simp]
theorem reread_toNode (type : AssignmentType) : type.toNode.reread = type.toNode := rfl

@[simp]
theorem readable_toNode (room : Nat) (type : AssignmentType) :
    type.toNode.readable room = true := rfl

theorem ofText?_tag (type : AssignmentType) : ofText? type.tag = some type := by
  cases type <;> decide +kernel

theorem decoder_iff {type t : AssignmentType} : decoder type.toNode = .ok t ↔ type = t := by
  have hdecode : decoder type.toNode = .ok type := by
    rw [decoder, toNode, text_ofText_iff.2 rfl, ok_bind, ofText?_tag]
    rfl
  rw [hdecode, Except.ok.injEq]

end AssignmentType

namespace RuleKind

@[simp]
theorem isWritable_toNode (kind : RuleKind) : kind.toNode.isWritable = true := rfl

@[simp]
theorem reread_toNode (kind : RuleKind) : kind.toNode.reread = kind.toNode := rfl

theorem decoder_iff {kind k : RuleKind} : decoder kind.toNode = .ok k ↔ kind = k := by
  have hdecode : decoder kind.toNode = .ok kind := by cases kind <;> rfl
  rw [hdecode, Except.ok.injEq]

end RuleKind

namespace DataWarning

variable {warning w : DataWarning} {room : Nat}

@[simp]
theorem isWritable_toNode (warning : DataWarning) : warning.toNode.isWritable = true := by
  cases warning <;> simp [toNode]

@[simp]
theorem reread_toNode (warning : DataWarning) : warning.toNode.reread = warning.toNode := by
  cases warning <;> simp [toNode]

theorem decoder_iff (hroom : 2 ≤ room) : decoder room warning.toNode = .ok w ↔ warning = w := by
  cases warning with
  | noResults type =>
    have hreads : (noResults <$> Record.required "assignmentType" AssignmentType.decoder).ReadsVia _
        .passedOver [("assignmentType", type.toNode)] _ :=
      (Record.readsVia_field 0 rfl).map noResults
    refine (Variant.decode_iff rfl (by simp [Variant.tagName])).trans ?_
    refine (and_congr_right' (hreads.lenient_iff (by simp) (by simp))).trans ?_
    simp [AssignmentType.decoder_iff]
  | outOfRange ids =>
    have hreads : (outOfRange <$> Record.required "assignmentIds" (.list .text)).ReadsVia _
        .passedOver [("assignmentIds", .ofList .ofText ids)] _ :=
      (Record.readsVia_field 0 rfl).map outOfRange
    have hreadable : (Node.ofList .ofText ids).readable (room - 1) = true :=
      Node.readable_ofList (by omega) fun _ _ => rfl
    refine (Variant.decode_iff rfl (by simp [Variant.tagName])).trans ?_
    refine (and_congr_right' (hreads.lenient_iff (by simp) (by simp))).trans ?_
    simp [list_ofList_iff fun _ _ _ => text_ofText_iff, hreadable]

end DataWarning

namespace RuleResult

variable {result r : RuleResult} {room : Nat}

def Fits (result : RuleResult) : Prop := result.index < Word.limit 64 ∧ result.details.Fits

instance (result : RuleResult) : Decidable result.Fits := inferInstanceAs (Decidable (_ ∧ _))

/-- The doubles of the one are read from the texts of those of the other, and all else is equal. -/
structure RereadAs (result r : RuleResult) : Prop where
  index : result.index = r.index
  kind : result.kind = r.kind
  type : result.type = r.type
  passed : result.passed = r.passed
  details : result.details.RereadAs r.details
  warnings : result.warnings = r.warnings

theorem decoder_iff (hfits : result.Fits) (hroom : 4 ≤ room) :
    decoder room result.toNode.reread = .ok r ↔ result.RereadAs r := by
  rw [toNode, Node.reread_ofMembers, decoder]
  refine Iff.trans (Record.ReadsVia.lenient_iff (
      ((Record.readsVia_field 0 rfl).map RuleResult.mk).seq
        (Record.readsVia_field 1 rfl) (by simp)
      |>.seq (Record.readsVia_field 2 rfl) (by simp)
      |>.seq (Record.readsVia_field 3 rfl) (by simp)
      |>.seq (Record.readsVia_field 4 rfl) (by simp)
      |>.seq (Record.readsVia_field 5 rfl) (by simp)) (by simp) (by simp)) ?_
  simp only [count_reread_iff hfits.1, RuleKind.reread_toNode, RuleKind.decoder_iff,
    AssignmentType.reread_toNode, AssignmentType.decoder_iff, Node.reread_bool, bool_bool_iff,
    RuleDetails.decoder_iff hfits.2 (show 2 ≤ room - 1 by omega), Node.reread_ofList,
    DataWarning.reread_toNode,
    list_ofList_iff fun _ _ _ => DataWarning.decoder_iff (show 2 ≤ room - 2 by omega),
    List.forall₂_eq_eq_eq]
  constructor
  · rintro ⟨_, rfl, _, rfl, _, rfl, _, rfl, _, hdetails, _, rfl, rfl⟩
    exact ⟨rfl, rfl, rfl, rfl, hdetails, rfl⟩
  · rintro ⟨hindex, hkind, htype, hpassed, hdetails, hwarnings⟩
    exact ⟨_, rfl, _, rfl, _, rfl, _, rfl, _, hdetails, _, rfl,
      by rw [hindex, hkind, htype, hpassed, hwarnings]⟩

@[simp]
theorem isWritable_toNode (result : RuleResult) : result.toNode.isWritable = true := by
  simp [toNode]

end RuleResult

namespace Verdict

variable {verdict v : Verdict} {room : Nat}

def Fits (verdict : Verdict) : Prop := ∀ result ∈ verdict.results, result.Fits

instance (verdict : Verdict) : Decidable verdict.Fits := inferInstanceAs (Decidable (∀ _ ∈ _, _))

/-- The doubles of the one are read from the texts of those of the other, and all else is equal. -/
structure RereadAs (verdict v : Verdict) : Prop where
  admitted : verdict.admitted = v.admitted
  results : List.Forall₂ RuleResult.RereadAs verdict.results v.results

theorem decoder_iff (hfits : verdict.Fits) (hroom : 6 ≤ room) :
    decoder room verdict.toNode.reread = .ok v ↔ verdict.RereadAs v := by
  rw [toNode, Node.reread_ofMembers, decoder]
  refine Iff.trans (Record.ReadsVia.lenient_iff (
      ((Record.readsVia_field 0 rfl).map Verdict.mk).seq
        (Record.readsVia_field 1 rfl) (by simp)) (by simp) (by simp)) ?_
  simp only [Node.reread_bool, bool_bool_iff, Node.reread_ofList,
    list_ofList_iff fun result hresult _ =>
      RuleResult.decoder_iff (hfits result hresult) (show 4 ≤ room - 2 by omega)]
  constructor
  · rintro ⟨_, rfl, _, hresults, rfl⟩
    exact ⟨rfl, hresults⟩
  · rintro ⟨hadmitted, hresults⟩
    exact ⟨_, rfl, _, hresults, by rw [hadmitted]⟩

@[simp]
theorem isWritable_toNode (verdict : Verdict) : verdict.toNode.isWritable = true := by
  simp [toNode]

end Verdict

end CourseAdmission
