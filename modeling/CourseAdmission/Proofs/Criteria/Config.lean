import CourseAdmission.Proofs.Json.Compact
import CourseAdmission.Proofs.Json.FewDigits
import CourseAdmission.Proofs.Report.Survival

/-!
Configurations, criteria and rules come back from the texts that they are written to, in one line or
indented, if the texts of their thresholds are read as these thresholds.
-/

namespace CourseAdmission

open Document

namespace CourseConfig

/-- The ids are equal, and the thresholds of the one are read from the texts of those of the
    other. -/
def RereadAs (config c : CourseConfig) : Prop :=
  config.id = c.id ∧ Option.Rel Criteria.RereadAs config.criteria c.criteria

def thresholds (config : CourseConfig) : List Binary64 :=
  config.criteria.elim [] Criteria.thresholds

theorem rereadAs_self {config : CourseConfig} (h : ∀ x ∈ config.thresholds, x.RereadAs x) :
    config.RereadAs config := by
  obtain ⟨id, _ | criteria⟩ := config
  · exact ⟨rfl, .none⟩
  · simp only [Binary64.rereadAs_self_iff] at h
    exact ⟨rfl, .some (Criteria.rereadAs_self_iff.2 h)⟩

end CourseConfig

namespace Criteria

variable {criteria c : Criteria}

/-- The drafts that are read from written criteria pass their checks for the criteria that these
    are read as. -/
theorem decoder_check_iff :
    (∃ drafts, CriteriaDraft.decoder .refused criteria.toNode.reread = .ok drafts ∧
      drafts.check = .ok c) ↔ criteria.RereadAs c := by
  rw [← decoder_iff, decoder, bind_eq_ok_iff]
  simp only [mapError_eq_ok_iff]

end Criteria

namespace CourseConfigDraft

variable {config c : CourseConfig}

theorem courseId_ofText_iff {room : Nat} {s t : String} :
    courseId room (.ofText s) = .ok t ↔ s = t :=
  text_ofText_iff

theorem toNode_reread (config : CourseConfig) : config.toNode.reread =
    .ofMembers (Node.memberIfSome "id" .ofText config.id ++
      Node.memberIfSome "admissionCriteria" (fun criteria => (Criteria.toNode criteria).reread)
        config.criteria) := by
  obtain ⟨_ | id, _ | criteria⟩ := config <;> simp [CourseConfig.toNode, Node.memberIfSome]

theorem check_eq_ok_iff {draft : CourseConfigDraft} : draft.check = .ok c ↔ draft.id = c.id ∧
    Option.Rel (fun drafts criteria => CriteriaDraft.check drafts = .ok criteria) draft.criteria
      c.criteria := by
  obtain ⟨id, _ | drafts⟩ := draft <;> obtain ⟨id', _ | criteria⟩ := c <;>
    simp [check, map_eq_ok_iff, and_comm]

/-- The draft of a written configuration passes its checks for the configurations that this is read
    as. -/
theorem decoder_check_iff :
    (∃ draft, decoder config.toNode.reread = .ok draft ∧ draft.check = .ok c) ↔
      config.RereadAs c := by
  rw [toNode_reread]
  have hreads : record.ReadsVia _ .passedOver
      (Node.memberIfSome "id" .ofText config.id ++ Node.memberIfSome "admissionCriteria"
        (fun criteria => (Criteria.toNode criteria).reread) config.criteria) _ :=
    ((Record.readsVia_memberIfSome [] _ rfl (by simp) (by simp [Node.memberIfSome]) rfl
      Node.ofText_ne_null).map CourseConfigDraft.mk).seq
    (Record.readsVia_memberIfSome _ [] (List.append_nil _).symm (by simp [Node.memberIfSome])
      (by simp) rfl nofun) (by simp)
  have hnames : (Node.memberIfSome "id" .ofText config.id ++ Node.memberIfSome "admissionCriteria"
      (fun criteria => (Criteria.toNode criteria).reread) config.criteria).map (·.1) |>.Sublist
        ["id", "admissionCriteria"] := by
    obtain ⟨_ | id, _ | criteria⟩ := config <;> simp [Node.memberIfSome]
  refine (hreads.exists_decode_iff (hnames.nodup (by simp))
    (fun m hm => hnames.subset (List.mem_map_of_mem hm)) .refused _).trans ?_
  simp only [check_eq_ok_iff]
  obtain ⟨_ | id, _ | criteria⟩ := config <;> obtain ⟨id', _ | criteria'⟩ := c <;>
    simp [CourseConfig.RereadAs, courseId_ofText_iff, ← Criteria.decoder_check_iff, and_left_comm]

end CourseConfigDraft

/-! Texts -/

section

variable {write : Node → String}

theorem Json.decode_write {α : Type} (hwrite : write ∈ [Json.compact, Json.pretty])
    (decode : Decoder α) {node : Node} (hnode : node.isWritable = true) :
    Json.decode decode (write node) = decode node.reread := by
  simp only [List.mem_cons, List.not_mem_nil, or_false] at hwrite
  rcases hwrite with rfl | rfl
  · exact Json.decode_compact decode hnode
  · exact Json.decode_pretty decode hnode

theorem Rule.decode_written_iff (hwrite : write ∈ [Json.compact, Json.pretty]) {rule r : Rule} :
    Json.decode Rule.decoder (write rule.toNode) = .ok r ↔ rule.RereadAs r := by
  rw [Json.decode_write hwrite _ rule.isWritable_toNode, ← Rule.decoder_check_iff .refused,
    Rule.decoder, bind_eq_ok_iff]
  refine exists_congr fun draft => and_congr_right fun _ => ?_
  cases hcheck : draft.check <;> simp [pure, Except.pure, throw, throwThe, MonadExceptOf.throw]

namespace Criteria

variable {criteria c : Criteria}

theorem decode_written_iff (hwrite : write ∈ [Json.compact, Json.pretty]) :
    Json.decode decoder (write criteria.toNode) = .ok c ↔ criteria.RereadAs c := by
  rw [Json.decode_write hwrite _ criteria.isWritable_toNode, decoder_iff]

theorem ofJson_written_iff (hwrite : write ∈ [Json.compact, Json.pretty]) :
    ofJson (write criteria.toNode) = .ok c ↔ criteria.RereadAs c := by
  rw [ofJson, ofDrafts, Json.decode_write hwrite _ criteria.isWritable_toNode, bind_eq_ok_iff,
    ← decoder_check_iff]
  simp only [mapError_eq_ok_iff]

end Criteria

namespace CourseConfig

variable {config c : CourseConfig}

@[simp]
theorem isWritable_toNode (config : CourseConfig) : config.toNode.isWritable = true := by
  obtain ⟨_ | id, _ | criteria⟩ := config <;> simp [toNode, Node.memberIfSome]

theorem ofJson_written_iff (hwrite : write ∈ [Json.compact, Json.pretty]) :
    ofJson (write config.toNode) = .ok c ↔ config.RereadAs c := by
  rw [ofJson, Json.decode_write hwrite _ config.isWritable_toNode, bind_eq_ok_iff,
    ← CourseConfigDraft.decoder_check_iff]
  simp only [mapError_eq_ok_iff]

end CourseConfig

end

theorem Binary64.rereadAs_ofDecimal {digits places : Nat} (hdigits : digits < 10 ^ 15)
    (hplaces : places ≤ 22) (hpercent : (ofDecimal false digits (-places)).IsPercent) :
    (ofDecimal false digits (-places)).RereadAs (ofDecimal false digits (-places)) := by
  have hback := readBack_ofDecimal hdigits hplaces hpercent
  have hfinite := hpercent.isFinite
  have hsign : (ofDecimal false digits (-places)).isNegative = false := by
    rw [ofDecimal_eq false hdigits hplaces] at hfinite ⊢
    exact (ofQuotient_spec false (isFinite_ofQuotient_iff.1 hfinite)).2.1
  exact rereadAs_iff.2 ⟨hfinite, _, hback, if_neg (by simp [hsign])⟩

/-- Percentages of at most 15 digits and 22 places are read back unchanged. Whatever configuration
    has only thresholds that are read back unchanged comes back from its text, and so do its
    criteria and each of their rules. -/
theorem CourseConfig.ofJson_written_of_thresholds :
    (∀ digits places : Nat, digits < 10 ^ 15 → places ≤ 22 →
      (Binary64.ofDecimal false digits (-places)).IsPercent →
        (Binary64.ofDecimal false digits (-places)).RereadAs
          (.ofDecimal false digits (-places))) ∧
    ∀ config : CourseConfig, (∀ x ∈ config.thresholds, x.RereadAs x) →
      ∀ write ∈ [Json.compact, Json.pretty], ofJson (write config.toNode) = .ok config ∧
        ∀ criteria ∈ config.criteria,
          Criteria.ofJson (write criteria.toNode) = .ok criteria ∧
          Json.decode Criteria.decoder (write criteria.toNode) = .ok criteria ∧
          ∀ rule ∈ criteria.rules, Json.decode Rule.decoder (write rule.toNode) = .ok rule := by
  refine ⟨fun _ _ => Binary64.rereadAs_ofDecimal, fun config hthresholds write hwrite => ?_⟩
  have hconfig := config.rereadAs_self hthresholds
  refine ⟨(ofJson_written_iff hwrite).2 hconfig, fun criteria hcriteria => ?_⟩
  have hsame : criteria.RereadAs criteria := by
    have hrel := hconfig.2
    rw [Option.mem_def.1 hcriteria] at hrel
    simpa using hrel
  exact ⟨(Criteria.ofJson_written_iff hwrite).2 hsame,
    (Criteria.decode_written_iff hwrite).2 hsame,
    fun rule hrule => (Rule.decode_written_iff hwrite).2 (List.forall₂_same.1 hsame rule hrule)⟩

/-- A configuration whose one rule demands this percentage of the homework. -/
def CourseConfig.demanding (required : Binary64) (hrequired : required.IsPercent) : CourseConfig :=
  ⟨some "analysis", some ⟨[.overall .homework ⟨required, .decimals 2, hrequired, by decide⟩]⟩⟩

theorem CourseConfig.thresholds_demanding (required : Binary64) (hrequired : required.IsPercent) :
    (demanding required hrequired).thresholds = [required] := rfl

/-- The percentage `37.5`. -/
def threeEighths : CourseConfig :=
  .demanding (.ofDecimal false 375 (-(1 : Nat))) (by decide +kernel)

theorem ofJson_written_threeEighths :
    (Binary64.ofDecimal false 375 (-(1 : Nat))).RereadAs (.ofDecimal false 375 (-(1 : Nat))) ∧
      CourseConfig.ofJson (Json.compact threeEighths.toNode) = .ok threeEighths ∧
      CourseConfig.ofJson (Json.pretty threeEighths.toNode) = .ok threeEighths := by
  have hpercent := CourseConfig.ofJson_written_of_thresholds.1 375 1 (by decide) (by decide)
    (by decide +kernel)
  have hthresholds : ∀ x ∈ threeEighths.thresholds, x.RereadAs x := by
    rw [threeEighths, CourseConfig.thresholds_demanding, List.forall_mem_singleton]
    exact hpercent
  exact ⟨hpercent,
    (CourseConfig.ofJson_written_of_thresholds.2 _ hthresholds _ (by simp)).1,
    (CourseConfig.ofJson_written_of_thresholds.2 _ hthresholds _ (by simp)).1⟩

/-- The percentage `1e-23`, of one digit and 23 places. -/
def tinyPercent : CourseConfig :=
  .demanding (.ofDecimal false 1 (-(23 : Nat))) (by decide +kernel)

/-- With one place more a single digit is too much: it is read as `1.0000000000000001e-23`. -/
theorem ofJson_written_tinyPercent :
    tinyPercent.thresholds = [.ofDecimal false 1 (-(23 : Nat))] ∧
      (∀ x ∈ tinyPercent.thresholds, ¬x.RereadAs x) ∧
      ∀ write ∈ [Json.compact, Json.pretty],
        CourseConfig.ofJson (write tinyPercent.toNode) ≠ .ok tinyPercent := by
  have htiny : ¬(Binary64.ofDecimal false 1 (-(23 : Nat))).Survives := by decide +kernel
  refine ⟨CourseConfig.thresholds_demanding _ _, ?_, ?_⟩
  · rw [tinyPercent, CourseConfig.thresholds_demanding, List.forall_mem_singleton]
    rwa [Binary64.rereadAs_self_iff]
  · intro write hwrite h
    obtain ⟨-, hcriteria⟩ := (CourseConfig.ofJson_written_iff hwrite).1 h
    have hall := Criteria.rereadAs_self_iff.1 (Option.rel_some_some.1 hcriteria)
    have hthresholds : ∀ x ∈ tinyPercent.thresholds, x.Survives := hall
    rw [tinyPercent, CourseConfig.thresholds_demanding, List.forall_mem_singleton] at hthresholds
    exact htiny hthresholds

end CourseAdmission
