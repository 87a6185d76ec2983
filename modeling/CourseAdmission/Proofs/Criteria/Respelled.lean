import CourseAdmission.Proofs.Criteria.Misspelled
import Mathlib.Logic.Relation

/-!
Criteria in another spelling have the same outcome.

What is read of each part stays the same, but for the text of an assignment type: so the drafts are
checked as the same rules, and refused at the same rule for the same fault.
-/

namespace CourseAdmission

open Document

/-! What is read of a field -/

/-- What is read of the one node is read of the other, but for a change that `R` allows. -/
def Carries {α : Type} (decode : Decoder α) (R : α → α → Prop) (node node' : Node) : Prop :=
  ∀ a, decode node = .ok a → ∃ b, decode node' = .ok b ∧ R a b

/-- What stands in a field before and after a change of the spelling. -/
inductive FieldRespelled (mayHoldNull : Prop) (R : Node → Node → Prop) :
    List Node → List Node → Prop where
  | permuted {written written' : List Node} (h : written.Perm written') :
      FieldRespelled mayHoldNull R written written'
  | nullDropped (before after : List Node) (hnull : mayHoldNull) :
      FieldRespelled mayHoldNull R (before ++ .null :: after) (before ++ after)
  | nullAdded (hnull : mayHoldNull) : FieldRespelled mayHoldNull R [] [.null]
  | replaced {value value' : Node} (before after : List Node) (h : R value value') :
      FieldRespelled mayHoldNull R (before ++ value :: after) (before ++ value' :: after)

namespace FieldRespelled

variable {α : Type} {decode : Decoder α} {R : Node → Node → Prop} {S : α → α → Prop}
  {written written' : List Node}

theorem append_eq_nil_of_singleton {before after : List Node} {value node : Node}
    (h : before ++ value :: after = [node]) : before = [] ∧ after = [] ∧ value = node := by
  cases before with
  | nil =>
    cases h
    exact ⟨rfl, rfl, rfl⟩
  | cons first before => simp at h

/-- An optional field is read alike in both spellings. -/
theorem exists_readsOptional {mayHoldNull : Prop} {slot : Option α}
    (h : FieldRespelled mayHoldNull R written written') (hrefl : ∀ a, S a a)
    (hreplaced : ∀ {value value'}, R value value' →
      value ≠ .null ∧ value' ≠ .null ∧ Carries decode S value value')
    (hreads : ReadsOptional decode written slot) :
    ∃ slot', ReadsOptional decode written' slot' ∧ Option.Rel S slot slot' := by
  have hself : ∀ slot : Option α, Option.Rel S slot slot
    | none => .none
    | some a => .some (hrefl a)
  cases h with
  | permuted h =>
    refine ⟨slot, ?_, hself slot⟩
    rcases hreads with ⟨rfl, hslot⟩ | ⟨node, rfl, hnode⟩
    · exact .inl ⟨h.nil_eq.symm, hslot⟩
    · exact .inr ⟨node, (List.singleton_perm.1 h).symm, hnode⟩
  | nullDropped before after =>
    rcases hreads with ⟨hnil, -⟩ | ⟨node, hnode, hread⟩
    · simp at hnil
    · obtain ⟨rfl, rfl, rfl⟩ := append_eq_nil_of_singleton hnode
      cases hread
      exact ⟨none, .inl ⟨rfl, rfl⟩, .none⟩
  | nullAdded =>
    rcases hreads with ⟨-, rfl⟩ | ⟨node, hnode, -⟩
    · exact ⟨none, .inr ⟨.null, rfl, rfl⟩, .none⟩
    · cases hnode
  | @replaced value value' before after h =>
    obtain ⟨hvalue, hvalue', hcarries⟩ := hreplaced h
    rcases hreads with ⟨hnil, -⟩ | ⟨node, hnode, hread⟩
    · simp at hnil
    · obtain ⟨rfl, rfl, rfl⟩ := append_eq_nil_of_singleton hnode
      rcases nullable_eq_ok_iff.1 hread with ⟨hnull, -⟩ | ⟨-, a, ha, rfl⟩
      · exact absurd hnull hvalue
      · obtain ⟨b, hb, hab⟩ := hcarries a ha
        exact ⟨some b, .inr ⟨value', rfl, nullable_eq_ok_iff.2 (.inr ⟨hvalue', b, hb, rfl⟩)⟩,
          .some hab⟩

end FieldRespelled

/-! Drafts of the same criteria -/

/-- The texts are one, or they name one type. -/
def AssignmentType.SameType (text text' : String) : Prop :=
  text = text' ∨ ∃ type, ofText? text = some type ∧ ofText? text' = some type

namespace RuleDraft

/-- The drafts agree but for the spelling of their assignment types. -/
structure Alike (draft draft' : RuleDraft) : Prop where
  kind : draft.kind = draft'.kind
  assignmentType : Option.Rel AssignmentType.SameType draft.assignmentType draft'.assignmentType
  requiredPercent : draft.requiredPercent = draft'.requiredPercent
  averageRounding : draft.averageRounding = draft'.averageRounding
  passedPercent : draft.passedPercent = draft'.passedPercent
  passedRounding : draft.passedRounding = draft'.passedRounding

theorem Alike.refl (draft : RuleDraft) : Alike draft draft := by
  refine ⟨rfl, ?_, rfl, rfl, rfl, rfl⟩
  cases draft.assignmentType with
  | none => exact .none
  | some text => exact .some (.inl rfl)

theorem typeOfText_eq {text text' : String} (h : AssignmentType.SameType text text') :
    typeOfText text = typeOfText text' := by
  rcases h with rfl | ⟨type, htext, htext'⟩
  · rfl
  · rw [typeOfText, typeOfText, htext, htext']

theorem Alike.check_eq {draft draft' : RuleDraft} (h : Alike draft draft') :
    draft.check = draft'.check := by
  obtain ⟨kind, type, required, rounding, share, shareRounding⟩ := draft
  obtain ⟨kind', type', required', rounding', share', shareRounding'⟩ := draft'
  obtain ⟨rfl, htype, rfl, rfl, rfl, rfl⟩ := h
  cases htype with
  | none => rfl
  | some htype => simp only [check, present, ok_bind, typeOfText_eq htype]

end RuleDraft

theorem CriteriaDraft.checkFrom_eq {drafts drafts' : CriteriaDraft}
    (h : List.Forall₂ RuleDraft.Alike drafts drafts') (index : Nat) :
    checkFrom index drafts = checkFrom index drafts' := by
  induction h generalizing index with
  | nil => rfl
  | cons hdraft _ ih => rw [checkFrom, checkFrom, hdraft.check_eq, ih]

/-! One change of the spelling -/

namespace CriteriaPart

/-- What is read of the part in one spelling is read of it in the other. -/
def Keeps : CriteriaPart → Node → Node → Prop
  | .criteria => Carries (CriteriaDraft.decoder .refused) (List.Forall₂ RuleDraft.Alike)
  | .rules => Carries (Decoder.list (RuleDraft.decoder .refused)) (List.Forall₂ RuleDraft.Alike)
  | .rule => Carries (RuleDraft.decoder .refused) RuleDraft.Alike
  | .rounding => Carries (RoundingDraft.decoder .refused) Eq
  | .assignmentType => Carries Decoder.text AssignmentType.SameType

/-- A part that a field holds is read alike in both spellings. -/
def ChildKept (child : Option CriteriaPart) (value value' : Node) : Prop :=
  value ≠ .null ∧ value' ≠ .null ∧ ∃ part, child = some part ∧ part.Keeps value value'

/-- What stands in the fields of the part is only respelled. -/
def FieldsKept (part : CriteriaPart) (node node' : Node) : Prop :=
  ∀ place names child, part.fields[place]? = some (names, child) →
    FieldRespelled part.MayHoldNull (ChildKept child) (node.written names place)
      (node'.written names place)

variable {part : CriteriaPart} {node node' : Node}

/-- A field that holds no part of its own reads the same value. -/
theorem exists_reads_plain {α : Type} {decode : Decoder α} {written written' : List Node}
    {mayHoldNull : Prop} {slot : Option α}
    (h : FieldRespelled mayHoldNull (ChildKept none) written written')
    (hreads : ReadsOptional decode written slot) : ReadsOptional decode written' slot := by
  obtain ⟨slot', hreads', heq⟩ := h.exists_readsOptional (S := Eq) (fun _ => rfl)
    (fun hchild => by simp [ChildKept] at hchild) hreads
  cases heq with
  | none => exact hreads'
  | some heq => exact heq ▸ hreads'

/-- A field that holds another part reads a value that is alike. -/
theorem exists_reads_child {α : Type} {decode : Decoder α} {S : α → α → Prop} {child : CriteriaPart}
    {written written' : List Node} {mayHoldNull : Prop} {slot : Option α}
    (h : FieldRespelled mayHoldNull (ChildKept (some child)) written written')
    (hchild : ∀ {value value'}, child.Keeps value value' → Carries decode S value value')
    (hrefl : ∀ a, S a a) (hreads : ReadsOptional decode written slot) :
    ∃ slot', ReadsOptional decode written' slot' ∧ Option.Rel S slot slot' := by
  refine h.exists_readsOptional hrefl ?_ hreads
  rintro value value' ⟨hvalue, hvalue', part, hpart, hkeeps⟩
  cases hpart
  exact ⟨hvalue, hvalue', hchild hkeeps⟩

theorem eq_of_rel_eq {α : Type} {slot slot' : Option α} (h : Option.Rel Eq slot slot') :
    slot = slot' := by
  cases h with
  | none => rfl
  | some h => rw [h]

theorem keeps_rounding (hfills : node.Fills rounding.names 2 .refused →
      node'.Fills rounding.names 2 .refused) (hfields : rounding.FieldsKept node node') :
    rounding.Keeps node node' := by
  intro draft hdraft
  obtain ⟨hfill, hkind, hdecimals⟩ := RoundingDraft.decoder_iff_reads.1 hdraft
  exact ⟨draft, RoundingDraft.decoder_iff_reads.2 ⟨hfills hfill,
    exists_reads_plain (hfields 0 _ _ rfl) hkind,
    exists_reads_plain (hfields 1 _ _ rfl) hdecimals⟩, rfl⟩

theorem keeps_rule (hfills : node.Fills rule.names 6 .refused → node'.Fills rule.names 6 .refused)
    (hfields : rule.FieldsKept node node') : rule.Keeps node node' := by
  intro draft hdraft
  obtain ⟨hfill, hkind, htype, hpercent, hrounding, hshare, hshareRounding⟩ :=
    RuleDraft.decoder_iff_reads.1 hdraft
  obtain ⟨type, hreadsType, hsame⟩ := exists_reads_child (hfields 1 _ _ rfl) id
    (fun _ => .inl rfl) htype
  obtain ⟨average, hreadsAverage, haverage⟩ := exists_reads_child (hfields 3 _ _ rfl) id
    (fun _ => rfl) hrounding
  obtain ⟨passed, hreadsPassed, hpassed⟩ := exists_reads_child (hfields 5 _ _ rfl) id
    (fun _ => rfl) hshareRounding
  refine ⟨⟨draft.kind, type, draft.requiredPercent, average, draft.passedPercent, passed⟩,
    RuleDraft.decoder_iff_reads.2 ⟨hfills hfill, exists_reads_plain (hfields 0 _ _ rfl) hkind,
      hreadsType, exists_reads_plain (hfields 2 _ _ rfl) hpercent, hreadsAverage,
      exists_reads_plain (hfields 4 _ _ rfl) hshare, hreadsPassed⟩, ?_⟩
  exact ⟨rfl, hsame, rfl, eq_of_rel_eq haverage, rfl, eq_of_rel_eq hpassed⟩

theorem forall₂_alike_self (drafts : CriteriaDraft) :
    List.Forall₂ RuleDraft.Alike drafts drafts :=
  List.forall₂_same.2 fun _ _ => RuleDraft.Alike.refl _

theorem keeps_criteria (hfills : node.Fills criteria.names 0 .refused →
      node'.Fills criteria.names 0 .refused) (hfields : criteria.FieldsKept node node') :
    criteria.Keeps node node' := by
  intro drafts hdrafts
  obtain ⟨hfill, hreads⟩ := CriteriaDraft.decoder_iff_reads.1 hdrafts
  have hdecode {drafts' : CriteriaDraft} (h : (node'.written CriteriaDraft.rulesNames 0 = [] ∧
      drafts' = []) ∨ ∃ list, node'.written CriteriaDraft.rulesNames 0 = [list] ∧
        Decoder.list (RuleDraft.decoder .refused) list = .ok drafts') :
      CriteriaDraft.decoder .refused node' = .ok drafts' :=
    CriteriaDraft.decoder_iff_reads.2 ⟨hfills hfill, h⟩
  have hnull : ¬criteria.MayHoldNull := by rintro (h | h) <;> cases h
  have hfield := hfields 0 _ _ rfl
  generalize node.written CriteriaDraft.rulesNames 0 = written at hreads hfield
  generalize node'.written CriteriaDraft.rulesNames 0 = written' at hdecode hfield
  cases hfield with
  | permuted h =>
    refine ⟨drafts, hdecode ?_, forall₂_alike_self drafts⟩
    rcases hreads with ⟨rfl, hempty⟩ | ⟨list, rfl, hlist⟩
    · exact .inl ⟨h.nil_eq.symm, hempty⟩
    · exact .inr ⟨list, (List.singleton_perm.1 h).symm, hlist⟩
  | nullDropped before after h => exact absurd h hnull
  | nullAdded h => exact absurd h hnull
  | @replaced value value' before after h =>
    obtain ⟨-, -, part, hpart, hkeeps⟩ := h
    cases hpart
    rcases hreads with ⟨hnil, -⟩ | ⟨list, hlist, hread⟩
    · simp at hnil
    · obtain ⟨rfl, rfl, rfl⟩ := FieldRespelled.append_eq_nil_of_singleton hlist
      obtain ⟨drafts', hread', halike⟩ := hkeeps drafts hread
      exact ⟨drafts', hdecode (.inr ⟨value', rfl, hread'⟩), halike⟩

/-- An object whose fields are only respelled is read alike. -/
theorem keeps_object {members members' : List (Text × Node)}
    (hknown : (∀ m ∈ members, hasName part.names.flatten m = true) →
      ∀ m ∈ members', hasName part.names.flatten m = true)
    (hfields : ∀ field ∈ part.fields, FieldRespelled part.MayHoldNull (ChildKept field.2)
      (valuesOf field.1 members) (valuesOf field.1 members')) :
    part.Keeps (.object members) (.object members') := by
  have hkept : part.FieldsKept (.object members) (.object members') := fun place names child h =>
    hfields (names, child) (List.mem_of_getElem? h)
  cases part with
  | criteria => exact keeps_criteria hknown hkept
  | rule => exact keeps_rule hknown hkept
  | rounding => exact keeps_rounding hknown hkept
  | rules =>
    intro drafts hdrafts
    cases hdrafts
  | assignmentType =>
    intro text htext
    cases htext

/-- An array of fields one of which is only respelled is read alike. -/
theorem keeps_array {child : CriteriaPart} {value value' : Node} {before after : List Node}
    (hrules : part ≠ .rules) (hchild : part.item? before.length = some child)
    (hkept : ChildKept (some child) value value') :
    part.Keeps (.array (before ++ value :: after)) (.array (before ++ value' :: after)) := by
  obtain ⟨names, hfield⟩ := exists_field_of_item? hrules hchild
  have hfills (names : List (List String)) (needed : Nat) :
      (Node.array (before ++ value :: after)).Fills names needed .refused →
        (Node.array (before ++ value' :: after)).Fills names needed .refused := by
    simp [Node.Fills]
  have hfields : part.FieldsKept (.array (before ++ value :: after))
      (.array (before ++ value' :: after)) := by
    intro place names other hother
    rcases Nat.lt_trichotomy place before.length with hless | rfl | hless
    · simp only [Node.written, List.getElem?_append_left hless]
      exact .permuted (.refl _)
    · cases hfield.symm.trans hother
      simpa [Node.written] using FieldRespelled.replaced [] [] hkept
    · obtain ⟨further, rfl⟩ := Nat.exists_eq_add_of_lt hless
      have hplace : before.length + further + 1 - before.length = further + 1 := by omega
      simp only [Node.written, List.getElem?_append_right (Nat.le_of_lt hless), hplace,
        List.getElem?_cons_succ]
      exact .permuted (.refl _)
  cases part with
  | criteria => exact keeps_criteria (hfills _ _) hfields
  | rule => exact keeps_rule (hfills _ _) hfields
  | rounding => exact keeps_rounding (hfills _ _) hfields
  | rules => exact absurd rfl hrules
  | assignmentType => simp [fields] at hfield

/-- A list of rules one of which is only respelled is read alike. -/
theorem keeps_rules {value value' : Node} {before after : List Node}
    (h : rule.Keeps value value') :
    rules.Keeps (.array (before ++ value :: after)) (.array (before ++ value' :: after)) := by
  intro drafts hdrafts
  rw [Decoder.list, List.mapM_append, bind_eq_ok_iff] at hdrafts
  obtain ⟨first, hfirst, hmore⟩ := hdrafts
  obtain ⟨rest, hrest, heq⟩ := bind_eq_ok_iff.1 hmore
  cases heq
  rw [List.mapM_cons, bind_eq_ok_iff] at hrest
  obtain ⟨draft, hdraft, hmore⟩ := hrest
  obtain ⟨last, hlast, heq⟩ := bind_eq_ok_iff.1 hmore
  cases heq
  obtain ⟨draft', hdraft', halike⟩ := h draft hdraft
  refine ⟨first ++ draft' :: last, ?_, ?_⟩
  · rw [Decoder.list, List.mapM_append, hfirst, List.mapM_cons, hdraft', hlast]
    rfl
  · exact List.rel_append (forall₂_alike_self first) (.cons halike (forall₂_alike_self last))

end CriteriaPart

namespace Respelling

open CriteriaPart

theorem ne_null {part : CriteriaPart} {node node' : Node} (h : Respelling part node node') :
    node ≠ .null ∧ node' ≠ .null := by
  cases h <;> exact ⟨nofun, nofun⟩

/-- The names of a member that is replaced by another of the same field stay known. -/
theorem known_of_known {names : List String} {before after : List (Text × Node)}
    (replaced replacing : List (Text × Node))
    (hreplacing : ∀ m ∈ replacing, hasName names m = true)
    (h : ∀ m ∈ before ++ (replaced ++ after), hasName names m = true) :
    ∀ m ∈ before ++ (replacing ++ after), hasName names m = true := by
  simp only [List.forall_mem_append] at h ⊢
  exact ⟨h.1, hreplacing, h.2.2⟩

/-- One change of the spelling of a part keeps what is read of it. -/
theorem keeps {part : CriteriaPart} {node node' : Node} (h : Respelling part node node') :
    part.Keeps node node' := by
  induction h with
  | permuted h =>
    refine keeps_object (fun hknown m hm => hknown m (h.mem_iff.2 hm)) fun field _ => ?_
    exact .permuted ((h.filter _).map _)
  | @renamed part names child name name' value before after hfield hname hname' =>
    have hold : hasName names (.whole name, value) = true := by simp [hasName, hname]
    have hnew : hasName names (.whole name', value) = true := by simp [hasName, hname']
    refine keeps_object (known_of_known [_] [_] ?_) fun other hother => ?_
    · simpa using hasName_flatten_names.2 ⟨_, hfield, hnew⟩
    · have heq : hasName other.1 (.whole name, value) = hasName other.1 (.whole name', value) := by
        rw [Bool.eq_iff_iff]
        constructor
        · intro h
          rw [← eq_of_hasName hfield hother hold h]
          exact hnew
        · intro h
          rw [← eq_of_hasName hfield hother hnew h]
          exact hold
      rw [valuesOf_append_cons, valuesOf_append_cons, heq]
      exact .permuted (.refl _)
  | @nullDropped part name before after hnull =>
    refine keeps_object (known_of_known [_] [] (by simp))
      fun other hother => ?_
    rw [valuesOf_append_cons, valuesOf_append]
    split
    · exact .nullDropped _ _ hnull
    · exact .permuted (.refl _)
  | @nullAdded part names child name before after hnull hfield hname habsent =>
    have hnew : hasName names (.whole name, .null) = true := by simp [hasName, hname]
    refine keeps_object (known_of_known [] [_] ?_) fun other hother => ?_
    · simpa using hasName_flatten_names.2 ⟨_, hfield, hnew⟩
    · rw [valuesOf_append_cons]
      split
      case isTrue h =>
        rw [← eq_of_hasName hfield hother hnew h]
        have hnone : valuesOf names (before ++ after) = [] := by
          rw [valuesOf, List.filter_eq_nil_iff.2 (by simpa using habsent), List.map_nil]
        rw [valuesOf_append] at hnone ⊢
        obtain ⟨hbefore, hafter⟩ := List.append_eq_nil_iff.1 hnone
        rw [hbefore, hafter]
        exact .nullAdded hnull
      case isFalse =>
        rw [valuesOf_append]
        exact .permuted (.refl _)
  | @tag text text' type htext htext' =>
    intro read hread
    cases hread
    exact ⟨text', rfl, .inr ⟨type, htext, AssignmentType.ofText?_eq_some_iff.2 htext'⟩⟩
  | @member part child names name value value' before after hfield hname h ih =>
    have hnew : hasName names (name, value') = true := hname
    refine keeps_object (known_of_known [_] [_] ?_) fun other hother => ?_
    · simpa using hasName_flatten_names.2 ⟨_, hfield, hnew⟩
    · have heq : hasName other.1 (name, value') = hasName other.1 (name, value) := rfl
      rw [valuesOf_append_cons, valuesOf_append_cons, heq]
      split
      case isTrue hother' =>
        rw [← eq_of_hasName hfield hother hname hother']
        exact .replaced _ _ ⟨h.ne_null.1, h.ne_null.2, child, rfl, ih⟩
      case isFalse => exact .permuted (.refl _)
  | @item part child value value' before after hchild h ih =>
    by_cases hrules : part = .rules
    · subst hrules
      cases hchild
      exact keeps_rules ih
    · exact keeps_array hrules hchild ⟨h.ne_null.1, h.ne_null.2, child, rfl, ih⟩

end Respelling

/-! Any number of changes -/

/-- The document is respelled by any number of changes, one after the other. -/
def Respelled (node node' : Node) : Prop := Relation.ReflTransGen (Respelling .criteria) node node'

/-- Any number of changes of the spelling keep what the drafts are checked as. -/
theorem Respelled.exists_decoder_eq_ok {node node' : Node} {drafts : CriteriaDraft}
    (h : Respelled node node') (hdecode : CriteriaDraft.decoder .refused node = .ok drafts) :
    ∃ drafts', CriteriaDraft.decoder .refused node' = .ok drafts' ∧
      drafts'.check = drafts.check := by
  induction h with
  | refl => exact ⟨drafts, hdecode, rfl⟩
  | tail _ hstep ih =>
    obtain ⟨middle, hmiddle, hcheck⟩ := ih
    obtain ⟨last, hlast, halike⟩ := hstep.keeps middle hmiddle
    refine ⟨last, hlast, ?_⟩
    rw [← hcheck, CriteriaDraft.check, CriteriaDraft.check, CriteriaDraft.checkFrom_eq halike]

/-- Of a text that is decoded, the outcome of every text that respells it is the same: the criteria,
    or the rule that is refused and its fault. A text in which one name is replaced by a text that
    names no field there is malformed. -/
theorem Criteria.ofJson_of_respelled {text text' : String} {drafts : CriteriaDraft}
    (hdecode : Json.decode (CriteriaDraft.decoder .refused) text = .ok drafts) :
    (Respelled (Json.read text).root (Json.read text').root → (Json.read text').complete = true →
        ofJson text' = ofJson text) ∧
      (Misspelling .criteria (Json.read text).root (Json.read text').root →
        ∃ cause, ofJson text' = .error (.malformed cause)) := by
  constructor
  · intro hrespelled hcomplete
    obtain ⟨drafts', hdrafts', hcheck⟩ :=
      hrespelled.exists_decoder_eq_ok (Json.decode_eq_ok_iff.1 hdecode).1
    rw [ofJson, ofJson, hdecode, Json.decode_eq_ok_iff.2 ⟨hdrafts', hcomplete⟩, ofDrafts, ofDrafts,
      mapError_ok, mapError_ok, ok_bind, ok_bind, hcheck]
  · intro hmisspelled
    rw [ofJson, ofDrafts]
    rcases hread : Json.decode (CriteriaDraft.decoder .refused) text' with cause | drafts'
    · exact ⟨cause, rfl⟩
    · exact absurd (Json.decode_eq_ok_iff.1 hread).1 (hmisspelled.refuses drafts')

/-- Criteria of one rule that has no type. -/
def plainRule : String :=
  "\x7b\"rules\":[\x7b\"assignmentType\":\"OTHER\",\"rounding\":\x7b\"type\":null\x7d\x7d]\x7d"

/-- The same in another spelling. -/
def respelledRule : String :=
  "\x7b\"criteria\":[\x7b\"achievedPercentRounding\":\x7b\x7d," ++
    "\"assignmentType\":\" oTHer\"\x7d]\x7d"

/-- The same with a name that no field of a rounding has. -/
def misspelledRule : String :=
  "\x7b\"rules\":[\x7b\"assignmentType\":\"OTHER\",\"rounding\":\x7b\"kind\":null\x7d\x7d]\x7d"

/-- The rule is refused because it has no type, in either spelling; with the unknown name its text
    is malformed. -/
theorem ofJson_of_respelled_plainRule :
    Criteria.ofJson plainRule = .error (.rule 0 (.missingField .kind)) ∧
      Criteria.ofJson respelledRule = Criteria.ofJson plainRule ∧
        ∃ cause, Criteria.ofJson misspelledRule = .error (.malformed cause) := by
  let document (name : String) (members : List (Text × Node)) : Node :=
    .object [(.whole name, .array [.object members])]
  let type (text : String) : Text × Node := (.whole "assignmentType", .ofText text)
  let rounding (name : String) (members : List (Text × Node)) : Text × Node :=
    (.whole name, .object members)
  have hdecode : Json.decode (CriteriaDraft.decoder .refused) plainRule =
      .ok [⟨none, some "OTHER", none, some ⟨none, none⟩, none, none⟩] := by decide +kernel
  have hplain : (Json.read plainRule).root = document "rules"
      [type "OTHER", rounding "rounding" [(.whole "type", .null)]] := rfl
  have hrespelled : (Json.read respelledRule).root = document "criteria"
      [rounding "achievedPercentRounding" [], type " oTHer"] := rfl
  have hmisspelled : (Json.read misspelledRule).root = document "rules"
      [type "OTHER", rounding "rounding" [(.whole "kind", .null)]] := rfl
  have inRule {members members' : List (Text × Node)}
      (h : Respelling .rule (.object members) (.object members')) :
      Respelling .criteria (document "rules" members) (document "rules" members') :=
    .member [] [] (List.mem_singleton_self _) rfl (.item [] [] rfl h)
  have hrounding : (RuleDraft.roundingNames, some .rounding) ∈ CriteriaPart.rule.fields := by decide
  have htype : ([RuleField.assignmentType.name], some .assignmentType) ∈
      CriteriaPart.rule.fields := by decide
  have hspells : AssignmentType.other.Spells " oTHer" :=
    AssignmentType.ofText?_eq_some_iff.1 (by decide +kernel)
  refine ⟨by decide +kernel, (Criteria.ofJson_of_respelled hdecode).1 ?_ (by decide +kernel),
    (Criteria.ofJson_of_respelled hdecode).2 ?_⟩
  · rw [hplain, hrespelled]
    have hdropped : Respelling .rule
        (.object [type "OTHER", rounding "rounding" [(.whole "type", .null)]])
        (.object [type "OTHER", rounding "rounding" []]) :=
      .member [_] [] hrounding rfl (.nullDropped [] [] (.inr rfl))
    have hrenamed : Respelling .rule (.object [type "OTHER", rounding "rounding" []])
        (.object [type "OTHER", rounding "achievedPercentRounding" []]) :=
      .renamed [_] [] hrounding (by decide) (by decide)
    have hspelled : Respelling .rule
        (.object [type "OTHER", rounding "achievedPercentRounding" []])
        (.object [type " oTHer", rounding "achievedPercentRounding" []]) :=
      .member [] [_] htype rfl (.tag (by decide +kernel) hspells)
    have hpermuted : Respelling .rule
        (.object [type " oTHer", rounding "achievedPercentRounding" []])
        (.object [rounding "achievedPercentRounding" [], type " oTHer"]) :=
      .permuted (.swap _ _ [])
    have hcriteria (members : List (Text × Node)) :
        Respelling .criteria (document "rules" members) (document "criteria" members) :=
      .renamed [] [] (List.mem_singleton_self _) (by decide) (by decide)
    exact .head (inRule hdropped) (.head (inRule hrenamed) (.head (inRule hspelled)
      (.head (inRule hpermuted) (.single (hcriteria _)))))
  · rw [hplain, hmisspelled]
    exact .member [] [] (List.mem_singleton_self _) rfl (.item [] [] rfl
      (.member [_] [] hrounding rfl (.name [] [] (by decide))))

end CourseAdmission
