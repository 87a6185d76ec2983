import CourseAdmission.Document.Tagged
import CourseAdmission.Proofs.Document.Members

/-!
Tagged values whose tag comes first: the record of the tag reads what follows, if all of it can be
set aside.
-/

namespace CourseAdmission.Document

open Record (textMembers)

namespace Variant

variable {α : Type} {variants : List (Variant α)} {variant : Variant α} {form : TagForm}
  {members : List (String × Node)} {room : Nat}

theorem setAside_eq_ok_iff {node a : Node} :
    Decoder.setAside room node = .ok a ↔ node.readable room = true ∧ a = node := by
  unfold Decoder.setAside
  split
  case isTrue h => simp [h, eq_comm]
  case isFalse h => simp [h]

/-- Behind the tag, members are set aside in their order. -/
theorem takeMembers_some_iff (hnames : ∀ m ∈ members, m.1 ≠ tagName)
    {found : Variant α × List (Text × Node)} :
    takeMembers variants form room (some variant) (textMembers members) = .ok found ↔
      (∀ m ∈ members, m.2.readable room = true) ∧ found = (variant, textMembers members) := by
  induction members generalizing found with
  | nil =>
    constructor
    · rintro ⟨⟩
      exact ⟨by simp, rfl⟩
    · rintro ⟨-, rfl⟩
      rfl
  | cons member members ih =>
    obtain ⟨name, value⟩ := member
    rw [List.forall_mem_cons] at hnames ⊢
    have hrest := @ih hnames.2
    rw [textMembers, List.map_cons, takeMembers, if_neg hnames.1, bind_eq_ok_iff]
    constructor
    · rintro ⟨node, hnode, hmore⟩
      obtain ⟨hreadable, rfl⟩ := setAside_eq_ok_iff.1 hnode
      obtain ⟨⟨v, rest⟩, htake, heq⟩ := bind_eq_ok_iff.1 hmore
      obtain ⟨hall, hpair⟩ := hrest.1 htake
      cases hpair
      cases heq
      exact ⟨⟨hreadable, hall⟩, rfl⟩
    · rintro ⟨⟨hreadable, hall⟩, rfl⟩
      exact ⟨value, setAside_eq_ok_iff.2 ⟨hreadable, rfl⟩,
        bind_eq_ok_iff.2 ⟨_, hrest.2 ⟨hall, rfl⟩, rfl⟩⟩

/-- A tagged value is what the tag's record reads from the members behind the tag. -/
theorem decode_iff {tag : String} (hfind : variants.find? (·.tag == tag) = some variant)
    (hnames : ∀ m ∈ members, m.1 ≠ tagName) {a : α} :
    decode variants form room (.ofMembers ((tagName, .ofText tag) :: members)) = .ok a ↔
      (∀ m ∈ members, m.2.readable (room - 1) = true) ∧
        variant.decodeRest (.ofMembers members) = .ok a := by
  have htag : ofTag variants form (.ofText tag) = .ok variant := by
    simp [Node.ofText, ofTag, hfind]
  rw [Node.ofMembers, List.map_cons, decode, takeMembers, if_pos rfl, htag, ok_bind,
    bind_eq_ok_iff]
  constructor
  · rintro ⟨⟨v, rest⟩, htake, hdecode⟩
    obtain ⟨hall, hpair⟩ := (takeMembers_some_iff hnames).1 htake
    cases hpair
    exact ⟨hall, hdecode⟩
  · rintro ⟨hall, hdecode⟩
    exact ⟨_, (takeMembers_some_iff hnames).2 ⟨hall, rfl⟩, hdecode⟩

end Variant

end CourseAdmission.Document
