import CourseAdmission.Document.Encoder
import CourseAdmission.Proofs.Document.Shape
import CourseAdmission.Proofs.Json.Pretty

/-!
Values that are built into documents: what their texts are read as, and what records read from them.
-/

namespace CourseAdmission

open Document

/-- The text of a double is read as this double. -/
def Binary64.RereadAs (x y : Binary64) : Prop :=
  Json.decode Decoder.double (Json.pretty (.ofDouble x)) = .ok y

instance (x y : Binary64) : Decidable (x.RereadAs y) := inferInstanceAs (Decidable (_ = _))

namespace Document.Node

theorem writableItems_iff {items : List Node} :
    writableItems items = true ↔ ∀ item ∈ items, item.isWritable = true := by
  induction items with
  | nil => simp [writableItems]
  | cons item items ih => simp [writableItems, ih]

theorem writableMembers_iff {members : List (Text × Node)} : writableMembers members = true ↔
    ∀ m ∈ members, readableName m.1 = true ∧ m.2.isWritable = true := by
  induction members with
  | nil => simp [writableMembers]
  | cons member members ih => simp [writableMembers, ih, and_assoc]

theorem rereadItems_eq (items : List Node) : rereadItems items = items.map reread := by
  induction items with
  | nil => rfl
  | cons item items ih => rw [rereadItems, ih, List.map_cons]

theorem rereadMembers_eq (members : List (Text × Node)) :
    rereadMembers members = members.map fun m => (m.1, m.2.reread) := by
  induction members with
  | nil => rfl
  | cons member members ih => rw [rereadMembers, ih, List.map_cons]

@[simp]
theorem isWritable_ofText (s : String) : (ofText s).isWritable = true := rfl

theorem ofText_ne_null (s : String) : ofText s ≠ .null := nofun

@[simp]
theorem isWritable_ofNat (n : Nat) : (ofNat n).isWritable = true := rfl

@[simp]
theorem isWritable_bool (b : Bool) : (bool b).isWritable = true := rfl

@[simp]
theorem isWritable_ofDouble (x : Binary64) : (ofDouble x).isWritable = true := by
  unfold ofDouble
  split
  case isTrue hfinite => exact hfinite
  case isFalse => rfl

@[simp]
theorem isWritable_ofList {α : Type} (encode : α → Node) (values : List α) :
    (ofList encode values).isWritable = true ↔
      ∀ value ∈ values, (encode value).isWritable = true := by
  rw [ofList, isWritable, writableItems_iff, List.forall_mem_map]

@[simp]
theorem isWritable_ofMembers (members : List (String × Node)) :
    (ofMembers members).isWritable = true ↔ ∀ m ∈ members, m.2.isWritable = true := by
  rw [ofMembers, isWritable, writableMembers_iff, List.forall_mem_map]
  simp [readableName]

@[simp]
theorem reread_ofText (s : String) : (ofText s).reread = ofText s := rfl

@[simp]
theorem reread_bool (b : Bool) : (bool b).reread = bool b := rfl

theorem reread_ofNat {n : Nat} (hn : n < Word.limit 64) : (ofNat n).reread = ofNat n := by
  rw [ofNat, reread, Number.reread, Json.number_integerNumeral (by omega) (by omega)]

@[simp]
theorem reread_ofList {α : Type} (encode : α → Node) (values : List α) :
    (ofList encode values).reread = ofList (fun value => (encode value).reread) values := by
  rw [ofList, reread, rereadItems_eq, List.map_map]
  rfl

@[simp]
theorem reread_ofMembers (members : List (String × Node)) :
    (ofMembers members).reread = ofMembers (members.map fun m => (m.1, m.2.reread)) := by
  rw [ofMembers, reread, rereadMembers_eq, List.map_map]
  simp [ofMembers]

theorem readableItems_iff {room : Nat} {items : List Node} :
    readableItems room items = true ↔ ∀ item ∈ items, item.readable room = true := by
  induction items with
  | nil => simp [readableItems]
  | cons item items ih => simp [readableItems, ih]

theorem readable_ofList {α : Type} {room : Nat} (hroom : 0 < room) {encode : α → Node}
    {values : List α} (h : ∀ value ∈ values, (encode value).readable (room - 1) = true) :
    (ofList encode values).readable room = true := by
  rw [ofList, readable, readableItems_iff.2 (List.forall_mem_map.2 h), Bool.and_true,
    decide_eq_true hroom]

@[simp]
theorem readable_ofText (room : Nat) (s : String) : (ofText s).readable room = true := rfl

@[simp]
theorem readable_ofNat (room n : Nat) : (ofNat n).readable room = true := rfl

@[simp]
theorem readable_bool (room : Nat) (b : Bool) : (bool b).readable room = true := rfl

theorem double_reread_iff {x y : Binary64} :
    Decoder.double (ofDouble x).reread = .ok y ↔ x.RereadAs y := by
  rw [Binary64.RereadAs, Json.decode_pretty _ (isWritable_ofDouble x)]

end Document.Node

namespace Document

theorem natural_ofNat_iff {bits n m : Nat} (hn : n < Word.limit bits) :
    Decoder.natural bits (.ofNat n) = .ok m ↔ n = m := by
  rw [Decoder.natural, map_eq_ok_iff]
  constructor
  · rintro ⟨k, hk, rfl⟩
    obtain ⟨-, heq⟩ := integerIn_eq_ok_iff.1 hk
    cases heq
    rfl
  · rintro rfl
    exact ⟨n, integerIn_eq_ok_iff.2 ⟨⟨n, rfl, by omega, by omega⟩, rfl⟩, rfl⟩

theorem count_reread_iff {n m : Nat} (hn : n < Word.limit 64) :
    Decoder.count (Node.ofNat n).reread = .ok m ↔ n = m := by
  rw [Node.reread_ofNat hn]
  exact natural_ofNat_iff hn

theorem readable_of_rereadAs {x y : Binary64} (h : x.RereadAs y) (room : Nat) :
    (Node.ofDouble x).reread.readable room = true := by
  have hnumber := (double_eq_ok_iff.1 (Node.double_reread_iff.2 h)).1
  generalize (Node.ofDouble x).reread = node at hnumber ⊢
  obtain ⟨n, rfl⟩ | ⟨z, rfl⟩ := hnumber <;> rfl

theorem text_ofText_iff {s t : String} : Decoder.text (.ofText s) = .ok t ↔ s = t := by
  constructor
  · rintro ⟨⟩
    rfl
  · rintro rfl
    rfl

theorem bool_bool_iff {b c : Bool} : Decoder.bool (.bool b) = .ok c ↔ b = c := by
  constructor
  · rintro ⟨⟩
    rfl
  · rintro rfl
    rfl

/-- A list is read item by item. -/
theorem list_ofList_iff {α β : Type} {decode : Decoder β} {encode : α → Node} {values : List α}
    {R : α → β → Prop} (h : ∀ value ∈ values, ∀ b, decode (encode value) = .ok b ↔ R value b)
    {read : List β} :
    Decoder.list decode (.ofList encode values) = .ok read ↔ List.Forall₂ R values read := by
  rw [Node.ofList, Decoder.list, mapM_eq_ok_iff_forall₂, List.forall₂_map_left_iff]
  induction values generalizing read with
  | nil => simp
  | cons value values ih =>
    rw [List.forall_mem_cons] at h
    simp only [List.forall₂_cons_left_iff, h.1, ih h.2]

end Document

end CourseAdmission
