import CourseAdmission.Proofs.Document.Record

/-!
What all values have in common that decoders give.

A property that a document hands down to its parts carries over to the values that are read of it:
each field of a record keeps to what its decoder gives, however the record is written.
-/

namespace CourseAdmission.Document

variable {α β : Type} {P : Node → Prop} {Q : α → Prop}

/-- A property that arrays and objects hand down to their parts. -/
structure Hereditary (P : Node → Prop) : Prop where
  items : ∀ {items}, P (.array items) → ∀ item ∈ items, P item
  members : ∀ {members}, P (.object members) → ∀ m ∈ members, P m.2

/-- Of parts with the one property the decoder reads values with the other. -/
def Decoder.Yields (P : Node → Prop) (decode : Decoder α) (Q : α → Prop) : Prop :=
  ∀ node a, P node → decode node = .ok a → Q a

theorem Decoder.yields_list {decode : Decoder α} (hP : Hereditary P) (hdecode : decode.Yields P Q) :
    (list decode).Yields P fun values => ∀ a ∈ values, Q a := by
  intro node values hnode hlist
  cases node with
  | array items =>
    have hitems := hP.items hnode
    have hvalues := mapM_eq_ok_iff_forall₂.1 hlist
    clear hnode hlist
    induction hvalues with
    | nil => exact List.forall_mem_nil Q
    | @cons item a items values ha _ ih =>
      obtain ⟨hitem, hrest⟩ := List.forall_mem_cons.1 hitems
      exact List.forall_mem_cons.2 ⟨hdecode item a hitem ha, ih hrest⟩
  | _ => cases hlist

/-- Nothing is said of the values. -/
theorem Decoder.yields_true (decode : Decoder α) : decode.Yields P fun _ => True :=
  fun _ _ _ _ => trivial

theorem Decoder.Yields.mono {decode : Decoder α} {R : α → Prop} (h : decode.Yields P Q)
    (hQ : ∀ a, Q a → R a) : decode.Yields P R :=
  fun node a hnode ha => hQ a (h node a hnode ha)

namespace Record

/-- The slots keep a property while parts are taken into them, and with it they give values with
    another one. -/
structure Keeps (P : Node → Prop) (record : Record α) (Inv : record.Slots → Prop)
    (Q : α → Prop) : Prop where
  start : Inv record.start
  take : ∀ {slots name node taken}, Inv slots → P node →
    record.take slots name node = some (.ok taken) → Inv taken
  takeItems : ∀ {slots items taken left}, Inv slots → (∀ item ∈ items, P item) →
    record.takeItems slots items = .ok (taken, left) → Inv taken ∧ ∀ item ∈ left, P item
  finish : ∀ {slots a}, Inv slots → record.finish slots = .ok a → Q a

/-- Of parts with the one property the record puts together values with the other. -/
def Yields (P : Node → Prop) (record : Record α) (Q : α → Prop) : Prop :=
  ∃ Inv, record.Keeps P Inv Q

theorem yields_field {decode : Decoder α} (hdecode : decode.Yields P Q) {absent : Absent α}
    (habsent : ∀ value ∈ absent.value?, Q value) (name : String) (otherNames : List String) :
    (field name otherNames absent decode).Yields P Q := by
  refine ⟨fun slot : Option α => ∀ value ∈ slot, Q value, ⟨by simp [field], ?_, ?_, ?_⟩⟩
  · intro slot given node taken hslot hnode htake
    simp only [field] at htake
    split at htake
    case isTrue =>
      cases slot with
      | some value => cases htake
      | none =>
        obtain ⟨value, hvalue, rfl⟩ := map_eq_ok_iff.1 (Option.some.inj htake)
        rintro _ ⟨⟩
        exact hdecode node value hnode hvalue
    case isFalse => cases htake
  · intro slot items taken left hslot hitems htake
    simp only [field] at htake
    cases items with
    | cons item items =>
      obtain ⟨hitem, hrest⟩ := List.forall_mem_cons.1 hitems
      obtain ⟨value, hvalue, heq⟩ := map_eq_ok_iff.1 htake
      cases heq
      refine ⟨?_, hrest⟩
      rintro _ ⟨⟩
      exact hdecode item value hitem hvalue
    | nil =>
      cases absent with
      | defaulted value =>
        cases htake
        exact ⟨hslot, hitems⟩
      | _ => cases htake
  · intro slot a hslot hfinish
    simp only [field] at hfinish
    cases slot with
    | some value =>
      cases hfinish
      exact hslot a rfl
    | none =>
      cases absent with
      | missed => cases hfinish
      | _ =>
        cases hfinish
        exact habsent a rfl

theorem yields_required {decode : Decoder α} (hdecode : decode.Yields P Q) (name : String) :
    (required name decode).Yields P Q :=
  yields_field hdecode (by simp [Absent.value?]) name []

theorem yields_defaulted {decode : Decoder α} (hdecode : decode.Yields P Q) {value : α}
    (hvalue : Q value) (name : String) (otherNames : List String) :
    (defaulted name otherNames value decode).Yields P Q :=
  yields_field hdecode (by simpa [Absent.value?] using hvalue) name otherNames

theorem Yields.map {record : Record α} (h : record.Yields P Q) (f : α → β) :
    (f <$> record).Yields P fun b => ∃ a, Q a ∧ f a = b := by
  obtain ⟨Inv, hstart, htake, hitems, hfinish⟩ := h
  refine ⟨Inv, hstart, htake, hitems, fun hslots hb => ?_⟩
  obtain ⟨a, ha, rfl⟩ := map_eq_ok_iff.1 hb
  exact ⟨a, hfinish hslots ha, rfl⟩

theorem Yields.both {first : Record α} {second : Record β} {R : β → Prop}
    (hfirst : first.Yields P Q) (hsecond : second.Yields P R) :
    (both first second).Yields P fun pair => Q pair.1 ∧ R pair.2 := by
  obtain ⟨Inv, hstart, htake, hitems, hfinish⟩ := hfirst
  obtain ⟨Inv', hstart', htake', hitems', hfinish'⟩ := hsecond
  refine ⟨fun slots : first.Slots × second.Slots => Inv slots.1 ∧ Inv' slots.2,
    ⟨⟨hstart, hstart'⟩, ?_, ?_, ?_⟩⟩
  · intro slots name node taken hslots hnode htaken
    simp only [Record.both] at htaken
    split at htaken
    case h_1 given hgiven =>
      obtain ⟨s, rfl, rfl⟩ := map_eq_ok_iff.1 (Option.some.inj htaken)
      exact ⟨htake hslots.1 hnode hgiven, hslots.2⟩
    case h_2 =>
      obtain ⟨given, hgiven, hmap⟩ := Option.map_eq_some_iff.1 htaken
      obtain ⟨s, rfl, rfl⟩ := map_eq_ok_iff.1 hmap
      exact ⟨hslots.1, htake' hslots.2 hnode hgiven⟩
  · intro slots items taken left hslots hall htaken
    obtain ⟨⟨s, rest⟩, hs, hmore⟩ := bind_eq_ok_iff.1 htaken
    obtain ⟨⟨t, last⟩, ht, heq⟩ := bind_eq_ok_iff.1 hmore
    cases heq
    obtain ⟨hs, hrest⟩ := hitems hslots.1 hall hs
    obtain ⟨ht, hlast⟩ := hitems' hslots.2 hrest ht
    exact ⟨⟨hs, ht⟩, hlast⟩
  · intro slots pair hslots hpair
    obtain ⟨a, ha, hmore⟩ := bind_eq_ok_iff.1 hpair
    obtain ⟨b, hb, heq⟩ := bind_eq_ok_iff.1 hmore
    cases heq
    exact ⟨hfinish hslots.1 ha, hfinish' hslots.2 hb⟩

/-- A record of one more field. -/
theorem Yields.seq {functions : Record (α → β)} {arguments : Record α} {F : (α → β) → Prop}
    (hfunctions : functions.Yields P F) (harguments : arguments.Yields P Q) :
    (functions <*> arguments).Yields P fun b => ∃ f a, F f ∧ Q a ∧ f a = b := by
  obtain ⟨Inv, hkeeps⟩ := (hfunctions.both harguments).map fun pair => pair.1 pair.2
  refine ⟨Inv, hkeeps.start, hkeeps.take, hkeeps.takeItems, fun hslots hb => ?_⟩
  obtain ⟨⟨f, a⟩, ⟨hf, ha⟩, heq⟩ := hkeeps.finish hslots hb
  exact ⟨f, a, hf, ha, heq⟩

theorem Keeps.takeMembers {record : Record α} {Inv : record.Slots → Prop}
    (hkeeps : record.Keeps P Inv Q) {unknown : Unknown} {members : List (Text × Node)}
    (hmembers : ∀ m ∈ members, P m.2) {slots taken : record.Slots} (hslots : Inv slots)
    (htake : record.takeMembers unknown slots members = .ok taken) : Inv taken := by
  induction members generalizing slots with
  | nil =>
    cases htake
    exact hslots
  | cons m members ih =>
    obtain ⟨text, node⟩ := m
    obtain ⟨hnode, hrest⟩ := List.forall_mem_cons.1 hmembers
    cases text with
    | whole name =>
      simp only [Record.takeMembers] at htake
      split at htake
      case h_1 given hgiven =>
        obtain ⟨next, rfl, hmore⟩ := bind_eq_ok_iff.1 htake
        exact ih hrest (hkeeps.take hslots hnode hgiven) hmore
      case h_2 =>
        split at htake
        case h_1 => cases htake
        case h_2 =>
          split at htake
          case isTrue => exact ih hrest hslots htake
          case isFalse => cases htake
    | _ => cases htake

/-- What a record yields, its decoder yields, of objects as of arrays. -/
theorem Yields.decode {record : Record α} (h : record.Yields P Q) (hP : Hereditary P)
    (unknown : Unknown) (surplus : Surplus) : (record.decode unknown surplus).Yields P Q := by
  obtain ⟨Inv, hkeeps⟩ := h
  intro node a hnode ha
  cases node with
  | object members =>
    obtain ⟨slots, hslots, hfinish⟩ := bind_eq_ok_iff.1 ha
    exact hkeeps.finish (hkeeps.takeMembers (hP.members hnode) hkeeps.start hslots) hfinish
  | array items =>
    obtain ⟨⟨slots, left⟩, hslots, hfinish⟩ := bind_eq_ok_iff.1 ha
    dsimp only at hfinish
    split at hfinish
    case isTrue =>
      exact hkeeps.finish (hkeeps.takeItems hkeeps.start (hP.items hnode) hslots).1 hfinish
    case isFalse => cases hfinish
  | _ => cases ha

end Record

end CourseAdmission.Document
