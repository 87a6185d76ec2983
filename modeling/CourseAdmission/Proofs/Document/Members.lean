import CourseAdmission.Document.Encoder
import CourseAdmission.Proofs.Document.Shape

/-!
What records read from objects that are built from named members, no name coming twice.
-/

namespace CourseAdmission.Document

namespace Record

variable {α β : Type} {unknown : Unknown} {surplus : Surplus} {members : List (String × Node)}

/-- The members of an object that is built from these. -/
def textMembers (members : List (String × Node)) : List (Text × Node) :=
  members.map fun m => (.whole m.1, m.2)

/-- The record only looks at the members of these names. That it reads a value with a property from
    them is what `Via` makes of the property, if no name comes twice. -/
structure ReadsVia (record : Record α) (names : List String) (unknown : Unknown)
    (members : List (String × Node)) (Via : (α → Prop) → Prop) : Prop where
  named : record.Named names
  exists_iff : (members.map (·.1)).Nodup → ∀ P : α → Prop, (∃ a, record.Reads unknown
    ((textMembers members).filter (hasName names)) a ∧ P a) ↔ Via P

theorem filter_eq_nil {names : List String} (hother : ∀ m ∈ members, m.1 ∉ names) :
    (textMembers members).filter (hasName names) = [] := by
  rw [List.filter_eq_nil_iff]
  intro m hm
  obtain ⟨source, hsource, rfl⟩ := List.mem_map.1 hm
  simpa [hasName] using hother source hsource

/-- Where no name comes twice and no other name of a field comes, a name has the one member that
    it comes in. -/
theorem filter_eq_singleton {name : String} {otherNames : List String} {node : Node}
    (hnodup : (members.map (·.1)).Nodup) (hmem : (name, node) ∈ members)
    (hothers : ∀ m ∈ members, m.1 ∉ otherNames) :
    (textMembers members).filter (hasName (name :: otherNames)) = [(.whole name, node)] := by
  obtain ⟨before, after, rfl⟩ := List.append_of_mem hmem
  rw [List.map_append, List.map_cons, List.nodup_append, List.nodup_cons] at hnodup
  obtain ⟨-, ⟨hafter, -⟩, hbefore⟩ := hnodup
  have hfirst : (textMembers before).filter (hasName (name :: otherNames)) = [] := by
    apply filter_eq_nil
    intro m hm hname
    rcases List.mem_cons.1 hname with heq | hother
    · exact hbefore m.1 (List.mem_map.2 ⟨m, hm, rfl⟩) name (by simp) heq
    · exact hothers m (by simp [hm]) hother
  have hlast : (textMembers after).filter (hasName (name :: otherNames)) = [] := by
    apply filter_eq_nil
    intro m hm hname
    rcases List.mem_cons.1 hname with heq | hother
    · exact hafter (List.mem_map.2 ⟨m, hm, heq⟩)
    · exact hothers m (by simp [hm]) hother
  unfold textMembers at *
  rw [List.map_append, List.map_cons, List.filter_append,
    List.filter_cons_of_pos (by simp [hasName]), hfirst, hlast, List.nil_append]

section

variable {name : String} {otherNames : List String} {absent : Absent α} {decode : Decoder α}
  {node : Node} {value : α}

theorem readsVia_member (place : Nat) (hmember : members[place]? = some (name, node))
    (hothers : ∀ m ∈ members, m.1 ∉ otherNames) :
    (field name otherNames absent decode).ReadsVia (name :: otherNames) unknown members fun P =>
      ∃ a, decode node = .ok a ∧ P a where
  named := named_field name otherNames _ decode
  exists_iff hnodup P := by
    have hname : hasName (name :: otherNames) (.whole name, node) = true := by simp [hasName]
    rw [filter_eq_singleton hnodup (List.mem_of_getElem? hmember) hothers]
    simp only [reads_field_singleton hname]

/-- A field reads the member of its name, wherever it stands. -/
theorem readsVia_field (place : Nat) (hmember : members[place]? = some (name, node)) :
    (field name [] absent decode).ReadsVia [name] unknown members fun P =>
      ∃ a, decode node = .ok a ∧ P a :=
  readsVia_member place hmember (by simp)

/-- A field that may hold `null` reads the member of its name if that is not `null`. -/
theorem readsVia_nullable (place : Nat) (hmember : members[place]? = some (name, node))
    (hothers : ∀ m ∈ members, m.1 ∉ otherNames) (hnull : node ≠ .null)
    {absent : Absent (Option α)} :
    (field name otherNames absent decode.nullable).ReadsVia (name :: otherNames) unknown members
      fun P => ∃ a, decode node = .ok a ∧ P (some a) where
  named := named_field name otherNames absent decode.nullable
  exists_iff hnodup P := by
    refine ((readsVia_member place hmember hothers).exists_iff hnodup P).trans ?_
    constructor
    · rintro ⟨slot, hslot, hP⟩
      rcases nullable_eq_ok_iff.1 hslot with ⟨hnode, -⟩ | ⟨-, a, ha, rfl⟩
      · exact absurd hnode hnull
      · exact ⟨a, ha, hP⟩
    · rintro ⟨a, ha, hP⟩
      exact ⟨some a, nullable_eq_ok_iff.2 (.inr ⟨hnull, a, ha, rfl⟩), hP⟩

/-- An optional field reads the member of its name if that is not `null`. -/
theorem readsVia_some (place : Nat) (hmember : members[place]? = some (name, node))
    (hothers : ∀ m ∈ members, m.1 ∉ otherNames) (hnull : node ≠ .null) :
    (optional name otherNames decode).ReadsVia (name :: otherNames) unknown members fun P =>
      ∃ a, decode node = .ok a ∧ P (some a) :=
  readsVia_nullable place hmember hothers hnull

/-- A field without a member has the value that stands in for it. -/
theorem readsVia_absent (hvalue : absent.value? = some value)
    (hothers : ∀ m ∈ members, m.1 ∉ name :: otherNames) :
    (field name otherNames absent decode).ReadsVia (name :: otherNames) unknown members fun P =>
      P value where
  named := named_field name otherNames absent decode
  exists_iff _ P := by
    simp [filter_eq_nil hothers, reads_field_nil, hvalue]

/-- An optional field without a member has no value. -/
theorem readsVia_none (hothers : ∀ m ∈ members, m.1 ∉ name :: otherNames) :
    (optional name otherNames decode).ReadsVia (name :: otherNames) unknown members fun P =>
      P Option.none :=
  readsVia_absent rfl hothers

/-- A member that is written if there is a value for it is read as what its value is read as. -/
theorem readsVia_memberIfSome {encode : β → Node} {given : Option β} {absent : Absent (Option α)}
    (before after : List (String × Node))
    (hmembers : members = before ++ Node.memberIfSome name encode given ++ after)
    (hbefore : ∀ m ∈ before, m.1 ≠ name) (hafter : ∀ m ∈ after, m.1 ≠ name)
    (hvalue : absent.value? = some Option.none) (hnull : ∀ b, encode b ≠ .null) :
    (field name [] absent decode.nullable).ReadsVia [name] unknown members fun P =>
      given.elim (P Option.none) fun b => ∃ a, decode (encode b) = .ok a ∧ P (some a) := by
  subst hmembers
  cases given with
  | none =>
    apply readsVia_absent hvalue
    intro m hm
    have hother : m ∈ before ∨ m ∈ after := by simpa [Node.memberIfSome] using hm
    simpa using hother.elim (hbefore m) (hafter m)
  | some b =>
    exact readsVia_nullable before.length (by simp [Node.memberIfSome]) (by simp) (hnull b)

end

namespace ReadsVia

variable {record : Record α} {names further : List String} {Via : (α → Prop) → Prop}

theorem map (h : record.ReadsVia names unknown members Via) (f : α → β) :
    (f <$> record).ReadsVia names unknown members fun P => Via fun a => P (f a) where
  named := named_map h.named f
  exists_iff hnodup P := by
    rw [← h.exists_iff hnodup]
    simp only [reads_map]
    constructor
    · rintro ⟨_, ⟨a, ha, rfl⟩, hP⟩
      exact ⟨a, ha, hP⟩
    · rintro ⟨a, ha, hP⟩
      exact ⟨f a, ⟨a, ha, rfl⟩, hP⟩

theorem seq {functions : Record (α → β)} {ViaF : ((α → β) → Prop) → Prop}
    (hf : functions.ReadsVia further unknown members ViaF)
    (ha : record.ReadsVia names unknown members Via)
    (hdisjoint : ∀ name ∈ further, name ∉ names) :
    (functions <*> record).ReadsVia (further ++ names) unknown members fun P =>
      ViaF fun f => Via fun a => P (f a) where
  named := named_seq hf.named ha.named
  exists_iff hnodup P := by
    simp only [← hf.exists_iff hnodup, ← ha.exists_iff hnodup, reads_seq hf.named hdisjoint]
    constructor
    · rintro ⟨_, ⟨f, a, hreadF, hread, rfl⟩, hP⟩
      exact ⟨f, hreadF, a, hread, hP⟩
    · rintro ⟨f, hreadF, a, hread, hP⟩
      exact ⟨f a, ⟨f, a, hreadF, hread, rfl⟩, hP⟩

/-- A record reads what it reads from an object all of whose members belong to its fields. -/
theorem exists_decode_iff (h : record.ReadsVia names unknown members Via)
    (hnodup : (members.map (·.1)).Nodup) (hall : ∀ m ∈ members, m.1 ∈ names) (surplus : Surplus)
    (P : α → Prop) :
    (∃ a, record.decode unknown surplus (.ofMembers members) = .ok a ∧ P a) ↔ Via P := by
  have hfilter : (textMembers members).filter (hasName names) = textMembers members := by
    rw [List.filter_eq_self]
    intro m hm
    obtain ⟨source, hsource, rfl⟩ := List.mem_map.1 hm
    simpa [hasName] using hall source hsource
  rw [← h.exists_iff hnodup, hfilter]
  exact exists_congr fun a => and_congr_left' decode_object_eq_ok_iff

theorem decode_iff (h : record.ReadsVia names unknown members Via)
    (hnodup : (members.map (·.1)).Nodup) (hall : ∀ m ∈ members, m.1 ∈ names) {surplus : Surplus}
    {a : α} : record.decode unknown surplus (.ofMembers members) = .ok a ↔ Via (· = a) := by
  rw [← h.exists_decode_iff hnodup hall surplus]
  simp only [exists_eq_right]

theorem lenient_iff (h : record.ReadsVia names .passedOver members Via)
    (hnodup : (members.map (·.1)).Nodup) (hall : ∀ m ∈ members, m.1 ∈ names) {a : α} :
    record.lenient (.ofMembers members) = .ok a ↔ Via (· = a) :=
  h.decode_iff hnodup hall

end ReadsVia

theorem lenient_map_iff {record : Record α} {f : α → β} {b : β} :
    (f <$> record).lenient (.ofMembers members) = .ok b ↔
      ∃ a, record.lenient (.ofMembers members) = .ok a ∧ f a = b := by
  simp only [lenient, Node.ofMembers, decode_object_eq_ok_iff, reads_map]

end Record

end CourseAdmission.Document
