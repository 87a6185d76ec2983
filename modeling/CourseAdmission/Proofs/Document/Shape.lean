import CourseAdmission.Proofs.Document.Record

/-!
Shapes of objects, and what can be read from their members.

An object is of a shape if each of its members belongs to a field, no field has two of them, and
what they hold suits the field.
-/

namespace CourseAdmission.Document

/-- What the members of one of these names hold. -/
def valuesOf (names : List String) (members : List (Text × Node)) : List Node :=
  (members.filter (hasName names)).map (·.2)

/-- A field in a shape: its names, and what it may hold. -/
structure FieldShape where
  names : List String
  Fits : Node → Prop

namespace FieldShape

/-- A field that may hold `null`. -/
def nullable (names : List String) (Fits : Node → Prop) : FieldShape :=
  ⟨names, fun node => node = .null ∨ Fits node⟩

/-- The field has at most one of the members, and what that holds suits it. -/
def Suits (field : FieldShape) (members : List (Text × Node)) : Prop :=
  (valuesOf field.names members).length ≤ 1 ∧
    ∀ node ∈ valuesOf field.names members, field.Fits node

end FieldShape

namespace Node

/-- An object whose members all belong to the fields, and suit them. -/
def HasShape (fields : List FieldShape) : Node → Prop
  | .object members =>
    (∀ m ∈ members, ∃ field ∈ fields, hasName field.names m = true) ∧
      ∀ field ∈ fields, field.Suits members
  | _ => False

def IsText (node : Node) : Prop := ∃ s, node = .text (.whole s)

def IsNumber (node : Node) : Prop :=
  (∃ n, node = .number (.integer n)) ∨ ∃ x, node = .number (.double x)

/-- An integer of 64 bits. -/
def IsWord (node : Node) : Prop :=
  ∃ n, node = .number (.integer n) ∧ -(Word.limit 63 : Nat) ≤ n ∧ n ≤ (Word.limit 63 - 1 : Nat)

/-- The text that a node holds. -/
def text? : Node → Option String
  | .text (.whole s) => some s
  | _ => none

/-- The number that a node holds, an integer as the nearest double. -/
def double? : Node → Option Binary64
  | .number (.integer n) => some (.ofInt n)
  | .number (.double x) => some x
  | _ => none

def integer? : Node → Option Int
  | .number (.integer n) => some n
  | _ => none

def members : Node → List (Text × Node)
  | .object members => members
  | _ => []

def items : Node → List Node
  | .array items => items
  | _ => []

def isArray : Node → Bool
  | .array _ => true
  | _ => false

/-- What the first member of one of these names holds, as far as it can be read so. -/
def read {α : Type} (names : List String) (value? : Node → Option α) (node : Node) : Option α :=
  (valuesOf names node.members).head?.bind value?

end Node

theorem text_eq_ok_iff {node : Node} {s : String} :
    Decoder.text node = .ok s ↔ node.IsText ∧ node.text? = some s := by
  unfold Decoder.text Node.text?
  split
  · simp [Node.IsText]
  · simp

theorem double_eq_ok_iff {node : Node} {x : Binary64} :
    Decoder.double node = .ok x ↔ node.IsNumber ∧ node.double? = some x := by
  unfold Decoder.double Node.double?
  split <;> simp [Node.IsNumber]

theorem integerIn_eq_ok_iff {low high : Int} {node : Node} {n : Int} :
    Decoder.integerIn low high node = .ok n ↔
      (∃ n, node = .number (.integer n) ∧ low ≤ n ∧ n ≤ high) ∧ node.integer? = some n := by
  unfold Decoder.integerIn Decoder.integer Node.integer?
  split
  case h_1 _ k =>
    rw [ok_bind]
    split
    case isTrue hin =>
      constructor
      · rintro ⟨⟩
        exact ⟨⟨_, rfl, hin⟩, rfl⟩
      · rintro ⟨-, ⟨⟩⟩
        rfl
    case isFalse hout =>
      constructor
      · rintro ⟨⟩
      · rintro ⟨⟨_, ⟨⟩, hin⟩, -⟩
        exact absurd hin hout
  case h_2 _ hother =>
    constructor
    · rintro ⟨⟩
    · rintro ⟨⟨k, rfl, -⟩, -⟩
      exact absurd rfl (hother k)

theorem signedWord_eq_ok_iff {node : Node} {n : Int} :
    Decoder.signedWord node = .ok n ↔ node.IsWord ∧ node.integer? = some n :=
  integerIn_eq_ok_iff

theorem nullable_eq_ok_iff {α : Type} {decode : Decoder α} {node : Node} {slot : Option α} :
    decode.nullable node = .ok slot ↔
      (node = .null ∧ slot = none) ∨ (node ≠ .null ∧ ∃ a, decode node = .ok a ∧ slot = some a) := by
  unfold Decoder.nullable
  split
  case h_1 => simp [eq_comm]
  case h_2 _ hnull =>
    rw [map_eq_ok_iff]
    constructor
    · rintro ⟨a, ha, rfl⟩
      exact .inr ⟨hnull, a, ha, rfl⟩
    · rintro (⟨rfl, -⟩ | ⟨-, a, ha, rfl⟩)
      · exact absurd rfl hnull
      · exact ⟨a, ha, rfl⟩

/-- An optional field reads its share of the members: at most one, which is `null` or suits it. -/
theorem reads_optional_iff {α : Type} {name : String} {otherNames : List String}
    {decode : Decoder α} {Fits : Node → Prop} {value? : Node → Option α}
    {members : List (Text × Node)} {slot : Option α} (hnull : value? .null = none)
    (hvalue : ∀ node, Fits node → ∃ a, value? node = some a)
    (hdecode : ∀ node ∈ valuesOf (name :: otherNames) members, ∀ a,
      decode node = .ok a ↔ Fits node ∧ value? node = some a) :
    (Record.optional name otherNames decode).Reads .refused
        (members.filter (hasName (name :: otherNames))) slot ↔
      (FieldShape.nullable (name :: otherNames) Fits).Suits members ∧
      slot = (valuesOf (name :: otherNames) members).head?.bind value? := by
  have hmembers : ∀ m ∈ members.filter (hasName (name :: otherNames)),
      hasName (name :: otherNames) m = true := by simp
  rw [Record.optional, Record.reads_field]
  unfold FieldShape.nullable FieldShape.Suits valuesOf at *
  rcases hfilter : members.filter (hasName (name :: otherNames)) with _ | ⟨m, _ | ⟨m', rest⟩⟩
  · cases slot <;> simp [Absent.value?]
  · rw [hfilter] at hdecode hmembers
    have hname := hmembers m (by simp)
    have hone := hdecode m.2 (by simp)
    constructor
    · rintro (⟨⟨⟩, -⟩ | ⟨only, heq, -, hread⟩)
      cases heq
      rcases nullable_eq_ok_iff.1 hread with ⟨hnode, rfl⟩ | ⟨-, a, ha, rfl⟩
      · simp [hnode, hnull]
      · obtain ⟨hfits, hval⟩ := (hone a).1 ha
        simp [hfits, hval]
    · rintro ⟨⟨-, hall⟩, rfl⟩
      refine .inr ⟨m, rfl, hname, nullable_eq_ok_iff.2 ?_⟩
      by_cases hnode : m.2 = .null
      · exact .inl ⟨hnode, by simp [hnode, hnull]⟩
      · have hfits := (hall m.2 (by simp)).resolve_left hnode
        obtain ⟨a, ha⟩ := hvalue _ hfits
        exact .inr ⟨hnode, a, (hone a).2 ⟨hfits, ha⟩, by simp [ha]⟩
  · simp

namespace Record

variable {α β : Type} {members : List (Text × Node)}

/-- Of these members the record only looks at those of the fields; it reads the value exactly if
    they suit the fields. -/
structure ReadsAs (record : Record α) (fields : List FieldShape) (members : List (Text × Node))
    (value : α) : Prop where
  named : record.Named (fields.flatMap (·.names))
  reads_iff : ∀ a, record.Reads .refused
      (members.filter (hasName (fields.flatMap (·.names)))) a ↔
    (∀ field ∈ fields, field.Suits members) ∧ a = value

theorem readsAs_optional {name : String} {otherNames : List String} {decode : Decoder α}
    {Fits : Node → Prop} {value? : Node → Option α} (hnull : value? .null = Option.none)
    (hvalue : ∀ node, Fits node → ∃ a, value? node = some a)
    (hdecode : ∀ node ∈ valuesOf (name :: otherNames) members, ∀ a,
      decode node = .ok a ↔ Fits node ∧ value? node = some a) :
    (optional name otherNames decode).ReadsAs [.nullable (name :: otherNames) Fits] members
      ((valuesOf (name :: otherNames) members).head?.bind value?) where
  named := by simpa [FieldShape.nullable] using named_optional name otherNames decode
  reads_iff slot := by
    simpa [FieldShape.nullable] using reads_optional_iff hnull hvalue hdecode

theorem readsAs_defaulted {name : String} {otherNames : List String} {default : α}
    {decode : Decoder α} {Fits : Node → Prop} {value : Node → α}
    (hdecode : ∀ node ∈ valuesOf (name :: otherNames) members, ∀ a,
      decode node = .ok a ↔ Fits node ∧ a = value node) :
    (defaulted name otherNames default decode).ReadsAs [⟨name :: otherNames, Fits⟩] members
      (((valuesOf (name :: otherNames) members).head?.map value).getD default) where
  named := by simpa [defaulted] using named_field name otherNames (.defaulted default) decode
  reads_iff a := by
    have hmembers : ∀ m ∈ members.filter (hasName (name :: otherNames)),
        hasName (name :: otherNames) m = true := by simp
    simp only [List.flatMap_cons, List.flatMap_nil, List.append_nil, List.mem_singleton, forall_eq]
    rw [defaulted, reads_field]
    unfold FieldShape.Suits valuesOf at *
    rcases hfilter : members.filter (hasName (name :: otherNames)) with _ | ⟨m, _ | ⟨m', rest⟩⟩
    · simp [Absent.value?, eq_comm (a := default)]
    · rw [hfilter] at hdecode hmembers
      have hname := hmembers m (by simp)
      have hone := hdecode m.2 (by simp)
      constructor
      · rintro (⟨⟨⟩, -⟩ | ⟨only, heq, -, hread⟩)
        cases heq
        obtain ⟨hfits, rfl⟩ := (hone a).1 hread
        simp [hfits]
      · rintro ⟨⟨-, hall⟩, rfl⟩
        exact .inr ⟨m, rfl, hname, (hone _).2 ⟨hall m.2 (by simp), rfl⟩⟩
    · simp

theorem readsAs_text (name : String) :
    (optional name [] Decoder.text).ReadsAs [.nullable [name] Node.IsText] members
      ((Node.object members).read [name] Node.text?) :=
  readsAs_optional rfl (by rintro _ ⟨s, rfl⟩; exact ⟨s, rfl⟩) fun _ _ _ => text_eq_ok_iff

theorem readsAs_double (name : String) :
    (optional name [] Decoder.double).ReadsAs [.nullable [name] Node.IsNumber] members
      ((Node.object members).read [name] Node.double?) :=
  readsAs_optional rfl (by rintro _ (⟨n, rfl⟩ | ⟨x, rfl⟩) <;> exact ⟨_, rfl⟩)
    fun _ _ _ => double_eq_ok_iff

theorem readsAs_signedWord (name : String) :
    (optional name [] Decoder.signedWord).ReadsAs [.nullable [name] Node.IsWord] members
      ((Node.object members).read [name] Node.integer?) :=
  readsAs_optional rfl (by rintro _ ⟨n, rfl, -⟩; exact ⟨n, rfl⟩) fun _ _ _ => signedWord_eq_ok_iff

namespace ReadsAs

theorem map {record : Record α} {fields : List FieldShape} {value : α}
    (h : record.ReadsAs fields members value) (f : α → β) :
    (f <$> record).ReadsAs fields members (f value) where
  named := named_map h.named f
  reads_iff b := by
    rw [reads_map]
    constructor
    · rintro ⟨a, ha, rfl⟩
      obtain ⟨hsuits, rfl⟩ := (h.reads_iff a).1 ha
      exact ⟨hsuits, rfl⟩
    · rintro ⟨hsuits, rfl⟩
      exact ⟨value, (h.reads_iff value).2 ⟨hsuits, rfl⟩, rfl⟩

theorem seq {functions : Record (α → β)} {arguments : Record α} {fields further : List FieldShape}
    {f : α → β} {value : α} (hf : functions.ReadsAs fields members f)
    (ha : arguments.ReadsAs further members value)
    (hdisjoint : ∀ name ∈ fields.flatMap (·.names), name ∉ further.flatMap (·.names)) :
    (functions <*> arguments).ReadsAs (fields ++ further) members (f value) where
  named := by
    rw [List.flatMap_append]
    exact named_seq hf.named ha.named
  reads_iff b := by
    rw [List.flatMap_append, reads_seq hf.named hdisjoint]
    simp only [List.mem_append, or_imp, forall_and]
    constructor
    · rintro ⟨g, a, hg, ha', rfl⟩
      obtain ⟨hfields, rfl⟩ := (hf.reads_iff g).1 hg
      obtain ⟨hfurther, rfl⟩ := (ha.reads_iff a).1 ha'
      exact ⟨⟨hfields, hfurther⟩, rfl⟩
    · rintro ⟨⟨hfields, hfurther⟩, rfl⟩
      exact ⟨f, value, (hf.reads_iff f).2 ⟨hfields, rfl⟩, (ha.reads_iff value).2 ⟨hfurther, rfl⟩,
        rfl⟩

theorem hasName_flatMap (fields : List FieldShape) (m : Text × Node) :
    hasName (fields.flatMap (·.names)) m = true ↔
      ∃ field ∈ fields, hasName field.names m = true := by
  simp [List.flatMap_def, hasName_flatten]

/-- A record that refuses members without a field decodes the objects of its shape. -/
theorem decode_eq_ok_iff {record : Record α} {fields : List FieldShape} {value : α}
    {surplus : Surplus} (h : record.ReadsAs fields members value) {a : α} :
    record.decode .refused surplus (.object members) = .ok a ↔
      (Node.object members).HasShape fields ∧ a = value := by
  rw [decode_object_eq_ok_iff, reads_refused_iff h.named, h.reads_iff, Node.HasShape, and_assoc]
  simp only [hasName_flatMap]

end ReadsAs

end Record

end CourseAdmission.Document
