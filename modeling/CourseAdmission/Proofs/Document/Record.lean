import CourseAdmission.Document.Record
import CourseAdmission.Proofs.Except

/-!
What a record reads from the members of an object.

Each field of a record only looks at the members of its own names. So a record of several fields
reads what its fields read, each from its share of the members.
-/

namespace CourseAdmission.Document

/-- A member of one of these names. -/
def hasName (names : List String) (member : Text × Node) : Bool :=
  match member.1 with
  | .whole name => decide (name ∈ names)
  | _ => false

theorem hasName_iff {names : List String} {member : Text × Node} :
    hasName names member = true ↔ ∃ name ∈ names, member.1 = .whole name := by
  obtain ⟨text, node⟩ := member
  cases text <;> simp [hasName]

theorem hasName_append (names further : List String) (member : Text × Node) :
    hasName (names ++ further) member = (hasName names member || hasName further member) := by
  obtain ⟨text, node⟩ := member
  cases text <;> simp [hasName]

theorem hasName_flatten {names : List (List String)} {member : Text × Node} :
    hasName names.flatten member = true ↔ ∃ group ∈ names, hasName group member = true := by
  simp only [hasName_iff, List.mem_flatten]
  constructor
  · rintro ⟨name, ⟨group, hgroup, hname⟩, hwhole⟩
    exact ⟨group, hgroup, name, hname, hwhole⟩
  · rintro ⟨group, hgroup, name, hname, hwhole⟩
    exact ⟨name, ⟨group, hgroup, hname⟩, hwhole⟩

/-- What a field without a value becomes, if it may have none. -/
def Absent.value? {α : Type} : Absent α → Option α
  | .missed => none
  | .optional value => some value
  | .defaulted value => some value

namespace Record

variable {α β : Type} {unknown : Unknown} {surplus : Surplus} {members : List (Text × Node)}

/-- The record has fields of exactly these names, whatever has been read. -/
def Named (record : Record α) (names : List String) : Prop :=
  ∀ slots name node, (record.take slots name node).isSome = decide (name ∈ names)

/-- The record reads the value from the members. -/
def Reads (record : Record α) (unknown : Unknown) (members : List (Text × Node)) (value : α) :
    Prop :=
  ∃ slots, record.takeMembers unknown record.start members = .ok slots ∧
    record.finish slots = .ok value

theorem decode_object_eq_ok_iff {record : Record α} {value : α} :
    record.decode unknown surplus (.object members) = .ok value ↔
      record.Reads unknown members value :=
  bind_eq_ok_iff

theorem named_field (name : String) (otherNames : List String) (absent : Absent α)
    (decode : Decoder α) : (field name otherNames absent decode).Named (name :: otherNames) := by
  intro slot given node
  simp only [field, List.mem_cons]
  split
  case isTrue h => cases slot <;> simp [h]
  case isFalse h => simp [h]

theorem named_map {record : Record α} {names : List String} (h : record.Named names) (f : α → β) :
    (f <$> record).Named names := h

theorem named_optional (name : String) (otherNames : List String) (decode : Decoder α) :
    (optional name otherNames decode).Named (name :: otherNames) :=
  named_field name otherNames _ _

theorem named_both {first : Record α} {second : Record β} {names further : List String}
    (hfirst : first.Named names) (hsecond : second.Named further) :
    (both first second).Named (names ++ further) := by
  intro slots name node
  have h₁ := hfirst slots.1 name node
  have h₂ := hsecond slots.2 name node
  simp only [both, List.mem_append, Bool.decide_or, ← h₁, ← h₂]
  cases first.take slots.1 name node <;> simp

theorem take_eq_none {record : Record α} {names : List String} (h : record.Named names)
    (slots : record.Slots) {name : String} (node : Node) (hname : name ∉ names) :
    record.take slots name node = Option.none := by
  have := h slots name node
  rwa [decide_eq_false hname, Option.isSome_eq_false_iff, Option.isNone_iff_eq_none] at this

theorem take_eq_some {record : Record α} {names : List String} (h : record.Named names)
    (slots : record.Slots) {name : String} (node : Node) (hname : name ∈ names) :
    ∃ taken, record.take slots name node = some taken := by
  have := h slots name node
  rwa [decide_eq_true hname, Option.isSome_iff_exists] at this

section

variable {record : Record α} {slots : record.Slots} {name : String} {node : Node}

@[simp]
theorem takeMembers_nil : record.takeMembers unknown slots [] = .ok slots := rfl

@[simp]
theorem takeMembers_halved :
    record.takeMembers unknown slots ((.halved, node) :: members) = .error .unreadable := rfl

@[simp]
theorem takeMembers_cut :
    record.takeMembers unknown slots ((.cut, node) :: members) = .error .unreadable := rfl

theorem takeMembers_whole : record.takeMembers unknown slots ((.whole name, node) :: members) =
    match record.take slots name node with
    | some taken => taken >>= fun next => record.takeMembers unknown next members
    | Option.none =>
      match unknown with
      | .refused => .error (.unknownField name)
      | .passedOver =>
        if node.sound then record.takeMembers unknown slots members else .error .unreadable := rfl

theorem takeMembers_of_some {taken : Except DecodeError record.Slots}
    (h : record.take slots name node = some taken) :
    record.takeMembers unknown slots ((.whole name, node) :: members) =
      taken >>= fun next => record.takeMembers unknown next members := by
  rw [takeMembers_whole, h]

theorem takeMembers_refused_of_none (h : record.take slots name node = Option.none) :
    record.takeMembers .refused slots ((.whole name, node) :: members) =
      .error (.unknownField name) := by
  rw [takeMembers_whole, h]

theorem takeMembers_passedOver_of_none (h : record.take slots name node = Option.none) :
    record.takeMembers .passedOver slots ((.whole name, node) :: members) =
      if node.sound then record.takeMembers .passedOver slots members else .error .unreadable := by
  rw [takeMembers_whole, h]

end

/-- Two records side by side take each its own members. -/
theorem takeMembers_both {first : Record α} {second : Record β} {names : List String}
    (hfirst : first.Named names) {s s' : first.Slots} {t t' : second.Slots} :
    (both first second).takeMembers unknown (s, t) members = .ok (s', t') ↔
      first.takeMembers unknown s (members.filter (hasName names)) = .ok s' ∧
        second.takeMembers unknown t (members.filter fun m => !hasName names m) = .ok t' := by
  induction members generalizing s t with
  | nil =>
    simp only [takeMembers_nil, List.filter_nil]
    constructor
    · rintro ⟨⟩
      exact ⟨rfl, rfl⟩
    · rintro ⟨⟨⟩, ⟨⟩⟩
      rfl
  | cons member members ih =>
    obtain ⟨text, node⟩ := member
    cases text with
    | whole name =>
      by_cases hname : name ∈ names
      · obtain ⟨taken, htaken⟩ := take_eq_some hfirst s node hname
        have hboth : (both first second).take (s, t) name node = some ((·, t) <$> taken) := by
          simp only [both, htaken]
        rw [List.filter_cons_of_pos (by simpa [hasName] using hname),
          List.filter_cons_of_neg (by simpa [hasName] using hname), takeMembers_of_some hboth,
          takeMembers_of_some htaken]
        cases taken with
        | error e =>
          constructor
          · rintro ⟨⟩
          · rintro ⟨⟨⟩, -⟩
        | ok slots => exact ih
      · have htaken := take_eq_none hfirst s node hname
        have hboth : (both first second).take (s, t) name node =
            (second.take t name node).map fun taken => (s, ·) <$> taken := by
          simp only [both, htaken]
        rw [List.filter_cons_of_neg (by simpa [hasName] using hname),
          List.filter_cons_of_pos (by simpa [hasName] using hname)]
        cases htake : second.take t name node with
        | none =>
          rw [htake, Option.map_none] at hboth
          cases unknown with
          | refused =>
            rw [takeMembers_refused_of_none hboth, takeMembers_refused_of_none htake]
            simp
          | passedOver =>
            rw [takeMembers_passedOver_of_none hboth, takeMembers_passedOver_of_none htake]
            split
            · exact ih
            · simp
        | some taken =>
          rw [htake, Option.map_some] at hboth
          rw [takeMembers_of_some hboth, takeMembers_of_some htake]
          cases taken with
          | error e =>
            constructor
            · rintro ⟨⟩
            · rintro ⟨-, ⟨⟩⟩
          | ok slots => exact ih
    | halved =>
      constructor
      · rintro ⟨⟩
      · rintro ⟨-, ⟨⟩⟩
    | cut =>
      constructor
      · rintro ⟨⟩
      · rintro ⟨-, ⟨⟩⟩

theorem takeMembers_map (record : Record α) (f : α → β) (slots : record.Slots)
    (members : List (Text × Node)) :
    (f <$> record).takeMembers unknown slots members =
      record.takeMembers unknown slots members := by
  induction members generalizing slots with
  | nil => rfl
  | cons member members ih =>
    obtain ⟨text, node⟩ := member
    cases text with
    | whole name =>
      cases htake : record.take slots name node with
      | none =>
        have hmap : (f <$> record).take slots name node = Option.none := htake
        cases unknown with
        | refused =>
          rw [takeMembers_refused_of_none htake]
          exact takeMembers_refused_of_none hmap
        | passedOver =>
          rw [takeMembers_passedOver_of_none htake, ← ih slots]
          exact takeMembers_passedOver_of_none hmap
      | some taken =>
        have hmap : (f <$> record).take slots name node = some taken := htake
        rw [takeMembers_of_some htake]
        refine (takeMembers_of_some hmap).trans ?_
        cases taken with
        | error e => rfl
        | ok next => exact ih next
    | halved => rfl
    | cut => rfl

theorem reads_map {record : Record α} {f : α → β} {b : β} :
    (f <$> record).Reads unknown members b ↔ ∃ a, record.Reads unknown members a ∧ f a = b := by
  constructor
  · rintro ⟨slots, htake, hfinish⟩
    obtain ⟨a, ha, rfl⟩ := map_eq_ok_iff.1 hfinish
    exact ⟨a, ⟨slots, (takeMembers_map record f _ members).symm.trans htake, ha⟩, rfl⟩
  · rintro ⟨a, ⟨slots, htake, ha⟩, rfl⟩
    exact ⟨slots, (takeMembers_map record f _ members).trans htake,
      map_eq_ok_iff.2 ⟨a, ha, rfl⟩⟩

theorem reads_both {first : Record α} {second : Record β} {names : List String}
    (hfirst : first.Named names) {a : α} {b : β} :
    (both first second).Reads unknown members (a, b) ↔
      first.Reads unknown (members.filter (hasName names)) a ∧
        second.Reads unknown (members.filter fun m => !hasName names m) b := by
  constructor
  · rintro ⟨⟨s, t⟩, htake, hfinish⟩
    obtain ⟨hs, ht⟩ := (takeMembers_both hfirst).1 htake
    obtain ⟨a', ha, hrest⟩ := bind_eq_ok_iff.1 hfinish
    obtain ⟨b', hb, hpair⟩ := bind_eq_ok_iff.1 hrest
    cases hpair
    exact ⟨⟨s, hs, ha⟩, t, ht, hb⟩
  · rintro ⟨⟨s, hs, ha⟩, t, ht, hb⟩
    refine ⟨(s, t), (takeMembers_both hfirst).2 ⟨hs, ht⟩, ?_⟩
    exact bind_eq_ok_iff.2 ⟨a, ha, bind_eq_ok_iff.2 ⟨b, hb, rfl⟩⟩

/-- A member that has a field is taken by it before the others. -/
theorem takeMembers_cons_iff {record : Record α} {names : List String} (h : record.Named names)
    {slots slots' : record.Slots} {name : String} {node : Node} (hname : name ∈ names) :
    record.takeMembers unknown slots ((.whole name, node) :: members) = .ok slots' ↔
      ∃ next, record.take slots name node = some (.ok next) ∧
        record.takeMembers unknown next members = .ok slots' := by
  obtain ⟨taken, htaken⟩ := take_eq_some h slots node hname
  rw [takeMembers_of_some htaken]
  simp only [htaken, Option.some.injEq]
  exact bind_eq_ok_iff

theorem hasName_of_takeMembers {record : Record α} {names : List String} (h : record.Named names)
    {slots slots' : record.Slots} (htake : record.takeMembers .refused slots members = .ok slots') :
    ∀ m ∈ members, hasName names m = true := by
  induction members generalizing slots with
  | nil => simp
  | cons member members ih =>
    obtain ⟨text, node⟩ := member
    cases text with
    | whole name =>
      by_cases hname : name ∈ names
      · obtain ⟨next, -, hrest⟩ := (takeMembers_cons_iff h hname).1 htake
        simpa [hasName, hname] using ih hrest
      · rw [takeMembers_refused_of_none (take_eq_none h slots node hname)] at htake
        cases htake
    | halved => simp at htake
    | cut => simp at htake

/-- A record that refuses members without a field reads the members that all have one. -/
theorem reads_refused_iff {record : Record α} {names : List String} (h : record.Named names)
    {value : α} : record.Reads .refused members value ↔
      (∀ m ∈ members, hasName names m = true) ∧
        record.Reads .refused (members.filter (hasName names)) value := by
  constructor
  · rintro ⟨slots, htake, hfinish⟩
    have hall := hasName_of_takeMembers h htake
    exact ⟨hall, slots, by rwa [List.filter_eq_self.2 hall], hfinish⟩
  · rintro ⟨hall, hreads⟩
    rwa [List.filter_eq_self.2 hall] at hreads

theorem takeMembers_filter {record : Record α} {names : List String} (h : record.Named names)
    {slots slots' : record.Slots}
    (htake : record.takeMembers .passedOver slots members = .ok slots') :
    record.takeMembers .refused slots (members.filter (hasName names)) = .ok slots' := by
  induction members generalizing slots with
  | nil => exact htake
  | cons member members ih =>
    obtain ⟨text, node⟩ := member
    cases text with
    | whole name =>
      by_cases hname : name ∈ names
      · obtain ⟨next, hnext, hrest⟩ := (takeMembers_cons_iff h hname).1 htake
        rw [List.filter_cons_of_pos (by simpa [hasName] using hname)]
        exact (takeMembers_cons_iff h hname).2 ⟨next, hnext, ih hrest⟩
      · rw [takeMembers_passedOver_of_none (take_eq_none h slots node hname)] at htake
        rw [List.filter_cons_of_neg (by simpa [hasName] using hname)]
        split at htake
        · exact ih htake
        · cases htake
    | halved => simp at htake
    | cut => simp at htake

/-- A record that passes over members without a field reads the others as if they were all. -/
theorem Reads.filter {record : Record α} {names : List String} (h : record.Named names) {value : α}
    (hreads : record.Reads .passedOver members value) :
    record.Reads .refused (members.filter (hasName names)) value := by
  obtain ⟨slots, htake, hfinish⟩ := hreads
  exact ⟨slots, takeMembers_filter h htake, hfinish⟩

section

variable {name : String} {otherNames : List String} {absent : Absent α} {decode : Decoder α}
  {value : α} {member : Text × Node}

theorem reads_field_nil : (field name otherNames absent decode).Reads unknown [] value ↔
    absent.value? = some value := by
  simp only [Reads, takeMembers_nil, field]
  cases absent <;> simp [Absent.value?]

/-- A field takes a member of its name first of all. -/
theorem takeMembers_field_cons (hname : hasName (name :: otherNames) member = true) :
    (field name otherNames absent decode).takeMembers unknown
        (field name otherNames absent decode).start (member :: members) =
      decode member.2 >>= fun value =>
        (field name otherNames absent decode).takeMembers unknown (some value) members := by
  obtain ⟨given, hgiven, hwhole⟩ := hasName_iff.1 hname
  obtain ⟨text, node⟩ := member
  obtain rfl : text = .whole given := hwhole
  rw [List.mem_cons] at hgiven
  have htake : (field name otherNames absent decode).take
      (field name otherNames absent decode).start given node = some (some <$> decode node) :=
    if_pos hgiven
  rw [takeMembers_of_some htake]
  cases decode node <;> rfl

theorem reads_field_singleton (hname : hasName (name :: otherNames) member = true) :
    (field name otherNames absent decode).Reads unknown [member] value ↔
      decode member.2 = .ok value := by
  unfold Reads
  rw [takeMembers_field_cons hname]
  cases decode member.2 with
  | error e => simp
  | ok read =>
    constructor
    · rintro ⟨slots, htake, hfinish⟩
      cases htake
      exact hfinish
    · intro h
      exact ⟨some read, rfl, h⟩

theorem not_reads_field_cons_cons {second : Text × Node} :
    ¬(field name otherNames absent decode).Reads .refused (member :: second :: members) value := by
  rintro hreads
  obtain ⟨hall, -⟩ := (reads_refused_iff (named_field name otherNames absent decode)).1 hreads
  obtain ⟨slots, htake, -⟩ := hreads
  rw [takeMembers_field_cons (hall member (by simp))] at htake
  obtain ⟨read, -, hrest⟩ := bind_eq_ok_iff.1 htake
  obtain ⟨given, hgiven, hwhole⟩ := hasName_iff.1 (hall second (by simp))
  obtain ⟨text, node⟩ := second
  obtain rfl : text = .whole given := hwhole
  rw [List.mem_cons] at hgiven
  have htake : (field name otherNames absent decode).take (some read) given node =
      some (.error (.duplicateField name)) := if_pos hgiven
  rw [takeMembers_of_some htake] at hrest
  cases hrest

/-- A field reads its one member, or has its value without any. -/
theorem reads_field :
    (field name otherNames absent decode).Reads .refused members value ↔
      (members = [] ∧ absent.value? = some value) ∨
        ∃ member, members = [member] ∧ hasName (name :: otherNames) member = true ∧
          decode member.2 = .ok value := by
  rcases members with _ | ⟨member, _ | ⟨second, members⟩⟩
  · simp [reads_field_nil]
  · constructor
    · intro hreads
      have hname := ((reads_refused_iff (named_field _ _ _ _)).1 hreads).1 member (by simp)
      exact .inr ⟨member, rfl, hname, (reads_field_singleton hname).1 hreads⟩
    · rintro (⟨hnil, -⟩ | ⟨only, hmember, hname, hdecode⟩)
      · cases hnil
      · cases hmember
        exact (reads_field_singleton hname).2 hdecode
  · simp [not_reads_field_cons_cons]

end

theorem filter_hasName_left (names further : List String) (members : List (Text × Node)) :
    (members.filter (hasName (names ++ further))).filter (hasName names) =
      members.filter (hasName names) := by
  rw [List.filter_filter]
  congr 1
  funext member
  rw [hasName_append]
  cases hasName names member <;> rfl

theorem filter_hasName_right {names further : List String}
    (hdisjoint : ∀ name ∈ names, name ∉ further) (members : List (Text × Node)) :
    (members.filter (hasName (names ++ further))).filter (fun m => !hasName names m) =
      members.filter (hasName further) := by
  rw [List.filter_filter]
  congr 1
  funext member
  rw [hasName_append]
  by_cases hname : hasName names member = true
  · have hother : hasName further member = false := by
      rw [Bool.eq_false_iff]
      intro hfurther
      obtain ⟨name, hmem, hwhole⟩ := hasName_iff.1 hname
      obtain ⟨same, hsame, hwhole'⟩ := hasName_iff.1 hfurther
      cases hwhole.symm.trans hwhole'
      exact hdisjoint _ hmem hsame
    rw [hname, hother]
    rfl
  · rw [Bool.not_eq_true] at hname
    rw [hname]
    simp

/-- Fields of different names read side by side, each the members of its own names. -/
theorem reads_seq {functions : Record (α → β)} {arguments : Record α}
    {names further : List String}
    (hfunctions : functions.Named names) (hdisjoint : ∀ name ∈ names, name ∉ further) {value : β} :
    (functions <*> arguments).Reads unknown (members.filter (hasName (names ++ further))) value ↔
      ∃ f a, functions.Reads unknown (members.filter (hasName names)) f ∧
        arguments.Reads unknown (members.filter (hasName further)) a ∧ f a = value := by
  change ((fun pair => pair.1 pair.2) <$> both functions arguments).Reads _ _ _ ↔ _
  rw [reads_map]
  constructor
  · rintro ⟨⟨f, a⟩, hreads, rfl⟩
    rw [reads_both hfunctions, filter_hasName_left, filter_hasName_right hdisjoint] at hreads
    exact ⟨f, a, hreads.1, hreads.2, rfl⟩
  · rintro ⟨f, a, hf, ha, rfl⟩
    refine ⟨(f, a), ?_, rfl⟩
    rw [reads_both hfunctions, filter_hasName_left, filter_hasName_right hdisjoint]
    exact ⟨hf, ha⟩

theorem named_seq {functions : Record (α → β)} {arguments : Record α}
    {names further : List String}
    (hfunctions : functions.Named names) (harguments : arguments.Named further) :
    (functions <*> arguments).Named (names ++ further) :=
  named_map (named_both hfunctions harguments) _

end Record

end CourseAdmission.Document
