import CourseAdmission.Proofs.Toml.Lines

/-!
A document that consists of one array of tables.

Its lines are scanned one after the other and added to a draft. What the draft finishes as decides
how another table begins, so it is the invariant of the tables added so far.
-/

namespace CourseAdmission.Toml

open Scanner Document

variable {name : String} {tables done : List (List Assignment)} {entries : List Assignment}

/-! Texts and their lines -/

/-- A table with its header: one line for each entry. -/
def table (name : String) (entries : List Assignment) : List Char :=
  elementHeader name ++ entries.flatMap Assignment.line

/-- What the line of an assignment says. -/
def Assignment.says (a : Assignment) : Line := .entry a.keyed.1 a.keyed.2

/-- The lines of a table, each with what it is scanned as. -/
def tableLines (name : String) (entries : List Assignment) : List (List Char × Line) :=
  (elementHeader name, .element ([], name)) ::
    entries.map fun a => (a.line, a.says)

theorem flatMap_table (name : String) (tables : List (List Assignment)) :
    tables.flatMap (table name) = (tables.flatMap (tableLines name)).flatMap (·.1) := by
  rw [List.flatMap_assoc]
  congr 1
  funext entries
  rw [table, tableLines, List.flatMap_cons, List.flatMap_map]

/-- Each line is scanned as what it says. -/
theorem line_tableLines (hname : IsBare name) (hsound : ∀ a ∈ entries, a.Sound depthLimit)
    {said : List Char × Line} (hsaid : said ∈ tableLines name entries) (rest : List Char) :
    line (said.1 ++ rest) = some (said.2, rest) ∧ said.1 ≠ [] := by
  rcases List.mem_cons.1 hsaid with rfl | hentry
  · exact ⟨line_elementHeader hname rest, List.cons_ne_nil _ _⟩
  · obtain ⟨a, ha, rfl⟩ := List.mem_map.1 hentry
    exact ⟨line_assignment (hsound a ha) rest, by simp [Assignment.line]⟩

/-- A text is scanned as the lines of its tables. -/
theorem lines_tables (hname : IsBare name)
    (hsound : ∀ entries ∈ tables, ∀ a ∈ entries, a.Sound depthLimit) :
    lines (tables.flatMap (table name)) =
      some ((tables.flatMap (tableLines name)).map (·.2), []) := by
  have hline : ∀ said ∈ tables.flatMap (tableLines name), ∀ rest,
      line (said.1 ++ rest) = some (said.2, rest) ∧ said.1 ≠ [] := by
    intro said hsaid rest
    obtain ⟨entries, hentries, hsaid⟩ := List.mem_flatMap.1 hsaid
    exact line_tableLines hname (hsound entries hentries) hsaid rest
  have hrun : Run line ((tables.flatMap (tableLines name)).flatMap (·.1) ++ [])
      ((tables.flatMap (tableLines name)).map (·.2)) [] :=
    run_flatMap (·.1) (·.2) (fun _ => True) (fun said hsaid rest _ => (hline said hsaid rest).1)
      (fun said hsaid => (hline said hsaid []).2) (fun _ _ _ => trivial) trivial line_nil
  rw [List.append_nil, ← flatMap_table] at hrun
  exact bind_of_eq_some (many_of_run hrun)

/-! Drafts -/

/-- The tables that are finished: an array of them, or nothing before the first. -/
def finishedAs (name : String) (tables : List (List Assignment)) : Entries :=
  if tables = [] then [] else [(name, .tables (tables.map (·.map Assignment.entry)))]

/-- A line with a value changes the current table alone. -/
theorem foldlM_addTo (draft : Draft) (entries : List Assignment) :
    (entries.map Assignment.says).foldlM Draft.addTo draft =
      ((entries.map Assignment.keyed).foldlM addKeyed draft.current).map
        fun current => { draft with current } := by
  induction entries generalizing draft with
  | nil => rfl
  | cons a entries ih =>
    rw [List.map_cons, List.map_cons, List.foldlM_cons, List.foldlM_cons]
    change ((draft.current.add a.keyed.1 a.keyed.2).bind _).bind _ =
      ((draft.current.add a.keyed.1 a.keyed.2).bind _).map _
    cases hadd : Entries.add draft.current a.keyed.1 a.keyed.2 with
    | none => rfl
    | some current => exact ih { draft with current }

/-- A header finishes the table before it and begins an empty one. -/
theorem beginElement_of_finish {draft : Draft}
    (hdraft : draft.finish = some (finishedAs name done)) :
    draft.beginElement ([], name) =
      some ⟨[(name, .tables (done.map (·.map Assignment.entry)))], some ([], name), true, []⟩ := by
  unfold Draft.beginElement finishedAs at *
  rw [hdraft]
  split
  case isTrue hdone =>
    subst hdone
    rfl
  case isFalse => simp [Entries.changeAt]

/-- Another table joins those of the array. -/
theorem exists_foldlM_tableLines {draft : Draft}
    (hdraft : draft.finish = some (finishedAs name done))
    (hnames : (entries.map Assignment.name).Nodup) :
    ∃ draft', ((tableLines name entries).map (·.2)).foldlM Draft.addTo draft = some draft' ∧
      draft'.finish = some (finishedAs name (done ++ [entries])) := by
  have hbegin := beginElement_of_finish hdraft
  have hadded : (entries.map Assignment.keyed).foldlM addKeyed [] =
      some (entries.map Assignment.entry) :=
    foldlM_add [] hnames
  refine ⟨⟨[(name, .tables (done.map (·.map Assignment.entry)))], some ([], name), true,
    entries.map Assignment.entry⟩, ?_, ?_⟩
  · have hlines : (tableLines name entries).map (·.2) =
        .element ([], name) :: entries.map Assignment.says := by
      rw [tableLines, List.map_cons, List.map_map]
      rfl
    rw [hlines, List.foldlM_cons]
    change (draft.beginElement ([], name)).bind _ = _
    rw [hbegin, Option.bind_some, foldlM_addTo, hadded, Option.map_some]
  · simp [Draft.finish, Entries.changeAt, Draft.place, finishedAs, Entries.replace]

theorem exists_foldlM_tables {draft : Draft} (hdraft : draft.finish = some (finishedAs name done))
    (hnames : ∀ entries ∈ tables, (entries.map Assignment.name).Nodup) :
    ∃ draft', ((tables.flatMap (tableLines name)).map (·.2)).foldlM Draft.addTo draft =
        some draft' ∧ draft'.finish = some (finishedAs name (done ++ tables)) := by
  -- The draft is known only by what it finishes as, which one more table changes in a known way.
  induction tables generalizing draft done with
  | nil => exact ⟨draft, rfl, by rw [hdraft, List.append_nil]⟩
  | cons entries tables ih =>
    rw [List.forall_mem_cons] at hnames
    obtain ⟨next, hnext, hfinish⟩ := exists_foldlM_tableLines hdraft hnames.1
    obtain ⟨last, hlast, hfinished⟩ := ih hfinish hnames.2
    refine ⟨last, ?_, by rw [hfinished, List.append_assoc, List.singleton_append]⟩
    rw [List.flatMap_cons, List.map_append, List.foldlM_append, hnext]
    exact hlast

/-! Documents -/

/-- The object of an array of objects; there is no array of none. -/
def objectOfTables (name : String) (tables : List (List Assignment)) : Node :=
  .ofMembers (if tables = [] then [] else [(name, .array (tables.map objectOf))])

theorem toItems_tables (tables : List (List Assignment)) :
    Entry.toItems (tables.map (·.map Assignment.entry)) = tables.map objectOf := by
  induction tables with
  | nil => rfl
  | cons entries tables ih =>
    rw [List.map_cons, List.map_cons, Entry.toItems, object_toMembers, ih]

theorem object_finishedAs (name : String) (tables : List (List Assignment)) :
    Node.object (Entry.toMembers (finishedAs name tables)) = objectOfTables name tables := by
  unfold finishedAs objectOfTables
  split
  · rfl
  · rw [Entry.toMembers, Entry.toNode, toItems_tables]
    rfl

/-- A text without a mark at its front is read from its lines. -/
theorem read_ofList {cs : List Char} {said : List Line} (hmark : byteOrderMark ∉ cs.head?)
    (hlines : lines cs = some (said, [])) : read (String.ofList cs) = do
      let draft ← said.foldlM Draft.addTo .empty
      return .object (Entry.toMembers (← draft.finish)) := by
  unfold read
  rw [String.toList_ofList]
  cases cs with
  | nil =>
    change (lines []).bind _ = _
    rw [hlines]
    rfl
  | cons c cs =>
    have hother : c ≠ byteOrderMark := by
      rintro rfl
      exact hmark rfl
    dsimp only
    rw [if_neg hother]
    change (lines (c :: cs)).bind _ = _
    rw [hlines]
    rfl

/-- A text of tables is read as the array of their objects. -/
theorem read_tables (hname : IsBare name)
    (hsound : ∀ entries ∈ tables, ∀ a ∈ entries, a.Sound depthLimit)
    (hnames : ∀ entries ∈ tables, (entries.map Assignment.name).Nodup) :
    read (String.ofList (tables.flatMap (table name))) = some (objectOfTables name tables) := by
  have hempty : Draft.empty.finish = some (finishedAs name []) := rfl
  obtain ⟨draft, hdraft, hfinish⟩ := exists_foldlM_tables hempty hnames
  rw [List.nil_append] at hfinish
  have hmark : byteOrderMark ∉ (tables.flatMap (table name)).head? := by
    cases tables with
    | nil => exact nofun
    | cons entries tables =>
      rintro ⟨⟩
  rw [read_ofList hmark (lines_tables hname hsound), hdraft]
  change (Option.bind draft.finish _) = _
  rw [hfinish, ← object_finishedAs]
  rfl

end CourseAdmission.Toml
