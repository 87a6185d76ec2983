import CourseAdmission.CommandLine.Arguments
import CourseAdmission.Proofs.Except

/-!
What the arguments of a comparison ask for.

Every argument that is read as an option is given with its value, so whether a flag is given can be
seen from whether it stands among the arguments.
-/

namespace CourseAdmission.CommandLine

variable {known : List Known} {given given' : Given} {arguments rest : List String} {name : String}

/-! Reading options -/

/-- Two dashes and a name are all that stands in an option without a value. -/
theorem Argument.eq_of_ofText_eq_long {argument : String}
    (h : Argument.ofText argument = .long name none) : argument = "--" ++ name := by
  unfold Argument.ofText Argument.ofChars at h
  split at h
  case h_2 cs _ hargument =>
    dsimp only at h
    split at h
    · cases h
    · rename_i hrest
      have hwhole := (List.takeWhile_prefix (· != '=')).eq_of_length_le
        (List.drop_eq_nil_iff.1 hrest)
      cases h
      rw [hwhole, ← String.toList_inj, hargument]
      simp
  all_goals cases h

/-- The reading of options, one after the other. -/
inductive Reads (known : List Known) : Given → List String → Given → List String → Prop
  | nil (given : Given) : Reads known given [] given []
  | word {argument : String} (given : Given) (arguments : List String)
      (hargument : Argument.ofText argument = .word) :
      Reads known given (argument :: arguments) given (argument :: arguments)
  | separator {argument : String} (given : Given)
      (hargument : Argument.ofText argument = .separator) : Reads known given [argument] given []
  | flag {argument name : String} {given given' : Given} {arguments rest : List String}
      (hargument : Argument.ofText argument = .long name none)
      (hkind : kindOfName? known name = some .flag)
      (hreads : Reads known ((name, "") :: given) arguments given' rest) :
      Reads known given (argument :: arguments) given' rest
  | attached {argument name value : String} {accepts : String → Bool} {given given' : Given}
      {arguments rest : List String}
      (hargument : Argument.ofText argument = .long name (some value))
      (hkind : kindOfName? known name = some (.value accepts))
      (hreads : Reads known ((name, value) :: given) arguments given' rest) :
      Reads known given (argument :: arguments) given' rest
  | next {argument name value : String} {accepts : String → Bool} {given given' : Given}
      {arguments rest : List String}
      (hargument : Argument.ofText argument = .long name none)
      (hkind : kindOfName? known name = some (.value accepts))
      (hvalue : Argument.ofText value = .word)
      (hreads : Reads known ((name, value) :: given) arguments given' rest) :
      Reads known given (argument :: value :: arguments) given' rest

theorem reads_of_readOptions (h : readOptions known given arguments = .ok (given', rest)) :
    Reads known given arguments given' rest := by
  fun_induction readOptions known given arguments with
  | case1 => cases h; exact .nil _
  | case2 _ _ _ hargument => cases h; exact .word _ _ hargument
  | case3 _ _ _ hargument hempty =>
    cases h
    rw [List.isEmpty_iff.1 hempty]
    exact .separator _ hargument
  | case9 _ _ _ _ _ hkind hargument ih => exact .flag hargument hkind (ih h)
  | case10 _ _ _ _ _ _ _ hkind _ hargument ih => exact .attached hargument hkind (ih h)
  | case12 _ _ _ _ _ _ _ hkind hvalue hargument ih =>
    exact .next hargument hkind hvalue.1 (ih h)
  | _ => cases h

namespace Given

theorem has_cons_iff (given : Given) (other value name : String) :
    Given.has ((other, value) :: given) name = true ↔ other = name ∨ given.has name = true := by
  by_cases h : name = other
  · simp [has, h]
  · simp [has, List.lookup_cons, beq_eq_false_iff_ne.2 h, Ne.symm h]

end Given

namespace Reads

/-- A flag is given, or stands in what is not read, if it was given before or stands among the
    arguments. -/
theorem flag_iff (h : Reads known given arguments given' rest)
    (hargument : Argument.ofText ("--" ++ name) = .long name none)
    (hkind : ∀ accepts, kindOfName? known name ≠ some (.value accepts)) :
    "--" ++ name ∈ rest ∨ given'.has name = true ↔
      "--" ++ name ∈ arguments ∨ given.has name = true := by
  have hflag (argument : String) :
      "--" ++ name = argument ↔ Argument.ofText argument = .long name none :=
    ⟨fun h => h ▸ hargument, fun h => (Argument.eq_of_ofText_eq_long h).symm⟩
  have hname {other : String} {accepts : String → Bool}
      (h : kindOfName? known other = some (.value accepts)) : other ≠ name := by
    rintro rfl
    exact hkind accepts h
  induction h with
  | nil => rfl
  | word => rfl
  | separator given hother => simp [hflag, hother]
  | flag hother _ _ ih =>
    refine ih.trans ?_
    rw [Given.has_cons_iff, List.mem_cons, hflag, hother]
    simp [or_assoc, or_left_comm]
  | attached hother hvalue _ ih =>
    refine ih.trans ?_
    rw [Given.has_cons_iff, List.mem_cons, hflag, hother]
    simp [hname hvalue]
  | next hother hvalue hword _ ih =>
    refine ih.trans ?_
    rw [Given.has_cons_iff, List.mem_cons, List.mem_cons, hflag, hflag, hother, hword]
    simp [hname hvalue]

/-- What is not known is not given. -/
theorem has_iff (h : Reads known given arguments given' rest)
    (hunknown : kindOfName? known name = none) :
    given'.has name = true ↔ given.has name = true := by
  have hname {other : String} {kind : OptionKind} (h : kindOfName? known other = some kind) :
      other ≠ name := by
    rintro rfl
    cases hunknown.symm.trans h
  induction h with
  | nil => rfl
  | word => rfl
  | separator => rfl
  | flag _ hkind _ ih => simp [ih, Given.has_cons_iff, hname hkind]
  | attached _ hkind _ ih => simp [ih, Given.has_cons_iff, hname hkind]
  | next _ hkind _ _ ih => simp [ih, Given.has_cons_iff, hname hkind]

end Reads

/-- A value in the argument of its option is given. -/
theorem readOptions_value {argument value : String} {accepts : String → Bool}
    (hargument : Argument.ofText argument = .long name (some value))
    (hgiven : given.lookup name = none) (hkind : kindOfName? known name = some (.value accepts))
    (haccepts : accepts value = true) :
    readOptions known given (argument :: arguments) =
      readOptions known ((name, value) :: given) arguments := by
  rw [readOptions, hargument]
  simp [hgiven, hkind, haccepts]

/-! Commands -/

theorem Given.lookup_of_required {value : String} (h : given.required name = .ok value) :
    given.lookup name = some value := by
  unfold required at h
  split at h
  case h_1 hvalue =>
    cases h
    exact hvalue
  case h_2 => cases h

/-- The command that is made of the options under each name. -/
inductive Makes (given : Given) : CommandForm → Command → Prop
  | validate {criteria : String} (hcriteria : given.lookup "criteria" = some criteria) :
    Makes given .validate (.validate criteria)
  | evaluate {criteria results : String} (hcriteria : given.lookup "criteria" = some criteria)
      (hresults : given.lookup "results" = some results) :
    Makes given .evaluate (.evaluate criteria results
      (((given.lookup "format").bind VerdictFormat.ofName?).getD .text)
      (given.has "fail-on-denied"))
  | batch {criteria results : String} (hcriteria : given.lookup "criteria" = some criteria)
      (hresults : given.lookup "results" = some results) :
    Makes given .batch (.batch criteria results
      ((given.lookup "parallelism").bind fun count => (Text.count count).toOption)
      (given.lookup "output") ((given.lookup "format").bind ReportFormat.ofName?))
  | compare {baseline current : String} (hbaseline : given.lookup "baseline" = some baseline)
      (hcurrent : given.lookup "current" = some current) :
    Makes given .compare (.compare baseline current
      (((given.lookup "format").map ChangeFormat.ofName).getD .text)
      (given.has "fail-on-new-denials"))
  | init : Makes given .init .init

theorem makes_of_command {form : CommandForm} {command : Command} (hform : form ∈ CommandForm.all)
    (h : form.command given = .ok command) : Makes given form command := by
  simp only [CommandForm.all, List.mem_cons, List.not_mem_nil, or_false] at hform
  rcases hform with rfl | rfl | rfl | rfl | rfl
  · obtain ⟨criteria, hcriteria, h⟩ := bind_eq_ok_iff.1 h
    cases h
    exact .validate (Given.lookup_of_required hcriteria)
  · obtain ⟨criteria, hcriteria, h⟩ := bind_eq_ok_iff.1 h
    obtain ⟨results, hresults, h⟩ := bind_eq_ok_iff.1 h
    cases h
    exact .evaluate (Given.lookup_of_required hcriteria) (Given.lookup_of_required hresults)
  · obtain ⟨criteria, hcriteria, h⟩ := bind_eq_ok_iff.1 h
    obtain ⟨results, hresults, h⟩ := bind_eq_ok_iff.1 h
    cases h
    exact .batch (Given.lookup_of_required hcriteria) (Given.lookup_of_required hresults)
  · obtain ⟨baseline, hbaseline, h⟩ := bind_eq_ok_iff.1 h
    obtain ⟨current, hcurrent, h⟩ := bind_eq_ok_iff.1 h
    cases h
    exact .compare (Given.lookup_of_required hbaseline) (Given.lookup_of_required hcurrent)
  · cases h
    exact .init

/-- The arguments of a command: some options in front of its name, and those behind it. -/
theorem exists_form_of_ofArguments {asked : Option String} {command : Command}
    (h : Invocation.ofArguments arguments = .ok ⟨asked, command⟩) :
    ∃ form front options given,
      readOptions [.settings, .version, .help] [] arguments = .ok (front, form.name :: options) ∧
      readOptions (.settings :: .help :: form.options) [] options = .ok (given, []) ∧
      Makes given form command ∧
      asked = (given.lookup "config" <|> front.lookup "config") := by
  obtain ⟨⟨front, behind⟩, hfront, h⟩ := bind_eq_ok_iff.1 h
  cases behind with
  | nil => cases h
  | cons word options =>
    dsimp only at h
    split at h
    case h_1 => cases h
    case h_2 form hfind =>
      obtain ⟨⟨given, left⟩, hoptions, h⟩ := bind_eq_ok_iff.1 h
      cases left with
      | cons => cases h
      | nil =>
        obtain ⟨command, hcommand, h⟩ := bind_eq_ok_iff.1 h
        cases h
        obtain rfl : form.name = word := by simpa using List.find?_some hfind
        exact ⟨form, front, options, given, hfront, hoptions,
          makes_of_command (List.mem_of_find?_eq_some hfind) hcommand, rfl⟩

/-! Comparisons -/

variable {asked : Option String} {baseline current : String} {format : ChangeFormat} {fails : Bool}

/-- The options that are understood behind the name of the command. -/
def compareOptions : List Known := .settings :: .help :: CommandForm.compare.options

theorem kindOfName?_compareOptions :
    kindOfName? compareOptions "baseline" = some (.value (· != "")) ∧
      kindOfName? compareOptions "current" = some (.value (· != "")) ∧
      kindOfName? compareOptions "format" = some (.value fun _ => true) ∧
      kindOfName? compareOptions "fail-on-new-denials" = some .flag := by
  simp [kindOfName?, compareOptions, CommandForm.compare, Known.settings, Known.help, Known.path,
    Known.value, Known.flag]

/-- The arguments of a comparison, with each value in the argument of its option. -/
def compareArguments (baseline current format : String) (failOnNewDenials : Bool) : List String :=
  ["compare", "--baseline=" ++ baseline, "--current=" ++ current, "--format=" ++ format] ++
    if failOnNewDenials then ["--fail-on-new-denials"] else []

/-- The options are read one after the other; the last one is in front. -/
theorem readOptions_compareOptions (hbaseline : baseline ≠ "") (hcurrent : current ≠ "")
    (name : String) (failOnNewDenials : Bool) :
    readOptions compareOptions []
        (compareArguments baseline current name failOnNewDenials).tail =
      .ok ((if failOnNewDenials then [("fail-on-new-denials", "")] else []) ++
        [("format", name), ("current", current), ("baseline", baseline)], []) := by
  have hbaselineOption : Argument.ofText ("--baseline=" ++ baseline) =
      .long "baseline" (some baseline) := by
    simp [Argument.ofText, Argument.ofChars]
  have hcurrentOption : Argument.ofText ("--current=" ++ current) =
      .long "current" (some current) := by
    simp [Argument.ofText, Argument.ofChars]
  have hformatOption : Argument.ofText ("--format=" ++ name) = .long "format" (some name) := by
    simp [Argument.ofText, Argument.ofChars]
  have hflag : Argument.ofText "--fail-on-new-denials" = .long "fail-on-new-denials" none := by
    decide
  obtain ⟨hbaselineKind, hcurrentKind, hformatKind, hflagKind⟩ := kindOfName?_compareOptions
  rw [compareArguments, List.cons_append, List.tail_cons, List.cons_append, List.cons_append,
    List.cons_append, List.nil_append,
    readOptions_value hbaselineOption rfl hbaselineKind (by simpa using hbaseline),
    readOptions_value hcurrentOption (by simp) hcurrentKind (by simpa using hcurrent),
    readOptions_value hformatOption (by simp) hformatKind rfl]
  cases failOnNewDenials with
  | false => simp [readOptions]
  | true => simp [readOptions, hflag, hflagKind]

/-- The arguments are understood: the reports are told apart, and the flag is not lost. -/
theorem ofArguments_compareArguments (hbaseline : baseline ≠ "") (hcurrent : current ≠ "")
    (name : String) (failOnNewDenials : Bool) :
    Invocation.ofArguments (compareArguments baseline current name failOnNewDenials) =
      .ok ⟨none, .compare baseline current (.ofName name) failOnNewDenials⟩ := by
  have hword : Argument.ofText "compare" = .word := by decide
  have hfront : readOptions [.settings, .version, .help] []
      (compareArguments baseline current name failOnNewDenials) =
        .ok ([], "compare" :: (compareArguments baseline current name failOnNewDenials).tail) := by
    rw [compareArguments, List.cons_append, readOptions, hword, List.tail_cons]
  have hform : CommandForm.all.find? (·.name == "compare") = some .compare := by
    simp [CommandForm.all, CommandForm.compare, CommandForm.validate, CommandForm.evaluate,
      CommandForm.batch]
  have hoptions := readOptions_compareOptions hbaseline hcurrent name failOnNewDenials
  rw [compareOptions] at hoptions
  rw [Invocation.ofArguments, hfront, ok_bind]
  dsimp only
  rw [hform]
  dsimp only
  rw [hoptions, ok_bind]
  cases failOnNewDenials <;>
    simp [CommandForm.compare, Given.required, Given.has, List.lookup_cons, pure, Except.pure]

/-- A comparison fails on new denials if and only if the flag stands among the arguments. -/
theorem failOnNewDenials_iff
    (h : Invocation.ofArguments arguments = .ok ⟨asked, .compare baseline current format fails⟩) :
    fails = true ↔ "--fail-on-new-denials" ∈ arguments := by
  have hflag : Argument.ofText ("--" ++ "fail-on-new-denials") =
      .long "fail-on-new-denials" none := by decide
  have hunknown :
      kindOfName? [.settings, .version, .help] "fail-on-new-denials" = none := by
    simp [kindOfName?, Known.settings, Known.version, Known.help, Known.path, Known.value]
  obtain ⟨-, -, -, hknown⟩ := kindOfName?_compareOptions
  obtain ⟨form, front, options, given, hfront, hoptions, hmakes, -⟩ :=
    exists_form_of_ofArguments h
  cases hmakes
  have hbefore := (reads_of_readOptions hfront).flag_iff hflag (by simp [hunknown])
  have hnone := (reads_of_readOptions hfront).has_iff hunknown
  have hbehind := (reads_of_readOptions hoptions).flag_iff hflag (by
    rw [compareOptions] at hknown
    simp [hknown])
  rw [hnone] at hbefore
  calc given.has "fail-on-new-denials" = true ↔ "--fail-on-new-denials" ∈ options := by
        simpa [Given.has] using hbehind
    _ ↔ "--fail-on-new-denials" ∈ arguments := by
        simpa [Given.has, CommandForm.compare] using hbefore

end CourseAdmission.CommandLine
