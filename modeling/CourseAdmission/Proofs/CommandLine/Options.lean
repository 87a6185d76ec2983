import CourseAdmission.Proofs.CommandLine.Arguments
import Mathlib.Data.List.TakeWhile

/-!
Which values the arguments of a batch give to its options.

An option has the value that is written behind it, in the same argument or in the next one. No other
argument is taken for the option, and none of its values is lost.
-/

namespace CourseAdmission

theorem ReportFormat.ofName?_eq_some_iff {name : String} {format : ReportFormat} :
    ofName? name = some format ↔ name = format.name := by
  constructor
  · intro h
    have hname := List.find?_some h
    exact (beq_iff_eq.1 hname).symm
  · rintro rfl
    cases format <;> rfl

namespace CommandLine

variable {known : List Known} {given given' : Given} {arguments rest : List String}
  {argument name value : String}

/-! Arguments -/

namespace Argument

/-- A name that is written behind two dashes, and in front of a value. -/
def IsOptionName (name : String) : Prop := name ≠ "" ∧ '=' ∉ name.toList

instance (name : String) : Decidable (IsOptionName name) := inferInstanceAs (Decidable (_ ∧ _))

theorem takeWhile_name (hname : '=' ∉ name.toList) (cs : List Char) :
    (name.toList ++ '=' :: cs).takeWhile (· != '=') = name.toList := by
  rw [List.takeWhile_append_of_pos, List.takeWhile_cons_of_neg (by simp), List.append_nil]
  intro c hc
  rw [bne_iff_ne]
  rintro rfl
  exact hname hc

/-- Behind two dashes stands a name, and a value if there is an equals sign. -/
theorem ofChars_dashes {cs : List Char} (hcs : cs ≠ []) : ofChars ('-' :: '-' :: cs) =
    match cs.drop (cs.takeWhile (· != '=')).length with
    | _ :: value =>
      .long (String.ofList (cs.takeWhile (· != '='))) (some (String.ofList value))
    | [] => .long (String.ofList (cs.takeWhile (· != '='))) none := by
  cases cs with
  | nil => exact absurd rfl hcs
  | cons c cs => rfl

theorem ofText_attached (hname : '=' ∉ name.toList) (value : String) :
    ofText ("--" ++ name ++ "=" ++ value) = .long name (some value) := by
  have htext : ("--" ++ name ++ "=" ++ value).toList =
      '-' :: '-' :: (name.toList ++ '=' :: value.toList) := by simp
  rw [ofText, htext, ofChars_dashes (by simp), takeWhile_name hname, List.drop_left]
  simp

theorem ofText_name (hname : IsOptionName name) : ofText ("--" ++ name) = .long name none := by
  have hwhole : name.toList.takeWhile (· != '=') = name.toList := by
    rw [List.takeWhile_eq_self_iff]
    intro c hc
    rw [bne_iff_ne]
    rintro rfl
    exact hname.2 hc
  have htext : ("--" ++ name).toList = '-' :: '-' :: name.toList := by simp
  rw [ofText, htext, ofChars_dashes (by simpa using hname.1), hwhole, List.drop_length]
  simp

/-- Two dashes, a name, an equals sign and a value are all that stands in an option with a value. -/
theorem eq_of_ofText_eq_attached (h : ofText argument = .long name (some value)) :
    argument = "--" ++ name ++ "=" ++ value := by
  unfold ofText ofChars at h
  split at h
  case h_2 cs _ hargument =>
    dsimp only at h
    split at h
    case h_1 separator rest hdrop =>
      have hsplit := List.takeWhile_append_dropWhile (p := (· != '=')) (l := cs)
      have hrest : cs.dropWhile (· != '=') = separator :: rest :=
        List.drop_left.symm.trans ((congrArg (List.drop _) hsplit).trans hdrop)
      -- What stops the name is an equals sign.
      have hseparator := List.head?_dropWhile_not (· != '=') cs
      rw [hrest] at hsplit hseparator
      obtain rfl : separator = '=' := by simpa using hseparator
      cases h
      rw [← String.toList_inj, hargument]
      simpa using hsplit.symm
    case h_2 => cases h
  all_goals cases h

end Argument

/-! Values -/

/-- The option is written with the value, in one argument or in two. -/
def Writes (arguments : List String) (name value : String) : Prop :=
  "--" ++ name ++ "=" ++ value ∈ arguments ∨ ["--" ++ name, value] <:+: arguments

section

open Argument

variable {other written : String} {attached : Option String}

theorem writes_cons_iff : Writes (argument :: arguments) name value ↔
    "--" ++ name ++ "=" ++ value = argument ∨
      ("--" ++ name = argument ∧ arguments.head? = some value) ∨
      Writes arguments name value := by
  have hfirst : [value] <+: arguments ↔ arguments.head? = some value := by
    cases arguments <;> simp [eq_comm]
  rw [Writes, Writes, List.mem_cons, List.infix_cons_iff, List.cons_prefix_cons, hfirst]
  simp only [or_assoc, or_left_comm]

/-- An argument that is no long option gives no value to one. -/
theorem writes_cons_of_not_long (hname : IsOptionName name)
    (hargument : ∀ name attached, ofText argument ≠ .long name attached) :
    Writes (argument :: arguments) name value ↔ Writes arguments name value := by
  have hlong : "--" ++ name ++ "=" ++ value ≠ argument := by
    rintro rfl
    exact hargument _ _ (ofText_attached hname.2 value)
  have hshort : "--" ++ name ≠ argument := by
    rintro rfl
    exact hargument _ _ (ofText_name hname)
  rw [writes_cons_iff]
  simp [hlong, hshort]

theorem writes_cons_of_attached (hname : IsOptionName name)
    (hargument : ofText argument = .long other (some written)) :
    Writes (argument :: arguments) name value ↔
      (other = name ∧ written = value) ∨ Writes arguments name value := by
  have hlong : "--" ++ name ++ "=" ++ value = argument ↔ other = name ∧ written = value := by
    constructor
    · rintro rfl
      rw [ofText_attached hname.2 value] at hargument
      cases hargument
      exact ⟨rfl, rfl⟩
    · rintro ⟨rfl, rfl⟩
      exact (eq_of_ofText_eq_attached hargument).symm
  have hshort : "--" ++ name ≠ argument := by
    rintro rfl
    cases (ofText_name hname).symm.trans hargument
  rw [writes_cons_iff, hlong]
  simp [hshort]

theorem writes_cons_of_name (hname : IsOptionName name)
    (hargument : ofText argument = .long other none) :
    Writes (argument :: arguments) name value ↔
      (other = name ∧ arguments.head? = some value) ∨ Writes arguments name value := by
  have hlong : "--" ++ name ++ "=" ++ value ≠ argument := by
    rintro rfl
    cases (ofText_attached hname.2 value).symm.trans hargument
  have hshort : "--" ++ name = argument ↔ other = name := by
    constructor
    · rintro rfl
      cases (ofText_name hname).symm.trans hargument
      rfl
    · rintro rfl
      exact (eq_of_ofText_eq_long hargument).symm
  rw [writes_cons_iff, hshort]
  simp [hlong]

/-- What is given anew has no value before. -/
theorem lookup_cons_iff (hnew : ¬(given.lookup other).isSome = true) :
    ((other, written) :: given).lookup name = some value ↔
      (other = name ∧ written = value) ∨ given.lookup name = some value := by
  by_cases hother : other = name
  · subst hother
    rw [Option.not_isSome_iff_eq_none] at hnew
    simp [hnew]
  · simp [List.lookup_cons, beq_eq_false_iff_ne.2 (Ne.symm hother), hother]

/-- An option that is no flag is given the value, or it stands in what is not read, if it was given
    the value before or is written with it. -/
theorem lookup_readOptions_iff (hname : IsOptionName name)
    (hkind : kindOfName? known name ≠ some .flag)
    (h : readOptions known given arguments = .ok (given', rest)) :
    given'.lookup name = some value ∨ Writes rest name value ↔
      given.lookup name = some value ∨ Writes arguments name value := by
  fun_induction readOptions known given arguments with
  | case1 =>
    cases h
    rfl
  | case2 =>
    cases h
    rfl
  | case3 _ _ _ hargument hempty =>
    cases h
    rw [writes_cons_of_not_long hname (by simp [hargument]), List.isEmpty_iff.1 hempty]
  | case9 _ _ other hnew _ hflag hargument ih =>
    have hother : other ≠ name := by
      rintro rfl
      exact hkind hflag
    rw [ih h, lookup_cons_iff hnew, writes_cons_of_name hname hargument]
    simp [hother]
  | case10 _ _ other hnew _ _ _ _ _ hargument ih =>
    rw [ih h, lookup_cons_iff hnew, writes_cons_of_attached hname hargument]
    simp only [or_assoc, or_left_comm]
  | case12 _ _ other hnew _ _ _ _ hvalue hargument ih =>
    rw [ih h, lookup_cons_iff hnew, writes_cons_of_name hname hargument,
      writes_cons_of_not_long hname (by simp [hvalue.1]), List.head?_cons, Option.some_inj]
    simp only [or_assoc, or_left_comm]
  | _ => cases h

end

/-- The options that are understood in front of a command. -/
def frontOptions : List Known := [.settings, .version, .help]

section

variable {form : CommandForm} {front : Given} {options : List String}
  (hword : Argument.ofText form.name = .word)
  (hfront : readOptions frontOptions [] arguments = .ok (front, form.name :: options))
  (hoptions : readOptions (.settings :: .help :: form.options) [] options = .ok (given, []))
include hword hfront hoptions

/-- An option is given its value in front of the command or behind it. -/
theorem lookup_or_lookup_iff (hname : Argument.IsOptionName name)
    (hbefore : kindOfName? frontOptions name ≠ some .flag)
    (hbehind : kindOfName? (.settings :: .help :: form.options) name ≠ some .flag) :
    front.lookup name = some value ∨ given.lookup name = some value ↔
      Writes arguments name value := by
  have hgiven : given.lookup name = some value ↔ Writes options name value := by
    simpa [Writes] using lookup_readOptions_iff hname hbehind hoptions
  have hwhole : front.lookup name = some value ∨ Writes (form.name :: options) name value ↔ _ :=
    lookup_readOptions_iff hname hbefore hfront
  rw [writes_cons_of_not_long hname (by simp [hword])] at hwhole
  rw [hgiven, hwhole]
  simp

/-- An option that is only understood behind the command is given its value there. -/
theorem lookup_iff_writes (hname : Argument.IsOptionName name)
    (hunknown : kindOfName? frontOptions name = none)
    (hbehind : kindOfName? (.settings :: .help :: form.options) name ≠ some .flag)
    (value : String) : given.lookup name = some value ↔ Writes arguments name value := by
  have hnone : front.lookup name ≠ some value := by
    intro hvalue
    have hgiven :=
      ((reads_of_readOptions hfront).has_iff hunknown).1 (by simp [Given.has, hvalue])
    simp [Given.has] at hgiven
  rw [← lookup_or_lookup_iff hword hfront hoptions hname (by simp [hunknown]) hbehind]
  simp [hnone]

end

/-! Batches -/

/-- The values of a batch are those that the arguments write for its options. -/
structure WritesBatch (arguments : List String) (asked : Option String) (criteria results : String)
    (workers : Option Nat) (output : Option String) (format : Option ReportFormat) : Prop where
  criteria : Writes arguments "criteria" criteria
  results : Writes arguments "results" results
  workers_iff : ∀ n, workers = some n ↔
    ∃ text, Writes arguments "parallelism" text ∧ Text.count text = .ok n
  output_iff : ∀ path, output = some path ↔ Writes arguments "output" path
  format_iff : ∀ f, format = some f ↔ Writes arguments "format" f.name
  settings : ∀ path, asked = some path → Writes arguments "config" path
  settings_none : asked = none → ∀ path, ¬Writes arguments "config" path

/-- The options that are understood behind the name of a batch. -/
def batchOptions : List Known := .settings :: .help :: CommandForm.batch.options

theorem kindOfName?_batchOptions
    (hname : name ∈ ["criteria", "results", "output", "parallelism", "format"]) :
    Argument.IsOptionName name ∧ kindOfName? frontOptions name = none ∧
      kindOfName? batchOptions name ≠ some .flag := by
  simp only [List.mem_cons, List.not_mem_nil, or_false] at hname
  rcases hname with rfl | rfl | rfl | rfl | rfl <;> refine ⟨by decide, by decide, ?_⟩ <;>
    simp [kindOfName?, batchOptions, CommandForm.batch, Known.settings, Known.help, Known.path,
      Known.value]

theorem kindOfName?_config : kindOfName? frontOptions "config" ≠ some .flag ∧
    kindOfName? batchOptions "config" ≠ some .flag := by
  simp [kindOfName?, frontOptions, batchOptions, Known.settings, Known.path, Known.value]

theorem writesBatch_of_ofArguments {asked : Option String} {criteria results : String}
    {workers : Option Nat} {output : Option String} {format : Option ReportFormat}
    (h : Invocation.ofArguments arguments =
      .ok ⟨asked, .batch criteria results workers output format⟩) :
    WritesBatch arguments asked criteria results workers output format := by
  obtain ⟨form, front, options, given, hfront, hoptions, hmakes, hasked⟩ :=
    exists_form_of_ofArguments h
  cases hmakes with
  | batch hcriteria hresults =>
    have hword : Argument.ofText CommandForm.batch.name = .word := by decide
    have hoption {name : String}
        (hname : name ∈ ["criteria", "results", "output", "parallelism", "format"])
        (value : String) : given.lookup name = some value ↔ Writes arguments name value := by
      obtain ⟨hname, hunknown, hbehind⟩ := kindOfName?_batchOptions hname
      exact lookup_iff_writes hword hfront hoptions hname hunknown hbehind value
    have hconfig (path : String) : front.lookup "config" = some path ∨
        given.lookup "config" = some path ↔ Writes arguments "config" path :=
      lookup_or_lookup_iff hword hfront hoptions (by decide) kindOfName?_config.1
        kindOfName?_config.2
    constructor
    case criteria => exact (hoption (by simp) criteria).1 hcriteria
    case results => exact (hoption (by simp) results).1 hresults
    case workers_iff =>
      intro n
      rw [Option.bind_eq_some_iff]
      refine exists_congr fun text => and_congr (hoption (by simp) text) ?_
      cases Text.count text <;> simp [Except.toOption]
    case output_iff =>
      intro path
      exact hoption (by simp) path
    case format_iff =>
      intro f
      rw [Option.bind_eq_some_iff, ← hoption (by simp)]
      simp only [ReportFormat.ofName?_eq_some_iff, exists_eq_right]
    case settings =>
      intro path hpath
      rw [hasked, Option.orElse_eq_orElse, Option.orElse_eq_or, Option.or_eq_some_iff] at hpath
      exact (hconfig path).1 (hpath.symm.imp And.right id)
    case settings_none =>
      intro hnone path hpath
      rw [hasked, Option.orElse_eq_orElse, Option.orElse_eq_or, Option.or_eq_none_iff] at hnone
      rw [← hconfig path, hnone.1, hnone.2] at hpath
      simp at hpath

end CommandLine

end CourseAdmission
