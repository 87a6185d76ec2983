import CourseAdmission.CommandLine.Settings

/-!
What the arguments of a run ask for.

Arguments are read from left to right. An option is written `--name`, and its value follows in the
same argument after `=` or in the next one, which then must not look like an option itself. No
option is given twice.
-/

namespace CourseAdmission.CommandLine

/-- How the verdict on a student is printed. -/
inductive VerdictFormat where
  | text
  | json
  deriving DecidableEq

/-- How a comparison is printed. -/
inductive ChangeFormat where
  | text
  | json
  | markdown
  deriving DecidableEq

inductive Command where
  /-- Checks a file or a folder of criteria. -/
  | validate (criteria : String)
  /-- Evaluates one student. -/
  | evaluate (criteria results : String) (format : VerdictFormat) (failOnDenied : Bool)
  /-- Evaluates a course and writes reports on it. -/
  | batch (criteria results : String) (workers : Option Nat) (output : Option String)
      (format : Option ReportFormat)
  /-- Compares two reports. -/
  | compare (baseline current : String) (format : ChangeFormat) (failOnNewDenials : Bool)
  /-- Writes settings and criteria to start with. -/
  | init
  deriving DecidableEq

/-- A command, and the file of settings that it is to use. -/
structure Invocation where
  settings : Option String
  command : Command
  deriving DecidableEq

/-- Why no command is run. -/
inductive Refusal where
  /-- The arguments make no sense. -/
  | usage
  | version
  | help
  deriving DecidableEq

/-- The form of an argument. -/
inductive Argument where
  /-- Two dashes, after which nothing is an option. -/
  | separator
  | long (name : String) (attached : Option String)
  /-- Letters after one dash; the first one decides. -/
  | short (letter : Char)
  | word
  deriving DecidableEq

namespace Argument

def ofChars : List Char → Argument
  | ['-', '-'] => .separator
  | '-' :: '-' :: cs =>
    let name := cs.takeWhile (· != '=')
    match cs.drop name.length with
    | _ :: value => .long (String.ofList name) (some (String.ofList value))
    | [] => .long (String.ofList name) none
  | '-' :: letter :: _ => .short letter
  | _ => .word

/-- A single dash is a word. -/
def ofText (text : String) : Argument := ofChars text.toList

end Argument

inductive OptionKind where
  | flag
  /-- It needs a value, and not every text is one. -/
  | value (accepts : String → Bool)
  /-- It ends the reading. -/
  | ending (refusal : Refusal)

/-- An option, which may also be written by a letter if it has no value. -/
structure Known where
  name : String
  letter : Option Char
  kind : OptionKind

namespace Known

def flag (name : String) : Known := ⟨name, none, .flag⟩

def value (name : String) (accepts : String → Bool) : Known := ⟨name, none, .value accepts⟩

/-- An option whose value is the path of something. -/
def path (name : String) : Known := value name (· != "")

def help : Known := ⟨"help", some 'h', .ending .help⟩

def version : Known := ⟨"version", some 'V', .ending .version⟩

/-- The file of settings can be named in front of the command and behind it. -/
def settings : Known := path "config"

end Known

/-- The options that are given, with their values; a flag has an empty one. -/
abbrev Given : Type := List (String × String)

/-- The kind of the option that a long name stands for. -/
def kindOfName? (known : List Known) (name : String) : Option OptionKind :=
  (known.find? (·.name == name)).map (·.kind)

/-- The kind of the option that a letter stands for. -/
def kindOfLetter? (known : List Known) (letter : Char) : Option OptionKind :=
  (known.find? (·.letter == some letter)).map (·.kind)

/-- Reads options up to the first word. Gives the arguments from that word on. -/
def readOptions (known : List Known) (given : Given) :
    List String → Except Refusal (Given × List String)
  | [] => .ok (given, [])
  | argument :: arguments =>
    match Argument.ofText argument with
    | .word => .ok (given, argument :: arguments)
    | .separator => if arguments.isEmpty then .ok (given, []) else .error .usage
    | .short letter =>
      match kindOfLetter? known letter with
      | some (.ending refusal) => .error refusal
      | _ => .error .usage
    | .long name attached =>
      if (given.lookup name).isSome then .error .usage
      else
        match kindOfName? known name, attached, arguments with
        | some (.ending refusal), none, _ => .error refusal
        | some .flag, none, arguments => readOptions known ((name, "") :: given) arguments
        | some (.value accepts), some value, arguments =>
          if accepts value then readOptions known ((name, value) :: given) arguments
          else .error .usage
        | some (.value accepts), none, value :: arguments =>
          if Argument.ofText value = .word ∧ accepts value then
            readOptions known ((name, value) :: given) arguments
          else .error .usage
        | _, _, _ => .error .usage

/-- The value of an option that has to be given. -/
def Given.required (given : Given) (name : String) : Except Refusal String :=
  match given.lookup name with
  | some value => .ok value
  | none => .error .usage

def Given.has (given : Given) (name : String) : Bool := (given.lookup name).isSome

namespace VerdictFormat

def ofName? : String → Option VerdictFormat
  | "text" => some .text
  | "json" => some .json
  | _ => none

end VerdictFormat

namespace ChangeFormat

/-- Any other name asks for text. -/
def ofName : String → ChangeFormat
  | "markdown" => .markdown
  | "md" => .markdown
  | "json" => .json
  | _ => .text

end ChangeFormat

/-- The name of a command with its options, and the command that they make. -/
structure CommandForm where
  name : String
  options : List Known
  command : Given → Except Refusal Command

namespace CommandForm

def validate : CommandForm where
  name := "validate"
  options := [.path "criteria"]
  command given := return .validate (← given.required "criteria")

def evaluate : CommandForm where
  name := "evaluate"
  options := [.path "criteria", .path "results",
    .value "format" fun name => (VerdictFormat.ofName? name).isSome, .flag "fail-on-denied"]
  command given := do
    let format := ((given.lookup "format").bind VerdictFormat.ofName?).getD .text
    return .evaluate (← given.required "criteria") (← given.required "results") format
      (given.has "fail-on-denied")

def batch : CommandForm where
  name := "batch"
  options := [.path "criteria", .path "results", .path "output",
    .value "parallelism" fun count => (Text.count count).isOk,
    .value "format" fun name => (ReportFormat.ofName? name).isSome]
  command given := do
    let workers := (given.lookup "parallelism").bind fun count => (Text.count count).toOption
    let format := (given.lookup "format").bind ReportFormat.ofName?
    return .batch (← given.required "criteria") (← given.required "results") workers
      (given.lookup "output") format

def compare : CommandForm where
  name := "compare"
  options := [.path "baseline", .path "current", .value "format" fun _ => true,
    .flag "fail-on-new-denials"]
  command given := do
    let format := ((given.lookup "format").map ChangeFormat.ofName).getD .text
    return .compare (← given.required "baseline") (← given.required "current") format
      (given.has "fail-on-new-denials")

def init : CommandForm where
  name := "init"
  options := []
  command _ := return .init

def all : List CommandForm := [validate, evaluate, batch, compare, init]

end CommandForm

/-- The invocation that the arguments of a run ask for. A file of settings that is named behind the
    command is preferred to one in front of it. -/
def Invocation.ofArguments (arguments : List String) : Except Refusal Invocation := do
  let (front, rest) ← readOptions [.settings, .version, .help] [] arguments
  match rest with
  | [] => throw .usage
  | name :: rest =>
    match CommandForm.all.find? (·.name == name) with
    | none => throw (if name = "help" ∧ rest.isEmpty then .help else .usage)
    | some form =>
      match ← readOptions (.settings :: .help :: form.options) [] rest with
      | (given, []) =>
        let command ← form.command given
        return ⟨given.lookup "config" <|> front.lookup "config", command⟩
      | _ => throw .usage

end CourseAdmission.CommandLine
