import CourseAdmission.CommandLine.Run
import CourseAdmission.Proofs.Document.Fields

/-!
Where the settings of a run come from.

One file is looked at, or none. For each value the arguments count first, then the environment, then
the key of that file, and then the value by default.
-/

namespace CourseAdmission

open Document

namespace Settings

variable {disk : Disk} {environment : Environment} {asked source source' : Option String}
  {members members' : List (Text × Node)}

/-! The file -/

/-- The one file that settings are taken from, if there is one: the file that is asked for, or else
    the one in the working folder, or else the one in the home folder. -/
inductive Source (disk : Disk) (environment : Environment) :
    Option String → Option String → Prop
  | asked {path : String} (hpath : disk.contains path = true) :
    Source disk environment (some path) (some path)
  | working (hlocal : disk.contains localPath = true) :
    Source disk environment none (some localPath)
  | home {folder : String} (hlocal : disk.contains localPath = false)
      (hfolder : environment.lookup "HOME" = some folder)
      (hpath : disk.contains (homePath folder) = true) :
    Source disk environment none (some (homePath folder))
  | absent (hlocal : disk.contains localPath = false)
      (hhome : ∀ folder, environment.lookup "HOME" = some folder →
        disk.contains (homePath folder) = false) :
    Source disk environment none none

theorem locate_eq_ok_iff : locate disk environment asked = .ok source ↔
    Source disk environment asked source := by
  constructor
  · intro h
    cases asked with
    | some path =>
      rw [locate] at h
      split at h
      case isTrue hpath =>
        cases h
        exact .asked hpath
      case isFalse => cases h
    | none =>
      rw [locate] at h
      split at h
      case isTrue hlocal =>
        cases h
        exact .working hlocal
      case isFalse hlocal =>
        rw [Bool.not_eq_true] at hlocal
        cases h
        cases hhome : environment.lookup "HOME" with
        | none => exact .absent hlocal (by simp [hhome])
        | some folder =>
          rw [Option.map_some]
          cases hpath : disk.contains (homePath folder) with
          | true =>
            rw [Option.filter_some_pos hpath]
            exact .home hlocal hhome hpath
          | false =>
            rw [Option.filter_some_neg (by simp [hpath])]
            exact .absent hlocal (by simp [hhome, hpath])
  · intro h
    cases h with
    | asked hpath => rw [locate, if_pos hpath]
    | working hlocal => rw [locate, if_pos hlocal]
    | home hlocal hfolder hpath =>
      rw [locate, if_neg (by simp [hlocal]), hfolder, Option.map_some, Option.filter_some_pos hpath]
    | absent hlocal hhome =>
      rw [locate, if_neg (by simp [hlocal])]
      cases hfolder : environment.lookup "HOME" with
      | none => rfl
      | some folder =>
        rw [Option.map_some, Option.filter_some_neg (by simp [hhome folder hfolder])]

theorem Source.unique (h : Source disk environment asked source)
    (h' : Source disk environment asked source') : source = source' :=
  Except.ok.inj ((locate_eq_ok_iff.2 h).symm.trans (locate_eq_ok_iff.2 h'))

/-- The members are those of the document in the file; there are none without a file. -/
def Holds (disk : Disk) (members : List (Text × Node)) : Option String → Prop
  | none => members = []
  | some path => ∃ text, disk.read path = .ok text ∧ Toml.read text = some (.object members)

theorem Holds.unique (h : Holds disk members source) (h' : Holds disk members' source) :
    members = members' := by
  cases source with
  | none => exact h.trans h'.symm
  | some path =>
    obtain ⟨text, hread, hmembers⟩ := h
    obtain ⟨text', hread', hmembers'⟩ := h'
    cases hread.symm.trans hread'
    cases hmembers.symm.trans hmembers'
    rfl

/-! The values -/

section

variable {α : Type} {decode : Decoder α} {key : String} {default value value' : α}
  {given override : Option α}

/-- The value of a key: what is written for it, or the value by default without that. -/
inductive KeyValue (decode : Decoder α) (members : List (Text × Node)) (key : String)
    (default : α) : α → Prop
  | written {node : Node} {value : α} (hnode : valuesOf [key] members = [node])
      (hvalue : decode node = .ok value) : KeyValue decode members key default value
  | absent (hnone : valuesOf [key] members = []) : KeyValue decode members key default default

theorem KeyValue.unique (h : KeyValue decode members key default value)
    (h' : KeyValue decode members key default value') : value = value' := by
  cases h with
  | written hnode hvalue =>
    cases h' with
    | written hnode' hvalue' =>
      cases hnode.symm.trans hnode'
      exact Except.ok.inj (hvalue.symm.trans hvalue')
    | absent hnone => cases hnode.symm.trans hnone
  | absent hnone =>
    cases h' with
    | written hnode => cases hnone.symm.trans hnode
    | absent => rfl

theorem keyValue_of_reads (h : (Record.defaulted key [] default decode).Reads .refused
    (members.filter (hasName [key])) value) : KeyValue decode members key default value := by
  rcases Record.reads_field_iff_valuesOf.1 h with ⟨hnone, hvalue⟩ | ⟨node, hnode, hvalue⟩
  · cases hvalue
    exact .absent hnone
  · exact .written hnode hvalue

/-- The value that holds for a run: the one that is given by an argument, or else by a variable of
    the environment, or else the one of the key. -/
inductive Layered (given override : Option α) (decode : Decoder α)
    (members : List (Text × Node)) (key : String) (default : α) : α → Prop
  | given {value : α} (hgiven : given = some value) :
    Layered given override decode members key default value
  | environment {value : α} (hgiven : given = none) (hvariable : override = some value) :
    Layered given override decode members key default value
  | key {value : α} (hgiven : given = none) (hvariable : override = none)
      (hkey : KeyValue decode members key default value) :
    Layered given override decode members key default value

theorem Layered.unique (h : Layered given override decode members key default value)
    (h' : Layered given override decode members key default value') : value = value' := by
  cases h with
  | given hgiven =>
    cases h' with
    | given hgiven' => exact Option.some_inj.1 (hgiven.symm.trans hgiven')
    | environment hnone => cases hgiven.symm.trans hnone
    | key hnone => cases hgiven.symm.trans hnone
  | environment hnone hvariable =>
    cases h' with
    | given hgiven => cases hnone.symm.trans hgiven
    | environment _ hvariable' => exact Option.some_inj.1 (hvariable.symm.trans hvariable')
    | key _ hnone => cases hvariable.symm.trans hnone
  | key hnone hunset hkey =>
    cases h' with
    | given hgiven => cases hnone.symm.trans hgiven
    | environment _ hvariable => cases hunset.symm.trans hvariable
    | key _ _ hkey' => exact hkey.unique hkey'

theorem layered_getD (h : KeyValue decode members key default value) :
    Layered given override decode members key default
      (given.getD (override.getD value)) := by
  cases hgiven : given with
  | some v => exact .given rfl
  | none =>
    cases hvariable : override with
    | some v => exact .environment rfl rfl
    | none => exact .key rfl rfl h

end

/-- The values are those of the keys. -/
structure FromKeys (members : List (Text × Node)) (settings : Settings) : Prop where
  output : KeyValue Decoder.text members "output_dir" default.output settings.output
  workers : KeyValue Decoder.count members "parallelism" default.workers settings.workers
  format : KeyValue ReportFormat.decoder members "default_format" default.format settings.format

theorem fromKeys_of_reads {settings : Settings}
    (h : record.Reads .passedOver members settings) : FromKeys members settings := by
  have hoption {α : Type} (name : String) (default : α) (decode : Decoder α) :
      (Record.defaulted name [] default decode).Named [name] := Record.named_field name [] _ _
  have hfirst := Record.named_map (hoption "output_dir" default.output Decoder.text) Settings.mk
  have hsecond := Record.named_seq hfirst (hoption "parallelism" default.workers Decoder.count)
  have hthird := Record.named_seq hsecond
    (hoption "default_format" default.format ReportFormat.decoder)
  have hall := Record.named_seq hthird (hoption "log_level" default.logLevel Decoder.text)
  obtain ⟨_, level, hreads₃, -, rfl⟩ := (Record.reads_seq hthird (by simp)).1 (h.filter hall)
  obtain ⟨_, format, hreads₂, hformat, rfl⟩ := (Record.reads_seq hsecond (by simp)).1 hreads₃
  obtain ⟨_, workers, hreads₁, hworkers, rfl⟩ := (Record.reads_seq hfirst (by simp)).1 hreads₂
  obtain ⟨output, houtput, rfl⟩ := Record.reads_map.1 hreads₁
  exact ⟨keyValue_of_reads houtput, keyValue_of_reads hworkers, keyValue_of_reads hformat⟩

/-! Loading -/

variable {settings : Settings}

theorem load_eq_ok_iff : load disk environment asked = .ok settings ↔
    ∃ source file, locate disk environment asked = .ok source ∧ ofFile disk source = .ok file ∧
      file.override environment = .ok settings := by
  simp only [load, bind_eq_ok_iff, exists_and_left]

/-- A TOML document is an object. -/
theorem exists_members_of_read {text : String} {root : Node} (h : Toml.read text = some root) :
    ∃ members, root = .object members := by
  obtain ⟨_, -, h⟩ := Option.bind_eq_some_iff.1 h
  obtain ⟨_, -, h⟩ := Option.bind_eq_some_iff.1 h
  obtain ⟨_, -, h⟩ := Option.bind_eq_some_iff.1 h
  cases h
  exact ⟨_, rfl⟩

theorem fromKeys_of_ofFile (h : ofFile disk source = .ok settings) :
    ∃ members, Holds disk members source ∧ FromKeys members settings := by
  cases source with
  | none =>
    cases h
    exact ⟨[], rfl, .absent rfl, .absent rfl, .absent rfl⟩
  | some path =>
    obtain ⟨text, hread, h⟩ := bind_eq_ok_iff.1 h
    rw [mapError_eq_ok_iff] at hread h
    rw [ofToml] at h
    split at h
    case h_1 root hroot =>
      obtain ⟨members, rfl⟩ := exists_members_of_read hroot
      exact ⟨members, ⟨text, hread, hroot⟩, fromKeys_of_reads (Record.decode_object_eq_ok_iff.1 h)⟩
    case h_2 => cases h

/-- The number of workers that the environment asks for. -/
def workersIn (environment : Environment) : Option Nat :=
  (environment.lookup "ADMISSION_PARALLELISM").bind fun value =>
    (Text.count (Text.trim value)).toOption

theorem override_eq_ok {file : Settings} (h : file.override environment = .ok settings) :
    settings = { file with
      output := (environment.lookup "ADMISSION_OUTPUT_DIR").getD file.output
      workers := (workersIn environment).getD file.workers } := by
  unfold override at h
  unfold workersIn
  dsimp only at h
  split at h
  case h_1 hvariable =>
    cases h
    rw [hvariable]
    rfl
  case h_2 value hvariable =>
    obtain ⟨workers, hworkers, h⟩ := bind_eq_ok_iff.1 h
    cases h
    rw [mapError_eq_ok_iff] at hworkers
    rw [hvariable, Option.bind_some, hworkers]
    rfl

/-- What makes the settings bad: the file that is asked for is not there, the file cannot be read or
    is no document of settings, or the environment asks for no number of workers. -/
inductive Bad (disk : Disk) (environment : Environment) (asked : Option String) : Prop
  | notFound {path : String} (hasked : asked = some path) (hpath : disk.contains path = false)
  | unreadable {path : String} {cause : StorageError}
      (hsource : Source disk environment asked (some path)) (hread : disk.read path = .error cause)
  | malformed {path text : String} {cause : DecodeError}
      (hsource : Source disk environment asked (some path)) (hread : disk.read path = .ok text)
      (htext : ofToml text = .error cause)
  | badWorkers {value : String} {cause : Text.CountError}
      (hvariable : environment.lookup "ADMISSION_PARALLELISM" = some value)
      (hcount : Text.count (Text.trim value) = .error cause)

theorem Bad.load_ne_ok (h : Bad disk environment asked) :
    load disk environment asked ≠ .ok settings := by
  intro hload
  obtain ⟨source, file, hlocate, hfile, hoverride⟩ := load_eq_ok_iff.1 hload
  rw [locate_eq_ok_iff] at hlocate
  cases h with
  | notFound hasked hpath =>
    subst hasked
    cases hlocate with
    | asked hthere => cases hpath.symm.trans hthere
  | unreadable hsource hread =>
    obtain rfl := hlocate.unique hsource
    obtain ⟨text, htext, -⟩ := bind_eq_ok_iff.1 hfile
    rw [mapError_eq_ok_iff, hread] at htext
    cases htext
  | malformed hsource hread htext =>
    obtain rfl := hlocate.unique hsource
    obtain ⟨text, hsame, hread'⟩ := bind_eq_ok_iff.1 hfile
    rw [mapError_eq_ok_iff] at hsame hread'
    cases hread.symm.trans hsame
    cases htext.symm.trans hread'
  | badWorkers hvariable hcount =>
    unfold override at hoverride
    dsimp only at hoverride
    rw [hvariable] at hoverride
    obtain ⟨workers, hworkers, -⟩ := bind_eq_ok_iff.1 hoverride
    rw [mapError_eq_ok_iff, hcount] at hworkers
    cases hworkers

theorem bad_of_locate {cause : SettingsError}
    (h : locate disk environment asked = .error cause) : Bad disk environment asked := by
  cases asked with
  | none =>
    rw [locate] at h
    split at h <;> cases h
  | some path =>
    rw [locate] at h
    split at h
    case isTrue => cases h
    case isFalse hpath => exact .notFound rfl (by simpa using hpath)

theorem bad_of_ofFile {cause : SettingsError} (hsource : Source disk environment asked source)
    (h : ofFile disk source = .error cause) : Bad disk environment asked := by
  cases source with
  | none => cases h
  | some path =>
    rcases bind_eq_error_iff.1 h with hread | ⟨text, hread, htext⟩
    · obtain ⟨cause, hread, -⟩ := mapError_eq_error_iff.1 hread
      exact .unreadable hsource hread
    · obtain ⟨cause, htext, -⟩ := mapError_eq_error_iff.1 htext
      exact .malformed hsource (mapError_eq_ok_iff.1 hread) htext

theorem bad_of_override {cause : SettingsError} (h : settings.override environment = .error cause) :
    Bad disk environment asked := by
  unfold override at h
  dsimp only at h
  split at h
  case h_1 => cases h
  case h_2 value hvariable =>
    rcases bind_eq_error_iff.1 h with hcount | ⟨workers, -, h⟩
    · obtain ⟨cause, hcount, -⟩ := mapError_eq_error_iff.1 hcount
      exact .badWorkers hvariable hcount
    · cases h

theorem bad_of_load {cause : SettingsError} (h : load disk environment asked = .error cause) :
    Bad disk environment asked := by
  rcases bind_eq_error_iff.1 h with hlocate | ⟨source, hlocate, h⟩
  · exact bad_of_locate hlocate
  · rcases bind_eq_error_iff.1 h with hfile | ⟨file, -, hoverride⟩
    · exact bad_of_ofFile (locate_eq_ok_iff.1 hlocate) hfile
    · exact bad_of_override hoverride

end Settings

end CourseAdmission
