import EchoAlign.Audio.Spec
import EchoAlign.Canceller.Tuning
import EchoAlign.Settings.FlatArgs

/-!
# `EchoAlign.Settings.Basic`: the settings of a session

`Settings` holds everything a session can be told. Settings come from a
flat argument list (`Settings.ofFlatText`) or from a document, and
either way nothing is used before `validate` has accepted it.

`validate` checks in a fixed order, so that settings with several faults
always give the same error: the stream first, then the sizes of the
canceller, then the mailboxes and the time-out.
-/

set_option autoImplicit false

namespace EchoAlign

/-- What is wrong with settings. -/
inductive SettingsError where
  /-- The argument list, or a value in it, makes no sense. -/
  | argument (error : ArgumentError)
  /-- The file could not be read. -/
  | unreadable (path : String) (reason : FileError)
  /-- The file is not a settings document. -/
  | notDocument
  /-- The stream cannot be processed. -/
  | audio (error : AudioError)
  /-- The canceller cannot be set up this way. -/
  | canceller (error : CancellerError)
  deriving DecidableEq, Repr

namespace SettingsError

/-- The wording of the error. -/
def message : SettingsError → String
  | argument error => error.message
  | unreadable path reason => s!"Failed to read config file {path}: {reason.message}"
  | notDocument => "Failed to parse config file"
  | audio error => error.message
  | canceller error => error.message

end SettingsError

/-- The settings of a session, whichever way they were given: as a flat list
(`ofFlatText`), as a document, or not at all (`standard`). -/
structure Settings where
  /-- Frames per second. -/
  rate : Nat
  channels : Nat
  /-- The requested sample format; a session runs on 16-bit samples. -/
  format : SampleFormat
  method : CancellerMethod
  tuning : CancellerTuning
  /-- Seconds between drift checks. Zero means no checks. -/
  adjustTime : Nat
  /-- Whether the canceller's streams are recorded. -/
  saveDumps : Bool
  /-- Where they are recorded. -/
  dumpDir : String
  /-- How many messages a mailbox holds. -/
  messageCapacity : Nat
  /-- How long a drift check waits for one answer, in milliseconds. -/
  timingTimeoutMs : Nat
  deriving DecidableEq, Repr

namespace Settings

/-- The settings nobody asked to change. -/
def standard : Settings :=
  { rate := 16000
    channels := 1
    format := .s16le
    method := .nlms
    tuning := .standard
    adjustTime := 1
    saveDumps := false
    dumpDir := "/tmp"
    messageCapacity := 256
    timingTimeoutMs := 500 }

/-- The requested stream. A session runs on it with 16-bit samples
(`StreamSpec.asS16`). -/
def spec (s : Settings) : StreamSpec := ⟨s.format, s.rate, s.channels⟩

/-- The seconds between drift checks, if there are to be any: an `adjustTime` of
zero means that there are not. -/
def checkInterval? (s : Settings) : Option Nat :=
  if s.adjustTime = 0 then none else some s.adjustTime

/-- The time-out of a question, in seconds and milliseconds. -/
def timingTimeout (s : Settings) : Nat × Nat :=
  (s.timingTimeoutMs / 1000, s.timingTimeoutMs % 1000)

/-! ### The names of the settings -/

/-- The name of `Settings.rate`. -/
def rateKey : String := "rate"

/-- The name of `Settings.channels`. -/
def channelsKey : String := "channels"

/-- The name of `Settings.format`. -/
def formatKey : String := "format"

/-- The name of `Settings.method`. -/
def methodKey : String := "aec_method"

/-- The name of `Settings.tuning`. -/
def tuningKey : String := "aec_args"

/-- The name of `Settings.adjustTime`. -/
def adjustTimeKey : String := "adjust_time"

/-- The name of `Settings.saveDumps`. -/
def saveDumpsKey : String := "save_aec"

/-- The name of `Settings.dumpDir`. -/
def dumpDirKey : String := "dump_dir"

/-- The name of `Settings.messageCapacity`. -/
def messageCapacityKey : String := "message_capacity"

/-- The name of `Settings.timingTimeoutMs`. -/
def timingTimeoutKey : String := "snapshot_timeout_ms"

/-- All names of settings, as they stand in a flat list and in a document. -/
def keys : List String :=
  [rateKey, channelsKey, formatKey, methodKey, tuningKey, adjustTimeKey, saveDumpsKey,
    dumpDirKey, messageCapacityKey, timingTimeoutKey]

/-! ### Ranges -/

/-- The largest rate that can be given. -/
def maxRate : Nat := Word.max32

/-- The largest channel count that can be given. -/
def maxGivenChannels : Nat := Word.max16

/-- Refuses a setting of zero. The error names the `key` and the value. -/
def checkNonzero (key : String) (n : Nat) : Except SettingsError Unit :=
  if n = 0 then .error (.argument (.invalidValue key "0")) else .ok ()

/-- Refuses settings no session can run on: the stream is checked first
(`StreamSpec.validate`), then the canceller, then the two counts that must not
be zero. -/
def validate (s : Settings) : Except SettingsError Unit := do
  s.spec.validate.mapError .audio
  s.tuning.validate.mapError .canceller
  checkNonzero messageCapacityKey s.messageCapacity
  checkNonzero timingTimeoutKey s.timingTimeoutMs

/-! ### Settings from a flat argument list -/

/-- Refuses the first key, in key order, that names no setting (`keys`). -/
def checkKeys (args : FlatArgs) : Except SettingsError Unit :=
  match args.pairs.find? fun pair => !keys.contains pair.1 with
  | some pair => .error (.argument (.unknownKey pair.1))
  | none => .ok ()

/-- The value of a key, read by `read?`, or else `standing`. -/
def readOr {α : Type} (args : FlatArgs) (key : String) (read? : String → Option α)
    (standing : α) : Except SettingsError α :=
  match args.read key read? with
  | .error e => .error (.argument e)
  | .ok none => .ok standing
  | .ok (some a) => .ok a

/-- The value of a key, read by a reader `parse` with errors of its own, or else
`standing`. -/
def parseOr {α ε : Type} (args : FlatArgs) (key : String) (parse : String → Except ε α)
    (cause : ε → SettingsError) (standing : α) : Except SettingsError α :=
  match args.get? key with
  | none => .ok standing
  | some value => (parse value).mapError cause

/-- Reads settings from an argument list; what is not given stays at its
`standard`. The settings that come of it are validated. -/
def ofFlatArgs (args : FlatArgs) : Except SettingsError Settings := do
  checkKeys args
  let rate ← readOr args rateKey (Text.readNat? maxRate) standard.rate
  let channels ← readOr args channelsKey (Text.readNat? maxGivenChannels) standard.channels
  let format ← parseOr args formatKey SampleFormat.parse .audio standard.format
  let method ← parseOr args methodKey CancellerMethod.parse .canceller standard.method
  let tuning ← parseOr args tuningKey CancellerTuning.parse .canceller standard.tuning
  let adjustTime ← readOr args adjustTimeKey (Text.readNat? Word.maxUnsigned) standard.adjustTime
  let saveDumps ← readOr args saveDumpsKey Text.readSwitch? standard.saveDumps
  let dumpDir := (args.get? dumpDirKey).getD standard.dumpDir
  let messageCapacity ←
    readOr args messageCapacityKey (Text.readNat? Word.maxUnsigned) standard.messageCapacity
  let timingTimeoutMs ←
    readOr args timingTimeoutKey (Text.readNat? Word.maxUnsigned) standard.timingTimeoutMs
  let settings : Settings :=
    { rate, channels, format, method, tuning, adjustTime, saveDumps, dumpDir, messageCapacity,
      timingTimeoutMs }
  settings.validate
  return settings

/-- Reads settings from the text of an argument list. -/
def ofFlatText (text : String) : Except SettingsError Settings :=
  match FlatArgs.parse text with
  | .error e => .error (.argument e)
  | .ok args => ofFlatArgs args

end Settings

end EchoAlign
