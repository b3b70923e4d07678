import EchoAlign.CommandLine.Arguments
import EchoAlign.Device.Host
import EchoAlign.Endpoint.Playable
import EchoAlign.Endpoint.RawSink
import EchoAlign.Session.Setup
import EchoAlign.Settings.Document

/-!
# `EchoAlign.CommandLine.Program`: the program as a function

`Program.run` maps what the program finds around it, its arguments, its
environment, the files and the devices, to what it leaves behind: an
exit code, lines of output, at most one error, and the files.

A session that is run here ends when its time is up. No audio flows in
the meantime, because the devices of a `World` never call.
-/

set_option autoImplicit false

namespace EchoAlign

/-- What the program finds: its command line, one variable of the environment,
the files and the devices. -/
structure World where
  arguments : List String
  /-- The settings file that the environment names. -/
  settingsFile? : Option String
  files : FileTree
  devices : DeviceCatalog

/-- What the program leaves behind: its exit `code`, what it printed, and the
files. -/
structure Outcome where
  code : Nat
  output : List String
  error? : Option String
  files : FileTree

/-- Why a command fails. -/
inductive CommandError where
  /-- Settings were given in two ways. -/
  | twoSources
  /-- The settings file is of no use. -/
  | file (path : String) (error : SettingsError)
  | settings (error : SettingsError)
  /-- A number is too large for a settings document. -/
  | unwritable
  | audio (error : AudioError)
  | session (error : SessionError)
  deriving DecidableEq, Repr

namespace CommandError

/-- The wording of the error. What is wrong with a file is a matter for
its own report. -/
def message : CommandError → String
  | twoSources => "use either --config or --args, not both"
  | file path _ => s!"loading {path}"
  | settings error => error.message
  | unwritable => "out-of-range value for u64 type"
  | audio error => error.message
  | session error => error.message

/-- The first line of the wording. -/
def headline (e : CommandError) : String := String.ofList (e.message.toList.takeWhile (· != '\n'))

end CommandError

namespace Program

/-- The name and version of the program. -/
def versionLine : String := "aec-sync 0.1.0"

/-- A short reminder of the commands. -/
def helpLines : List String :=
  ["Real-time echo cancellation between independently clocked audio devices",
   "",
   "Usage: aec-sync [OPTIONS] <COMMAND>",
   "",
   "Commands:",
   "  devices  List available audio devices",
   "  run      Run echo cancellation between a microphone and a speaker",
   "  config   Validate a configuration and print it as TOML"]

/-- The lines of a text, of which the last one ends too. -/
def linesOf (text : List Char) : List String :=
  (text.splitOn '\n').dropLast.map String.ofList

/-! ### Settings -/

/-- Reads the settings from where they are said to be: a file (`Settings.load`),
a flat list, or neither. Both at once are refused. -/
def settingsFrom (files : FileTree) (source : SettingsSource) : Except CommandError Settings :=
  match source.file?, source.flat? with
  | some _, some _ => .error .twoSources
  | some path, none => (Settings.load files path).mapError (.file path)
  | none, some text => (Settings.ofFlatText text).mapError .settings
  | none, none => .ok .standard

/-- The lines of the settings as a document, which is what the program prints of
them. Numbers that no document can hold (`fitsDocument`) are refused. -/
def showSettings (settings : Settings) : Except CommandError (List String) :=
  if settings.fitsDocument then .ok (linesOf settings.renderChars) else .error .unwritable

/-! ### Devices -/

/-- One line about a device. -/
def deviceLine (d : DeviceInfo) : String :=
  let marker := if d.isDefault then " (default)" else ""
  let rates := "/".intercalate (d.rates.map toString)
  s!"  - {d.name}{marker}  [{rates} Hz, up to {d.maxChannels} ch]"

/-- The lines about the devices of a direction. -/
def deviceLines (title : String) (devices : List DeviceInfo) : List String :=
  (title ++ ":") :: if devices.isEmpty then ["  (none)"] else devices.map deviceLine

/-- The lines about all devices. -/
def listDevices (catalog : DeviceCatalog) : List String :=
  deviceLines "Input devices" (catalog.infos .input) ++ [""]
    ++ deviceLines "Output devices" (catalog.infos .output)

/-! ### Runs -/

/-- A text moved to the right of nine columns. -/
def column (text : String) : String :=
  String.ofList (List.replicate (9 - text.length) ' ') ++ text

/-- The rule above, below and inside the statistics. -/
def ruler : String := String.ofList (List.replicate 63 '═')

/-- One line of the statistics: a label on the left, a value in its
column, and a unit. -/
def statistic (label value unit : String) : String :=
  let gap := String.ofList (List.replicate (19 - label.length) ' ')
  "   " ++ label ++ gap ++ column value ++ unit

/-- The statistics of a session that lasted for some seconds. -/
def statisticsLines (c : Counters) (seconds : Nat) : List String :=
  ["", ruler, " Session Statistics", ruler,
   statistic "Duration:" (toString seconds ++ ".0") " s",
   statistic "Cancelled blocks:" (toString c.cancelled) "",
   statistic "Passthrough:" (toString c.passed) "",
   statistic "Capture skipped:" (toString c.sourceSkipped) " B",
   statistic "Playback skipped:" (toString c.sinkSkipped) " B",
   statistic "Resyncs:" (toString c.resyncs) "",
   statistic "Corrections:" (toString c.corrections) "",
   statistic "Underruns:" (toString c.underruns) "",
   statistic "Dropped messages:" (toString c.postsDropped) "",
   ruler, ""]

/-- What is said when a session has started. -/
def greetingLines (spec : StreamSpec) (method : CancellerMethod) : List String :=
  ["", s!"Echo cancellation running ({spec.label}, {method.label} method).",
   "Press Ctrl+C to stop.", ""]

/-- The audio a run plays: a tone, or the whole frames of a file
(`RawSource.ofFile`). -/
def playableOf (files : FileTree) (spec : StreamSpec) (options : RunOptions) :
    Except CommandError Playable :=
  match options.play? with
  | none => .ok (.tone (Tone.create spec options.tone Playable.toneAmplitude))
  | some path =>
      ((RawSource.read files path).mapError .audio).map fun bytes =>
        .recording (RawSource.ofFile bytes spec options.looping)

/-- Creates the output file of a run, if there is to be one. -/
def createOutput (files : FileTree) (options : RunOptions) : Except CommandError FileTree :=
  match options.output? with
  | none => .ok files
  | some path => ((RawSink.create files path).mapError .audio).map (·.2)

/-- Reports a device to a hosted session. -/
def report {κ υ : Type} [Canceller κ] [Producer υ] (h : HostedSession κ υ) (direction : Direction)
    (running : Bool) : HostedSession κ υ :=
  { h with session := h.session.reportDevice direction running }

/-- Hands a session to its devices, playback first, and takes it back when its
time is up. Answers with what it has counted (`Counters`). -/
def drive {κ υ : Type} [Canceller κ] [Producer υ] (session : Session κ υ) (catalog : DeviceCatalog)
    (options : RunOptions) : Except CommandError Counters := do
  let host ← (HostedSession.create session session.spec catalog).mapError .audio
  let (result, host) := host.startPlayback options.outputDevice?
  result.mapError .audio
  let host := report host .output true
  let (result, _, host) := host.startCapture options.inputDevice?
  result.mapError .audio
  let host := report host .input true
  let host := report (report host .input false) .output false
  let (_, host) := { host with session := host.session.shutdown }.stop
  return host.session.link.counters

/-- Runs a session. Files that were created stay when it fails later, so the
`FileTree` comes back in either case. -/
def runSession (world : World) (settings : Settings) (options : RunOptions) :
    Except CommandError (List String) × FileTree :=
  let spec := settings.spec.asS16
  match playableOf world.files spec options with
  | .error e => (.error e, world.files)
  | .ok playable =>
      match createOutput world.files options with
      | .error e => (.error e, world.files)
      | .ok files =>
          let link := Link.create (Clock.showing 0) ⟨0, 0⟩ ⟨0, 0⟩
          let (result, site) := (Session.setUp settings playable link).run.run (.around files)
          match result with
          | .error e => (.error (.session e), site.files)
          | .ok session =>
              (do
                let counters ← drive session world.devices options
                return greetingLines session.spec settings.method
                  ++ statisticsLines counters (options.duration?.getD 0), site.files)

/-! ### Commands -/

/-- What a command leaves behind. A failure has exit code 1, and only its
`headline` is printed. -/
def outcomeOf (result : Except CommandError (List String)) (files : FileTree) : Outcome :=
  match result with
  | .ok output => ⟨0, output, none, files⟩
  | .error e => ⟨1, [], some e.headline, files⟩

/-- Carries out what the command line asks for. -/
def perform (world : World) : Request → Outcome
  | .listDevices => outcomeOf (.ok (listDevices world.devices)) world.files
  | .showSettings source =>
      outcomeOf ((settingsFrom world.files source).bind showSettings) world.files
  | .run source options =>
      match settingsFrom world.files source with
      | .error e => outcomeOf (.error e) world.files
      | .ok settings =>
          let (result, files) := runSession world settings options
          outcomeOf result files

/-- Runs the program: reads the command line (`Request.parse`), and carries it
out (`perform`) unless it asks for help, for the version, or makes no sense. -/
def run (world : World) : Outcome :=
  match Request.parse world.arguments world.settingsFile? with
  | .error .help => ⟨0, helpLines, none, world.files⟩
  | .error .version => ⟨0, [versionLine], none, world.files⟩
  | .error .misuse => ⟨2, [], none, world.files⟩
  | .ok request => perform world request

end Program

end EchoAlign
