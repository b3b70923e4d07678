import EchoAlign.Endpoint.Dumps
import EchoAlign.Session.Build

/-!
# `EchoAlign.Session.Setup`: setting a session up where it is to run

`Session.build` says which session settings lead to. Setting it up also
does something to the world around, its `Site`: the timer for drift
checks is started, the dump files are created, and endpoints that were
handed over for nothing are released.

A `Setup` is a part of this. What it has done to the site is not undone
when a later part fails, so the order of the parts matters. Starting a
timer never fails here.
-/

set_option autoImplicit false

namespace EchoAlign

/-- What is around a session that is set up, and what has become of it: files,
timers and endpoints. -/
structure Site where
  files : FileTree
  /-- The seconds between the ticks of each drift timer that runs. -/
  timers : List Nat
  /-- Whether the endpoints that were handed over have been let go. -/
  released : Bool

namespace Site

/-- A site with files, before anything is set up there. -/
def around (files : FileTree) : Site := ⟨files, [], false⟩

/-- Lets the endpoints go. -/
def release (site : Site) : Site := { site with released := true }

end Site

/-- A part of setting a session up. It may fail, and what it has done to the
`Site` until then stays done. -/
abbrev Setup (α : Type) := ExceptT SessionError (StateM Site) α

namespace Setup

/-- A setup that owns the endpoints: if it fails, they are let go
(`Site.release`) and the error is passed on. -/
def owning {α : Type} (setup : Setup α) : Setup α :=
  tryCatch setup fun e => do
    modify Site.release
    throw e

/-- Starts the timer that checks for drift, if there are to be checks. -/
def startTimer (settings : Settings) : Setup Unit :=
  match settings.checkInterval? with
  | some seconds => modify fun site => { site with timers := site.timers ++ [seconds] }
  | none => pure ()

/-- Creates the dump files, if they are asked for. -/
def openDumps (settings : Settings) : Setup (Option Dumps) :=
  if settings.saveDumps then do
    let (dumps, files) := Dumps.create (← get).files settings.dumpDir
    modify fun site => { site with files }
    return some dumps
  else return none

end Setup

namespace Session

variable {κ υ : Type} [Canceller κ]

/-- Puts a session together around a canceller, with its timer and its dumps. A
canceller without frames in its blocks is refused before anything is created. -/
def install (settings : Settings) (spec : StreamSpec) (canceller : κ) (producer : υ)
    (link : Link) : Setup (Session κ υ) := do
  if Canceller.blockFrames canceller = 0 then throw .emptyBlock
  Setup.startTimer settings
  let dumps? ← Setup.openDumps settings
  return create spec settings.messageCapacity canceller producer link dumps?

/-- Sets a session up with the canceller that the settings name
(`StreamPair.settle`). The settings are checked first. -/
def setUp (settings : Settings) (producer : υ) (link : Link) :
    Setup (Session ConfiguredCanceller υ) :=
  Setup.owning do
    settings.validate.mapError SessionError.settings
    let (result, streams) :=
      (StreamPair.settle settings.method settings.tuning).run.run ⟨settings.spec, settings.spec⟩
    let canceller ← result.mapError SessionError.canceller
    install settings streams.source canceller producer link

/-- Sets a session up with a given canceller, for the stream of the settings
with 16-bit samples. -/
def setUpWith (settings : Settings) (canceller : κ) (producer : υ) (link : Link) :
    Setup (Session κ υ) :=
  Setup.owning do
    settings.validate.mapError SessionError.settings
    install settings settings.spec.asS16 canceller producer link

end Session

end EchoAlign
