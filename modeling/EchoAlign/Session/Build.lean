import EchoAlign.Canceller.Setup
import EchoAlign.Settings.Basic
import EchoAlign.Session.Basic

/-!
# `EchoAlign.Session.Build`: setting a session up

A session is set up from settings in one step: either all of it is
there afterwards or none. The settings are validated first, then the
canceller is made, and a canceller without a block is refused last.
-/

set_option autoImplicit false

namespace EchoAlign

/-- Why a session cannot be set up, by the part that refuses it. -/
inductive SessionError where
  | settings (error : SettingsError)
  | canceller (error : CancellerError)
  /-- The canceller has blocks of no frames. -/
  | emptyBlock
  deriving DecidableEq, Repr

namespace SessionError

/-- The wording of the error. -/
def message : SessionError → String
  | settings error => s!"Invalid configuration: {error.message}"
  | canceller error => s!"Canceller setup failed: {error.message}"
  | emptyBlock => "Canceller block size must be at least one frame"

end SessionError

namespace Session

variable {κ υ : Type} [Canceller κ] [Producer υ]

/-- Puts a session together around a `canceller`, unless its blocks have no
frames. The dumps are kept only if the settings ask for them (`saveDumps`). -/
def assemble (settings : Settings) (spec : StreamSpec) (canceller : κ) (producer : υ)
    (link : Link) (dumps : Dumps) : Except SessionError (Session κ υ) :=
  if Canceller.blockFrames canceller = 0 then .error .emptyBlock
  else
    let dumps? := if settings.saveDumps then some dumps else none
    .ok (create spec settings.messageCapacity canceller producer link dumps?)

/-- Sets a session up with the canceller that the settings name
(`CancellerSetup.init`). The settings are checked first. -/
def build (settings : Settings) (producer : υ) (link : Link) (dumps : Dumps) :
    Except SessionError (Session ConfiguredCanceller υ) := do
  settings.validate.mapError .settings
  let setup ← (CancellerSetup.init settings.method settings.spec settings.tuning).mapError .canceller
  assemble settings setup.source setup.canceller producer link dumps

/-- Sets a session up with a given canceller, for the stream of the settings
with 16-bit samples. -/
def buildWith (settings : Settings) (canceller : κ) (producer : υ) (link : Link) (dumps : Dumps) :
    Except SessionError (Session κ υ) := do
  settings.validate.mapError .settings
  assemble settings settings.spec.asS16 canceller producer link dumps

end Session

end EchoAlign
