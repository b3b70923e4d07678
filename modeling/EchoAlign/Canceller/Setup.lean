import EchoAlign.Audio.Spec
import EchoAlign.Canceller.Nlms
import EchoAlign.Canceller.Tuning

/-!
# `EchoAlign.Canceller.Setup`: choosing a canceller

`CancellerSetup.init` makes the canceller a configuration names, and
settles on what it processes: 16-bit samples, with playback in the same
format as capture. It refuses streams and sizes that no canceller can
run on, and then nothing is settled.

`StreamPair.settle` does the same to two streams at hand, in place.
-/

set_option autoImplicit false

namespace EchoAlign

/-- A canceller that can be configured: one constructor for each
`CancellerMethod`. -/
inductive ConfiguredCanceller where
  | nlms (state : Nlms Float32)
  | null (state : NullCanceller)

namespace ConfiguredCanceller

/-- Runs the canceller on a pair of byte strings, whichever it is. -/
def run : ConfiguredCanceller → ByteArray → ByteArray → ByteArray × ConfiguredCanceller
  | .nlms s, captured, played =>
      let (out, s) := s.run captured played
      (out, .nlms s)
  | .null s, captured, played =>
      let (out, s) := Canceller.run s captured played
      (out, .null s)

/-- Each constructor does what its own canceller does. -/
instance : Canceller ConfiguredCanceller where
  label
    | .nlms s => Canceller.label s
    | .null s => Canceller.label s
  blockFrames
    | .nlms s => Canceller.blockFrames s
    | .null s => Canceller.blockFrames s
  run := run
  finish
    | .nlms s => .nlms (Canceller.finish s)
    | .null s => .null (Canceller.finish s)
  size_run
    | .nlms s, captured, played, h => s.size_run captured played h
    | .null s, captured, played, h => Canceller.size_run s captured played h

end ConfiguredCanceller

/-- A canceller together with the streams it runs on, which may differ from
those it was asked for. -/
structure CancellerSetup where
  canceller : ConfiguredCanceller
  source : StreamSpec
  sink : StreamSpec

/-- A canceller of a `method`, for blocks of `frames` frames. Its taps are those
of `CancellerTuning.filterMs`. -/
def ConfiguredCanceller.create (method : CancellerMethod) (source : StreamSpec) (frames : Nat)
    (tuning : CancellerTuning) : ConfiguredCanceller :=
  match method with
  | .nlms => .nlms (Nlms.create source.channels frames (source.rate * tuning.filterMs / 1000))
  | .null => .null ⟨frames⟩

namespace CancellerSetup

/-- Makes a canceller for a capture stream, and settles both streams: 16-bit
samples, and playback like capture. The channel count is checked first, then the
`tuning`, then the size of a block. -/
def init (method : CancellerMethod) (source : StreamSpec) (tuning : CancellerTuning) :
    Except CancellerError CancellerSetup :=
  if source.channels = 0 ∨ maxChannels < source.channels then
    .error (.unsupportedChannels source.channels)
  else do
    tuning.validate
    let frames ← blockFrames source.rate tuning.frameMs
    return ⟨.create method source frames tuning, source.asS16, source.asS16⟩

end CancellerSetup

/-- The two streams of a session, as they are before or after
`StreamPair.settle`. -/
structure StreamPair where
  source : StreamSpec
  sink : StreamSpec
  deriving DecidableEq, Repr

namespace StreamPair

/-- Makes a canceller for the streams at hand, and settles both of them.
A stream changes as soon as it is assigned to, and stays changed in
whatever comes after. -/
def settle (method : CancellerMethod) (tuning : CancellerTuning) :
    ExceptT CancellerError (StateM StreamPair) ConfiguredCanceller := do
  let source := (← get).source
  if source.channels = 0 ∨ maxChannels < source.channels then
    throw (.unsupportedChannels source.channels)
  tuning.validate
  let frames ← blockFrames source.rate tuning.frameMs
  modify fun streams => { streams with source := streams.source.asS16 }
  modify fun streams => { streams with sink := streams.source }
  return .create method (← get).source frames tuning

end StreamPair

end EchoAlign
