import EchoAlign.Audio.Block
import EchoAlign.Align.Timing

/-!
# `EchoAlign.Align.Message`: what the contexts tell each other

The playback side sends what it renders to the capture side, and the
control side tells both what their devices do. Requests for timing
carry the ticket their answer is to name.
-/

set_option autoImplicit false

namespace EchoAlign

/-- What a device is doing, as the control side passes it on to the side that
the device drives. -/
inductive DeviceState where
  | running
  | suspended
  deriving DecidableEq, Repr

/-- A message to the capture side. The playback side sends `rendered`, `rewound`
and `playbackTiming`, the control side all others. -/
inductive CaptureMessage where
  /-- A block that was just rendered. -/
  | rendered (block : Block)
  /-- Playback went back by this many bytes. -/
  | rewound (bytes : Nat)
  /-- A question for the present timing. -/
  | timingRequest (ticket : Nat)
  /-- An offset to make up for, in microseconds. -/
  | correct (usec : Int)
  /-- Playback timing taken for a resync request. -/
  | playbackTiming (epoch : Nat) (timing : PlaybackTiming)
  /-- The capture device changed its state. -/
  | device (state : DeviceState)
  deriving DecidableEq

/-- A message to the playback side, from the control side. Questions carry the
ticket that their `Reply` is to name. -/
inductive PlaybackMessage where
  /-- A question for the present timing. -/
  | timingRequest (ticket : Nat)
  /-- The playback device changed its state. -/
  | device (state : DeviceState)
  deriving DecidableEq

end EchoAlign
