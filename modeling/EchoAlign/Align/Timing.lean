import EchoAlign.Audio.Spec

/-!
# `EchoAlign.Align.Timing`: measuring how far the streams are apart

Each side can say where it stands: `PlaybackTiming` and `CaptureTiming`.
From one of each, `offset` computes by how many microseconds the
captured audio is out of step with the playback audio it is going to be
paired with, and `Correction.ofOffset` decides what to do about it.

Readings are 64-bit words. Where a word is used as a signed number it
is read in two's complement.
-/

set_option autoImplicit false

namespace EchoAlign

/-- Where the playback side stands: a clock reading, its latency and delay, and
the counter of what it `sent` to the capture side. -/
structure PlaybackTiming where
  /-- Clock reading, in microseconds. -/
  now : Nat
  /-- Time until everything handed to the device has been played. -/
  latency : Nat
  /-- Bytes rendered but not yet handed to the device. -/
  delay : Nat
  /-- Bytes sent to the capture side, less those rewound. -/
  sent : Int
  deriving DecidableEq, Repr

/-- Where the capture side stands: a clock reading, its latency and delay, the
counter of what it `received` from the playback side, and what waits in its two
queues. -/
structure CaptureTiming where
  /-- Clock reading, in microseconds. -/
  now : Nat
  /-- Time since the last delivered byte was captured. -/
  latency : Nat
  /-- Bytes captured but not yet delivered. -/
  delay : Nat
  /-- Playback bytes received, less those rewound. -/
  received : Int
  /-- Captured bytes waiting, with the playback bytes still to be
  dropped. -/
  captureLength : Nat
  /-- Playback bytes waiting, with the captured bytes still to be
  dropped. -/
  playbackLength : Nat
  deriving DecidableEq, Repr

/-- The duration of a byte count that may be below zero, and then counts as
nothing. The duration itself is a signed word (`Word.signed`). -/
def StreamSpec.usecOfBalance (spec : StreamSpec) (bytes : Int) : Int :=
  Word.signed (spec.usecOfBytes bytes.toNat)

/-- The time in the playback audio between the device and the pairing: what
`CaptureTiming.playbackLength` is ahead of `CaptureTiming.captureLength`, what
either device holds, and what is on its way between the two sides. The byte
counts are read as signed words, and so is the difference of the counters
`PlaybackTiming.sent` and `CaptureTiming.received`: one that leaves the word
comes out on its other end. -/
def bufferedUsec (spec : StreamSpec) (playback : PlaybackTiming) (capture : CaptureTiming) : Int :=
  max (spec.usecOfBalance (Word.signed capture.playbackLength)
      - spec.usecOfBalance (Word.signed capture.captureLength)) 0
    + spec.usecOfBalance (Word.signed capture.delay)
    + spec.usecOfBalance (Word.signed playback.delay)
    + spec.usecOfBalance (Word.signed (playback.sent - capture.received))

/-- How far playback is ahead of capture, in microseconds. Zero means
that the captured audio lines up with the playback audio it will be
paired with. -/
def offset (spec : StreamSpec) (playback : PlaybackTiming) (capture : CaptureTiming) : Int :=
  (Word.signed playback.now + Word.signed playback.latency - bufferedUsec spec playback capture)
    - (Word.signed capture.now - Word.signed capture.latency)

/-- The `offset`, for specs that were not validated: without a rate or without
channels there is nothing to divide by. -/
def offset? (spec : StreamSpec) (playback : PlaybackTiming) (capture : CaptureTiming) :
    Except ArithmeticFault Int :=
  match spec.fault? with
  | some fault => .error fault
  | none => .ok (offset spec playback capture)

/-- Under a validated spec (`StreamSpec.validate`), any two timings have an
offset, and `offset?` never meets a division by zero. -/
theorem offset?_of_validate {spec : StreamSpec} (h : spec.validate = .ok ())
    (playback : PlaybackTiming) (capture : CaptureTiming) :
    offset? spec playback capture = .ok (offset spec playback capture) := by
  rw [offset?, StreamSpec.fault?_of_validate h]

/-- The largest lead of playback that is left alone, in microseconds. -/
def maxAlignedUsec : Int := 1000

/-- What to do about an offset. -/
inductive Correction where
  /-- The offset is within tolerance. -/
  | none
  /-- Capture is ahead of playback, and cancelling cannot work. -/
  | urgent
  /-- Playback leads by more than the tolerance. -/
  | nonUrgent
  deriving DecidableEq, Repr

namespace Correction

/-- The policy: an offset below zero is `urgent`, one up to `maxAlignedUsec` is
fine, and one beyond it is `nonUrgent`. -/
def ofOffset (usec : Int) : Correction :=
  if usec < 0 then urgent
  else if maxAlignedUsec < usec then nonUrgent
  else none

/-- The name of the correction. -/
def label : Correction → String
  | none => "None"
  | urgent => "Urgent"
  | nonUrgent => "NonUrgent"

/-- Exactly the offsets from zero to `maxAlignedUsec` need no correction. -/
theorem ofOffset_eq_none_iff (usec : Int) :
    ofOffset usec = none ↔ 0 ≤ usec ∧ usec ≤ maxAlignedUsec := by
  unfold ofOffset
  by_cases h : usec < 0
  · rw [if_pos h]
    constructor
    · intro h'
      contradiction
    · omega
  · rw [if_neg h]
    by_cases h2 : maxAlignedUsec < usec
    · rw [if_pos h2]
      constructor
      · intro h'
        contradiction
      · omega
    · rw [if_neg h2]
      exact ⟨fun _ => ⟨by omega, by omega⟩, fun _ => rfl⟩

end Correction

end EchoAlign
