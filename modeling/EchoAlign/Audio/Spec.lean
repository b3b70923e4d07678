import EchoAlign.Word
import EchoAlign.Text.Number
import EchoAlign.Audio.Error

/-!
# `EchoAlign.Audio.Spec`: the format of a stream

A `StreamSpec` says how the bytes of an interleaved PCM stream are to
be read, and converts between bytes, frames and microseconds. Both
time conversions round down to whole frames or whole microseconds.

`usecOfBytes` divides by the frame size and by the rate. Validated
specs have both non-zero; for the others `fault?` says which division
fails, and `usecOfBytes?` answers with it.
-/

set_option autoImplicit false

namespace EchoAlign

/-- Microseconds per second. -/
def usecPerSecond : Nat := 1000000

/-- The most interleaved channels a stream may carry. -/
def maxChannels : Nat := 8

/-- How one sample is encoded. -/
inductive SampleFormat where
  /-- Signed 16-bit little endian. -/
  | s16le
  /-- 32-bit float little endian. -/
  | f32le
  deriving DecidableEq, Repr

namespace SampleFormat

/-- The size of one sample in bytes. -/
def sampleBytes : SampleFormat → Nat
  | s16le => 2
  | f32le => 4

/-- The name of the format. -/
def label : SampleFormat → String
  | s16le => "s16le"
  | f32le => "f32le"

/-- Reads a format name or one of its other spellings, in any case. -/
def parse (name : String) : Except AudioError SampleFormat :=
  let word := Text.lowerAscii name
  if word ∈ ["s16le", "s16", "s16ne"] then .ok s16le
  else if word ∈ ["f32le", "float32le", "f32"] then .ok f32le
  else .error (.unknownFormat word)

end SampleFormat

/-- The format of one interleaved PCM stream. -/
structure StreamSpec where
  format : SampleFormat
  /-- Frames per second. -/
  rate : Nat
  channels : Nat
  deriving DecidableEq, Repr

namespace StreamSpec

/-- Mono speech at 16 kHz. -/
def speech : StreamSpec := ⟨.s16le, 16000, 1⟩

/-- The same stream with signed 16-bit samples. -/
def asS16 (spec : StreamSpec) : StreamSpec := { spec with format := .s16le }

/-- Refuses a spec without a rate or with a channel count outside
`1 … maxChannels`. -/
def validate (spec : StreamSpec) : Except AudioError Unit :=
  if spec.rate = 0 then .error .zeroRate
  else if spec.channels = 0 ∨ maxChannels < spec.channels then
    .error (.channelCount spec.channels maxChannels)
  else .ok ()

/-- Bytes per interleaved frame: one sample (`SampleFormat.sampleBytes`) for
each channel. -/
def frameSize (spec : StreamSpec) : Nat := spec.format.sampleBytes * spec.channels

/-- Bytes per second of audio, those of `rate` frames. -/
def bytesPerSecond (spec : StreamSpec) : Nat := spec.frameSize * spec.rate

/-- The bytes of the whole frames that fit into a duration. The number of frames
is a word (`Word.unsigned`). -/
def bytesOfUsec (spec : StreamSpec) (usec : Nat) : Nat :=
  Word.unsigned (usec * spec.rate / usecPerSecond) * spec.frameSize

/-- The duration of a byte count, as a word (`Word.unsigned`). A partial frame
counts for nothing, and a partial microsecond neither. -/
def usecOfBytes (spec : StreamSpec) (bytes : Nat) : Nat :=
  Word.unsigned (bytes / spec.frameSize * usecPerSecond / spec.rate)

/-- The bytes of a number of frames. -/
def bytesOfFrames (spec : StreamSpec) (frames : Nat) : Nat := frames * spec.frameSize

/-- The division by zero that turning bytes into time would meet, for a spec
without a rate or with frames of no bytes. -/
def fault? (spec : StreamSpec) : Option ArithmeticFault :=
  if spec.frameSize = 0 ∨ spec.rate = 0 then some .divideByZero else none

/-- The duration of a byte count (`usecOfBytes`), for specs that were not
validated. -/
def usecOfBytes? (spec : StreamSpec) (bytes : Nat) : Except ArithmeticFault Nat :=
  match spec.fault? with
  | some fault => .error fault
  | none => .ok (spec.usecOfBytes bytes)

/-- The spec in words: format, channels and rate. -/
def label (spec : StreamSpec) : String :=
  s!"{spec.format.label} {spec.channels}ch {spec.rate}Hz"

/-- A spec that `validate` lets pass has a rate, and from one to `maxChannels`
channels. -/
theorem pos_of_validate {spec : StreamSpec} (h : spec.validate = .ok ()) :
    0 < spec.rate ∧ 0 < spec.channels ∧ spec.channels ≤ maxChannels := by
  unfold validate at h
  split at h
  · contradiction
  · split at h
    · contradiction
    · omega

/-- Frames of at least one channel have at least one byte, whatever their
`SampleFormat`. -/
theorem frameSize_pos_of_channels {spec : StreamSpec} (h : 0 < spec.channels) :
    0 < spec.frameSize := by
  refine Nat.mul_pos ?_ h
  cases spec.format <;> decide

/-- Under a validated spec (`StreamSpec.validate`), nothing is divided by zero. -/
theorem fault?_of_validate {spec : StreamSpec} (h : spec.validate = .ok ()) :
    spec.fault? = none := by
  obtain ⟨hrate, hchannels, -⟩ := pos_of_validate h
  have hframe := frameSize_pos_of_channels hchannels
  exact if_neg (not_or.mpr ⟨Nat.ne_of_gt hframe, Nat.ne_of_gt hrate⟩)

end StreamSpec

end EchoAlign
