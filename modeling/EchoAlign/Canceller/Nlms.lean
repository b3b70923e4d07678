import EchoAlign.Canceller.Basic

/-!
# `EchoAlign.Canceller.Nlms`: the adaptive filter

One filter for each channel models the way from the loudspeaker to the
microphone. Its output is the estimated echo; the microphone signal
less the estimate is both the answer and what the filter learns from.
Learning is by normalised least mean squares: the weights move along
the reference window, by a step that shrinks with the window's power.

The arithmetic is a parameter (`Signal`). Nothing here depends on what
its operations compute, only on the order in which they are applied;
`Float32` is the arithmetic that runs.

The last `taps` references are kept in a ring that is stored twice over
(`ChannelFilter.history`), so that the window is always one stretch of
it, newest reference first.
-/

set_option autoImplicit false

namespace EchoAlign

/-- An arithmetic for audio signals. The filters are written over any of them,
and they run over `Float32`. -/
class Signal (α : Type) where
  zero : α
  add : α → α → α
  sub : α → α → α
  mul : α → α → α
  div : α → α → α
  /-- The value, or zero if it is not above zero. -/
  positivePart : α → α
  /-- How far one block of learning goes. -/
  stepSize : α
  /-- What is added to the power, so that silence can be divided by. -/
  regularization : α
  /-- A 16-bit sample as a signal between -1 and 1. -/
  ofSample : Int16 → α
  /-- A signal as the nearest 16-bit sample. -/
  toSample : α → Int16

namespace Signal

/-- The largest 16-bit sample value and its negative, as floats. -/
def clampSample (x : Float32) : Float32 :=
  if x < -32768.0 then -32768.0 else if 32767.0 < x then 32767.0 else x

/-- The instance computes with single floats, with the step size and the
regularization of the program. A sample is read as a fraction of 32768, and
written back rounded and clamped. -/
instance : Signal Float32 where
  zero := 0.0
  add := (· + ·)
  sub := (· - ·)
  mul := (· * ·)
  div := (· / ·)
  positivePart x := if 0.0 < x then x else 0.0
  stepSize := 0.3
  regularization := 1e-3
  ofSample s := s.toFloat32 / 32768.0
  toSample x := (clampSample (x * 32768.0).round).toInt16

end Signal

/-- The filter of one channel, with `taps` weights. By `history` and `newest`, a
window of `taps` references can be read without a turn in the middle. -/
structure ChannelFilter (α : Type) (taps : Nat) where
  weights : Vector α taps
  /-- The references, as a ring that is stored twice over. -/
  history : Vector α (taps + taps)
  /-- Where the newest reference is. -/
  newest : Fin taps
  /-- The power of the references in the ring. -/
  power : α

namespace ChannelFilter

variable {α : Type} [Signal α] {taps : Nat}

/-- A filter that has heard nothing: all weights and references are zero. -/
def silent (h : 0 < taps) : ChannelFilter α taps :=
  ⟨Vector.replicate taps Signal.zero, Vector.replicate (taps + taps) Signal.zero, ⟨0, h⟩,
    Signal.zero⟩

/-- The place before another one in the ring, which is the last one for the
first. -/
def previous (i : Fin taps) : Fin taps :=
  ⟨(i.val + taps - 1) % taps, Nat.mod_lt _ (Nat.lt_of_le_of_lt (Nat.zero_le _) i.isLt)⟩

/-- The reference `i` steps before the newest. Since the ring is stored twice
over, no index needs to be reduced. -/
@[inline] def window (f : ChannelFilter α taps) (i : Nat) (h : i < taps) : α :=
  f.history.get ⟨f.newest.val + i, by have := f.newest.isLt; omega⟩

/-- Writes a reference over the oldest one, in both copies of the ring,
and brings the power up to date. -/
@[specialize] def hear (f : ChannelFilter α taps) (reference : α) : ChannelFilter α taps :=
  let place := previous f.newest
  have hplace := place.isLt
  let oldest := f.history[place.val]
  { f with
    history := (f.history.set place.val reference).set (place.val + taps) reference
    newest := place
    power := Signal.positivePart
      (Signal.sub (Signal.add f.power (Signal.mul reference reference))
        (Signal.mul oldest oldest)) }

/-- The estimated echo: the weighted sum of the `window`, newest first. -/
@[specialize] def estimate (f : ChannelFilter α taps) : α :=
  Nat.fold taps
    (fun i h sum => Signal.add sum (Signal.mul f.weights[i] (f.window i h)))
    Signal.zero

/-- Moves every weight along its reference, by a step that shrinks with the
`power` of the window. -/
@[specialize] def learn (f : ChannelFilter α taps) (error : α) : ChannelFilter α taps :=
  let step := Signal.div (Signal.mul Signal.stepSize error)
    (Signal.add f.power Signal.regularization)
  { f with
    weights := f.weights.mapFinIdx fun i weight h =>
      Signal.add weight (Signal.mul step (f.window i h)) }

/-- Hears a reference and cleans the microphone sample of its echo (`hear`,
`estimate`, `learn`). -/
@[specialize] def process (f : ChannelFilter α taps) (microphone reference : α) : α × ChannelFilter α taps :=
  let f := f.hear reference
  let error := Signal.sub microphone f.estimate
  (error, f.learn error)

end ChannelFilter

/-- The adaptive canceller: a filter for each channel, until it is finished.
From then on `filters?` is `none`. -/
structure Nlms (α : Type) where
  channels : Nat
  blockFrames : Nat
  taps : Nat
  filters? : Option (Vector (ChannelFilter α taps) channels)

namespace Nlms

variable {α : Type} [Signal α]

/-- A canceller with at least one tap for each channel. -/
def create (channels blockFrames taps : Nat) : Nlms α :=
  have h : 0 < max taps 1 := by omega
  ⟨channels, blockFrames, max taps 1, some (Vector.replicate channels (ChannelFilter.silent h))⟩

/-- The number of taps of a channel, which is zero without filters. -/
def tapCount (s : Nlms α) : Nat :=
  match s.filters? with
  | some _ => if s.channels = 0 then 0 else s.taps
  | none => 0

/-- Runs sample pairs through the filters. Sample `i` belongs to channel
`i` modulo the channel count. -/
@[specialize] def filterSamples {taps channels : Nat} (h : 0 < channels) :
    Nat → List (Int16 × Int16) → Vector (ChannelFilter α taps) channels →
    List Int16 × Vector (ChannelFilter α taps) channels
  | _, [], filters => ([], filters)
  | i, (microphone, reference) :: rest, filters =>
      have hk : i % channels < channels := Nat.mod_lt _ h
      let (error, filter) := filters[i % channels].process
        (Signal.ofSample microphone) (Signal.ofSample reference)
      let (samples, filters) := filterSamples h (i + 1) rest (filters.set (i % channels) filter)
      (Signal.toSample error :: samples, filters)

/-- The output bytes: the samples, and a zero for a byte that is half a
sample. -/
def outputBytes (samples : List Int16) (size : Nat) : ByteArray :=
  bytesOfSamples samples ++ silentBytes (size - 2 * samples.length)

/-- Runs a pair of byte strings. A finished canceller changes nothing, and
neither does one without channels. -/
@[specialize] def run (s : Nlms α) (captured played : ByteArray) : ByteArray × Nlms α :=
  match s.filters? with
  | none => (captured, s)
  | some filters =>
      if h : 0 < s.channels then
        let pairs := (samplesOfBytes captured.data.toList).zip (samplesOfBytes played.data.toList)
        let (samples, filters) := filterSamples h 0 pairs filters
        (outputBytes samples captured.size, { s with filters? := some filters })
      else (captured, s)

/-- Every sample pair gives one sample, so `filterSamples` keeps the length. -/
theorem length_filterSamples {taps channels : Nat} (h : 0 < channels) (i : Nat)
    (pairs : List (Int16 × Int16)) (filters : Vector (ChannelFilter α taps) channels) :
    (filterSamples h i pairs filters).1.length = pairs.length := by
  induction pairs generalizing i filters with
  | nil => rfl
  | cons pair rest ih =>
      rw [filterSamples, List.length_cons, List.length_cons, ih]

/-- The output bytes fill up to the `size` that was asked for, if the samples
fit it. -/
theorem size_outputBytes {samples : List Int16} {size : Nat} (h : 2 * samples.length ≤ size) :
    (outputBytes samples size).size = size := by
  unfold outputBytes
  rw [ByteArray.size_append, size_bytesOfSamples, size_silentBytes]
  omega

/-- The answer is as long as the captured bytes, where both byte strings are of
one size. This is `Canceller.size_run` of the adaptive canceller. -/
theorem size_run (s : Nlms α) (captured played : ByteArray)
    (h : captured.size = played.size) : (s.run captured played).1.size = captured.size := by
  unfold run
  split
  · rfl
  · split
    · apply size_outputBytes
      rw [length_filterSamples, List.length_zip, length_samplesOfBytes, length_samplesOfBytes,
        Array.length_toList, Array.length_toList, ByteArray.size_data, ByteArray.size_data]
      omega
    · rfl

/-- Finishing the canceller lets go of its filters. -/
instance : Canceller (Nlms α) where
  label _ := "nlms"
  blockFrames s := s.blockFrames
  run := run
  finish s := { s with filters? := none }
  size_run := size_run

end Nlms

end EchoAlign
