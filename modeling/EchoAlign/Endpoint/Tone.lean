import EchoAlign.Audio.Spec
import EchoAlign.Endpoint.Producer

/-!
# `EchoAlign.Endpoint.Tone`: a test tone

A sine tone with the same sample on every channel. The sample of a
frame depends on the number of the frame alone, so going back and
rendering again gives the same audio.

A frame of zero bytes cannot be counted; `render?` answers with the
fault where `render` has no meaning.
-/

set_option autoImplicit false

namespace EchoAlign

/-- A sine tone in progress. Only `position` changes while it is played. -/
structure Tone where
  spec : StreamSpec
  /-- In Hertz. -/
  frequency : Float32
  /-- Between 0 and 1. -/
  amplitude : Float32
  /-- The number of the next frame. -/
  position : Nat

namespace Tone

/-- The amplitude, cut to the range from 0 to 1. -/
def clampAmplitude (x : Float32) : Float32 :=
  if x < 0.0 then 0.0 else if 1.0 < x then 1.0 else x

/-- A tone at its first frame. -/
def create (spec : StreamSpec) (frequency amplitude : Float32) : Tone :=
  ⟨spec, frequency, clampAmplitude amplitude, 0⟩

/-- The circle constant. -/
def pi : Float32 := 3.14159265358979323846

/-- The sample of a frame. -/
def sampleAt (t : Tone) (frame : Nat) : Int16 :=
  let time := (UInt64.ofNat frame).toFloat32 / (UInt64.ofNat t.spec.rate).toFloat32
  let value := (2.0 * pi * t.frequency * time).sin * t.amplitude
  (value * 32767.0).toInt16

/-- The samples of the next `frames` frames. -/
def samples (t : Tone) (frames : Nat) : List Int16 :=
  (List.range frames).flatMap fun k =>
    List.replicate t.spec.channels (t.sampleAt (t.position + k))

/-- Makes the whole frames in the next `n` bytes. A part of a frame that is left
over is not made, and there is never an underrun. -/
def render (t : Tone) (n : Nat) : Rendered × Tone :=
  let frames := n / t.spec.frameSize
  (⟨Block.ofSamples (t.samples frames), 0⟩, { t with position := t.position + frames })

/-- Goes back by the whole frames in `n` bytes, or to the start, so that
`render` makes them again. -/
def rewind (t : Tone) (n : Nat) : Tone :=
  { t with position := t.position - n / t.spec.frameSize }

/-- The division by zero a tone on empty frames asks for. -/
def fault? (t : Tone) : Option ArithmeticFault :=
  if t.spec.frameSize = 0 then some .divideByZero else none

/-- A tone is one of the producers. -/
instance : Producer Tone := ⟨render, rewind⟩

end Tone

end EchoAlign
