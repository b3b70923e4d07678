import EchoAlign.Endpoint.RawSource
import EchoAlign.Endpoint.Tone

/-!
# `EchoAlign.Endpoint.Playable`: what a user can have played

A recording from a file, or else a test tone.
-/

set_option autoImplicit false

namespace EchoAlign

/-- Audio that a user can have played: a recorded file, or a `Tone`. -/
inductive Playable where
  | recording (source : RawSource)
  | tone (tone : Tone)

namespace Playable

/-- The amplitude of the test tone. -/
def toneAmplitude : Float32 := 0.3

/-- Makes the next `n` bytes, whichever of the two is played. -/
def render : Playable → Nat → Rendered × Playable
  | recording source, n =>
      let (rendered, source) := source.render n
      (rendered, recording source)
  | tone t, n =>
      let (rendered, t) := t.render n
      (rendered, tone t)

/-- Goes back by `n` bytes, whichever of the two is played. -/
def rewind : Playable → Nat → Playable
  | recording source, n => recording (source.rewind n)
  | tone t, n => tone (t.rewind n)

/-- Each constructor does what its own producer does. -/
instance : Producer Playable := ⟨render, rewind⟩

end Playable

end EchoAlign
