import EchoAlign.Audio.Block

/-!
# `EchoAlign.Endpoint.Producer`: where playback audio comes from

A `Producer` makes the audio that is to be played, as much as it is
asked for, and can be told that some of it was not played after all and
is to be made again.
-/

set_option autoImplicit false

namespace EchoAlign

/-- Freshly made playback audio: a `block`, of which the last `underrun` bytes
are silence. -/
structure Rendered where
  block : Block
  /-- How many bytes at the end are silence for want of audio. -/
  underrun : Nat

/-- What the playback device wants of a session, as data. -/
inductive DeviceCall where
  /-- So many bytes, to be played. -/
  | render (bytes : Nat)
  /-- That so many bytes be taken back. -/
  | rewind (bytes : Nat)
  deriving DecidableEq, Repr

/-- States of a source of playback audio. Nothing is asked of `render` and
`rewind` here: what a producer does is assumed where a law needs it. -/
class Producer (υ : Type) where
  /-- Makes the next `n` bytes. -/
  render : υ → Nat → Rendered × υ
  /-- Goes back, so that the last `n` bytes are made again. -/
  rewind : υ → Nat → υ

end EchoAlign
