import EchoAlign.Audio.Block

/-!
# `EchoAlign.Canceller.Basic`: what a canceller is

A canceller gets a block of captured audio and the playback audio that
was heard at the same moment, and answers with the captured block less
the playback in it. The `Canceller` class speaks of its state: `run`
takes equally long byte strings, and its answer is as long again
(`size_run`). Pairing and timing are not its business.

`cancelBlock` is the only caller of `run`, and the one that keeps to its
contract: blocks of different lengths leave the captured block as it is.
-/

set_option autoImplicit false

namespace EchoAlign

/-- States of an echo canceller. By `size_run`, what `run` returns is as long as
the captured bytes if both blocks are of one size. -/
class Canceller (κ : Type) where
  /-- The name of the algorithm. -/
  label : κ → String
  /-- Frames per processed block. -/
  blockFrames : κ → Nat
  /-- Takes the playback out of the captured bytes. -/
  run : κ → (captured played : ByteArray) → ByteArray × κ
  /-- Lets go of the algorithm's state. Nothing is run afterwards. -/
  finish : κ → κ
  /-- The answer is as long as the captured bytes. -/
  size_run : ∀ (s : κ) (captured played : ByteArray), captured.size = played.size →
    (run s captured played).1.size = captured.size

/-- Runs a canceller on a pair of blocks. Blocks of different sizes are no pair,
and the captured one comes back as it is. -/
def cancelBlock {κ : Type} [Canceller κ] (s : κ) (captured played : Block) : Block × κ :=
  if captured.size = played.size then
    let (out, s) := Canceller.run s captured.bytes played.bytes
    (Block.ofBytes out, s)
  else (captured, s)

/-- The result of `cancelBlock` is as long as the captured block, whatever
canceller there is. -/
theorem size_cancelBlock {κ : Type} [Canceller κ] (s : κ) (captured played : Block) :
    (cancelBlock s captured played).1.size = captured.size := by
  unfold cancelBlock
  split
  · rename_i h
    show (Canceller.run s captured.bytes played.bytes).1.size = captured.size
    rw [Canceller.size_run s captured.bytes played.bytes (by rw [size_bytes, size_bytes, h]),
      size_bytes]
  · rfl

/-- A canceller that leaves the captured audio alone, in blocks of `blockFrames`
frames. -/
structure NullCanceller where
  blockFrames : Nat

/-- Nothing is done to the captured bytes, and there is nothing to let go of at
the end. -/
instance : Canceller NullCanceller where
  label _ := "null"
  blockFrames s := s.blockFrames
  run s captured _ := (captured, s)
  finish s := s
  size_run _ _ _ _ := rfl

end EchoAlign
