import EchoAlign.Audio.Tape
import EchoAlign.Align.Skip
import EchoAlign.Canceller.Basic
import EchoAlign.Session.Event

/-!
# `EchoAlign.Session.Pairing`: captured audio meets playback

A `Pairing` holds the two streams side by side, each on a tape, and
works off the captured one block by block. `step?` is what becomes of
one block:

* While captured bytes are to be dropped, they are, a block at a time.
* With a block of playback at hand and none of it to be dropped, the two
  blocks go through the canceller.
* Otherwise the captured block is passed on as it is, and playback bytes
  that are to be dropped are dropped as far as there are any.

`drive` repeats `step?` until less than a block of captured audio is
left. Every step takes captured audio off the tape, so the length of the
tape bounds the number of steps.
-/

set_option autoImplicit false

namespace EchoAlign

/-- Captured and played audio being paired, block by block (`blockBytes`). -/
structure Pairing (κ : Type) where
  /-- The size of a block. -/
  blockBytes : Nat
  /-- The captured audio. -/
  captured : Tape
  /-- The played audio. -/
  played : Tape
  skip : Skip
  canceller : κ

namespace Pairing

variable {κ : Type} [Canceller κ]

/-- Two empty tapes. A second of played audio is kept, so that captured
audio that comes again can be paired again. -/
def create (spec : StreamSpec) (canceller : κ) : Pairing κ :=
  { blockBytes := spec.bytesOfFrames (Canceller.blockFrames canceller)
    captured := Tape.create spec.frameSize maxTapeLength
    played := (Tape.create spec.frameSize maxTapeLength).setHistory spec.bytesPerSecond
    skip := .idle
    canceller }

/-- Whether a whole block of captured audio waits. -/
def hasBlock (p : Pairing κ) : Bool := p.blockBytes ≤ p.captured.length

/-- Whether the next captured block can be cancelled: there is as much played
audio, and none is to be dropped first (`Skip.sink`). -/
def canCancel (p : Pairing κ) : Bool := p.blockBytes ≤ p.played.length && p.skip.sink == 0

/-- Drops captured audio that is to be dropped, up to a block of it
(`Skip.takeSource`). -/
def skipCaptured (p : Pairing κ) : Event × Pairing κ :=
  let (n, skip) := p.skip.takeSource p.blockBytes
  let (dropped, captured) := p.captured.take n
  (.skipped dropped, { p with captured, skip })

/-- Runs a pair of blocks, one off either tape, through the canceller
(`cancelBlock`). -/
def cancel (p : Pairing κ) : Event × Pairing κ :=
  let (block, captured) := p.captured.take p.blockBytes
  let (reference, played) := p.played.take p.blockBytes
  let (cleaned, canceller) := cancelBlock p.canceller block reference
  (.cancelled block reference cleaned, { p with captured, played, canceller })

/-- Passes a captured block on, and drops what playback is to be dropped and has
come (`Skip.takeSink`). -/
def pass (p : Pairing κ) : Event × Pairing κ :=
  let (block, captured) := p.captured.take p.blockBytes
  let (n, skip) := p.skip.takeSink p.played.length
  let (dropped, played) := p.played.take n
  (.passed block dropped, { p with captured, played, skip })

/-- What becomes of the next captured block, if there is one. Dropping captured
audio goes before cancelling, and cancelling before passing on. -/
def step? (p : Pairing κ) : Option (Event × Pairing κ) :=
  if !p.hasBlock then none
  else if 0 < p.skip.source then some p.skipCaptured
  else if p.canCancel then some p.cancel
  else some p.pass

/-- Takes up to `steps` steps (`step?`), and puts their events behind those
given, which are listed newest first. -/
def driveFrom : Nat → List Event → Pairing κ → List Event × Pairing κ
  | 0, events, p => (events.reverse, p)
  | steps + 1, events, p =>
      match p.step? with
      | none => (events.reverse, p)
      | some (event, p) => driveFrom steps (event :: events) p

/-- Works off all whole blocks of captured audio. Each step takes at least a
byte off the tape, so its length is a bound on the steps. -/
def drive (p : Pairing κ) : List Event × Pairing κ := driveFrom p.captured.length [] p

/-- Throws away the audio that waits on either tape, but not the history
(`Tape.flush`). The `skip` stays. -/
def flush (p : Pairing κ) : Pairing κ :=
  { p with captured := p.captured.flush true, played := p.played.flush true }

end Pairing

end EchoAlign
