import EchoAlign.Word

/-!
# `EchoAlign.Align.Counters`: what a session has done so far

Eight counters that every part of a session adds to. They are 64-bit
words and wrap.
-/

set_option autoImplicit false

namespace EchoAlign

/-- The counters of a session. Each is a word: the functions `addCancelled` to
`addPostsDropped` cut their sums back with `Word.unsigned`, so that a counter
that runs over starts again from zero. -/
structure Counters where
  /-- Blocks run through the canceller. -/
  cancelled : Nat
  /-- Blocks forwarded as captured. -/
  passed : Nat
  /-- Captured bytes dropped to realign. -/
  sourceSkipped : Nat
  /-- Playback bytes dropped to realign. -/
  sinkSkipped : Nat
  /-- Resyncs carried out. -/
  resyncs : Nat
  /-- Corrections that changed the skip. -/
  corrections : Nat
  /-- Times playback ran out of audio. -/
  underruns : Nat
  /-- Messages lost to a full or closed mailbox. -/
  postsDropped : Nat
  deriving DecidableEq, Repr

namespace Counters

/-- Nothing counted yet: the counters of a new `Link`. -/
def zero : Counters := ⟨0, 0, 0, 0, 0, 0, 0, 0⟩

/-- Counts blocks that went through the canceller, one for each
`Event.cancelled`. -/
def addCancelled (c : Counters) (n : Nat) : Counters :=
  { c with cancelled := Word.unsigned (c.cancelled + n) }

/-- Counts blocks that were forwarded as captured, one for each `Event.passed`. -/
def addPassed (c : Counters) (n : Nat) : Counters :=
  { c with passed := Word.unsigned (c.passed + n) }

/-- Counts captured bytes that were dropped on account of `Skip.source`. -/
def addSourceSkipped (c : Counters) (n : Nat) : Counters :=
  { c with sourceSkipped := Word.unsigned (c.sourceSkipped + n) }

/-- Counts playback bytes that were dropped on account of `Skip.sink`. -/
def addSinkSkipped (c : Counters) (n : Nat) : Counters :=
  { c with sinkSkipped := Word.unsigned (c.sinkSkipped + n) }

/-- Counts resyncs that were carried out, each for one `Link.requestResync` or
for several. -/
def addResyncs (c : Counters) (n : Nat) : Counters :=
  { c with resyncs := Word.unsigned (c.resyncs + n) }

/-- Counts offsets that set a `Skip`, whether a resync measured them or they
were given. -/
def addCorrections (c : Counters) (n : Nat) : Counters :=
  { c with corrections := Word.unsigned (c.corrections + n) }

/-- Counts the times at which the producer began to run out of audio
(`Playback.noteUnderrun`). -/
def addUnderruns (c : Counters) (n : Nat) : Counters :=
  { c with underruns := Word.unsigned (c.underruns + n) }

/-- Counts messages that found their `Mailbox` full or closed. Whoever posts is
to count them, beside `Mailbox.dropped`. -/
def addPostsDropped (c : Counters) (n : Nat) : Counters :=
  { c with postsDropped := Word.unsigned (c.postsDropped + n) }

/-- The counters on one line, in the order and wording of the log. -/
def describe (c : Counters) : String :=
  s!"cancelled={c.cancelled} passthrough={c.passed} " ++
  s!"skipped(capture={c.sourceSkipped}B playback={c.sinkSkipped}B) " ++
  s!"resyncs={c.resyncs} corrections={c.corrections} " ++
  s!"underruns={c.underruns} dropped={c.postsDropped}"

end Counters

end EchoAlign
