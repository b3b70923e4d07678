import EchoAlign.Audio.Block
import EchoAlign.Align.Counters
import EchoAlign.Align.Drift
import EchoAlign.Endpoint.Dumps

/-!
# `EchoAlign.Session.Event`: the trace of a session

A session leaves a trace: one `Event` for each thing it does to a piece
of audio and for each answer it gives, in order. The trace says what the
playback device and the consumer of the cleaned stream get to hear, what
was dropped, and what the canceller was given.

The counters and the dumps of a session are made from its trace alone
(`Counters.record`, `Dumps.record`).
-/

set_option autoImplicit false

namespace EchoAlign

/-- One thing a session does or answers. The events of a run are its trace, from
which the counters, the dumps and what the consumer gets can be read off. -/
inductive Event where
  /-- A block was made for the playback device. -/
  | rendered (block : Block)
  /-- Captured audio was dropped to realign. -/
  | skipped (captured : Block)
  /-- A captured block went through the canceller, with the playback it
  was paired with, and the result went to the consumer. -/
  | cancelled (captured played cleaned : Block)
  /-- A captured block went to the consumer as it was, after playback
  audio was dropped to realign. -/
  | passed (captured dropped : Block)
  /-- The consumer was told that this many bytes will come again. -/
  | rewound (bytes : Nat)
  /-- The canceller was finished and the consumer let go. -/
  | released
  /-- A correction was offered to the capture side, whose mailbox kept it
  or not. -/
  | offered (kept : Bool)
  /-- A drift check came to an end. -/
  | checked (outcome : DriftOutcome)
  /-- The sides that are there said where they stand. -/
  | inspected (playback? : Option PlaybackTiming) (capture? : Option CaptureTiming)

namespace Event

/-- The block an event hands to the consumer: `cleaned` audio, or a captured
block as it was. -/
def forwarded? : Event → Option Block
  | cancelled _ _ cleaned => some cleaned
  | passed captured _ => some captured
  | _ => none

/-- The playback audio an event takes off the tape: the reference of a run of
the canceller, or what was dropped beside a block that was passed. -/
def played? : Event → Option Block
  | cancelled _ played _ => some played
  | passed _ dropped => some dropped
  | _ => none

end Event

/-- Counts an event. Those that no counter stands for leave `Counters` as they
are. -/
def Counters.record (c : Counters) : Event → Counters
  | .skipped captured => c.addSourceSkipped captured.size
  | .cancelled _ _ _ => c.addCancelled 1
  | .passed _ dropped => (c.addSinkSkipped dropped.size).addPassed 1
  | _ => c

/-- Writes an event to the dumps: only runs of the canceller (`cancelled`) are
kept. -/
def Dumps.record (d : Dumps) : Event → Dumps
  | .cancelled captured played cleaned => d.write captured played cleaned
  | _ => d

end EchoAlign
