import EchoAlign.Session.Basic

/-!
# `EchoAlign.Session.Run`: runs of a session

`Operation` names everything that can happen to a session, `perform`
lets one thing happen, and `run` a sequence of them. What all runs have
in common is stated over these three.
-/

set_option autoImplicit false

namespace EchoAlign

/-- One thing that can happen to a session. Statements about all runs are
statements about all lists of these. -/
inductive Operation where
  /-- The capture device delivers a block. -/
  | push (block : Block)
  /-- The playback device asks for this many bytes. -/
  | render (bytes : Nat)
  /-- The playback device gives bytes back. -/
  | rewindPlayback (bytes : Nat)
  /-- The consumer is going to get bytes again. -/
  | rewindCapture (bytes : Nat)
  /-- The streams are realigned at once. -/
  | correct (usec : Int)
  /-- A correction is offered to the capture side. -/
  | postCorrection (usec : Int)
  /-- A device starts to run or is suspended. -/
  | reportDevice (direction : Direction) (running : Bool)
  | requestResync
  /-- A drift check starts. -/
  | startCheck
  /-- The drift check that is under way goes on. -/
  | continueCheck
  /-- Sides are asked where they stand. -/
  | inspect (asked : Sides)
  | shutdown
  | dropControl
  | dropCapture
  | dropPlayback
  /-- Time goes by. -/
  | advanceClock (usec : Nat)
  /-- A resync will be asked for during certain readings of the clock. -/
  | scheduleRequests (readings : List Nat)
  /-- A device reports another latency. -/
  | setLatency (direction : Direction) (latency : DeviceLatency)

namespace Session

variable {κ υ : Type} [Canceller κ] [Producer υ]

/-- Lets one thing happen, and answers with the events it causes. -/
def perform (s : Session κ υ) : Operation → List Event × Session κ υ
  | .push block => s.push block
  | .render bytes => s.render bytes
  | .rewindPlayback bytes => ([], s.rewindPlayback bytes)
  | .rewindCapture bytes => s.rewindCapture bytes
  | .correct usec => ([], s.correct usec)
  | .postCorrection usec => s.postCorrection usec
  | .reportDevice direction running => ([], s.reportDevice direction running)
  | .requestResync => ([], s.requestResync)
  | .startCheck => s.startCheck
  | .continueCheck => s.continueCheck
  | .inspect asked => s.inspect asked
  | .shutdown => ([], s.shutdown)
  | .dropControl => ([], s.dropControl)
  | .dropCapture => s.dropCapture
  | .dropPlayback => ([], s.dropPlayback)
  | .advanceClock usec => ([], s.advanceClock usec)
  | .scheduleRequests readings => ([], s.scheduleRequests readings)
  | .setLatency direction latency => ([], s.setLatency direction latency)

/-- Lets things happen one after another (`Session.perform`), and answers with
all their events in order. -/
def run (s : Session κ υ) : List Operation → List Event × Session κ υ
  | [] => ([], s)
  | operation :: rest =>
      let (events, s) := s.perform operation
      let (later, s) := run s rest
      (events ++ later, s)

/-- What happens during `first` and then `rest` is what happens during
both. -/
theorem run_append (s : Session κ υ) (first rest : List Operation) :
    s.run (first ++ rest)
      = ((s.run first).1 ++ ((s.run first).2.run rest).1, ((s.run first).2.run rest).2) := by
  induction first generalizing s with
  | nil => rfl
  | cons operation first ih =>
      simp only [List.cons_append, run, ih, List.append_assoc]

end Session

end EchoAlign
