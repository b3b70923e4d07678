import EchoAlign.Align.Drift
import EchoAlign.Session.Capture
import EchoAlign.Session.Playback

/-!
# `EchoAlign.Session.Basic`: a session and what can happen to it

A `Session` is a control side, a capture side and a playback side, the
three mailboxes between them, and the link all of them share. Each side
can go away on its own. What happens to a side that is gone, or after
`shutdown`, has no effect on the audio.

A drift check is not one operation but several (`startCheck`,
`continueCheck`), for the control side waits for both sides in turn. What
the devices do while it waits, and what they do between an answer and the
correction that comes of it, are operations like any other. The program
holds a lock for as long as a check takes. So reports of devices and
corrections of its user come before a check or after it; here they may also
come in between, and what holds of all runs holds in particular of those in
which they do not.

An operation answers with the events it causes, in order. Where it can
cause none, it answers with the session alone.
-/

set_option autoImplicit false

namespace EchoAlign

/-- A session with a canceller in a state of type `κ` and a producer of
playback audio in a state of type `υ`. -/
structure Session (κ υ : Type) where
  /-- The stream that is processed. -/
  spec : StreamSpec
  /-- The size of a processed block. -/
  blockBytes : Nat
  /-- How many messages a side takes from a mailbox at a time. -/
  drainLimit : Nat
  link : Link
  /-- From the playback side to the capture side. -/
  data : Mailbox CaptureMessage
  /-- From the control side to the capture side. -/
  captureControl : Mailbox CaptureMessage
  /-- From the control side to the playback side. -/
  playbackControl : Mailbox PlaybackMessage
  drift : DriftController
  /-- Whether the control side is still there. -/
  controlled : Bool
  capture? : Option (Capture κ)
  playback? : Option (Playback υ)
  /-- What is left of the canceller once the capture side has finished it
  and gone away. -/
  finished? : Option κ
  /-- What is recorded for diagnosis. -/
  dumps? : Option Dumps

/-- Some of the two sides that devices drive, such as those that are still there
(`Session.sides`). -/
structure Sides where
  capture : Bool
  playback : Bool
  deriving DecidableEq, Repr

namespace Sides

/-- Both sides. -/
def both : Sides := ⟨true, true⟩

/-- The sides that are among both. -/
def inter (a b : Sides) : Sides := ⟨a.capture && b.capture, a.playback && b.playback⟩

end Sides

namespace Session

variable {κ υ : Type} [Canceller κ] [Producer υ]

/-- A session in which nothing has happened yet, with mailboxes for `capacity`
messages each. A block is as long as the canceller wants it. -/
def create (spec : StreamSpec) (capacity : Nat) (canceller : κ) (producer : υ) (link : Link)
    (dumps? : Option Dumps) : Session κ υ :=
  { spec
    blockBytes := spec.bytesOfFrames (Canceller.blockFrames canceller)
    drainLimit := capacity
    link
    data := Mailbox.create capacity
    captureControl := Mailbox.create capacity
    playbackControl := Mailbox.create capacity
    drift := DriftController.create spec
    controlled := true
    capture? := some (Capture.create spec canceller)
    playback? := some (Playback.create producer)
    finished? := none
    dumps? }

/-- Keeps the trace: events are written to the dumps (`Dumps.record`), if there
are any. -/
def record (s : Session κ υ) (events : List Event) : Session κ υ :=
  { s with dumps? := s.dumps?.map fun dumps => events.foldl Dumps.record dumps }

/-- The sides that are still there. -/
def sides (s : Session κ υ) : Sides := ⟨s.capture?.isSome, s.playback?.isSome⟩

/-! ### The capture device -/

/-- The answers that the capture side gives while it handles the messages that
wait, control messages before data (`Capture.replies`). -/
def drainReplies (s : Session κ υ) (capture : Capture κ) : List (Reply CaptureTiming) :=
  capture.replies s.link
    ((s.captureControl.drain s.drainLimit).1 ++ (s.data.drain s.drainLimit).1)

/-- The capture side handles the messages that wait, control messages before
data, and goes back to work if it is to (`Capture.resume`). The control side
hears the answers. -/
def drainCapture (s : Session κ υ) (capture : Capture κ) : Capture κ × Session κ υ :=
  let (control, captureControl) := s.captureControl.drain s.drainLimit
  let (data, dataBox) := s.data.drain s.drainLimit
  let drift := s.drift.hearCapture (s.drainReplies capture)
  let (capture, link) := capture.handleAll s.link control
  let (capture, link) := capture.handleAll link data
  let (capture, link) := capture.resume link
  (capture, { s with captureControl, data := dataBox, drift, link })

/-- The capture device delivers a block. The side handles its messages, accepts
the block and works off whole blocks (`drainCapture`, `Capture.accept`,
`Capture.process`). After shutdown nothing happens. -/
def push (s : Session κ υ) (block : Block) : List Event × Session κ υ :=
  match s.capture? with
  | none => ([], s)
  | some capture =>
      if !s.link.linked then ([], s)
      else
        let (capture, s) := s.drainCapture capture
        let (events, capture, link) := (capture.accept block).process s.link
        (events, ({ s with capture? := some capture, link }).record events)

/-- The consumer of the cleaned stream is going to get `n` bytes again
(`Capture.rewind`). After shutdown nothing happens. -/
def rewindCapture (s : Session κ υ) (n : Nat) : List Event × Session κ υ :=
  match s.capture? with
  | none => ([], s)
  | some capture =>
      if !s.link.linked then ([], s)
      else ([.rewound n], { s with capture? := some (capture.rewind n) })

/-- Realigns the streams at once, as a message `CaptureMessage.correct` would. -/
def correct (s : Session κ υ) (usec : Int) : Session κ υ :=
  match s.capture? with
  | none => s
  | some capture =>
      let (capture, link) := capture.correct s.link usec
      { s with capture? := some capture, link }

/-- Where the capture side stands, if it is there. It reads the clock for that,
so the session changes. -/
def captureTiming (s : Session κ υ) : Option CaptureTiming × Session κ υ :=
  match s.capture? with
  | none => (none, s)
  | some capture =>
      let (timing, link) := capture.timing s.link
      (some timing, { s with link })

/-- The capture side goes away: it finishes the canceller
(`Canceller.finish`) and lets the consumer go, and its mailboxes close.
The event `Event.released` stands for the first two. -/
def dropCapture (s : Session κ υ) : List Event × Session κ υ :=
  match s.capture? with
  | none => ([], s)
  | some capture =>
      ([.released],
        { s with
          capture? := none
          finished? := some (Canceller.finish capture.pairing.canceller)
          data := s.data.close
          captureControl := s.captureControl.close })

/-! ### The playback device -/

/-- The playback side handles the messages that wait. Where they are questions,
the control side hears the answers (`DriftController.hearPlayback`). -/
def drainPlayback (s : Session κ υ) (playback : Playback υ) : Session κ υ :=
  let (control, playbackControl) := s.playbackControl.drain s.drainLimit
  let drift := s.drift.hearPlayback (playback.replies s.link control)
  let (playback, link) := playback.handleAll s.link control
  { s with playback? := some playback, playbackControl, drift, link }

/-- The playback device asks for `n` bytes (`PlaybackScene.render`), and then
the side handles its messages. After shutdown it gets silence. -/
def render (s : Session κ υ) (n : Nat) : List Event × Session κ υ :=
  match s.playback? with
  | none => ([], s)
  | some playback =>
      if !s.link.linked then ([.rendered (Block.silence n)], s)
      else
        let (block, scene) := PlaybackScene.render ⟨playback, s.link, s.data⟩ n
        ([.rendered block],
          ({ s with link := scene.link, data := scene.data }).drainPlayback scene.playback)

/-- The playback device gives back `n` bytes it did not play
(`PlaybackScene.rewind`). After shutdown nothing happens, and neither does for
no bytes. -/
def rewindPlayback (s : Session κ υ) (n : Nat) : Session κ υ :=
  match s.playback? with
  | none => s
  | some playback =>
      if !s.link.linked || n == 0 then s
      else
        let scene := PlaybackScene.rewind ⟨playback, s.link, s.data⟩ n
        { s with playback? := some scene.playback, link := scene.link, data := scene.data }

/-- Where the playback side stands, if it is there. It reads the clock for that,
so the session changes. -/
def playbackTiming (s : Session κ υ) : Option PlaybackTiming × Session κ υ :=
  match s.playback? with
  | none => (none, s)
  | some playback =>
      let (timing, link) := playback.timing s.link
      (some timing, { s with link })

/-- The playback side goes away, and its mailbox `playbackControl` closes. -/
def dropPlayback (s : Session κ υ) : Session κ υ :=
  match s.playback? with
  | none => s
  | some _ => { s with playback? := none, playbackControl := s.playbackControl.close }

/-! ### The control side -/

/-- Counts a message that was lost (`Counters.postsDropped`), beside the mailbox
that dropped it. -/
def countLost (s : Session κ υ) (kept : Bool) : Session κ υ :=
  if kept then s else { s with link := s.link.count (·.addPostsDropped 1) }

/-- Posts a control message to the capture side, says whether it was kept, and
counts it if not. -/
def postCapture (s : Session κ υ) (message : CaptureMessage) : Bool × Session κ υ :=
  let (kept, captureControl) := s.captureControl.post message
  (kept, ({ s with captureControl }).countLost kept)

/-- Posts a control message to the playback side, says whether it was kept, and
counts it if not. -/
def postPlayback (s : Session κ υ) (message : PlaybackMessage) : Bool × Session κ υ :=
  let (kept, playbackControl) := s.playbackControl.post message
  (kept, ({ s with playbackControl }).countLost kept)

/-- Asks for a resync, with a new epoch (`Link.requestResync`). -/
def requestResync (s : Session κ υ) : Session κ υ :=
  if s.controlled then { s with link := s.link.requestResync } else s

/-- The state a running or suspended device is in. -/
def stateOf (running : Bool) : DeviceState := if running then .running else .suspended

/-- A device starts to run or is suspended. A report of the state it is in
already is ignored; any other reaches its side as a message `device`, and a
start asks for a resync. -/
def reportDevice (s : Session κ υ) (direction : Direction) (running : Bool) : Session κ υ :=
  if !s.controlled then s
  else
    let known := match direction with
      | .input => s.link.captureActive
      | .output => s.link.playbackActive
    if known == running then s
    else
      let s := match direction with
        | .input =>
            (({ s with link := { s.link with captureActive := running } }).postCapture
              (.device (stateOf running))).2
        | .output =>
            (({ s with link := { s.link with playbackActive := running } }).postPlayback
              (.device (stateOf running))).2
      if running then { s with link := s.link.requestResync } else s

/-- Offers a correction to the capture side, and says whether its mailbox took
it (`Event.offered`). -/
def postCorrection (s : Session κ υ) (usec : Int) : List Event × Session κ υ :=
  if !s.controlled then ([], s)
  else
    let (kept, s) := s.postCapture (.correct usec)
    ([.offered kept], s)

/-- The mailboxes that a drift check posts to. -/
def posts (s : Session κ υ) : ControlPosts := ⟨s.captureControl, s.playbackControl⟩

/-- The session after a step of a drift check: what `DriftController.start` or
`proceed` has left. An outcome is told (`Event.checked`). -/
def withCheck (s : Session κ υ) :
    Option DriftOutcome × DriftController × ControlPosts → List Event × Session κ υ
  | (outcome?, drift, posts) =>
      (outcome?.toList.map .checked,
        { s with drift, captureControl := posts.toCapture, playbackControl := posts.toPlayback })

/-- Starts a drift check (`DriftController.start`), if both devices run. While
another one is under way, nothing happens: there is one at a time. -/
def startCheck (s : Session κ υ) : List Event × Session κ υ :=
  if !s.controlled || s.drift.busy then ([], s)
  else if !s.link.linked || !s.link.bothActive then ([.checked .inactive], s)
  else s.withCheck (s.drift.start s.posts)

/-- The drift check that is under way goes on (`DriftController.proceed`).
Nobody ends a session before a check has come to its end, so there is none
after that. -/
def continueCheck (s : Session κ υ) : List Event × Session κ υ :=
  if !s.controlled || !s.link.linked then ([], s)
  else s.withCheck (s.drift.proceed s.posts)

/-- Ends the session: from now on no device has any effect on it, since the
`link` is no longer `linked`. -/
def shutdown (s : Session κ υ) : Session κ υ :=
  if s.controlled then { s with link := { s.link with linked := false } } else s

/-- The control side goes away, and ends the session as it goes. Nobody
is left to ask for a resync. -/
def dropControl (s : Session κ υ) : Session κ υ :=
  let s := s.shutdown
  { s with controlled := false, link := { s.link with clock := { s.link.clock with requests := [] } } }

/-! ### The world outside -/

/-- Asks sides where they stand, playback first. Who is not there, or is not
`asked`, tells nothing. -/
def inspect (s : Session κ υ) (asked : Sides) : List Event × Session κ υ :=
  let (playback?, s) := if asked.playback then s.playbackTiming else (none, s)
  let (capture?, s) := if asked.capture then s.captureTiming else (none, s)
  ([.inspected playback? capture?], s)

/-- Time goes by. -/
def advanceClock (s : Session κ υ) (usec : Nat) : Session κ υ :=
  { s with link := { s.link with clock := { s.link.clock with now := s.link.clock.now + usec } } }

/-- The control side is going to ask for a resync during certain readings
of the clock, counted from now, and during no others. -/
def scheduleRequests (s : Session κ υ) (readings : List Nat) : Session κ υ :=
  if s.controlled then
    { s with link := { s.link with clock := { s.link.clock with requests := readings } } }
  else s

/-- A device reports another latency. -/
def setLatency (s : Session κ υ) (direction : Direction) (latency : DeviceLatency) : Session κ υ :=
  match direction with
  | .input => { s with link := { s.link with captureLatency := latency } }
  | .output => { s with link := { s.link with playbackLatency := latency } }

end Session

end EchoAlign
