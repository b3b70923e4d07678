import EchoAlign.Mailbox
import EchoAlign.Align.Link
import EchoAlign.Align.Message
import EchoAlign.Session.Pairing

/-!
# `EchoAlign.Session.Capture`: the capture side

The capture side owns the pairing. Whenever its device delivers a block
it first handles the messages that wait, control messages before data,
and then works off the captured audio.

A resync runs when playback timing for the present request turns up
among the data: at that place every block rendered before the timing was
taken has arrived and none after it, so that the timing of the two sides
speaks of the same place in the stream.

While its device is suspended, the side throws playback audio away. It
goes back to work once all playback from the suspension has been
handled, and then asks for a resync.
-/

set_option autoImplicit false

namespace EchoAlign

/-- The capture side of a session: the `pairing` of the two streams, and what
the side knows of its device and of the playback side. -/
structure Capture (κ : Type) where
  spec : StreamSpec
  pairing : Pairing κ
  /-- Playback bytes received, less those rewound. -/
  received : Int
  /-- Whether the device is suspended. -/
  suspended : Bool
  /-- Whether the device runs again and playback from the suspension is
  yet to be handled. -/
  resuming : Bool

namespace Capture

variable {κ : Type} [Canceller κ]

/-- A capture side at work. -/
def create (spec : StreamSpec) (canceller : κ) : Capture κ :=
  { spec
    pairing := Pairing.create spec canceller
    received := 0
    suspended := false
    resuming := false }

/-- Where the side stands. It reads the clock first, in which a request for a
resync may come up (`Link.readClock`). What is still to be dropped (`Skip`)
counts as waiting on the other tape. -/
def timing (c : Capture κ) (link : Link) : CaptureTiming × Link :=
  let (now, link) := link.readClock
  let latency := link.latencyFrom link.captureLatency
  ({ now
     latency := latency.usec
     delay := latency.bytes
     received := c.received
     captureLength := c.pairing.captured.length + c.pairing.skip.sink
     playbackLength := c.pairing.played.length + c.pairing.skip.source }, link)

/-- Sets the skip that makes up for an offset (`Skip.correct`). A correction is
counted if it asks for a skip at all. -/
def correct (c : Capture κ) (link : Link) (usec : Int) : Capture κ × Link :=
  let (changed, skip) := c.pairing.skip.correct c.spec usec
  ({ c with pairing := { c.pairing with skip } },
    if changed then link.count (·.addCorrections 1) else link)

/-- Carries out the resync that playback timing was taken for, unless it is out
of date: the `epoch` has to be the present one. A request that comes up
meanwhile stays pending. -/
def resync (c : Capture κ) (link : Link) (epoch : Nat) (playback : PlaybackTiming) :
    Capture κ × Link :=
  if c.suspended || !link.resyncPending || epoch != link.epoch then (c, link)
  else
    let (capture, link) := c.timing { link with resyncPending := false }
    let (c, link) := c.correct link (offset c.spec playback capture)
    let link := link.count (·.addResyncs 1)
    (c, if link.epoch != epoch then link.rearmResync else link)

/-- Receives a rendered block. Audio the tape has no room for is lost, but it is
counted as `received` all the same. During a suspension nothing is kept on the
tape. -/
def receive (c : Capture κ) (block : Block) : Capture κ :=
  let played :=
    if c.suspended then c.pairing.played.flush true
    else match c.pairing.played.append block with
      | .ok played => played
      | .error _ => c.pairing.played
  { c with pairing := { c.pairing with played }, received := c.received + block.size }

/-- Takes back rendered audio that was not played: the write head of the tape
goes back, though never behind the read head (`Tape.seek`). -/
def takeBack (c : Capture κ) (bytes : Nat) : Capture κ :=
  let played :=
    if c.suspended then c.pairing.played.flush true
    else c.pairing.played.seek (-Word.signed bytes) true
  { c with pairing := { c.pairing with played }, received := c.received - Word.signed bytes }

/-- Follows a change of the device's state. A suspension throws away what waits
(`Pairing.flush`); a start is remembered in `resuming` until the messages are
handled. -/
def follow (c : Capture κ) : DeviceState → Capture κ
  | .suspended => { c with suspended := true, resuming := false, pairing := c.pairing.flush }
  | .running => if c.suspended then { c with resuming := true } else c

/-- Handles a message. Those of the playback side change the tape or realign the
streams, those of the control side ask, correct or tell of the device. -/
def handle (c : Capture κ) (link : Link) : CaptureMessage → Capture κ × Link
  | .rendered block => (c.receive block, link)
  | .rewound bytes => (c.takeBack bytes, link)
  | .timingRequest _ => (c, (c.timing link).2)
  | .correct usec => c.correct link usec
  | .playbackTiming epoch timing => c.resync link epoch timing
  | .device state => (c.follow state, link)

/-- Handles messages in order, each with the link that the one before it left
(`Capture.handle`). -/
def handleAll (c : Capture κ) (link : Link) (messages : List CaptureMessage) : Capture κ × Link :=
  messages.foldl (fun (side : Capture κ × Link) message => side.1.handle side.2 message) (c, link)

/-- The answer to a message, if it is a question (`timingRequest`). Whoever
asked may have stopped waiting. -/
def reply? (c : Capture κ) (link : Link) : CaptureMessage → Option (Reply CaptureTiming)
  | .timingRequest ticket => some ⟨ticket, (c.timing link).1⟩
  | _ => none

/-- The answers given while messages are handled in order, each by the side as
it is then. -/
def replies (c : Capture κ) (link : Link) : List CaptureMessage → List (Reply CaptureTiming)
  | [] => []
  | message :: rest =>
      let (after, link') := c.handle link message
      (c.reply? link message).toList ++ replies after link' rest

omit [Canceller κ] in
/-- Answers are given as the messages are handled: `replies` to `first` and
`rest` together are those to `first`, and those to `rest` behind it. -/
theorem replies_append (c : Capture κ) (link : Link) (first rest : List CaptureMessage) :
    c.replies link (first ++ rest)
      = c.replies link first
        ++ (c.handleAll link first).1.replies (c.handleAll link first).2 rest := by
  induction first generalizing c link with
  | nil => rfl
  | cons message first ih =>
      let after := c.handle link message
      show (c.reply? link message).toList ++ after.1.replies after.2 (first ++ rest) = _
      rw [ih, ← List.append_assoc]
      rfl

/-- Goes back to work after a suspension, once what was queued during it has
been handled. That asks for a resync, as no audio was kept in the meantime. -/
def resume (c : Capture κ) (link : Link) : Capture κ × Link :=
  if c.resuming then ({ c with suspended := false, resuming := false }, link.requestResync)
  else (c, link)

/-- Puts captured audio on the tape. Audio the tape has no room for is lost, and
so is a block of parts of frames (`Tape.append`). -/
def accept (c : Capture κ) (block : Block) : Capture κ :=
  match c.pairing.captured.append block with
  | .ok captured => { c with pairing := { c.pairing with captured } }
  | .error _ => c

/-- Works off the captured audio (`Pairing.drive`), and counts the events. -/
def process (c : Capture κ) (link : Link) : List Event × Capture κ × Link :=
  let (events, pairing) := c.pairing.drive
  (events, { c with pairing }, link.count fun counters => events.foldl Counters.record counters)

/-- Goes back by `n` captured bytes that are going to come again. The playback
they were paired with is taken up again, as far as it is kept (`Tape.rewind`). -/
def rewind (c : Capture κ) (n : Nat) : Capture κ :=
  { c with
    pairing :=
      { c.pairing with
        played := (c.pairing.played.rewind n).2
        captured := c.pairing.captured.seek (-Word.signed n) true } }

end Capture

end EchoAlign
