import EchoAlign.Mailbox
import EchoAlign.Align.Link
import EchoAlign.Align.Message
import EchoAlign.Endpoint.Producer

/-!
# `EchoAlign.Session.Playback`: the playback side

The playback side makes audio for its device and sends a reference of
each block to the capture side. Only blocks that the data mailbox has
taken count as sent.

While a resync is pending, playback timing follows a rendered block,
once for each request. When audio is to be had again after an underrun,
the side asks for a resync.
-/

set_option autoImplicit false

namespace EchoAlign

/-- The playback side of a session, around a `producer`. -/
structure Playback (υ : Type) where
  producer : υ
  /-- Bytes sent to the capture side, less those rewound. -/
  sent : Int
  /-- Whether the last block was short of audio. -/
  inUnderrun : Bool
  /-- The request that timing was last sent for. -/
  timingEpoch? : Option Nat

/-- The playback side together with what it acts on: the `link` and the mailbox
`data` to the capture side. -/
structure PlaybackScene (υ : Type) where
  playback : Playback υ
  link : Link
  data : Mailbox CaptureMessage

namespace Playback

variable {υ : Type} [Producer υ]

/-- A playback side that has made nothing yet. -/
def create (producer : υ) : Playback υ := ⟨producer, 0, false, none⟩

/-- Where the side stands. It reads the clock first, in which a request for a
resync may come up (`Link.readClock`). -/
def timing (p : Playback υ) (link : Link) : PlaybackTiming × Link :=
  let (now, link) := link.readClock
  let latency := link.latencyFrom link.playbackLatency
  ({ now
     latency := latency.usec
     delay := latency.bytes
     sent := p.sent }, link)

/-- Follows whether a block was short of audio: the start of an underrun
is counted, and its end asks for a resync. -/
def noteUnderrun (p : Playback υ) (link : Link) (underrun : Nat) : Playback υ × Link :=
  if 0 < underrun then
    if p.inUnderrun then (p, link)
    else ({ p with inUnderrun := true }, link.count (·.addUnderruns 1))
  else if p.inUnderrun then ({ p with inUnderrun := false }, link.requestResync)
  else (p, link)

/-- Handles a message. A suspension ends whatever underrun there was. -/
def handle (p : Playback υ) (link : Link) : PlaybackMessage → Playback υ × Link
  | .timingRequest _ => (p, (p.timing link).2)
  | .device .suspended => ({ p with inUnderrun := false }, link)
  | .device .running => (p, link)

/-- Handles messages in order (`Playback.handle`), each with the link that the
one before it left. -/
def handleAll (p : Playback υ) (link : Link) (messages : List PlaybackMessage) :
    Playback υ × Link :=
  messages.foldl (fun (side : Playback υ × Link) message => side.1.handle side.2 message) (p, link)

/-- The answer to a message, if it is a question (`timingRequest`). Whoever
asked may have stopped waiting. -/
def reply? (p : Playback υ) (link : Link) : PlaybackMessage → Option (Reply PlaybackTiming)
  | .timingRequest ticket => some ⟨ticket, (p.timing link).1⟩
  | _ => none

/-- The answers given while messages are handled in order, each by the side as
it is then. -/
def replies (p : Playback υ) (link : Link) : List PlaybackMessage → List (Reply PlaybackTiming)
  | [] => []
  | message :: rest =>
      let (after, link') := p.handle link message
      (p.reply? link message).toList ++ replies after link' rest

end Playback

namespace PlaybackScene

variable {υ : Type} [Producer υ]

/-- Posts a message to the capture side. A lost message is counted. -/
def post (s : PlaybackScene υ) (message : CaptureMessage) : Bool × PlaybackScene υ :=
  let (kept, data) := s.data.post message
  (kept, { s with
    data
    link := if kept then s.link else s.link.count (·.addPostsDropped 1) })

/-- Sends a reference of a rendered block. It counts as `sent` only if the
mailbox took it. -/
def send (s : PlaybackScene υ) (block : Block) : PlaybackScene υ :=
  let (kept, s) := s.post (.rendered block)
  if kept then { s with playback := { s.playback with sent := s.playback.sent + block.size } }
  else s

/-- Sends timing for a pending resync, unless it has been sent for this request
(`timingEpoch?`). If it is lost, it is sent again behind the next block. -/
def sendTiming (s : PlaybackScene υ) : PlaybackScene υ :=
  let epoch := s.link.epoch
  if !s.link.resyncPending || s.playback.timingEpoch? == some epoch then s
  else
    let (timing, link) := s.playback.timing s.link
    let (kept, s) := { s with link }.post (.playbackTiming epoch timing)
    if kept then { s with playback := { s.playback with timingEpoch? := some epoch } } else s

/-- Makes the next `n` bytes for the device, sends them to the capture side
(`send`), and behind them timing if it is due (`sendTiming`). -/
def render (s : PlaybackScene υ) (n : Nat) : Block × PlaybackScene υ :=
  let (rendered, producer) := Producer.render s.playback.producer n
  let (playback, link) := { s.playback with producer }.noteUnderrun s.link rendered.underrun
  (rendered.block, ({ s with playback, link }.send rendered.block).sendTiming)

/-- Takes back `n` rendered bytes that the device did not play. The producer
goes back in any case, the count `sent` only if the capture side is told. -/
def rewind (s : PlaybackScene υ) (n : Nat) : PlaybackScene υ :=
  let playback := { s.playback with producer := Producer.rewind s.playback.producer n }
  let (kept, s) := { s with playback }.post (.rewound n)
  if kept then { s with playback := { s.playback with sent := s.playback.sent - Word.signed n } }
  else s

end PlaybackScene

end EchoAlign
