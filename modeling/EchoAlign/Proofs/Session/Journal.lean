import EchoAlign.Session.Run

/-!
# `EchoAlign.Proofs.Session.Journal`: what happens inside a session

The trace of a session tells what becomes of the audio. Its journal tells
more: the messages that the sides exchange, the requests for a resync and
what comes of them, and the audio a tape has no room for, all in the
order in which they happen.

The journal of an operation is put together like the operation itself:
each function of the model that can cause entries has the function of
the same name, with `Entries` behind it.

* `Session.journal`, `Session.journalOf`: the journal of an operation and
  of a run.
* `Session.events_journalOf`: the events in a journal are the trace.
-/

set_option autoImplicit false

namespace EchoAlign

/-- One thing that happens inside a session. The trace of `Session.perform`
tells only of what an `Entry.event` holds; the other constructors stand for what
goes unseen: messages taken, lost and handled, timing taken, requests made and
resyncs begun. -/
inductive Entry where
  /-- The trace tells of it. -/
  | event (event : Event)
  /-- A resync was asked for. -/
  | requested
  /-- The playback side took its timing for the request of this number,
  to send it. -/
  | timed (epoch : Nat) (timing : PlaybackTiming)
  /-- The data mailbox took a message. -/
  | sent (message : CaptureMessage)
  /-- The data mailbox was full or closed, and a message was lost. -/
  | lost (message : CaptureMessage)
  /-- The capture side got hold of a message, after so many playback
  bytes. -/
  | handled (message : CaptureMessage) (received : Int)
  /-- A resync was begun against playback timing. -/
  | resynced (epoch : Nat) (timing : PlaybackTiming)
  /-- A tape of the capture side did not take a block: that of captured
  audio (`input`), or that of played audio (`output`). -/
  | refused (direction : Direction) (block : Block)

namespace Entry

/-- The event that an entry stands for, if it is an `Entry.event`.
`filterMap Entry.event?` turns a journal into the trace that `Session.run`
returns. -/
def event? : Entry → Option Event
  | event e => some e
  | _ => none

/-- Whether a resync was asked for, by `Session.requestResync` or from within. -/
def isRequest : Entry → Bool
  | requested => true
  | _ => false

/-- Whether a resync was begun, that is, whether `Capture.resync` went on to
`Capture.correct`. -/
def isResync : Entry → Bool
  | resynced _ _ => true
  | _ => false

/-- The epoch and the playback timing in a `.playbackTiming` message that the
data mailbox took. -/
def sentTiming? : Entry → Option (Nat × PlaybackTiming)
  | sent (.playbackTiming epoch timing) => some (epoch, timing)
  | _ => none

end Entry

/-- A reading of the clock may bring a request: `Link.readClock` raises one when
the clock `interrupts`. -/
def Link.readEntries (l : Link) : List Entry :=
  if l.clock.interrupts then [.requested] else []

namespace Capture

variable {κ : Type} [Canceller κ]

/-- The refusal of a block that a tape has no room for, where `Tape.append`
gives an error. -/
def appendEntries (tape : Tape) (direction : Direction) (block : Block) : List Entry :=
  match tape.append block with
  | .ok _ => []
  | .error _ => [.refused direction block]

/-- What a resync brings: nothing under the same three guards as in
`Capture.resync`, and otherwise an `Entry.resynced` and the reading of the
clock. -/
def resyncEntries (c : Capture κ) (link : Link) (epoch : Nat) (playback : PlaybackTiming) :
    List Entry :=
  if c.suspended || !link.resyncPending || epoch != link.epoch then []
  else .resynced epoch playback :: link.readEntries

/-- What the arrival of rendered audio brings: a `suspended` side throws the
block away unseen, otherwise the played tape may refuse it. -/
def receiveEntries (c : Capture κ) (block : Block) : List Entry :=
  if c.suspended then [] else appendEntries c.pairing.played .output block

/-- What the handling of a message brings: first an `Entry.handled` with the
bytes received so far, then what `Capture.handle` does with a message of this
kind. -/
def handleEntries (c : Capture κ) (link : Link) (message : CaptureMessage) : List Entry :=
  .handled message c.received ::
    match message with
    | .rendered block => c.receiveEntries block
    | .timingRequest _ => link.readEntries
    | .playbackTiming epoch timing => c.resyncEntries link epoch timing
    | _ => []

/-- What the handling of several messages brings, one behind the other,
following `Capture.handleAll`. -/
def handleAllEntries (c : Capture κ) (link : Link) : List CaptureMessage → List Entry
  | [] => []
  | message :: rest =>
      let (after, link') := c.handle link message
      c.handleEntries link message ++ handleAllEntries after link' rest

/-- What the resumption at the end of a tick brings: a request if the side is
`resuming`, as `Capture.resume` makes one. -/
def resumeEntries (c : Capture κ) : List Entry := if c.resuming then [.requested] else []

/-- What the arrival of captured audio brings: the captured tape may refuse it,
in the `input` direction. -/
def acceptEntries (c : Capture κ) (block : Block) : List Entry :=
  appendEntries c.pairing.captured .input block

end Capture

namespace Playback

variable {υ : Type} [Producer υ]

/-- What an underrun brings: a request when it is the one that ends, as in
`Playback.noteUnderrun`. -/
def noteUnderrunEntries (p : Playback υ) (underrun : Nat) : List Entry :=
  if underrun = 0 ∧ p.inUnderrun = true then [.requested] else []

/-- What the handling of a message brings on the playback side: only a question
for timing reads the clock (`readEntries`). -/
def handleEntries (link : Link) : PlaybackMessage → List Entry
  | .timingRequest _ => link.readEntries
  | .device _ => []

/-- What the handling of several messages brings on the playback side, one
behind the other, following `Playback.handleAll`. -/
def handleAllEntries (p : Playback υ) (link : Link) : List PlaybackMessage → List Entry
  | [] => []
  | message :: rest =>
      let (after, link') := p.handle link message
      handleEntries link message ++ handleAllEntries after link' rest

end Playback

namespace PlaybackScene

variable {υ : Type} [Producer υ]

/-- What a post to the data mailbox brings: `Entry.sent` if `hasRoom`, and
`Entry.lost` otherwise. -/
def postEntries (s : PlaybackScene υ) (message : CaptureMessage) : List Entry :=
  [if s.data.hasRoom then .sent message else .lost message]

/-- What becomes of a pending resync on the playback side: timing is taken and
posted unless it was for this epoch already, following
`PlaybackScene.sendTiming`. -/
def sendTimingEntries (s : PlaybackScene υ) : List Entry :=
  let epoch := s.link.epoch
  if !s.link.resyncPending || s.playback.timingEpoch? == some epoch then []
  else
    let (timing, link) := s.playback.timing s.link
    .timed epoch timing ::
      (s.link.readEntries ++ { s with link }.postEntries (.playbackTiming epoch timing))

/-- Makes the next `n` bytes for the device, and sends no timing.
`PlaybackScene.render` is `play` followed by `sendTiming`. -/
def play (s : PlaybackScene υ) (n : Nat) : Block × PlaybackScene υ :=
  let (rendered, producer) := Producer.render s.playback.producer n
  let (playback, link) := { s.playback with producer }.noteUnderrun s.link rendered.underrun
  (rendered.block, { s with playback, link }.send rendered.block)

/-- What `PlaybackScene.play` brings: a request of an underrun that ends, the
block that was made, and its post to the capture side. -/
def playEntries (s : PlaybackScene υ) (n : Nat) : List Entry :=
  let rendered := (Producer.render s.playback.producer n).1
  s.playback.noteUnderrunEntries rendered.underrun
    ++ .event (.rendered rendered.block) :: s.postEntries (.rendered rendered.block)

/-- What `PlaybackScene.render` brings: what `play` brings, and then what
sending the timing brings. -/
def renderEntries (s : PlaybackScene υ) (n : Nat) : List Entry :=
  s.playEntries n ++ (s.play n).2.sendTimingEntries

end PlaybackScene

namespace Session

variable {κ υ : Type} [Canceller κ] [Producer υ]

/-- What comes of the messages that a capture tick takes from the two mailboxes,
and of the resumption behind them, following `Session.drainCapture`. -/
def drainCaptureEntries (s : Session κ υ) (capture : Capture κ) : List Entry :=
  let control := (s.captureControl.drain s.drainLimit).1
  let data := (s.data.drain s.drainLimit).1
  let (after, link) := capture.handleAll s.link control
  capture.handleAllEntries s.link control ++ after.handleAllEntries link data
    ++ (after.handleAll link data).1.resumeEntries

/-- What a capture tick brings: nothing while the endpoints are not linked, and
otherwise the messages, the new block and the events of `Session.push`. -/
def pushEntries (s : Session κ υ) (block : Block) : List Entry :=
  match s.capture? with
  | none => []
  | some capture =>
      if !s.link.linked then []
      else
        s.drainCaptureEntries capture ++ (s.drainCapture capture).1.acceptEntries block
          ++ (s.push block).1.map .event

/-- What comes of the messages that a playback tick takes from its control
mailbox, up to `drainLimit` of them. -/
def drainPlaybackEntries (s : Session κ υ) (playback : Playback υ) : List Entry :=
  playback.handleAllEntries s.link (s.playbackControl.drain s.drainLimit).1

/-- What a playback tick brings: silence while the endpoints are not linked, and
otherwise what `PlaybackScene.render` brings behind the messages. -/
def renderEntries (s : Session κ υ) (n : Nat) : List Entry :=
  match s.playback? with
  | none => []
  | some playback =>
      if !s.link.linked then [.event (.rendered (Block.silence n))]
      else
        let scene : PlaybackScene υ := ⟨playback, s.link, s.data⟩
        let after := (scene.render n).2
        scene.renderEntries n
          ++ ({ s with link := after.link, data := after.data }).drainPlaybackEntries after.playback

/-- What a rewind of the playback side brings: the post of a `.rewound` message,
if there is anything to take back and anyone to tell. -/
def rewindPlaybackEntries (s : Session κ υ) (n : Nat) : List Entry :=
  match s.playback? with
  | none => []
  | some playback =>
      if !s.link.linked || n == 0 then []
      else PlaybackScene.postEntries ⟨playback, s.link, s.data⟩ (.rewound n)

/-- What asking for a resync brings: an `Entry.requested` as long as the session
is `controlled`. -/
def requestResyncEntries (s : Session κ υ) : List Entry :=
  if s.controlled then [.requested] else []

/-- What a report on a device brings: a request when the device has just started
running, and nothing when its state was known, following `Session.reportDevice`. -/
def reportDeviceEntries (s : Session κ υ) (direction : Direction) (running : Bool) : List Entry :=
  if !s.controlled then []
  else
    let known := match direction with
      | .input => s.link.captureActive
      | .output => s.link.playbackActive
    if known == running || !running then [] else [.requested]

/-- What taking the timing of the playback side brings: its side must be there
for the clock to be read (`readEntries`). -/
def playbackTimingEntries (s : Session κ υ) : List Entry :=
  if s.playback?.isSome then s.link.readEntries else []

/-- What taking the timing of the capture side brings: its side must be there
for the clock to be read (`readEntries`). -/
def captureTimingEntries (s : Session κ υ) : List Entry :=
  if s.capture?.isSome then s.link.readEntries else []

/-- What an inspection brings: the playback side is asked first, and the capture
side is asked in the state after that, as in `Session.inspect`. -/
def inspectEntries (s : Session κ υ) (asked : Sides) : List Entry :=
  let after := if asked.playback then s.playbackTiming.2 else s
  (if asked.playback then s.playbackTimingEntries else [])
    ++ (if asked.capture then after.captureTimingEntries else [])

/-- What happens inside while one operation is performed. `events_journal` says
that the trace of `Session.perform` is what `Entry.event?` sees of it. -/
def journal (s : Session κ υ) : Operation → List Entry
  | .push block => s.pushEntries block
  | .render bytes => s.renderEntries bytes
  | .rewindPlayback bytes => s.rewindPlaybackEntries bytes
  | .reportDevice direction running => s.reportDeviceEntries direction running
  | .requestResync => s.requestResyncEntries
  | .inspect asked => s.inspectEntries asked ++ (s.inspect asked).1.map .event
  | operation => (s.perform operation).1.map .event

/-- What happens inside during a run, one `Session.journal` behind the other.
`events_journalOf` says that the trace of `Session.run` is what `Entry.event?`
sees of it. -/
def journalOf (s : Session κ υ) : List Operation → List Entry
  | [] => []
  | operation :: rest => s.journal operation ++ (s.perform operation).2.journalOf rest

end Session

/-! ### What entries there are -/

/-- A reading of the clock brings nothing but requests (`requested`). -/
theorem mem_readEntries {l : Link} {entry : Entry} (h : entry ∈ l.readEntries) :
    entry = .requested := by
  unfold Link.readEntries at h
  split at h
  · exact List.mem_singleton.mp h
  · cases h

/-- What `appendEntries` tells is that a block was refused, if it tells
anything. -/
theorem Capture.mem_appendEntries {tape : Tape} {direction : Direction} {block : Block}
    {entry : Entry} (h : entry ∈ appendEntries tape direction block) :
    entry = .refused direction block := by
  unfold appendEntries at h
  split at h
  · cases h
  · exact List.mem_singleton.mp h

/-- Handling a message leaves few traces besides the message itself, the entry
`.handled message c.received`: a request, the refusal of a rendered block, or
the start of a resync with the timing in the message. -/
theorem Capture.mem_handleEntries {κ : Type} {c : Capture κ} {link : Link}
    {message : CaptureMessage} {entry : Entry} (h : entry ∈ c.handleEntries link message) :
    entry = .handled message c.received ∨ entry = .requested
      ∨ (∃ block, message = .rendered block ∧ entry = .refused .output block)
      ∨ ∃ epoch timing, message = .playbackTiming epoch timing
          ∧ entry = .resynced epoch timing := by
  rcases List.mem_cons.mp h with h | h
  · exact Or.inl h
  · cases message with
    | rendered block =>
        simp only [receiveEntries] at h
        split at h
        · cases h
        · exact Or.inr (Or.inr (Or.inl ⟨block, rfl, mem_appendEntries h⟩))
    | timingRequest ticket => exact Or.inr (Or.inl (mem_readEntries h))
    | playbackTiming epoch timing =>
        simp only [resyncEntries] at h
        split at h
        · cases h
        · rcases List.mem_cons.mp h with h | h
          · exact Or.inr (Or.inr (Or.inr ⟨epoch, timing, rfl, h⟩))
          · exact Or.inr (Or.inl (mem_readEntries h))
    | rewound bytes => cases h
    | correct usec => cases h
    | device state => cases h

/-- Handling a message on the playback side brings nothing but requests, from a
reading of the clock (`mem_readEntries`). -/
theorem Playback.mem_handleEntries {link : Link} {message : PlaybackMessage} {entry : Entry}
    (h : entry ∈ handleEntries link message) : entry = .requested := by
  cases message with
  | timingRequest ticket => exact mem_readEntries h
  | device state => cases h

namespace PlaybackScene

variable {υ : Type} {s : PlaybackScene υ} {entry : Entry}

/-- A post is either taken or lost: the entry is `sent` or `lost`. -/
theorem mem_postEntries {message : CaptureMessage} (h : entry ∈ s.postEntries message) :
    entry = .sent message ∨ entry = .lost message := by
  unfold postEntries at h
  split at h
  · exact Or.inl (List.mem_singleton.mp h)
  · exact Or.inr (List.mem_singleton.mp h)

/-- Sending timing brings requests, and timing that is `timed`, posted and
perhaps lost. -/
theorem mem_sendTimingEntries (h : entry ∈ s.sendTimingEntries) :
    entry = .requested ∨ ∃ epoch timing, entry = .timed epoch timing
      ∨ entry = .sent (.playbackTiming epoch timing)
      ∨ entry = .lost (.playbackTiming epoch timing) := by
  unfold sendTimingEntries at h
  simp only at h
  split at h
  · cases h
  · rcases List.mem_cons.mp h with h | h
    · exact Or.inr ⟨_, _, Or.inl h⟩
    · rcases List.mem_append.mp h with h | h
      · exact Or.inl (mem_readEntries h)
      · exact Or.inr ⟨_, _, Or.inr (mem_postEntries h)⟩

/-- Playing brings requests, and a block that is `rendered`, posted and perhaps
lost. -/
theorem mem_playEntries [Producer υ] {n : Nat} (h : entry ∈ s.playEntries n) :
    entry = .requested ∨ ∃ block, entry = .event (.rendered block)
      ∨ entry = .sent (.rendered block) ∨ entry = .lost (.rendered block) := by
  rcases List.mem_append.mp h with h | h
  · unfold Playback.noteUnderrunEntries at h
    split at h
    · exact Or.inl (List.mem_singleton.mp h)
    · cases h
  · rcases List.mem_cons.mp h with h | h
    · exact Or.inr ⟨_, Or.inl h⟩
    · exact Or.inr ⟨_, Or.inr (mem_postEntries h)⟩

end PlaybackScene

/-! ### The events in a journal are the trace

Everything but the entries made from the trace is no event. -/

/-- Wrapping events as entries and looking for the events with `Entry.event?`
gives them back. -/
theorem events_map_event (events : List Event) :
    (events.map Entry.event).filterMap Entry.event? = events := by
  rw [List.filterMap_map, show Entry.event? ∘ Entry.event = some from rfl, List.filterMap_some]

/-- The trace does not tell of readings of the clock: `requested` is no event. -/
@[simp]
theorem events_readEntries (l : Link) : l.readEntries.filterMap Entry.event? = [] := by
  unfold Link.readEntries
  split <;> rfl

namespace Capture

variable {κ : Type} [Canceller κ]

/-- The trace does not tell of refusals: `refused` is no event. -/
@[simp]
theorem events_appendEntries (tape : Tape) (direction : Direction) (block : Block) :
    (appendEntries tape direction block).filterMap Entry.event? = [] := by
  unfold appendEntries
  split <;> rfl

omit [Canceller κ] in
/-- The trace does not tell of messages that are handled on the capture side. By
cases on the message: what `handleEntries` tells besides `Entry.handled` is a
refusal, a request or the start of a resync. -/
@[simp]
theorem events_handleEntries (c : Capture κ) (link : Link) (message : CaptureMessage) :
    (c.handleEntries link message).filterMap Entry.event? = [] := by
  cases message with
  | rendered block =>
      simp only [handleEntries, receiveEntries]
      split
      · rfl
      · exact events_appendEntries ..
  | timingRequest ticket => exact events_readEntries link
  | playbackTiming epoch timing =>
      simp only [handleEntries, resyncEntries]
      split
      · rfl
      · exact events_readEntries link
  | rewound bytes => rfl
  | correct usec => rfl
  | device state => rfl

omit [Canceller κ] in
/-- The trace does not tell of any number of messages handled on the capture
side, by induction on the messages with `events_handleEntries`. -/
@[simp]
theorem events_handleAllEntries (c : Capture κ) (link : Link) (messages : List CaptureMessage) :
    (c.handleAllEntries link messages).filterMap Entry.event? = [] := by
  induction messages generalizing c link with
  | nil => rfl
  | cons message rest ih => simp [handleAllEntries, ih]

omit [Canceller κ] in
/-- The trace does not tell of the request that a resumption makes: `requested`
is no event. -/
@[simp]
theorem events_resumeEntries (c : Capture κ) : c.resumeEntries.filterMap Entry.event? = [] := by
  unfold resumeEntries
  split <;> rfl

end Capture

namespace Playback

variable {υ : Type} [Producer υ]

omit [Producer υ] in
/-- The trace does not tell of the request that an underrun makes: `requested`
is no event. -/
@[simp]
theorem events_noteUnderrunEntries (p : Playback υ) (underrun : Nat) :
    (p.noteUnderrunEntries underrun).filterMap Entry.event? = [] := by
  unfold noteUnderrunEntries
  split <;> rfl

/-- The trace does not tell of messages that are handled on the playback side,
as they only read the clock (`events_readEntries`). -/
@[simp]
theorem events_handleEntries (link : Link) (message : PlaybackMessage) :
    (handleEntries link message).filterMap Entry.event? = [] := by
  cases message with
  | timingRequest ticket => exact events_readEntries link
  | device state => rfl

omit [Producer υ] in
/-- The trace does not tell of any number of messages handled on the playback
side, by induction on the messages, with `events_handleEntries` for each. -/
@[simp]
theorem events_handleAllEntries (p : Playback υ) (link : Link) (messages : List PlaybackMessage) :
    (p.handleAllEntries link messages).filterMap Entry.event? = [] := by
  induction messages generalizing p link with
  | nil => rfl
  | cons message rest ih => simp [handleAllEntries, ih]

end Playback

namespace PlaybackScene

variable {υ : Type} [Producer υ]

omit [Producer υ] in
/-- The trace does not tell of posts: neither `sent` nor `lost` is an event. -/
@[simp]
theorem events_postEntries (s : PlaybackScene υ) (message : CaptureMessage) :
    (s.postEntries message).filterMap Entry.event? = [] := by
  unfold postEntries
  split <;> rfl

omit [Producer υ] in
/-- The trace does not tell of timing that is sent: neither `timed` nor what
`postEntries` brings is an event. -/
@[simp]
theorem events_sendTimingEntries (s : PlaybackScene υ) :
    s.sendTimingEntries.filterMap Entry.event? = [] := by
  unfold sendTimingEntries
  simp only
  split
  · rfl
  · rw [List.filterMap_cons_none rfl, List.filterMap_append, events_readEntries,
      events_postEntries, List.append_nil]

/-- Of all that happens while audio is made, the trace tells the block that
`PlaybackScene.play` returns. -/
@[simp]
theorem events_playEntries (s : PlaybackScene υ) (n : Nat) :
    (s.playEntries n).filterMap Entry.event? = [.rendered (s.play n).1] := by
  simp only [playEntries, List.filterMap_append, List.filterMap_cons,
    Playback.events_noteUnderrunEntries, events_postEntries, Entry.event?]
  rfl

/-- Of all that happens in `PlaybackScene.render`, the trace tells the block
that it returns. -/
theorem events_renderEntries (s : PlaybackScene υ) (n : Nat) :
    (s.renderEntries n).filterMap Entry.event? = [.rendered (s.render n).1] := by
  rw [renderEntries, List.filterMap_append, events_playEntries, events_sendTimingEntries]
  rfl

end PlaybackScene

namespace Session

variable {κ υ : Type} [Canceller κ] [Producer υ]

omit [Canceller κ] [Producer υ] in
/-- The trace does not tell of what a capture tick does before its block comes
in: `drainCapture` only handles messages. -/
theorem events_drainCaptureEntries (s : Session κ υ) (c : Capture κ) :
    (s.drainCaptureEntries c).filterMap Entry.event? = [] := by
  simp [drainCaptureEntries]

omit [Canceller κ] [Producer υ] in
/-- The trace tells nothing of what the capture side takes in, messages and new
block together. What it tells of a tick is what `Session.push` works off behind
that. -/
theorem events_takeInEntries (s : Session κ υ) (c : Capture κ) (block : Block) :
    (s.drainCaptureEntries c ++ (s.drainCapture c).1.acceptEntries block).filterMap Entry.event?
      = [] := by
  have haccept : ((s.drainCapture c).1.acceptEntries block).filterMap Entry.event? = [] :=
    Capture.events_appendEntries ..
  rw [List.filterMap_append, haccept, events_drainCaptureEntries]
  rfl

omit [Producer υ] in
/-- The journal of a capture tick holds the events of `Session.push`. -/
theorem events_pushEntries (s : Session κ υ) (block : Block) :
    (s.pushEntries block).filterMap Entry.event? = (s.push block).1 := by
  unfold pushEntries
  cases hc : s.capture? with
  | none => simp [push, hc]
  | some capture =>
      cases hl : s.link.linked with
      | false => simp [push, hc, hl]
      | true =>
          -- Only what is worked off is in the trace.
          show (_ ++ _ ++ (s.push block).1.map .event).filterMap Entry.event? = _
          rw [List.filterMap_append, s.events_takeInEntries, events_map_event]
          rfl

omit [Canceller κ] in
/-- The journal of a playback tick holds the events of `Session.render`. -/
theorem events_renderEntries (s : Session κ υ) (n : Nat) :
    (s.renderEntries n).filterMap Entry.event? = (s.render n).1 := by
  unfold renderEntries
  cases hp : s.playback? with
  | none => simp [render, hp]
  | some playback =>
      cases hl : s.link.linked with
      | false => simp [render, hp, hl, Entry.event?]
      | true =>
          simp [render, hp, hl, drainPlaybackEntries, PlaybackScene.events_renderEntries]

omit [Canceller κ] [Producer υ] in
/-- All that the start of a drift check tells is what the check has come to
(`checked`), if it has come to an end. -/
theorem mem_startCheck {s : Session κ υ} {event : Event} (h : event ∈ s.startCheck.1) :
    ∃ outcome, event = .checked outcome := by
  unfold startCheck at h
  split at h
  · cases h
  · split at h
    · exact ⟨_, List.mem_singleton.mp h⟩
    · obtain ⟨outcome, -, rfl⟩ := List.mem_map.mp h
      exact ⟨outcome, rfl⟩

omit [Canceller κ] [Producer υ] in
/-- All that the further course of a drift check tells is what the check has
come to (`checked`), if it has come to an end. -/
theorem mem_continueCheck {s : Session κ υ} {event : Event} (h : event ∈ s.continueCheck.1) :
    ∃ outcome, event = .checked outcome := by
  unfold continueCheck at h
  split at h
  · cases h
  · obtain ⟨outcome, -, rfl⟩ := List.mem_map.mp h
    exact ⟨outcome, rfl⟩

omit [Canceller κ] [Producer υ] in
/-- The trace does not tell of readings that an inspection takes. Each side that
is asked reads its clock, by `events_readEntries`. -/
theorem events_inspectEntries (s : Session κ υ) (asked : Sides) :
    (s.inspectEntries asked).filterMap Entry.event? = [] := by
  have hread : ∀ (present : Bool) (l : Link),
      (if present then l.readEntries else []).filterMap Entry.event? = [] := by
    intro present l
    split
    · exact events_readEntries l
    · rfl
  simp only [inspectEntries, List.filterMap_append, List.append_eq_nil_iff]
  constructor
  · split
    · exact hread ..
    · rfl
  · split
    · exact hread ..
    · rfl

/-- The trace of an operation is in its journal: of the entries in
`Session.journal`, the events are those that `Session.perform` returns, in the
same order. -/
theorem events_journal (s : Session κ υ) (operation : Operation) :
    (s.journal operation).filterMap Entry.event? = (s.perform operation).1 := by
  cases operation with
  | push block => exact s.events_pushEntries block
  | render bytes => exact s.events_renderEntries bytes
  | rewindPlayback bytes =>
      show (s.rewindPlaybackEntries bytes).filterMap Entry.event? = []
      unfold rewindPlaybackEntries
      split
      · rfl
      · split
        · rfl
        · exact PlaybackScene.events_postEntries ..
  | reportDevice direction running =>
      show (s.reportDeviceEntries direction running).filterMap Entry.event? = []
      unfold reportDeviceEntries
      split
      · rfl
      · simp only
        split <;> split <;> rfl
  | requestResync =>
      show s.requestResyncEntries.filterMap Entry.event? = []
      unfold requestResyncEntries
      split <;> rfl
  | startCheck => exact events_map_event _
  | continueCheck => exact events_map_event _
  | inspect asked =>
      show (_ ++ (s.inspect asked).1.map .event).filterMap Entry.event? = _
      rw [List.filterMap_append, events_inspectEntries, events_map_event]
      rfl
  | rewindCapture bytes => exact events_map_event _
  | correct usec => exact events_map_event _
  | postCorrection usec => exact events_map_event _
  | shutdown => exact events_map_event _
  | dropControl => exact events_map_event _
  | dropCapture => exact events_map_event _
  | dropPlayback => exact events_map_event _
  | advanceClock usec => exact events_map_event _
  | scheduleRequests readings => exact events_map_event _
  | setLatency direction latency => exact events_map_event _

/-- The trace of a run is in its journal: of the entries in `Session.journalOf`,
the events are those that `Session.run` returns, in the same order. By induction
on the operations with `events_journal`. -/
theorem events_journalOf (s : Session κ υ) (operations : List Operation) :
    (s.journalOf operations).filterMap Entry.event? = (s.run operations).1 := by
  induction operations generalizing s with
  | nil => rfl
  | cons operation rest ih =>
      rw [journalOf, List.filterMap_append, events_journal, ih]
      rfl

/-- The journal of a run in two parts is made of theirs, the second from the
session that `run` leads to. -/
theorem journalOf_append (s : Session κ υ) (first rest : List Operation) :
    s.journalOf (first ++ rest) = s.journalOf first ++ (s.run first).2.journalOf rest := by
  induction first generalizing s with
  | nil => rfl
  | cons operation first ih =>
      rw [List.cons_append, journalOf, ih, journalOf, List.append_assoc]
      rfl

end Session

end EchoAlign
