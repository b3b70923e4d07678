import EchoAlign.Proofs.Session.Backlog
import EchoAlign.Proofs.Session.Start

/-!
# `EchoAlign.Proofs.Session.Plain`: the capture side on plain lists

A `PlainCapture` is the capture side with a `Backlog` in place of the
pairing: what is captured and what is played are lists of bytes, without
history, clips or heads.

* Rendered audio is put behind the list of played bytes, and is lost when
  it is not made of whole frames or there is no room. While the device
  is suspended, the list becomes empty instead.
* A rewind takes bytes off the end of that list, as many as there are.
* A suspension empties both lists.

`Capture.Holds` says that a capture side and a plain one stand at the same
place, and `Holds.handle`, `Holds.accept` and `Holds.process` that they go
on alike.
-/

set_option autoImplicit false

namespace EchoAlign

/-- Puts a block behind bytes that wait, if it is made of whole frames of
`base` bytes and there is room. -/
def appendWithin (base : Nat) (waiting block : List UInt8) : List UInt8 :=
  if block.length % base = 0 ∧ waiting.length + block.length ≤ maxTapeLength then waiting ++ block
  else waiting

/-- Counts what became of captured bytes, as `Counters.record` does for events
of a tape. -/
def Counters.recordFate (c : Counters) : Fate → Counters
  | .skipped captured => c.addSourceSkipped captured.length
  | .cancelled _ _ _ => c.addCancelled 1
  | .passed _ dropped => (c.addSinkSkipped dropped.length).addPassed 1

/-- The capture side on plain lists: a `Capture` whose tapes are replaced by the
two lists of a `Backlog`. -/
structure PlainCapture (κ : Type) where
  spec : StreamSpec
  backlog : Backlog κ
  /-- Playback bytes received, less those rewound. -/
  received : Int
  suspended : Bool
  resuming : Bool

namespace PlainCapture

variable {κ : Type}

/-- A new side has two empty lists. Its frames and blocks are those of
`Capture.create`. -/
def create [Canceller κ] (spec : StreamSpec) (canceller : κ)
    (hpos : 0 < spec.bytesOfFrames (Canceller.blockFrames canceller)) : PlainCapture κ :=
  { spec
    backlog :=
      { base := spec.frameSize
        blockBytes := spec.bytesOfFrames (Canceller.blockFrames canceller)
        pos := hpos
        captured := []
        played := []
        skip := .idle
        canceller }
    received := 0
    suspended := false
    resuming := false }

/-- Where the side stands, for a `CaptureTiming` that goes into an offset. -/
def timing (c : PlainCapture κ) (link : Link) : CaptureTiming × Link :=
  let (now, link) := link.readClock
  let latency := link.latencyFrom link.captureLatency
  ({ now
     latency := latency.usec
     delay := latency.bytes
     received := c.received
     captureLength := c.backlog.captured.length + c.backlog.skip.sink
     playbackLength := c.backlog.played.length + c.backlog.skip.source }, link)

/-- Sets the skip that makes up for an offset, like `Capture.correct`. -/
def correct (c : PlainCapture κ) (link : Link) (usec : Int) : PlainCapture κ × Link :=
  let (changed, skip) := c.backlog.skip.correct c.spec usec
  ({ c with backlog := { c.backlog with skip } },
    if changed then link.count (·.addCorrections 1) else link)

/-- Carries out the resync of the present epoch, under the same guards as
`Capture.resync`. -/
def resync (c : PlainCapture κ) (link : Link) (epoch : Nat) (playback : PlaybackTiming) :
    PlainCapture κ × Link :=
  if c.suspended || !link.resyncPending || epoch != link.epoch then (c, link)
  else
    let (capture, link) := c.timing { link with resyncPending := false }
    let (c, link) := c.correct link (offset c.spec playback capture)
    let link := link.count (·.addResyncs 1)
    (c, if link.epoch != epoch then link.rearmResync else link)

/-- Receives rendered bytes: a `suspended` side throws the list of playback
away. What finds no room is dropped, too (`appendWithin`). -/
def receive (c : PlainCapture κ) (block : List UInt8) : PlainCapture κ :=
  let played := if c.suspended then [] else appendWithin c.backlog.base c.backlog.played block
  { c with backlog := { c.backlog with played }, received := c.received + block.length }

/-- Takes back `n` rendered bytes from the end of the list of playback. -/
def takeBack (c : PlainCapture κ) (n : Nat) : PlainCapture κ :=
  let played :=
    if c.suspended then [] else c.backlog.played.take (c.backlog.played.length - n)
  { c with backlog := { c.backlog with played }, received := c.received - n }

/-- Follows a change of the device's state, like `Capture.follow`: a suspension
empties both lists. -/
def follow (c : PlainCapture κ) : DeviceState → PlainCapture κ
  | .suspended =>
      { c with
        suspended := true
        resuming := false
        backlog := { c.backlog with captured := [], played := [] } }
  | .running => if c.suspended then { c with resuming := true } else c

/-- Handles a message, with one function for each kind as in `Capture.handle`. -/
def handle (c : PlainCapture κ) (link : Link) : CaptureMessage → PlainCapture κ × Link
  | .rendered block => (c.receive block.toList, link)
  | .rewound n => (c.takeBack n, link)
  | .timingRequest _ => (c, (c.timing link).2)
  | .correct usec => c.correct link usec
  | .playbackTiming epoch timing => c.resync link epoch timing
  | .device state => (c.follow state, link)

/-- Handles messages in order with `handle`, and threads the link through. -/
def handleAll (c : PlainCapture κ) (link : Link) : List CaptureMessage → PlainCapture κ × Link
  | [] => (c, link)
  | message :: rest => (c.handle link message).1.handleAll (c.handle link message).2 rest

/-- The answer to a message, if it is a question (`timingRequest`): the timing
of this side under the ticket of the question. -/
def reply? (c : PlainCapture κ) (link : Link) : CaptureMessage → Option (Reply CaptureTiming)
  | .timingRequest ticket => some ⟨ticket, (c.timing link).1⟩
  | _ => none

/-- The answers given while messages are handled in order, by `reply?` in the
state each message meets. -/
def replies (c : PlainCapture κ) (link : Link) : List CaptureMessage → List (Reply CaptureTiming)
  | [] => []
  | message :: rest =>
      (c.reply? link message).toList
        ++ (c.handle link message).1.replies (c.handle link message).2 rest

/-- Goes back to work after a suspension, with a request for a resync
(`requestResync`). -/
def resume (c : PlainCapture κ) (link : Link) : PlainCapture κ × Link :=
  if c.resuming then ({ c with suspended := false, resuming := false }, link.requestResync)
  else (c, link)

/-- Takes captured bytes in, unless `appendWithin` finds no room for them. -/
def accept (c : PlainCapture κ) (block : List UInt8) : PlainCapture κ :=
  { c with
    backlog :=
      { c.backlog with captured := appendWithin c.backlog.base c.backlog.captured block } }

/-- Works off the captured bytes with `Backlog.drive`, and counts their fates. -/
def process [Canceller κ] (c : PlainCapture κ) (link : Link) : List Fate × PlainCapture κ × Link :=
  let (fates, backlog) := c.backlog.drive
  (fates, { c with backlog }, link.count fun counters => fates.foldl Counters.recordFate counters)

end PlainCapture

/-! ### The tapes of a capture side hold the lists of a plain one -/

/-- Audio is put on a tape exactly as `appendWithin` puts it behind a list; a
refusal leaves both as they are. -/
theorem Tape.Holds.appendWithin {t : Tape} {base : Nat} {bytes : List UInt8}
    (h : t.Holds base bytes) (block : Block) :
    (match t.append block with
      | .ok t' => t'
      | .error _ => t).Holds base (appendWithin base bytes block.toList) := by
  unfold EchoAlign.appendWithin
  rw [Block.length_toList]
  by_cases hfits : block.size % base = 0 ∧ bytes.length + block.size ≤ maxTapeLength
  · obtain ⟨t', happend, hholds⟩ := h.append hfits.1 hfits.2
    rw [if_pos hfits, happend]
    exact hholds
  · obtain ⟨e, happend⟩ := h.append_eq_error hfits
    rw [if_neg hfits, happend]
    exact h

namespace Capture

variable {κ : Type}

/-- A capture side stands where a plain one stands: the tapes hold the lists
(`pairing`), and all else is equal. -/
structure Holds (c : Capture κ) (plain : PlainCapture κ) : Prop where
  spec_eq : c.spec = plain.spec
  pairing : c.pairing.Holds plain.backlog
  received_eq : c.received = plain.received
  suspended_eq : c.suspended = plain.suspended
  resuming_eq : c.resuming = plain.resuming

/-- A new capture side holds two empty lists. `hspec` and `hrate` bound the
frame, so that a block fits into a tape. -/
theorem holds_create [Canceller κ] {spec : StreamSpec} {canceller : κ}
    (hspec : spec.validate = .ok ()) (hrate : spec.rate ≤ Settings.maxRate)
    (hpos : 0 < spec.bytesOfFrames (Canceller.blockFrames canceller)) :
    (create spec canceller).Holds (PlainCapture.create spec canceller hpos) := by
  have hbase := StreamSpec.frameSize_pos hspec
  refine ⟨rfl, ⟨rfl, ?_, ?_, rfl, rfl⟩, rfl, rfl, rfl⟩
  · exact Tape.holds_create hbase (Nat.zero_le _)
  · exact Tape.holds_create hbase (StreamSpec.bytesPerSecond_le hspec hrate)

variable {c : Capture κ} {plain : PlainCapture κ}

/-- The side takes the same timing on tapes and on lists, as it goes by their
lengths (`Holds`). -/
theorem Holds.timing (h : c.Holds plain) (link : Link) : c.timing link = plain.timing link := by
  unfold Capture.timing PlainCapture.timing
  rw [h.received_eq, h.pairing.captured.length_eq, h.pairing.played.length_eq, h.pairing.skip_eq]

/-- A correction comes to the same on tapes and on lists (`Holds`). -/
theorem Holds.correct (h : c.Holds plain) (link : Link) (usec : Int) :
    (c.correct link usec).1.Holds (plain.correct link usec).1
      ∧ (c.correct link usec).2 = (plain.correct link usec).2 := by
  unfold Capture.correct PlainCapture.correct
  rw [h.spec_eq, h.pairing.skip_eq]
  exact ⟨⟨rfl, ⟨h.pairing.blockBytes_eq, h.pairing.captured, h.pairing.played, rfl,
    h.pairing.canceller_eq⟩, h.received_eq, h.suspended_eq, h.resuming_eq⟩, rfl⟩

/-- A resync comes to the same on tapes and on lists: its timing does by
`Holds.timing`, and its correction by `Holds.correct`. -/
theorem Holds.resync (h : c.Holds plain) (link : Link) (epoch : Nat) (playback : PlaybackTiming) :
    (c.resync link epoch playback).1.Holds (plain.resync link epoch playback).1
      ∧ (c.resync link epoch playback).2 = (plain.resync link epoch playback).2 := by
  unfold Capture.resync PlainCapture.resync
  rw [h.suspended_eq]
  split
  · exact ⟨h, rfl⟩
  · rw [h.timing, h.spec_eq]
    obtain ⟨hholds, hlink⟩ := h.correct (plain.timing { link with resyncPending := false }).2
      (offset plain.spec playback (plain.timing { link with resyncPending := false }).1)
    simp only [hlink]
    exact ⟨hholds, trivial⟩

/-- Rendered audio comes to the same on tapes and on lists (`Holds`), also where
there is no room for it. -/
theorem Holds.receive (h : c.Holds plain) (block : Block) :
    (c.receive block).Holds (plain.receive block.toList) := by
  have hreceived : c.received + block.size = plain.received + block.toList.length := by
    rw [h.received_eq, Block.length_toList]
  refine ⟨h.spec_eq, ⟨h.pairing.blockBytes_eq, h.pairing.captured, ?_, h.pairing.skip_eq,
    h.pairing.canceller_eq⟩, hreceived, h.suspended_eq, h.resuming_eq⟩
  simp only [Capture.receive, PlainCapture.receive, h.suspended_eq]
  split
  · exact h.pairing.played.flush
  · exact h.pairing.played.appendWithin block

/-- Audio that is taken back comes to the same on tapes and on lists, for as
many bytes as a word can count (`hn`). -/
theorem Holds.takeBack (h : c.Holds plain) {n : Nat} (hn : n ≤ Word.maxSigned) :
    (c.takeBack n).Holds (plain.takeBack n) := by
  have hreceived : c.received - Word.signed n = plain.received - n := by
    rw [h.received_eq, Word.signed_natCast hn]
  refine ⟨h.spec_eq, ⟨h.pairing.blockBytes_eq, h.pairing.captured, ?_, h.pairing.skip_eq,
    h.pairing.canceller_eq⟩, hreceived, h.suspended_eq, h.resuming_eq⟩
  simp only [Capture.takeBack, PlainCapture.takeBack, h.suspended_eq]
  split
  · exact h.pairing.played.flush
  · exact h.pairing.played.seekBack hn

/-- A change of the device's state comes to the same on tapes and on lists
(`Holds`). -/
theorem Holds.follow (h : c.Holds plain) (state : DeviceState) :
    (c.follow state).Holds (plain.follow state) := by
  cases state with
  | suspended =>
      exact ⟨h.spec_eq, ⟨h.pairing.blockBytes_eq, h.pairing.captured.flush,
        h.pairing.played.flush, h.pairing.skip_eq, h.pairing.canceller_eq⟩, h.received_eq, rfl, rfl⟩
  | running =>
      simp only [Capture.follow, PlainCapture.follow, h.suspended_eq]
      split
      · exact ⟨h.spec_eq, h.pairing, h.received_eq, rfl, rfl⟩
      · exact h

/-- Handling a message on the tapes is handling it on the lists, with the same
link. `hword` bounds the bytes that a message may take back. -/
theorem Holds.handle (h : c.Holds plain) (link : Link) {message : CaptureMessage}
    (hword : ∀ n, message = .rewound n → n ≤ Word.maxSigned) :
    (c.handle link message).1.Holds (plain.handle link message).1
      ∧ (c.handle link message).2 = (plain.handle link message).2 := by
  cases message with
  | rendered block => exact ⟨h.receive block, rfl⟩
  | rewound n => exact ⟨h.takeBack (hword n rfl), rfl⟩
  | timingRequest ticket =>
      exact ⟨h, congrArg Prod.snd (h.timing link)⟩
  | correct usec => exact h.correct link usec
  | playbackTiming epoch timing => exact h.resync link epoch timing
  | device state => exact ⟨h.follow state, rfl⟩

/-- So is handling one after another, and the answers are the same
(`Capture.replies`). -/
theorem Holds.handleAll (h : c.Holds plain) (link : Link) {messages : List CaptureMessage}
    (hword : ∀ n, .rewound n ∈ messages → n ≤ Word.maxSigned) :
    (c.handleAll link messages).1.Holds (plain.handleAll link messages).1
      ∧ (c.handleAll link messages).2 = (plain.handleAll link messages).2
      ∧ c.replies link messages = plain.replies link messages := by
  induction messages generalizing c plain link with
  | nil => exact ⟨h, rfl, rfl⟩
  | cons message rest ih =>
      -- Both stand at the same place again after the first message.
      obtain ⟨hholds, hlink⟩ := h.handle link fun n hn => hword n (hn ▸ List.mem_cons_self)
      obtain ⟨hall, hlink', hreplies⟩ :=
        ih hholds (plain.handle link message).2 fun n hn => hword n (List.mem_cons_of_mem _ hn)
      have hcons : c.handleAll link (message :: rest)
          = (c.handle link message).1.handleAll (plain.handle link message).2 rest := by
        rw [← hlink]
        rfl
      have hreply : c.reply? link message = plain.reply? link message := by
        cases message with
        | timingRequest ticket =>
            simp only [Capture.reply?, PlainCapture.reply?]
            rw [h.timing]
        | _ => rfl
      rw [hcons]
      refine ⟨hall, hlink', ?_⟩
      show (c.reply? link message).toList
        ++ (c.handle link message).1.replies (c.handle link message).2 rest = _
      rw [hreply, hlink, hreplies]
      rfl

/-- Going back to work comes to the same on tapes and on lists (`Holds`). -/
theorem Holds.resume (h : c.Holds plain) (link : Link) :
    (c.resume link).1.Holds (plain.resume link).1
      ∧ (c.resume link).2 = (plain.resume link).2 := by
  unfold Capture.resume PlainCapture.resume
  rw [h.resuming_eq]
  split
  · exact ⟨⟨h.spec_eq, h.pairing, h.received_eq, rfl, rfl⟩, rfl⟩
  · exact ⟨h, rfl⟩

/-- Captured audio that arrives comes to the same on tapes and on lists.
`Tape.Holds.appendWithin` covers the refusal as well. -/
theorem Holds.accept (h : c.Holds plain) (block : Block) :
    (c.accept block).Holds (plain.accept block.toList) := by
  have happended := h.pairing.captured.appendWithin block
  unfold Capture.accept PlainCapture.accept
  cases happend : c.pairing.captured.append block with
  | ok captured =>
      rw [happend] at happended
      exact ⟨h.spec_eq, ⟨h.pairing.blockBytes_eq, happended, h.pairing.played, h.pairing.skip_eq,
        h.pairing.canceller_eq⟩, h.received_eq, h.suspended_eq, h.resuming_eq⟩
  | error e =>
      -- Audio that is refused leaves the tape as it is.
      rw [happend] at happended
      exact ⟨h.spec_eq, ⟨h.pairing.blockBytes_eq, happended, h.pairing.played, h.pairing.skip_eq,
        h.pairing.canceller_eq⟩, h.received_eq, h.suspended_eq, h.resuming_eq⟩

/-- Events are counted by the fates they tell of, so that `Counters.record` and
`Counters.recordFate` agree. -/
theorem foldl_record {events : List Event} {fates : List Fate}
    (h : events.map Event.fate? = fates.map some) (counters : Counters) :
    events.foldl Counters.record counters = fates.foldl Counters.recordFate counters := by
  induction events generalizing fates counters with
  | nil =>
      cases fates with
      | nil => rfl
      | cons fate fates => cases h
  | cons event events ih =>
      cases fates with
      | nil => cases h
      | cons fate fates =>
          obtain ⟨hfate, hrest⟩ := List.cons.inj h
          -- An event is counted by the sizes of its blocks.
          have hcount : counters.record event = counters.recordFate fate := by
            cases event <;> cases hfate
            · exact congrArg counters.addSourceSkipped (Block.length_toList _).symm
            · rfl
            · simp only [Counters.record, Counters.recordFate, Block.length_toList]
          rw [List.foldl_cons, List.foldl_cons, hcount]
          exact ih hrest _

/-- Working off the tapes is working off the lists: the events tell the same
fates (`Event.fate?`), and the tapes hold the lists afterwards. -/
theorem Holds.process [Canceller κ] (h : c.Holds plain) (link : Link) :
    (c.process link).1.map Event.fate? = (plain.process link).1.map some
      ∧ (c.process link).2.1.Holds (plain.process link).2.1
      ∧ (c.process link).2.2 = (plain.process link).2.2 := by
  obtain ⟨hfates, hpairing⟩ := h.pairing.drive
  refine ⟨hfates, ⟨h.spec_eq, hpairing, h.received_eq, h.suspended_eq, h.resuming_eq⟩, ?_⟩
  exact congrArg link.count (funext fun counters => foldl_record hfates counters)

end Capture

end EchoAlign
