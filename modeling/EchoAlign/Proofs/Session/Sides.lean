import EchoAlign.Proofs.Mailbox
import EchoAlign.Proofs.Session.Journal

/-!
# `EchoAlign.Proofs.Session.Sides`: what one act of a side changes

The capture side handles a message, or the playback side makes audio,
takes timing or gives bytes back, or the control side posts a message.
For each of these acts, this module says what becomes of the byte counts
of the sides and of the messages that wait between them. `Link.Keeps` says
what none of them changes about the link.
-/

set_option autoImplicit false

namespace EchoAlign

/-! ### What stays as it is on the link -/

/-- What no side changes when it acts: whether the session runs, what was
reported of the capture device, and the counts of what became of captured audio.
A clock that brings no requests goes on to bring none. Messages, requests and
lost posts are not among this. -/
structure Link.Keeps (before after : Link) : Prop where
  linked_eq : after.linked = before.linked
  captureActive_eq : after.captureActive = before.captureActive
  cancelled_eq : after.counters.cancelled = before.counters.cancelled
  passed_eq : after.counters.passed = before.counters.passed
  sourceSkipped_eq : after.counters.sourceSkipped = before.counters.sourceSkipped
  quiet : before.clock.requests = [] → after.clock.requests = []

namespace Link

variable {l l' l'' : Link}

/-- A link that does not change `Keeps` all this. -/
theorem Keeps.refl (l : Link) : l.Keeps l := ⟨rfl, rfl, rfl, rfl, rfl, id⟩

/-- What is kept in two stretches is kept in both: `Keeps` is transitive. -/
theorem Keeps.trans (h : l.Keeps l') (h' : l'.Keeps l'') : l.Keeps l'' :=
  ⟨h'.linked_eq.trans h.linked_eq, h'.captureActive_eq.trans h.captureActive_eq,
    h'.cancelled_eq.trans h.cancelled_eq, h'.passed_eq.trans h.passed_eq,
    h'.sourceSkipped_eq.trans h.sourceSkipped_eq, fun hquiet => h'.quiet (h.quiet hquiet)⟩

/-- A request for a resync (`requestResync`) changes the epoch and that one is
pending, and keeps the rest. -/
theorem keeps_requestResync (l : Link) : l.Keeps l.requestResync := ⟨rfl, rfl, rfl, rfl, rfl, id⟩

/-- A reading (`readClock`) changes the clock, and brings a request at most. -/
theorem keeps_readClock (l : Link) : l.Keeps l.readClock.2 := by
  have hquiet : l.clock.requests = [] → l.clock.afterReading.requests = [] := by
    intro hquiet
    simp only [Clock.afterReading, hquiet]
    rfl
  unfold readClock
  cases l.clock.interrupts with
  | true => exact ⟨rfl, rfl, rfl, rfl, rfl, hquiet⟩
  | false => exact ⟨rfl, rfl, rfl, rfl, rfl, hquiet⟩

/-- A message that is lost is counted apart, in `postsDropped`. -/
theorem keeps_lost (l : Link) (kept : Bool) :
    l.Keeps (if kept then l else l.count (·.addPostsDropped 1)) := by
  split
  · exact Keeps.refl l
  · exact ⟨rfl, rfl, rfl, rfl, rfl, id⟩

end Link

/-! ### What messages say about playback audio -/

namespace CaptureMessage

/-- By how much a message changes the number of playback bytes that count as
received: a `rendered` block adds its size, and `rewound` bytes are taken off. -/
def balance : CaptureMessage → Int
  | rendered block => block.size
  | rewound bytes => -(bytes : Int)
  | _ => 0

/-- Whether a message comes from the playback side, and so through the data
mailbox: `rendered`, `rewound` and `playbackTiming`. -/
def isData : CaptureMessage → Bool
  | rendered _ => true
  | rewound _ => true
  | playbackTiming _ _ => true
  | _ => false

/-- Whether a message comes from the control side and is not about a device:
`timingRequest` and `correct`. -/
def isControl : CaptureMessage → Bool
  | timingRequest _ => true
  | correct _ => true
  | _ => false

/-- Whether a message tells to realign the streams, by `CaptureMessage.correct`. -/
def isCorrection : CaptureMessage → Bool
  | correct _ => true
  | _ => false

/-- What `isControl` does not come from the playback side. -/
theorem isData_of_isControl {message : CaptureMessage} (h : message.isControl = true) :
    message.isData = false := by
  cases message <;> first | rfl | cases h

/-- Only a message from the playback side has a `balance` with which it changes
what counts as received. -/
theorem balance_of_not_isData {message : CaptureMessage} (h : message.isData = false) :
    message.balance = 0 := by
  cases message <;> first | rfl | cases h

end CaptureMessage

/-! ### The capture side -/

namespace Capture

variable {κ : Type} [Canceller κ] (c : Capture κ) (link : Link)

omit [Canceller κ] in
/-- The playback side asks nothing, so that no message of its
(`CaptureMessage.isData`) is answered. -/
theorem replies_of_isData {messages : List CaptureMessage}
    (h : ∀ message ∈ messages, message.isData = true) : c.replies link messages = [] := by
  induction messages generalizing c link with
  | nil => rfl
  | cons message messages ih =>
      obtain ⟨hdata, hrest⟩ := List.forall_mem_cons.mp h
      have hreply : c.reply? link message = none := by
        cases message with
        | timingRequest ticket => cases hdata
        | _ => rfl
      simp only [replies, hreply, ih _ _ hrest, Option.toList_none, List.append_nil]

omit [Canceller κ] in
/-- A `resync` changes nothing about what was `received`. -/
theorem received_resync (epoch : Nat) (timing : PlaybackTiming) :
    (c.resync link epoch timing).1.received = c.received := by
  unfold resync
  split
  · rfl
  · rfl

omit [Canceller κ] in
/-- A message counts with its `balance`, if it does not rewind by more than a
word can hold (`hword`). -/
theorem received_handle (message : CaptureMessage)
    (hword : ∀ n, message = .rewound n → n ≤ Word.maxSigned) :
    (c.handle link message).1.received = c.received + message.balance := by
  cases message with
  | rendered block => rfl
  | rewound bytes =>
      -- The count of a rewind is read as a signed word.
      show c.received - Word.signed bytes = c.received + -(bytes : Int)
      rw [Word.signed_natCast (hword bytes rfl), Int.sub_eq_add_neg]
  | timingRequest ticket => exact (Int.add_zero _).symm
  | correct usec => exact (Int.add_zero _).symm
  | playbackTiming epoch timing =>
      exact (received_resync c link epoch timing).trans (Int.add_zero _).symm
  | device state =>
      show (c.follow state).received = c.received + 0
      rw [Int.add_zero]
      cases state with
      | suspended => rfl
      | running =>
          simp only [follow]
          split
          · rfl
          · rfl

omit [Canceller κ] in
/-- Captured audio (`accept`) changes nothing about what was `received`, which
is about playback. -/
theorem received_accept (block : Block) : (c.accept block).received = c.received := by
  unfold accept
  split
  · rfl
  · rfl

omit [Canceller κ] in
/-- A correction keeps what no side changes (`Keeps`); it counts apart, as one
of the `corrections`. -/
theorem keeps_correct (usec : Int) : link.Keeps (c.correct link usec).2 := by
  simp only [correct]
  split
  · exact ⟨rfl, rfl, rfl, rfl, rfl, id⟩
  · exact Link.Keeps.refl link

omit [Canceller κ] in
/-- A resync keeps what no side changes. It takes the pending request, reads the
clock and counts itself, and none of these is among what a link `Keeps`. -/
theorem keeps_resync (epoch : Nat) (playback : PlaybackTiming) :
    link.Keeps (c.resync link epoch playback).2 := by
  unfold resync
  split
  · exact Link.Keeps.refl link
  · have hbegun : link.Keeps { link with resyncPending := false } :=
      ⟨rfl, rfl, rfl, rfl, rfl, id⟩
    have hdone := (hbegun.trans (Link.keeps_readClock _)).trans
      (c.keeps_correct (c.timing { link with resyncPending := false }).2
        (offset c.spec playback (c.timing { link with resyncPending := false }).1))
    have hcounted := hdone.trans
      (show Link.Keeps _ (Link.count _ (·.addResyncs 1)) from ⟨rfl, rfl, rfl, rfl, rfl, id⟩)
    simp only
    split
    · exact hcounted.trans ⟨rfl, rfl, rfl, rfl, rfl, id⟩
    · exact hcounted

omit [Canceller κ] in
/-- Messages that the capture side handles keep what no side changes, one case
for each kind of `CaptureMessage`. -/
theorem keeps_handle (message : CaptureMessage) : link.Keeps (c.handle link message).2 := by
  cases message with
  | timingRequest ticket => exact link.keeps_readClock
  | correct usec => exact c.keeps_correct link usec
  | playbackTiming epoch timing => exact c.keeps_resync link epoch timing
  | _ => exact Link.Keeps.refl link

end Capture

/-! ### The playback side -/

namespace Playback

variable {υ : Type} (p : Playback υ) (link : Link)

/-- An underrun is remembered in `inUnderrun`, and nothing else about the side
changes. -/
theorem fst_noteUnderrun (underrun : Nat) :
    (p.noteUnderrun link underrun).1 = { p with inUnderrun := decide (0 < underrun) } := by
  unfold noteUnderrun
  by_cases hunderrun : 0 < underrun
  · rw [if_pos hunderrun, decide_eq_true hunderrun]
    cases p with
    | mk producer sent inUnderrun timingEpoch? => cases inUnderrun <;> rfl
  · rw [if_neg hunderrun, decide_eq_false hunderrun]
    cases p with
    | mk producer sent inUnderrun timingEpoch? => cases inUnderrun <;> rfl

/-- Messages change neither what the playback side has `sent` nor what it sent
timing for (`timingEpoch?`). -/
theorem fst_handle (message : PlaybackMessage) :
    (p.handle link message).1.sent = p.sent
      ∧ (p.handle link message).1.timingEpoch? = p.timingEpoch? := by
  cases message with
  | timingRequest ticket => exact ⟨rfl, rfl⟩
  | device state =>
      cases state with
      | running => exact ⟨rfl, rfl⟩
      | suspended => exact ⟨rfl, rfl⟩

/-- An underrun (`noteUnderrun`) keeps what no side changes on the link. -/
theorem keeps_noteUnderrun (underrun : Nat) : link.Keeps (p.noteUnderrun link underrun).2 := by
  unfold noteUnderrun
  split
  · split
    · exact Link.Keeps.refl link
    · exact ⟨rfl, rfl, rfl, rfl, rfl, id⟩
  · split
    · exact link.keeps_requestResync
    · exact Link.Keeps.refl link

/-- Messages that the playback side handles keep what no side changes, for both
kinds of `PlaybackMessage`. -/
theorem keeps_handle (message : PlaybackMessage) : link.Keeps (p.handle link message).2 := by
  cases message with
  | timingRequest ticket => exact link.keeps_readClock
  | device state => cases state <;> exact Link.Keeps.refl link

end Playback

namespace PlaybackScene

variable {υ : Type} (s : PlaybackScene υ)

/-- A post keeps what no side changes, since a loss is counted in `postsDropped`
only. -/
theorem keeps_post (message : CaptureMessage) : s.link.Keeps (s.post message).2.link :=
  s.link.keeps_lost _

/-- A block that is sent waits behind the others in `data` if there is room. -/
theorem items_send (block : Block) :
    (s.send block).data.items
      = if s.data.hasRoom then s.data.items ++ [.rendered block] else s.data.items := by
  have h := s.data.items_post (.rendered block)
  unfold send post
  simp only
  split
  · exact h
  · exact h

/-- A block that is sent counts with its size in `sent`, if there is room. -/
theorem sent_send (block : Block) :
    (s.send block).playback.sent
      = if s.data.hasRoom then s.playback.sent + block.size else s.playback.sent := by
  unfold send post
  simp only [Mailbox.post_fst]
  split
  · rfl
  · rfl

/-- To the link, `send` is what the `post` of its message is. -/
theorem link_send (block : Block) : (s.send block).link = (s.post (.rendered block)).2.link := by
  unfold send
  simp only
  split
  · rfl
  · rfl

/-- A block that is sent keeps what no side changes, as every `post` does. -/
theorem keeps_send (block : Block) : s.link.Keeps (s.send block).link := by
  rw [link_send]
  exact s.keeps_post _

/-- A block that is sent leaves `timingEpoch?` alone. -/
theorem timingEpoch?_send (block : Block) :
    (s.send block).playback.timingEpoch? = s.playback.timingEpoch? := by
  unfold send post
  simp only
  split
  · rfl
  · rfl

/-- The block that `play` makes waits behind the others if there is room, by
`items_send`. -/
theorem items_play [Producer υ] (n : Nat) :
    (s.play n).2.data.items
      = if s.data.hasRoom then s.data.items ++ [.rendered (s.play n).1] else s.data.items :=
  items_send ..

/-- The block that `play` makes counts with its size in `sent`, if there is
room. -/
theorem sent_play [Producer υ] (n : Nat) :
    (s.play n).2.playback.sent
      = if s.data.hasRoom then s.playback.sent + (s.play n).1.size else s.playback.sent := by
  simp only [play, sent_send, Playback.fst_noteUnderrun]

/-- Making audio leaves `timingEpoch?` alone. -/
theorem timingEpoch?_play [Producer υ] (n : Nat) :
    (s.play n).2.playback.timingEpoch? = s.playback.timingEpoch? := by
  simp only [play, timingEpoch?_send, Playback.fst_noteUnderrun]

/-- Making audio keeps what no side changes: `noteUnderrun` and `send` do. -/
theorem keeps_play [Producer υ] (n : Nat) : s.link.Keeps (s.play n).2.link := by
  simp only [play]
  refine Link.Keeps.trans ?_ (keeps_send _ _)
  exact Playback.keeps_noteUnderrun _ s.link _

/-- Whether timing is to be sent: a resync is pending, and none was sent for the
present epoch. This negates the guard of `sendTiming`. -/
def owesTiming : Bool :=
  !(!s.link.resyncPending || s.playback.timingEpoch? == some s.link.epoch)

/-- Where `owesTiming` holds, the epoch of the link is not the one in
`timingEpoch?`. -/
theorem timingEpoch?_ne (h : s.owesTiming = true) :
    s.playback.timingEpoch? ≠ some s.link.epoch := by
  intro heq
  unfold owesTiming at h
  rw [heq] at h
  simp at h

/-- The timing that would be sent now, by `Playback.timing` on the link of the
scene. -/
def nextTiming : PlaybackTiming := (s.playback.timing s.link).1

/-- Nothing is sent where no timing is owed (`owesTiming`). -/
theorem sendTiming_of_not_owesTiming (h : s.owesTiming = false) :
    s.sendTiming = s ∧ s.sendTimingEntries = [] := by
  unfold sendTiming sendTimingEntries
  have hif := (Bool.not_eq_false' _).mp h
  exact ⟨if_pos hif, if_pos hif⟩

/-- Timing that is owed is offered to the mailbox, and remembered in
`timingEpoch?` when it is taken. -/
theorem sendTiming_of_owesTiming (h : s.owesTiming = true) :
    s.sendTiming.data.items
        = (if s.data.hasRoom then
            s.data.items ++ [.playbackTiming s.link.epoch s.nextTiming]
          else s.data.items)
      ∧ s.sendTiming.playback
        = (if s.data.hasRoom then { s.playback with timingEpoch? := some s.link.epoch }
          else s.playback)
      ∧ s.sendTiming.link
        = ({ s with link := s.link.readClock.2 }.post
            (.playbackTiming s.link.epoch s.nextTiming)).2.link
      ∧ s.sendTimingEntries
        = .timed s.link.epoch s.nextTiming ::
          (s.link.readEntries ++ s.postEntries (.playbackTiming s.link.epoch s.nextTiming)) := by
  have hif : ¬(!s.link.resyncPending || s.playback.timingEpoch? == some s.link.epoch) = true := by
    rw [Bool.not_eq_true]
    exact (Bool.not_eq_true' _).mp h
  have hpost := s.data.items_post (.playbackTiming s.link.epoch s.nextTiming)
  -- The room in the mailbox decides over all that follows.
  unfold sendTiming sendTimingEntries post
  simp only [if_neg hif, Mailbox.post_fst]
  refine ⟨?_, ?_, ?_, rfl⟩
  · rw [← hpost]
    split
    · rfl
    · rfl
  · split
    · rfl
    · rfl
  · split
    · rfl
    · rfl

/-- Timing that is sent keeps what no side changes, as `readClock` and `post`
do. -/
theorem keeps_sendTiming : s.link.Keeps s.sendTiming.link := by
  cases howes : s.owesTiming with
  | false =>
      rw [(s.sendTiming_of_not_owesTiming howes).1]
      exact Link.Keeps.refl s.link
  | true =>
      rw [(s.sendTiming_of_owesTiming howes).2.2.1]
      exact s.link.keeps_readClock.trans (keeps_post { s with link := s.link.readClock.2 } _)

/-- A `rewound` message waits behind the others if there is room. -/
theorem items_rewind [Producer υ] (n : Nat) :
    (s.rewind n).data.items
      = if s.data.hasRoom then s.data.items ++ [.rewound n] else s.data.items := by
  have h := s.data.items_post (.rewound n)
  unfold rewind post
  simp only
  split
  · exact h
  · exact h

/-- A rewind is taken off `sent` if there is room; the number of bytes is read
as a signed word there. -/
theorem sent_rewind [Producer υ] (n : Nat) :
    (s.rewind n).playback.sent
      = if s.data.hasRoom then s.playback.sent - Word.signed n else s.playback.sent := by
  unfold rewind post
  simp only [Mailbox.post_fst]
  split
  · rfl
  · rfl

/-- A rewind keeps what no side changes, as every `post` does. -/
theorem keeps_rewind [Producer υ] (n : Nat) : s.link.Keeps (s.rewind n).link := by
  have hpost := keeps_post { s with
    playback := { s.playback with producer := Producer.rewind s.playback.producer n } } (.rewound n)
  unfold rewind
  simp only
  split
  · exact hpost
  · exact hpost

/-- A rewind leaves `timingEpoch?` alone. -/
theorem timingEpoch?_rewind [Producer υ] (n : Nat) :
    (s.rewind n).playback.timingEpoch? = s.playback.timingEpoch? := by
  unfold rewind post
  simp only
  split
  · rfl
  · rfl

end PlaybackScene

/-! ### The control side -/

namespace Session

variable {κ υ : Type}

/-- Posting changes the mailbox `captureControl`, and the counters if the
message is lost. -/
theorem postCapture_eq (s : Session κ υ) (message : CaptureMessage) :
    (s.postCapture message).2
      = { s with
          captureControl := (s.captureControl.post message).2
          link := if s.captureControl.hasRoom then s.link
            else s.link.count (·.addPostsDropped 1) } := by
  unfold postCapture countLost
  simp only [Mailbox.post_fst]
  split
  · rfl
  · rfl

/-- Posting changes the mailbox `playbackControl`, and the counters if the
message is lost. -/
theorem postPlayback_eq (s : Session κ υ) (message : PlaybackMessage) :
    (s.postPlayback message).2
      = { s with
          playbackControl := (s.playbackControl.post message).2
          link := if s.playbackControl.hasRoom then s.link
            else s.link.count (·.addPostsDropped 1) } := by
  unfold postPlayback countLost
  simp only [Mailbox.post_fst]
  split
  · rfl
  · rfl

end Session

end EchoAlign
