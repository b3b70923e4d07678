import EchoAlign.Proofs.Align.Checks
import EchoAlign.Proofs.Session.Wiring

/-!
# `EchoAlign.Proofs.Session.Losses`: messages that are lost, and those counted

Whoever posts to a mailbox that is full or closed loses the message. The
mailbox counts it (`Mailbox.dropped`), and whoever posted is to count it once
more, in the statistics of the session (`Counters.postsDropped`). A drift check
does not do so. It posts a question to each side and at last a correction to the
capture side, and any of the three can be refused. A correction is refused where
the capture side has gone away since it answered, or where its mailbox has
filled up in the meantime.

* `lostPosts`: the messages that were lost in the three mailboxes.
* `Booked`: all of them but so many are in the statistics. `Booked.step`: so it
  stays when anything but a drift check asks or posts.
* `DriftController.refused`: the mailbox has no room for what a check posts as
  it goes on. `Booked.startCheck`, `Booked.continueCheck`: that is what a check
  loses, and it is not counted.
* `losses_counted`: behind every run, the statistics fall short of the lost
  messages by those of drift checks (`refusedPosts`).
-/

set_option autoImplicit false

namespace EchoAlign

/-! ### Acts that lose nothing -/

/-- Reading the clock counts nothing: `readClock` requests a resync at most. -/
theorem Link.counters_readClock (l : Link) : l.readClock.2.counters = l.counters := by
  unfold readClock
  cases l.clock.interrupts with
  | true => rfl
  | false => rfl

/-- An event of the trace never counts a lost post; `Counters.record` counts
audio. -/
theorem Counters.postsDropped_record (c : Counters) (event : Event) :
    (c.record event).postsDropped = c.postsDropped := by
  cases event <;> rfl

namespace Capture

variable {κ : Type} (c : Capture κ) (link : Link)

/-- A correction is counted as one of the `corrections`, and counts no lost
post. -/
theorem postsDropped_correct (usec : Int) :
    (c.correct link usec).2.counters.postsDropped = link.counters.postsDropped := by
  simp only [correct]
  split
  · rfl
  · rfl

/-- A resync counts no lost post. What it counts are `resyncs` and
`corrections`. -/
theorem postsDropped_resync (epoch : Nat) (playback : PlaybackTiming) :
    (c.resync link epoch playback).2.counters.postsDropped = link.counters.postsDropped := by
  unfold resync
  split
  · rfl
  · have htimed : (c.timing { link with resyncPending := false }).2.counters = link.counters :=
      Link.counters_readClock _
    have hdone := c.postsDropped_correct (c.timing { link with resyncPending := false }).2
      (offset c.spec playback (c.timing { link with resyncPending := false }).1)
    rw [htimed] at hdone
    simp only
    split
    · exact hdone
    · exact hdone

/-- Messages that the capture side handles count no lost post, whichever kind of
`CaptureMessage` they are. -/
theorem postsDropped_handle (message : CaptureMessage) :
    (c.handle link message).2.counters.postsDropped = link.counters.postsDropped := by
  cases message with
  | timingRequest ticket => exact congrArg Counters.postsDropped link.counters_readClock
  | correct usec => exact c.postsDropped_correct link usec
  | playbackTiming epoch timing => exact c.postsDropped_resync link epoch timing
  | _ => rfl

end Capture

namespace Playback

variable {υ : Type} (p : Playback υ) (link : Link)

/-- An underrun (`noteUnderrun`) counts itself, and no lost post. -/
theorem postsDropped_noteUnderrun (underrun : Nat) :
    (p.noteUnderrun link underrun).2.counters.postsDropped = link.counters.postsDropped := by
  unfold noteUnderrun
  split
  · split
    · rfl
    · rfl
  · split
    · rfl
    · rfl

/-- Messages that the playback side handles count no lost post, for both kinds
of `PlaybackMessage`. -/
theorem postsDropped_handle (message : PlaybackMessage) :
    (p.handle link message).2.counters.postsDropped = link.counters.postsDropped := by
  cases message with
  | timingRequest ticket => exact congrArg Counters.postsDropped link.counters_readClock
  | device state => cases state <;> rfl

end Playback

/-! ### A post -/

/-- Nothing is lost and nothing is counted, or one message is lost and it is
counted. The unprimed numbers are those before, the primed ones those after. -/
def CountsLoss (lost counted lost' counted' : Nat) : Prop :=
  (lost' = lost ∧ counted' = counted) ∨ (lost' = lost + 1 ∧ counted' = Word.unsigned (counted + 1))

namespace CountsLoss

variable {lost counted lost' counted' : Nat}

/-- What others have lost before does not matter to `CountsLoss`. -/
theorem add_left (h : CountsLoss lost counted lost' counted') (others : Nat) :
    CountsLoss (others + lost) counted (others + lost') counted' := by
  rcases h with ⟨rfl, h⟩ | ⟨rfl, h⟩
  · exact .inl ⟨rfl, h⟩
  · exact .inr ⟨rfl, h⟩

/-- What others have lost does not matter to `CountsLoss`, on either side of the
sum. -/
theorem add_right (h : CountsLoss lost counted lost' counted') (others : Nat) :
    CountsLoss (lost + others) counted (lost' + others) counted' := by
  rw [Nat.add_comm lost, Nat.add_comm lost']
  exact h.add_left others

end CountsLoss

/-- Who counts a post that was not kept counts what the mailbox has dropped:
`Mailbox.post` raises `dropped` exactly where there is no room. -/
theorem Mailbox.countsLoss_post {α : Type} (m : Mailbox α) (message : α) (link : Link) :
    CountsLoss m.dropped link.counters.postsDropped (m.post message).2.dropped
      (if m.hasRoom then link else link.count (·.addPostsDropped 1)).counters.postsDropped := by
  rw [dropped_post]
  cases m.hasRoom with
  | true => exact .inl ⟨rfl, rfl⟩
  | false => exact .inr ⟨rfl, rfl⟩

namespace PlaybackScene

variable {υ : Type} (s : PlaybackScene υ)

/-- The playback side counts the messages that it loses, in the sense of
`CountsLoss` for the data mailbox and `Counters.postsDropped`. -/
def Counts (before after : PlaybackScene υ) : Prop :=
  CountsLoss before.data.dropped before.link.counters.postsDropped after.data.dropped
    after.link.counters.postsDropped

/-- A `post` to the capture side counts the message if it is lost, so that
`Counts` holds. -/
theorem counts_post (message : CaptureMessage) : s.Counts (s.post message).2 := by
  have h := s.data.countsLoss_post message s.link
  rw [← s.data.post_fst message] at h
  exact h

/-- A rendered block that is sent is counted if its `post` loses it. -/
theorem counts_send (block : Block) : s.Counts (s.send block) := by
  have hdata : (s.send block).data = (s.post (.rendered block)).2.data := s.data_send block
  rw [Counts, hdata, link_send]
  exact s.counts_post _

/-- Making audio counts the message if it is lost; `noteUnderrun` counts nothing
here. -/
theorem counts_play [Producer υ] (n : Nat) : s.Counts (s.play n).2 := by
  let rendered := Producer.render s.playback.producer n
  let noted := Playback.noteUnderrun { s.playback with producer := rendered.2 } s.link
    rendered.1.underrun
  have hnoted : noted.2.counters.postsDropped = s.link.counters.postsDropped :=
    Playback.postsDropped_noteUnderrun _ s.link rendered.1.underrun
  have hsent := counts_send { s with playback := noted.1, link := noted.2 } rendered.1.block
  rw [Counts, hnoted] at hsent
  exact hsent

/-- Timing that is sent is counted if its `post` loses it. -/
theorem counts_sendTiming : s.Counts s.sendTiming := by
  cases howes : s.owesTiming with
  | false =>
      rw [(s.sendTiming_of_not_owesTiming howes).1]
      exact .inl ⟨rfl, rfl⟩
  | true =>
      have hread := congrArg Counters.postsDropped s.link.counters_readClock
      have hposted := counts_post { s with link := s.link.readClock.2 }
        (.playbackTiming s.link.epoch s.nextTiming)
      rw [Counts, hread] at hposted
      rw [Counts, s.data_sendTiming, howes, if_pos rfl, (s.sendTiming_of_owesTiming howes).2.2.1]
      exact hposted

/-- A rewind is counted if its `post` loses it. -/
theorem counts_rewind [Producer υ] (n : Nat) : s.Counts (s.rewind n) := by
  have hposted := counts_post { s with
    playback := { s.playback with producer := Producer.rewind s.playback.producer n } } (.rewound n)
  unfold rewind
  simp only
  split
  · exact hposted
  · exact hposted

end PlaybackScene

/-! ### The books of a session -/

namespace Session

variable {κ υ : Type} {missed : Nat} {s t : Session κ υ}

/-- The messages that were lost in the three mailboxes of the session, by their
`dropped`. -/
def lostPosts (s : Session κ υ) : Nat :=
  s.data.dropped + s.captureControl.dropped + s.playbackControl.dropped

/-- All lost messages but `missed` are in the statistics. -/
def Booked (missed : Nat) (s : Session κ υ) : Prop :=
  ∃ counted, s.lostPosts = counted + missed
    ∧ s.link.counters.postsDropped = Word.unsigned counted

/-- A change that counts what it loses (`CountsLoss`) goes on to miss as many. -/
theorem Booked.counts (h : s.Booked missed)
    (hloss : CountsLoss s.lostPosts s.link.counters.postsDropped t.lostPosts
      t.link.counters.postsDropped) : t.Booked missed := by
  obtain ⟨counted, hlost, hcounted⟩ := h
  rcases hloss with ⟨hlost', hcounted'⟩ | ⟨hlost', hcounted'⟩
  · exact ⟨counted, hlost'.trans hlost, hcounted'.trans hcounted⟩
  · -- The count is a word, and so is its successor.
    refine ⟨counted + 1, ?_, ?_⟩
    · omega
    · rw [hcounted', hcounted, Word.unsigned_eq_mod, Word.unsigned_eq_mod, Word.unsigned_eq_mod]
      omega

/-- A change that loses nothing and counts nothing goes on to miss as many: the
first case of `CountsLoss`. -/
theorem Booked.same (h : s.Booked missed) (hlost : t.lostPosts = s.lostPosts)
    (hcounted : t.link.counters.postsDropped = s.link.counters.postsDropped) : t.Booked missed :=
  h.counts (.inl ⟨hlost, hcounted⟩)

/-- So many `more` messages are lost, and nobody counts them. -/
theorem Booked.miss (h : s.Booked missed) {more : Nat} (hlost : t.lostPosts = s.lostPosts + more)
    (hcounted : t.link.counters.postsDropped = s.link.counters.postsDropped) :
    t.Booked (missed + more) := by
  obtain ⟨counted, hlost', hcounted'⟩ := h
  exact ⟨counted, by omega, hcounted.trans hcounted'⟩

variable [Canceller κ] [Producer υ] {allowed : Operation → Prop} {entries : List Entry}

/-- Whatever is lost outside of drift checks is counted: each `Step` that is no
part of `startCheck` or `continueCheck` keeps `Booked`. -/
theorem Booked.step (h : s.Booked missed) (hstep : Step allowed s entries t)
    (hunchecked : ¬ (allowed .startCheck ∨ allowed .continueCheck)) : t.Booked missed := by
  cases hstep with
  | askCapture message hm ha => exact absurd ha hunchecked
  | askPlayback ticket ha => exact absurd (Or.inr ha) hunchecked
  -- A post is counted by whoever makes it: the control side, or the playback side.
  | reportCapture running ha hnew =>
      rw [postCapture_eq]
      exact h.counts (((s.captureControl.countsLoss_post _ _).add_left _).add_right _)
  | reportPlayback running ha hnew =>
      rw [postPlayback_eq]
      exact h.counts ((s.playbackControl.countsLoss_post _ _).add_left _)
  | postCapture message hm =>
      rw [postCapture_eq]
      exact h.counts (((s.captureControl.countsLoss_post _ _).add_left _).add_right _)
  | @play p n hp hlinked ha =>
      exact h.counts ((((s.scene p).counts_play n).add_right _).add_right _)
  | @sendTiming p hp => exact h.counts (((s.scene p).counts_sendTiming.add_right _).add_right _)
  | @rewindPlayback p n hp ha =>
      exact h.counts ((((s.scene p).counts_rewind n).add_right _).add_right _)
  -- A message that is taken out is not lost, and handling it posts none.
  | repack hcontrol hdata hplayback =>
      refine h.same ?_ rfl
      simp only [lostPosts, hcontrol.dropped, hdata.dropped, hplayback.dropped]
  | @handleControl c message rest hc hrest =>
      refine h.same ?_ (c.postsDropped_handle s.link message)
      simp only [lostPosts, hrest.dropped]
  | @handleData c message rest hc hrest =>
      refine h.same ?_ (c.postsDropped_handle s.link message)
      simp only [lostPosts, hrest.dropped]
  | @handlePlayback p message rest hp hrest =>
      refine h.same ?_ (p.postsDropped_handle s.link message)
      simp only [lostPosts, hrest.dropped]
  | read => exact h.same rfl (congrArg Counters.postsDropped s.link.counters_readClock)
  | @pair c event pairing hc hpair => exact h.same rfl (s.link.counters.postsDropped_record event)
  | @correct c usec hc ha => exact h.same rfl (c.postsDropped_correct s.link usec)
  | _ => exact h.same rfl rfl

/-- Every state in a run of `Steps` misses as many, as long as no drift check is
among them; a check is dealt with as a whole operation. -/
theorem Booked.steps (h : s.Booked missed) (hsteps : Steps allowed s entries t)
    (hunchecked : ¬ (allowed .startCheck ∨ allowed .continueCheck)) : t.Booked missed :=
  hsteps.induct (motive := fun t _ => t.Booked missed) h
    fun _ _ _ _ hbefore hstep => hbefore.step hstep hunchecked

end Session

/-! ### What a drift check posts -/

/-- The messages that were lost in the mailboxes a check posts to, `toCapture`
and `toPlayback`. -/
def ControlPosts.dropped (posts : ControlPosts) : Nat :=
  posts.toCapture.dropped + posts.toPlayback.dropped

/-- A mailbox drops what it has no room for (`hasRoom`). -/
theorem Mailbox.dropped_post_eq {α : Type} (m : Mailbox α) (message : α) :
    (m.post message).2.dropped = m.dropped + (!m.hasRoom).toNat := by
  rw [dropped_post]
  cases m.hasRoom with
  | true => rfl
  | false => rfl

namespace DriftController

variable (d : DriftController) (posts : ControlPosts)

/-- Whether the mailbox has no room for what a check posts as it goes on
(`DriftController.proceed`): the question to the playback side, once the capture
side has answered, or the correction. -/
def refused : Bool :=
  match d.phase with
  | .awaitingCapture (some _) => !posts.toPlayback.hasRoom
  | .correcting _ => !posts.toCapture.hasRoom
  | _ => false

/-- The start of a check loses the question to the capture side if there is no
room for it (`hasRoom`), and nothing else. -/
theorem dropped_start :
    (d.start posts).2.2.dropped = posts.dropped + (!posts.toCapture.hasRoom).toNat := by
  have hposted := posts.toCapture.dropped_post_eq (.timingRequest d.nextTicket)
  rw [posts_start]
  simp only [ControlPosts.dropped]
  omega

/-- Going on with a check loses the message that it is about to post (`refused`)
if there is no room for it, and nothing else. -/
theorem dropped_proceed :
    (d.proceed posts).2.2.dropped = posts.dropped + (d.refused posts).toNat := by
  unfold proceed refused
  cases d.phase with
  | idle => rfl
  | awaitingCapture answer? =>
      cases answer? with
      | none => rfl
      | some capture =>
          have hposted := posts.toPlayback.dropped_post_eq (.timingRequest (d.nextTicket + 1))
          simp only [ControlPosts.dropped]
          split
          · exact (congrArg _ hposted).trans (Nat.add_assoc _ _ _).symm
          · exact (congrArg _ hposted).trans (Nat.add_assoc _ _ _).symm
  | awaitingPlayback capture answer? =>
      cases answer? with
      | none => rfl
      | some playback =>
          simp only
          split
          · rfl
          · rfl
  | correcting usec =>
      have hposted := posts.toCapture.dropped_post_eq (.correct usec)
      simp only [ControlPosts.dropped]
      omega

end DriftController

/-! ### Drift checks -/

namespace Session

variable {κ υ : Type} {missed : Nat} {s : Session κ υ}

/-- A step of a drift check counts nothing of what it loses, and so `Booked`
goes up by what its posts have `dropped`. -/
theorem Booked.withCheck (h : s.Booked missed) {more : Nat}
    {after : Option DriftOutcome × DriftController × ControlPosts}
    (hlost : after.2.2.dropped = s.posts.dropped + more) :
    (s.withCheck after).2.Booked (missed + more) := by
  refine h.miss ?_ rfl
  show s.data.dropped + after.2.2.toCapture.dropped + after.2.2.toPlayback.dropped
    = s.data.dropped + s.captureControl.dropped + s.playbackControl.dropped + more
  simp only [ControlPosts.dropped, posts] at hlost
  omega

/-- Whether an operation is a step of a drift check that posts a message and
loses it. A check that starts asks the capture side; what it posts as it goes on,
and where, is told by `DriftController.refused`. -/
def refuses (s : Session κ υ) : Operation → Bool
  | .startCheck =>
      s.controlled && !s.drift.busy && s.link.linked && s.link.bothActive
        && !s.captureControl.hasRoom
  | .continueCheck => s.controlled && s.link.linked && s.drift.refused s.posts
  | _ => false

/-- The start of a check misses one more message, if `refuses` says so. -/
theorem Booked.startCheck (h : s.Booked missed) :
    s.startCheck.2.Booked (missed + (s.refuses .startCheck).toNat) := by
  have hposted := h.withCheck (s.drift.dropped_start s.posts)
  unfold Session.startCheck refuses
  cases s.controlled with
  | false => exact h
  | true =>
      cases s.drift.busy with
      | true => exact h
      | false =>
          cases s.link.linked with
          | false => exact h
          | true =>
              cases s.link.bothActive with
              | false => exact h
              | true => exact hposted

/-- Going on with a check misses one more message, if `refuses` says so. -/
theorem Booked.continueCheck (h : s.Booked missed) :
    s.continueCheck.2.Booked (missed + (s.refuses .continueCheck).toNat) := by
  have hposted := h.withCheck (s.drift.dropped_proceed s.posts)
  unfold Session.continueCheck refuses
  cases s.controlled with
  | false => exact h
  | true =>
      cases s.link.linked with
      | false => exact h
      | true => exact hposted

variable [Canceller κ] [Producer υ]

/-! ### Runs -/

/-- How many messages the drift checks of a run lose: the questions and the
corrections that `refuses` tells of, in the states the operations meet. -/
def refusedPosts (s : Session κ υ) : List Operation → Nat
  | [] => 0
  | operation :: rest =>
      (s.refuses operation).toNat + (s.perform operation).2.refusedPosts rest

/-- An operation misses what it `refuses`, and counts every other message that
it loses: by `Booked.step` for all but the two operations of a drift check. -/
theorem Booked.perform (h : s.Booked missed) (operation : Operation) :
    (s.perform operation).2.Booked (missed + (s.refuses operation).toNat) := by
  have hsteps : Steps (· = operation) s _ _ := s.steps_perform rfl
  have hother : operation ≠ .startCheck → operation ≠ .continueCheck →
      (s.perform operation).2.Booked missed := fun hstart hcontinue =>
    h.steps hsteps (not_or.mpr ⟨Ne.symm hstart, Ne.symm hcontinue⟩)
  cases operation with
  | startCheck => exact h.startCheck
  | continueCheck => exact h.continueCheck
  | _ => exact hother nofun nofun

/-- A run misses its `refusedPosts`, by induction on the operations with
`Booked.perform`. -/
theorem Booked.run (h : s.Booked missed) (operations : List Operation) :
    (s.run operations).2.Booked (missed + s.refusedPosts operations) := by
  induction operations generalizing s missed with
  | nil => exact h
  | cons operation rest ih =>
      have hrest := ih (h.perform operation)
      rwa [Nat.add_assoc] at hrest

omit [Producer υ] in
/-- In a new session nothing is lost and nothing is counted: it is `Booked` with
none missed. -/
theorem IsNew.booked (h : s.IsNew) : s.Booked 0 := by
  obtain ⟨spec, capacity, canceller, producer, link, dumps?, rfl,
    ⟨clock, captureLatency, playbackLatency, assumedLatency?, rfl⟩, -⟩ := h.opened
  exact ⟨0, rfl, rfl⟩

/-- Whatever happens to a new session: of the messages that were lost
(`lostPosts`), all are in the statistics but those that drift checks lost
(`refusedPosts`), be they questions or corrections. As long as they fit a word,
the statistics hold all of them exactly if no check lost any.

A drift check takes its steps like anything else that happens (`startCheck`,
`continueCheck`), so a side may answer and then go away, or go through a whole
tick, before the next message of the check is posted. -/
theorem losses_counted (h : s.IsNew) (operations : List Operation) :
    let t := (s.run operations).2
    let refused := s.refusedPosts operations
    refused ≤ t.lostPosts
      ∧ t.link.counters.postsDropped = Word.unsigned (t.lostPosts - refused)
      ∧ (t.lostPosts ≤ Word.maxUnsigned →
          (t.link.counters.postsDropped = t.lostPosts ↔ refused = 0)) := by
  intro t refused
  obtain ⟨counted, hlost, hcounted⟩ := h.booked.run operations
  rw [Nat.zero_add] at hlost
  have hrest : t.lostPosts - refused = counted := Nat.sub_eq_of_eq_add hlost
  refine ⟨hlost ▸ Nat.le_add_left _ _, hrest ▸ hcounted, fun hword => ?_⟩
  have hcounted : t.link.counters.postsDropped = counted := by
    rw [hcounted, Word.unsigned_of_le (by omega)]
  rw [hcounted, hlost]
  omega

/-- The hypotheses of `losses_counted` are met in the session `narrow`, with
room for a single message: the report of a start fills the mailbox of the
capture side, and the question of a drift check is lost. In the next check both
sides answer. Then the capture side goes away, and the correction is lost. Twice
the playback side loses the timing that it posts behind its audio, and nothing
but that is counted. -/
theorem losses_counted_narrow :
    let operations : List Operation :=
      [.setLatency .output ⟨50000, 0⟩, .reportDevice .input true, .reportDevice .output true,
        .startCheck, .push (.silence 0), .render 0, .startCheck, .push (.silence 0),
        .continueCheck, .render 0, .continueCheck, .dropCapture, .continueCheck]
    let t := (narrow.run operations).2
    narrow.IsNew ∧ narrow.refusedPosts operations = 2 ∧ t.lostPosts = 4
      ∧ t.link.counters.postsDropped = 2 := by
  intro operations t
  have hrefused : narrow.refusedPosts operations = 2 := by decide +kernel
  have hlost : t.lostPosts = 4 := by decide +kernel
  obtain ⟨-, hcounted, -⟩ := losses_counted isNew_narrow operations
  rw [hrefused, show (narrow.run operations).2.lostPosts = 4 from hlost] at hcounted
  exact ⟨isNew_narrow, hrefused, hlost, hcounted⟩

/-- The question of a drift check that finds the mailbox full is the only
message that is lost, and the statistics know of none. So `postsDropped` is not
`lostPosts`, in the session `narrow` with room for a single message. -/
theorem question_lost_uncounted :
    let t := (narrow.run
      [.reportDevice .input true, .reportDevice .output true, .startCheck]).2
    narrow.IsNew ∧ t.lostPosts = 1 ∧ t.link.counters.postsDropped = 0
      ∧ t.link.counters.postsDropped ≠ t.lostPosts := by
  refine ⟨isNew_narrow, ?_⟩
  decide +kernel

end Session

end EchoAlign
