import EchoAlign.Proofs.Session.Ledger
import EchoAlign.Proofs.Session.Resync
import EchoAlign.Proofs.Session.Wiring

/-!
# `EchoAlign.Proofs.Session.Leading`: while playback leads, blocks are paired in place

Playback that is rendered before it is captured lies on the tape, or in the
mailbox, when the captured audio comes. As long as this is so and nothing is
realigned, each captured block meets the playback of the same place.

* `Capture.skipCounted_handleAll`: of the timings that wait for one capture tick,
  at most one is good for a resync. So the counter of corrections says
  exactly whether the skip was set.
* `Pairing.Path.leading`: where nothing is to be dropped and there is at
  least as much playback as captured audio, every block is cancelled.
* `paired_in_place`: the `i`-th run of the canceller gets the `i`-th block
  of all captured audio with the `i`-th block of all rendered audio.

`Leads` is the invariant of such a run. It holds between operations only:
within a capture tick, it is the messages that are handled first which let
the playback be there.
-/

set_option autoImplicit false

namespace EchoAlign

/-- Neither disturbs the reference nor offers a correction: `isSteady`, and none
of `.correct`, `.postCorrection`, `.startCheck` and `.continueCheck`. -/
def Operation.isUnsteered : Operation → Bool
  | correct _ => false
  | postCorrection _ => false
  | startCheck => false
  | continueCheck => false
  | operation => operation.isSteady

/-- What is unsteered is steady: `isUnsteered` only rules out more. -/
theorem Operation.isSteady_of_isUnsteered {operation : Operation}
    (h : operation.isUnsteered = true) : operation.isSteady = true := by
  cases operation <;> first | exact h | cases h

/-- The captured audio that an operation brings: the block of a `push`. -/
def Operation.pushed? : Operation → Option Block
  | push block => some block
  | _ => none

/-- The captured and the rendered block that a run of the canceller is given, if
the event is one (`cancelled`). -/
def Event.pair? : Event → Option (List UInt8 × List UInt8)
  | cancelled captured played _ => some (captured.toList, played.toList)
  | _ => none

/-! ### A tick carries out one resync at most -/

/-- No resync can run against timing of this epoch any more: it is not newer
than the link's, and older as long as a resync is pending. This negates the
guard of `Capture.resync`. -/
structure Link.Past (l : Link) (epoch : Nat) : Prop where
  le : epoch ≤ l.epoch
  lt : l.resyncPending = true → epoch < l.epoch

namespace Link

/-- Reading the clock (`readClock`) leaves the counters alone. It may bring a
request, and then a new epoch and a pending resync. -/
theorem readClock_cases (l : Link) :
    l.readClock.2.counters = l.counters
      ∧ (l.readClock.2.epoch = l.epoch ∧ l.readClock.2.resyncPending = l.resyncPending
        ∨ l.readClock.2.epoch = l.epoch + 1 ∧ l.readClock.2.resyncPending = true) := by
  unfold readClock
  cases l.clock.interrupts with
  | true => exact ⟨rfl, Or.inr ⟨rfl, rfl⟩⟩
  | false => exact ⟨rfl, Or.inl ⟨rfl, rfl⟩⟩

/-- Epochs do not come back, and none that is `Past` becomes present. Every
change of the link but the end of a resync goes `Onward` in this sense. -/
structure Onward (before after : Link) : Prop where
  epoch_le : before.epoch ≤ after.epoch
  past : ∀ epoch, before.Past epoch → after.Past epoch

/-- A link that does not change goes `Onward`. -/
theorem onward_refl (l : Link) : l.Onward l := ⟨Nat.le_refl _, fun _ h => h⟩

/-- Reading the clock goes `Onward`, since a request that comes with it opens a
new epoch. -/
theorem onward_readClock (l : Link) : l.Onward l.readClock.2 := by
  obtain ⟨-, ⟨hepoch, hpending⟩ | ⟨hepoch, -⟩⟩ := l.readClock_cases
  · exact ⟨Nat.le_of_eq hepoch.symm,
      fun _ h => ⟨hepoch ▸ h.le, fun hp => hepoch ▸ h.lt (hpending ▸ hp)⟩⟩
  · refine ⟨by omega, fun _ h => ?_⟩
    have hle := h.le
    exact ⟨by omega, fun _ => by omega⟩

end Link

namespace Capture

variable {κ : Type} (c : Capture κ) (link : Link)

/-- Neither the skip nor the count of corrections has changed from `c` and
`link` to `after`. -/
def SameSkip (c : Capture κ) (link : Link) (after : Capture κ × Link) : Prop :=
  after.1.pairing.skip = c.pairing.skip ∧ after.2.counters.corrections = link.counters.corrections

/-- Either a correction was counted, or the skip has not changed. Where the
number of corrections stays the same in the end, `SkipCounted` gives `SameSkip`. -/
def SkipCounted (c : Capture κ) (link : Link) (after : Capture κ × Link) : Prop :=
  SameSkip c link after
    ∨ after.2.counters.corrections = Word.unsigned (link.counters.corrections + 1)

/-- A correction leaves the epoch and the request alone, and counts itself if it
sets the skip (`SkipCounted`). -/
theorem correct_cases (usec : Int) :
    (c.correct link usec).2.epoch = link.epoch
      ∧ (c.correct link usec).2.resyncPending = link.resyncPending
      ∧ SkipCounted c link (c.correct link usec) := by
  unfold SkipCounted SameSkip correct Skip.correct
  cases Skip.ofOffset? c.spec usec with
  | none => exact ⟨rfl, rfl, Or.inl ⟨rfl, rfl⟩⟩
  | some skip => exact ⟨rfl, rfl, Or.inr rfl⟩

/-- A resync does nothing at all, or the timing was not past, and then
`Capture.resync` leaves no other for any timing that was taken so far and counts
itself if it sets the skip. -/
theorem resync_cases (epoch : Nat) (playback : PlaybackTiming) :
    c.resync link epoch playback = (c, link)
      ∨ ¬ link.Past epoch
        ∧ (∀ other ≤ link.epoch, (c.resync link epoch playback).2.Past other)
        ∧ SkipCounted c link (c.resync link epoch playback) := by
  unfold resync
  split
  · exact Or.inl rfl
  · next hguard =>
      right
      simp only [Bool.or_eq_true, Bool.not_eq_true', bne_iff_ne, ne_eq, not_or, Bool.not_eq_false,
        Decidable.not_not] at hguard
      obtain ⟨⟨-, hasked⟩, rfl⟩ := hguard
      obtain ⟨timed, htimed⟩ : ∃ timed, timed = c.timing { link with resyncPending := false } :=
        ⟨_, rfl⟩
      obtain ⟨corrected, hcorrected⟩ :
          ∃ corrected, corrected = c.correct timed.2 (offset c.spec playback timed.1) := ⟨_, rfl⟩
      obtain ⟨hcounters, hread⟩ : timed.2.counters = link.counters
          ∧ (timed.2.epoch = link.epoch ∧ timed.2.resyncPending = false
            ∨ timed.2.epoch = link.epoch + 1 ∧ timed.2.resyncPending = true) := by
        rw [htimed]
        exact { link with resyncPending := false }.readClock_cases
      obtain ⟨hepoch, hpending, hskip⟩ := hcorrected ▸ c.correct_cases timed.2 _
      simp only [← htimed, ← hcorrected]
      refine ⟨fun hpast => Nat.lt_irrefl _ (hpast.lt hasked), fun other hother => ?_, ?_⟩
      · -- What is pending now was asked for meanwhile.
        rcases hread with ⟨hsame, hnone⟩ | ⟨hnext, -⟩
        · have hsame' : corrected.2.epoch = link.epoch := hepoch.trans hsame
          simp only [Link.count, hsame', bne_self_eq_false, Bool.false_eq_true, if_false]
          exact ⟨hsame'.symm ▸ hother, fun hp => nomatch hp.symm.trans (hpending.trans hnone)⟩
        · have hnext' : corrected.2.epoch = link.epoch + 1 := hepoch.trans hnext
          split
          · exact ⟨by show other ≤ corrected.2.epoch; omega,
              fun _ => by show other < corrected.2.epoch; omega⟩
          · exact ⟨by show other ≤ corrected.2.epoch; omega,
              fun _ => by show other < corrected.2.epoch; omega⟩
      · have hcorrections : timed.2.counters.corrections = link.counters.corrections :=
          congrArg Counters.corrections hcounters
        unfold SkipCounted SameSkip at hskip ⊢
        rw [hcorrections] at hskip
        split
        · exact hskip
        · exact hskip

/-- Starting to run (`follow`) leaves the tapes, the skip and the canceller
alone; `resume` comes later in the tick. -/
theorem pairing_follow_running : (c.follow .running).pairing = c.pairing := by
  show (if c.suspended then { c with resuming := true } else c).pairing = c.pairing
  split
  · rfl
  · rfl

/-- Of the messages that ask for no correction, only timing that is good for a
resync has anything to do with the skip. Either it leaves the skip alone
(`SameSkip`) and the link goes `Onward`, or it is a `playbackTiming` of an epoch
that was not past, and then all epochs so far are. -/
theorem handle_cases {message : CaptureMessage} (hmessage : message.isCorrection = false) :
    (SameSkip c link (c.handle link message) ∧ link.Onward (c.handle link message).2)
      ∨ (∃ epoch timing, message = .playbackTiming epoch timing ∧ ¬ link.Past epoch)
        ∧ (∀ epoch ≤ link.epoch, (c.handle link message).2.Past epoch)
        ∧ SkipCounted c link (c.handle link message) := by
  have hsame : ∀ {after : Capture κ}, after.pairing.skip = c.pairing.skip →
      SameSkip c link (after, link) ∧ link.Onward link :=
    fun hskip => ⟨⟨hskip, rfl⟩, link.onward_refl⟩
  cases message with
  | rendered block => exact Or.inl (hsame rfl)
  | rewound bytes => exact Or.inl (hsame rfl)
  | correct usec => cases hmessage
  | timingRequest ticket =>
      have hcounters := congrArg Counters.corrections link.readClock_cases.1
      exact Or.inl ⟨⟨rfl, hcounters⟩, link.onward_readClock⟩
  | playbackTiming epoch timing =>
      show (SameSkip c link (c.resync link epoch timing)
        ∧ link.Onward (c.resync link epoch timing).2) ∨ _
      rcases c.resync_cases link epoch timing with hsame' | ⟨hnow, hpast, hskip⟩
      · rw [hsame']
        exact Or.inl (hsame rfl)
      · exact Or.inr ⟨⟨epoch, timing, rfl, hnow⟩, hpast, hskip⟩
  | device state =>
      cases state with
      | suspended => exact Or.inl (hsame rfl)
      | running => exact Or.inl (hsame (congrArg Pairing.skip c.pairing_follow_running))

variable {c link} {messages : List CaptureMessage}

/-- Where all timing is `Past`, nothing sets the skip: `hmessages` rules out a
correction, and `hpast` a resync. -/
theorem sameSkip_handleAll (hmessages : ∀ message ∈ messages, message.isCorrection = false)
    (hpast : ∀ epoch timing, .playbackTiming epoch timing ∈ messages → link.Past epoch) :
    SameSkip c link (c.handleAll link messages) := by
  induction messages generalizing c link with
  | nil => exact ⟨rfl, rfl⟩
  | cons message rest ih =>
      obtain ⟨hfirst, hrest⟩ := List.forall_mem_cons.mp hmessages
      rcases c.handle_cases link hfirst with ⟨hsame, honward⟩ | ⟨⟨epoch, timing, rfl, hnow⟩, -⟩
      · obtain ⟨hskip, hcounted⟩ := ih hrest fun epoch timing hm =>
          honward.past epoch (hpast epoch timing (List.mem_cons_of_mem _ hm))
        exact ⟨hskip.trans hsame.1, hcounted.trans hsame.2⟩
      · exact absurd (hpast epoch timing List.mem_cons_self) hnow

/-- Of timing that was taken up to now, one at most is used, whatever else is
handled. A timing that is used makes all epochs up to now `Past`, so that
`sameSkip_handleAll` holds of the messages behind it. -/
theorem skipCounted_handleAll (hmessages : ∀ message ∈ messages, message.isCorrection = false)
    (htaken : ∀ epoch timing, .playbackTiming epoch timing ∈ messages → epoch ≤ link.epoch) :
    SkipCounted c link (c.handleAll link messages) := by
  induction messages generalizing c link with
  | nil => exact Or.inl ⟨rfl, rfl⟩
  | cons message rest ih =>
      obtain ⟨hfirst, hrest⟩ := List.forall_mem_cons.mp hmessages
      have htaken' : ∀ epoch timing, .playbackTiming epoch timing ∈ rest → epoch ≤ link.epoch :=
        fun epoch timing hm => htaken epoch timing (List.mem_cons_of_mem _ hm)
      rcases c.handle_cases link hfirst with ⟨hsame, honward⟩ | ⟨-, hpast, hskip⟩
      · have hlater : SkipCounted (c.handle link message).1 (c.handle link message).2
            ((c.handle link message).1.handleAll (c.handle link message).2 rest) :=
          ih hrest fun epoch timing hm => Nat.le_trans (htaken' epoch timing hm) honward.epoch_le
        unfold SkipCounted SameSkip at hlater ⊢
        rw [hsame.1, hsame.2] at hlater
        exact hlater
      · -- The timing that follows comes too late.
        have hlater : SameSkip (c.handle link message).1 (c.handle link message).2
            ((c.handle link message).1.handleAll (c.handle link message).2 rest) :=
          sameSkip_handleAll hrest fun epoch timing hm => hpast epoch (htaken' epoch timing hm)
        rcases hskip with hsame | hcounted
        · exact Or.inl ⟨hlater.1.trans hsame.1, hlater.2.trans hsame.2⟩
        · exact Or.inr (hlater.2.trans hcounted)

/-- Messages that are steady leave the captured audio alone. Only a suspension
would throw it away, and that is not `isSteady`. -/
theorem captured_handleAll (hsteady : ∀ message ∈ messages, message.isSteady = true) :
    (c.handleAll link messages).1.pairing.captured = c.pairing.captured := by
  refine handleAll_induct (motive := fun after => after.pairing.captured = c.pairing.captured)
    (fun after link message hm h => ?_) rfl link
  refine Eq.trans ?_ h
  have hmessage := hsteady message hm
  cases message with
  | playbackTiming epoch timing =>
      show (after.resync link epoch timing).1.pairing.captured = _
      unfold resync
      split
      · rfl
      · rfl
  | device state =>
      cases state with
      | suspended => cases hmessage
      | running => exact congrArg Pairing.captured after.pairing_follow_running
  | _ => rfl

/-- Going back to work (`resume`) leaves the tapes, the skip and the counters
alone. -/
theorem pairing_resume : (c.resume link).1.pairing = c.pairing
    ∧ (c.resume link).2.counters = link.counters := by
  unfold resume
  split
  · exact ⟨rfl, rfl⟩
  · exact ⟨rfl, rfl⟩

end Capture

/-! ### Where playback leads, every block is cancelled -/

/-- Where nothing is to be dropped (`hidle`) and there is at least as much
playback as captured audio (`hleads`), every block that is worked off is
cancelled. By induction on the `Path`: a call takes a block from either side, so
that both hypotheses hold again. -/
theorem Pairing.Path.leading {κ : Type} [Canceller κ] {p last : Pairing κ} {events : List Event}
    (h : Path p events last) {b : Backlog κ} (hholds : p.Holds b) (hidle : b.skip = .idle)
    (hleads : b.captured.length ≤ b.played.length) :
    (∀ event ∈ events, event.isCall = true) ∧ last.skip = .idle := by
  induction h generalizing b with
  | refl => exact ⟨fun _ hevent => absurd hevent List.not_mem_nil, hholds.skip_eq.trans hidle⟩
  | @cons p next last event events hstep _ ih =>
      obtain ⟨fate, rest, hfate, hevent, hnext⟩ := hholds.step?_eq_some hstep
      obtain ⟨hle, ⟨hsource, -⟩ | ⟨-, -, -, heq⟩ | ⟨-, hready, -⟩⟩ := Backlog.step?_cases hfate
      · rw [hidle] at hsource
        exact absurd hsource (Nat.lt_irrefl 0)
      · cases heq
        obtain ⟨hcalls, hlast⟩ := ih hnext hidle (by
          simp only [List.length_drop]
          omega)
        refine ⟨List.forall_mem_cons.mpr ⟨?_, hcalls⟩, hlast⟩
        cases event <;> first | rfl | cases hevent
      · -- There is playback for the block, and none is to be dropped.
        refine absurd ⟨Nat.le_trans hle hleads, ?_⟩ hready
        rw [hidle]
        rfl

/-- Lists of the same length `size`, one behind the other and with `rest` at the
end, are found at the multiples of that length. -/
theorem eq_map_slices {α : Type} {size : Nat} {pieces : List (List α)}
    (hsize : ∀ piece ∈ pieces, piece.length = size) (rest : List α) :
    pieces = (List.range pieces.length).map fun i =>
      ((pieces.flatten ++ rest).drop (i * size)).take size := by
  induction pieces with
  | nil => rfl
  | cons piece pieces ih =>
      obtain ⟨hfirst, hothers⟩ := List.forall_mem_cons.mp hsize
      rw [List.length_cons, List.range_succ_eq_map, List.map_cons, List.map_map,
        List.flatten_cons, List.append_assoc]
      refine List.cons_eq_cons.mpr ⟨?_, ?_⟩
      · rw [Nat.zero_mul, List.drop_zero, ← hfirst, List.take_left]
      · refine (ih hothers).trans (List.map_congr_left fun i _ => ?_)
        have hplace : (i + 1) * size = piece.length + i * size := by
          rw [hfirst, Nat.succ_mul, Nat.add_comm]
        show _ = ((piece ++ (pieces.flatten ++ rest)).drop ((i + 1) * size)).take size
        rw [hplace, ← List.drop_drop, List.drop_left]

/-- The length of `pieces` that all have one `size`, one behind the other. -/
theorem length_flatten_of_forall {α : Type} {size : Nat} {pieces : List (List α)}
    (hsize : ∀ piece ∈ pieces, piece.length = size) :
    pieces.flatten.length = pieces.length * size := by
  induction pieces with
  | nil => exact (Nat.zero_mul size).symm
  | cons piece pieces ih =>
      obtain ⟨hfirst, hothers⟩ := List.forall_mem_cons.mp hsize
      rw [List.flatten_cons, List.length_append, hfirst, ih hothers, List.length_cons,
        Nat.succ_mul, Nat.add_comm]

/-- What the runs of the canceller are given, by `Event.pair?`. -/
def pairsOf (events : List Event) : List (List UInt8 × List UInt8) := events.filterMap Event.pair?

/-- Where audio is worked off in runs of the canceller only, they are given all
of it, in blocks. The blocks of the pairs, one behind the other, are then all
the captured and all the played audio of the events. -/
theorem Calls.pairs {κ : Type} [Canceller κ] {size : Nat} {first last : κ} {events : List Event}
    (h : Calls size first events last)
    (hcalls : ∀ event ∈ events, event.isWorked = true → event.isCall = true) :
    (∀ pair ∈ pairsOf events, pair.1.length = size ∧ pair.2.length = size)
      ∧ bytesOfBlocks (events.filterMap Event.captured?)
        = ((pairsOf events).map Prod.fst).flatten
      ∧ bytesOfBlocks (events.filterMap Event.played?)
        = ((pairsOf events).map Prod.snd).flatten := by
  induction events generalizing first with
  | nil => exact ⟨fun _ hpair => absurd hpair List.not_mem_nil, rfl, rfl⟩
  | cons event events ih =>
      obtain ⟨hfirst, hothers⟩ := List.forall_mem_cons.mp hcalls
      cases event with
      | cancelled captured played cleaned =>
          obtain ⟨hcaptured, hplayed, -, hrest⟩ := h
          obtain ⟨hsizes, hall, hall'⟩ := ih hrest hothers
          refine ⟨List.forall_mem_cons.mpr ⟨⟨?_, ?_⟩, hsizes⟩, ?_, ?_⟩
          · exact (Block.length_toList captured).trans hcaptured
          · exact (Block.length_toList played).trans hplayed
          · exact congrArg (captured.toList ++ ·) hall
          · exact congrArg (played.toList ++ ·) hall'
      | skipped captured => cases hfirst rfl
      | passed captured dropped => cases hfirst rfl
      | _ => exact ih h hothers

/-! ### A run in which playback leads -/

namespace Session

variable {κ υ : Type} [Canceller κ] [Producer υ] {s : Session κ υ} {size limit : Nat} {first : κ}
  {events : List Event} {captured : List UInt8}

omit [Canceller κ] [Producer υ] in
/-- The playback side tells its timing without the capture side:
`playbackTiming` reads the clock and no more. -/
theorem capture?_playbackTiming (s : Session κ υ) :
    s.playbackTiming.2.capture? = s.capture?
      ∧ s.playbackTiming.2.captureControl = s.captureControl := by
  unfold playbackTiming
  split
  · exact ⟨rfl, rfl⟩
  · exact ⟨rfl, rfl⟩

omit [Canceller κ] [Producer υ] in
/-- The capture side does not change when it tells its timing (`captureTiming`). -/
theorem capture?_captureTiming (s : Session κ υ) :
    s.captureTiming.2.capture? = s.capture?
      ∧ s.captureTiming.2.captureControl = s.captureControl := by
  unfold captureTiming
  split
  · exact ⟨rfl, rfl⟩
  · exact ⟨rfl, rfl⟩

omit [Canceller κ] [Producer υ] in
/-- An `inspect` changes neither the capture side nor what waits for it, whichever
sides are `asked`. -/
theorem capture?_inspect (s : Session κ υ) (asked : Sides) :
    (s.inspect asked).2.capture? = s.capture?
      ∧ (s.inspect asked).2.captureControl = s.captureControl := by
  obtain ⟨capture, playback⟩ := asked
  unfold inspect
  cases playback with
  | false =>
      cases capture with
      | false => exact ⟨rfl, rfl⟩
      | true => exact s.capture?_captureTiming
  | true =>
      obtain ⟨hplayback, hplaybackControl⟩ := s.capture?_playbackTiming
      cases capture with
      | false => exact ⟨hplayback, hplaybackControl⟩
      | true =>
          obtain ⟨hcapture, hcaptureControl⟩ := s.playbackTiming.2.capture?_captureTiming
          exact ⟨hcapture.trans hplayback, hcaptureControl.trans hplaybackControl⟩

omit [Canceller κ] [Producer υ] in
/-- How a device does (`reportDevice`) is posted to the side that works with it,
and for the capture side this is no correction. -/
theorem capture?_reportDevice (s : Session κ υ) (direction : Direction) (running : Bool) :
    (s.reportDevice direction running).capture? = s.capture?
      ∧ ∀ message ∈ (s.reportDevice direction running).captureControl.items,
        message ∈ s.captureControl.items ∨ message.isCorrection = false := by
  unfold reportDevice
  split
  · exact ⟨rfl, fun _ => Or.inl⟩
  · -- Only a report of the capture device is for the capture side.
    cases direction with
    | input =>
        have hposted : ∀ message ∈ (s.captureControl.post (.device (stateOf running))).2.items,
            message ∈ s.captureControl.items ∨ message.isCorrection = false := by
          intro message hm
          rcases Mailbox.mem_items_post hm with hm | rfl
          · exact Or.inl hm
          · exact Or.inr rfl
        simp only [postCapture_eq]
        split
        · exact ⟨rfl, fun _ => Or.inl⟩
        · split
          · exact ⟨rfl, hposted⟩
          · exact ⟨rfl, hposted⟩
    | output =>
        simp only [postPlayback_eq]
        split
        · exact ⟨rfl, fun _ => Or.inl⟩
        · split
          · exact ⟨rfl, fun _ => Or.inl⟩
          · exact ⟨rfl, fun _ => Or.inl⟩

/-- Between capture ticks, the capture side is left alone, and the control side
has nothing to say to it but how its device does. By cases on the operation. The
reports of the device are the only posts to `captureControl` among those that
are unsteered. -/
theorem capture?_perform {operation : Operation} (h : operation.isUnsteered = true)
    (hpush : ∀ block, operation ≠ .push block) :
    (s.perform operation).2.capture? = s.capture?
      ∧ ∀ message ∈ (s.perform operation).2.captureControl.items,
        message ∈ s.captureControl.items ∨ message.isCorrection = false := by
  cases operation with
  | push block => exact absurd rfl (hpush block)
  | render n =>
      show (s.render n).2.capture? = _ ∧ ∀ message ∈ (s.render n).2.captureControl.items, _
      unfold render
      split
      · exact ⟨rfl, fun _ => Or.inl⟩
      · split
        · exact ⟨rfl, fun _ => Or.inl⟩
        · exact ⟨rfl, fun _ => Or.inl⟩
  | reportDevice direction running => exact s.capture?_reportDevice direction running
  | requestResync =>
      show s.requestResync.capture? = _ ∧ ∀ message ∈ s.requestResync.captureControl.items, _
      unfold requestResync
      split
      · exact ⟨rfl, fun _ => Or.inl⟩
      · exact ⟨rfl, fun _ => Or.inl⟩
  | inspect asked =>
      obtain ⟨hcapture, hcontrol⟩ := s.capture?_inspect asked
      exact ⟨hcapture, fun message hm => Or.inl (hcontrol ▸ hm)⟩
  | scheduleRequests readings =>
      show (s.scheduleRequests readings).capture? = _
        ∧ ∀ message ∈ (s.scheduleRequests readings).captureControl.items, _
      unfold scheduleRequests
      split
      · exact ⟨rfl, fun _ => Or.inl⟩
      · exact ⟨rfl, fun _ => Or.inl⟩
  | setLatency direction latency => cases direction <;> exact ⟨rfl, fun _ => Or.inl⟩
  | advanceClock usec => exact ⟨rfl, fun _ => Or.inl⟩
  | rewindPlayback n => cases h
  | rewindCapture n => cases h
  | correct usec => cases h
  | postCorrection usec => cases h
  | startCheck => cases h
  | continueCheck => cases h
  | shutdown => cases h
  | dropControl => cases h
  | dropCapture => cases h
  | dropPlayback => cases h

/-- So far, each captured block was cancelled (`calls`), less than a block
waits, and nothing is to be dropped (`idle`, `uncorrected`). This is the
invariant of a run in which playback leads. -/
structure Leads (size : Nat) (s : Session κ υ) (events : List Event) (captured : List UInt8) :
    Prop where
  uncorrected : ∀ message ∈ s.captureControl.items, message.isCorrection = false
  idle : s.CaptureIs fun c => c.pairing.skip = .idle
  calls : ∀ event ∈ events, event.isWorked = true → event.isCall = true
  captured_eq : captured = bytesOfBlocks (events.filterMap Event.captured?) ++ s.waiting
  waiting_lt : s.waiting.length < size

/-- What happens between capture ticks keeps `Leads`, since it leaves the
capture side alone. -/
theorem Leads.perform (h : s.Leads size events captured) {operation : Operation}
    (hunsteered : operation.isUnsteered = true) (hpush : ∀ block, operation ≠ .push block) :
    (s.perform operation).2.Leads size (events ++ (s.perform operation).1) captured := by
  obtain ⟨hcapture, hcontrol⟩ := s.capture?_perform hunsteered hpush
  have hwaiting : (s.perform operation).2.waiting = s.waiting := by
    unfold waiting
    rw [hcapture]
  have hquiet : ∀ event ∈ (s.perform operation).1, event.isWorked = false :=
    fun _ => isWorked_of_mem_perform hpush
  have hnone : (s.perform operation).1.filterMap Event.captured? = [] :=
    List.filterMap_eq_nil_iff.mpr fun event hevent =>
      (Event.of_not_isWorked (hquiet event hevent)).1
  refine ⟨fun message hm => ?_, fun c hc => h.idle c (hcapture ▸ hc),
    fun event hevent hworked => ?_, ?_, hwaiting ▸ h.waiting_lt⟩
  · exact (hcontrol message hm).elim (h.uncorrected message) id
  · rcases List.mem_append.mp hevent with hevent | hevent
    · exact h.calls event hevent hworked
    · exact nomatch hworked.symm.trans (hquiet event hevent)
  · rw [List.filterMap_append, hnone, List.append_nil, hwaiting]
    exact h.captured_eq

/-- No event is about `corrections`, so that `Counters.record` leaves them
alone. -/
theorem corrections_foldl_record (counters : Counters) (events : List Event) :
    (events.foldl Counters.record counters).corrections = counters.corrections := by
  induction events generalizing counters with
  | nil => rfl
  | cons event events ih =>
      refine (ih _).trans ?_
      cases event <;> rfl

omit [Producer υ] in
/-- A capture tick that counts no correction sets no skip: `hbefore` and
`hafter` say that the count stands at 0 before and after, and
`skipCounted_handleAll` says what that leaves. -/
theorem skip_drainCapture {c : Capture κ} (hc : s.capture? = some c)
    (hlinked : s.link.linked = true) (hwired : s.Wired limit) (hcontrol : s.ControlOnly)
    (huncorrected : ∀ message ∈ s.captureControl.items, message.isCorrection = false)
    (htaken : ∀ epoch timing, .playbackTiming epoch timing ∈ s.data.items → epoch ≤ s.link.epoch)
    {block : Block} (hbefore : s.link.counters.corrections = 0)
    (hafter : (s.push block).2.link.counters.corrections = 0) :
    (s.drainCapture c).1.pairing.skip = c.pairing.skip := by
  obtain ⟨-, -, hlink, -, -⟩ := push_attend hc hlinked block
  have hattend : Capture.SkipCounted c s.link (s.attend c) := by
    rw [s.attend_eq c]
    refine Capture.skipCounted_handleAll (fun message hm => ?_) fun epoch timing hm => ?_
    · rcases List.mem_append.mp hm with hm | hm
      · exact huncorrected message (List.mem_of_mem_take hm)
      · have hdata := hwired.dataOnly message (List.mem_of_mem_take hm)
        cases message <;> first | rfl | cases hdata
    · rcases List.mem_append.mp hm with hm | hm
      · cases hcontrol _ (List.mem_of_mem_take hm)
      · exact htaken epoch timing (List.mem_of_mem_take hm)
  have hsame : (s.attend c).2.counters.corrections = 0 := by
    rw [hlink] at hafter
    refine Eq.trans ?_ hafter
    show _ = (List.foldl Counters.record _ _).corrections
    rw [corrections_foldl_record, Capture.pairing_resume.2]
  have hpairing : (s.drainCapture c).1.pairing = (s.attend c).1.pairing := Capture.pairing_resume.1
  rw [hpairing]
  rcases hattend with hskip | hcounted
  · exact hskip.1
  · rw [hsame, hbefore] at hcounted
    exact absurd hcounted (by decide)

omit [Canceller κ] [Producer υ] in
/-- The messages of a steady tick (`hsteady`) leave the captured audio alone,
and so does `resume` behind them. -/
theorem captured_drainCapture (c : Capture κ)
    (hsteady : ∀ m, m ∈ s.captureControl.items ∨ m ∈ s.data.items → m.isSteady = true) :
    (s.drainCapture c).1.pairing.captured = c.pairing.captured := by
  have hpairing : (s.drainCapture c).1.pairing = (s.attend c).1.pairing := Capture.pairing_resume.1
  rw [hpairing, s.attend_eq c]
  refine Capture.captured_handleAll fun message hm => hsteady message ?_
  exact (List.mem_append.mp hm).imp List.mem_of_mem_take List.mem_of_mem_take

omit [Canceller κ] in
/-- Captured audio that a tape does not refuse is put behind what waits.
`hholds` puts a list beside the tape, and `acceptEntries` tells whether the
block was refused. -/
theorem captured_accept {c : Capture κ} {plain : PlainCapture κ} (hholds : c.Holds plain)
    {block : Block} (htaken : .refused .input block ∉ c.acceptEntries block) :
    (plain.accept block.toList).backlog.captured = plain.backlog.captured ++ block.toList := by
  show appendWithin _ _ _ = _
  unfold appendWithin
  rw [Block.length_toList]
  split
  · rfl
  · next hrefused =>
      obtain ⟨e, happend⟩ := hholds.pairing.captured.append_eq_error hrefused
      refine absurd ?_ htaken
      unfold Capture.acceptEntries Capture.appendEntries
      rw [happend]
      exact List.mem_singleton.mpr rfl

omit [Producer υ] in
/-- What was rendered and not used lies on the tape when nothing waits in the
mailbox. So there is playback for everything captured, if no more was captured
than was rendered before (`hleads`). -/
theorem Flowing.length_le {plain : PlainCapture κ} (h : s.Flowing size first events plain)
    (hdata : s.data.items = [])
    (hcalls : ∀ event ∈ events, event.isWorked = true → event.isCall = true) {more : List UInt8}
    (hleads : (bytesOfBlocks (events.filterMap Event.captured?) ++ more).length
      ≤ (bytesOfBlocks (events.filterMap Event.rendered?)).length) :
    more.length ≤ plain.backlog.played.length := by
  obtain ⟨hsizes, hcaptured, hplayed⟩ := h.calls.pairs hcalls
  have hrendered := h.rendered_eq
  rw [hdata, List.filterMap_nil, hplayed] at hrendered
  rw [hrendered, hcaptured] at hleads
  -- The canceller has used as much of the one as of the other.
  have hsame : ((pairsOf events).map Prod.fst).flatten.length
      = ((pairsOf events).map Prod.snd).flatten.length := by
    rw [length_flatten_of_forall (List.forall_mem_map.mpr fun pair hpair => (hsizes pair hpair).1),
      length_flatten_of_forall (List.forall_mem_map.mpr fun pair hpair => (hsizes pair hpair).2),
      List.length_map, List.length_map]
  simp only [List.length_append, bytesOfBlocks, List.flatMap_nil, List.length_nil] at hleads
  omega

omit [Producer υ] in
/-- Once the messages are handled, there is playback for every captured block
that waits, and the tick works off calls only, by `Pairing.Path.leading`. -/
theorem Leads.push {c : Capture κ} {plain : PlainCapture κ} {block : Block}
    (h : s.Leads size events captured) (hc : s.capture? = some c)
    (hlinked : s.link.linked = true) (hwired : s.Wired limit)
    (hsteady : ∀ m, m ∈ s.captureControl.items ∨ m ∈ s.data.items → m.isSteady = true)
    (hskip : (s.drainCapture c).1.pairing.skip = c.pairing.skip)
    (hflowing : ({ (s.drainCapture c).2 with capture? := some (s.drainCapture c).1 } :
      Session κ υ).Flowing size first events plain)
    (htaken : .refused .input block ∉ (s.drainCapture c).1.acceptEntries block)
    (hleads : (captured ++ block.toList).length
      ≤ (bytesOfBlocks (events.filterMap Event.rendered?)).length) :
    (s.push block).2.Leads size (events ++ (s.push block).1) (captured ++ block.toList) := by
  obtain ⟨drained, hdrained, hholds⟩ := hflowing.capture
  cases (Option.some.inj hdrained : (s.drainCapture c).1 = drained)
  obtain ⟨hevents, hcapture, -⟩ := push_eq hc hlinked block
  -- What is to be worked off is what waited before, and the new audio.
  have hwaits : plain.backlog.captured = s.waiting := by
    rw [← hholds.pairing.captured.unread_eq, captured_drainCapture c hsteady]
    unfold waiting
    rw [hc]
  have hholds' := hholds.accept block
  have hbytes : (plain.accept block.toList).backlog.captured = s.waiting ++ block.toList := by
    rw [captured_accept hholds htaken, hwaits]
  have hdata : (s.drainCapture c).2.data.items = [] := by
    show (s.data.drain s.drainLimit).2.items = []
    rw [hwired.drainLimit_eq]
    exact hwired.data.drain.2
  have hroom : (s.waiting ++ block.toList).length ≤ plain.backlog.played.length := by
    refine hflowing.length_le hdata h.calls ?_
    rw [← List.append_assoc, ← h.captured_eq]
    exact hleads
  have hidle : (plain.accept block.toList).backlog.skip = .idle :=
    (hholds.pairing.skip_eq.symm.trans hskip).trans (h.idle c hc)
  have hsize : ((s.drainCapture c).1.accept block).pairing.blockBytes = size :=
    hholds'.pairing.blockBytes_eq.trans hflowing.blockBytes_eq
  have hpos : 0 < ((s.drainCapture c).1.accept block).pairing.blockBytes := by
    rw [hholds'.pairing.blockBytes_eq]
    exact (plain.accept block.toList).backlog.pos
  obtain ⟨hpath, hend⟩ := Pairing.path_drive hpos hholds'.pairing.captured
  obtain ⟨hcalls, hidle'⟩ := hpath.leading hholds'.pairing hidle (by rw [hbytes]; exact hroom)
  obtain ⟨hsize', rest, hsplit, hrest⟩ := hpath.captured hholds'.pairing.captured
  have hwaiting : (s.push block).2.waiting = rest := by
    unfold waiting
    rw [hcapture]
    exact hrest.unread_eq
  refine ⟨fun message hm => ?_, fun c' hc' => ?_, fun event hevent hworked => ?_, ?_, ?_⟩
  · rw [(hwired.idle_push hc hlinked block).control] at hm
    exact absurd hm List.not_mem_nil
  · cases hcapture.symm.trans hc'
    exact hidle'
  · rcases List.mem_append.mp hevent with hevent | hevent
    · exact h.calls event hevent hworked
    · exact hcalls event (hevents ▸ hevent)
  · rw [List.filterMap_append, bytesOfBlocks_append, hwaiting, hevents, List.append_assoc,
      ← hsplit, hbytes, ← List.append_assoc, ← h.captured_eq]
  · rw [hwaiting, ← hrest.length_eq, ← hsize, ← hsize']
    exact Pairing.length_lt_of_step?_eq_none hend

/-- The captured audio that operations bring, by `Operation.pushed?`. -/
def pushedIn (operations : List Operation) : List UInt8 :=
  bytesOfBlocks (operations.filterMap Operation.pushed?)

/-- Nothing disturbs a run in which playback leads: only unsteered operations,
no message of the playback side lost, no block refused, no correction counted,
and at every capture tick no more captured than was rendered before. -/
structure PlaybackLeads (s : Session κ υ) (operations : List Operation) : Prop where
  unsteered : ∀ operation ∈ operations, operation.isUnsteered = true
  /-- No message of the playback side is lost. -/
  kept : ∀ message, .lost message ∉ s.journalOf operations
  /-- No audio is refused. -/
  taken : ∀ direction block, .refused direction block ∉ s.journalOf operations
  /-- No correction is counted. -/
  uncorrected : ∀ before, before <+: operations →
    (s.run before).2.link.counters.corrections = 0
  /-- At every capture tick, as much was rendered as will have been
  captured. -/
  leads : ∀ before block, before ++ [.push block] <+: operations →
    (pushedIn (before ++ [.push block])).length
      ≤ (bytesOfBlocks ((s.run before).1.filterMap Event.rendered?)).length

/-- A run that nothing disturbs (`PlaybackLeads`) is one of which no part is
disturbed. -/
theorem PlaybackLeads.before {operations rest : List Operation}
    (h : s.PlaybackLeads (operations ++ rest)) : s.PlaybackLeads operations := by
  have hjournal := s.journalOf_append operations rest
  refine ⟨fun operation hmem => h.unsteered operation (List.mem_append_left _ hmem),
    fun message hm => h.kept message ?_, fun direction block hm => h.taken direction block ?_,
    fun before hbefore => h.uncorrected before (hbefore.trans (List.prefix_append _ rest)),
    fun before block hbefore => h.leads before block (hbefore.trans (List.prefix_append _ rest))⟩
  · rw [hjournal]
    exact List.mem_append_left _ hm
  · rw [hjournal]
    exact List.mem_append_left _ hm

/-- A run in which playback leads is one of `Steps` under `Steady` operations. -/
theorem PlaybackLeads.steps {operations : List Operation} (h : s.PlaybackLeads operations) :
    Steps Steady s (s.journalOf operations) (s.run operations).2 :=
  s.steps_run fun operation hmem =>
    Operation.isSteady_of_isUnsteered (h.unsteered operation hmem)

/-- Timing that waits was taken for a request that was made by then, so that its
`epoch` is not ahead of the link. -/
theorem IsNew.epoch_le (hnew : s.IsNew) {t : Session κ υ} {entries : List Entry}
    {allowed : Operation → Prop} (hsteps : Steps allowed s entries t) {epoch : Nat}
    {timing : PlaybackTiming} (hwaits : .playbackTiming epoch timing ∈ t.data.items) :
    epoch ≤ t.link.epoch := by
  have hresyncing := hnew.resyncing_steps hsteps
  obtain ⟨⟨before, after, hsplit, rfl⟩, -⟩ := hresyncing.waiting epoch timing hwaits
  rw [hresyncing.epoch_eq, hsplit, requestCount_append]
  exact Nat.le_add_right _ _

/-- Playback goes on to lead when one more operation is performed: a capture
tick by `Leads.push`, anything else by `Leads.perform`. -/
theorem IsNew.leads_perform (hnew : s.IsNew) {before : List Operation} {operation : Operation}
    (hrun : s.PlaybackLeads (before ++ [operation]))
    (h : (s.run before).2.Leads s.blockBytes (s.run before).1 (pushedIn before)) :
    (s.run (before ++ [operation])).2.Leads s.blockBytes (s.run (before ++ [operation])).1
      (pushedIn (before ++ [operation])) := by
  obtain ⟨t, ht⟩ : ∃ t, t = (s.run before).2 := ⟨_, rfl⟩
  have hrun' : s.run (before ++ [operation])
      = ((s.run before).1 ++ (t.perform operation).1, (t.perform operation).2) := by
    rw [run_append, ht]
    simp only [run, List.append_nil]
  have hpushed : pushedIn (before ++ [operation])
      = pushedIn before ++ bytesOfBlocks (operation.pushed?.toList) := by
    unfold pushedIn
    rw [List.filterMap_append, bytesOfBlocks_append]
    cases operation <;> rfl
  have hsteps : Steps Steady s (s.journalOf before) t := ht ▸ hrun.before.steps
  rw [← ht] at h
  rw [hrun', hpushed]
  by_cases hpush : ∃ block, operation = .push block
  · obtain ⟨block, rfl⟩ := hpush
    obtain ⟨start, plain, -, hflowing⟩ :=
      hnew.flowing_steps hsteps hrun.before.kept fun block => hrun.before.taken .output block
    obtain ⟨c, hc, -⟩ := hflowing.capture
    have hlinked := hflowing.calm.linked
    have hwired := hnew.wired.steps hsteps
    have hentries : s.journalOf (before ++ [.push block])
        = (s.journalOf before ++ t.drainCaptureEntries c)
          ++ ((t.drainCapture c).1.acceptEntries block ++ (t.push block).1.map Entry.event) := by
      rw [journalOf_append, ← ht]
      simp only [journalOf, journal_push hc hlinked block, List.append_nil, List.append_assoc]
    -- Nothing is lost or refused while the messages are handled, either.
    obtain ⟨start', plain', hstart', hdrained⟩ := hnew.flowing_steps
      (hsteps.trans (steps_drainCapture hc (show Steady (.push block) from rfl)))
      (fun message hm => hrun.kept message (hentries ▸ List.mem_append_left _ hm))
      fun block' hm => hrun.taken .output block' (hentries ▸ List.mem_append_left _ hm)
    rw [List.filterMap_append, events_journalOf, events_drainCaptureEntries, List.append_nil]
      at hdrained
    have hbefore : t.link.counters.corrections = 0 := by
      rw [ht]
      exact hrun.uncorrected before (List.prefix_append _ _)
    have hafter : (t.push block).2.link.counters.corrections = 0 := by
      have hend := hrun.uncorrected (before ++ [.push block]) (List.prefix_refl _)
      rw [hrun'] at hend
      exact hend
    have hskip := skip_drainCapture hc hlinked hwired hflowing.calm.control h.uncorrected
      (fun epoch timing hm => hnew.epoch_le hsteps hm) hbefore hafter
    have hleads := hrun.leads before block (List.prefix_refl _)
    rw [hpushed] at hleads
    have hblock : bytesOfBlocks ((Operation.push block).pushed?.toList) = block.toList :=
      List.append_nil _
    rw [hblock] at hleads ⊢
    refine h.push hc hlinked hwired hflowing.calm.steady hskip hdrained (fun hm => ?_) hleads
    exact hrun.taken .input block
      (hentries ▸ List.mem_append_right _ (List.mem_append_left _ hm))
  · have hpush : ∀ block, operation ≠ .push block := fun block hblock => hpush ⟨block, hblock⟩
    have hnone : bytesOfBlocks (operation.pushed?.toList) = [] := by
      cases operation <;> first | rfl | exact absurd rfl (hpush _)
    rw [hnone, List.append_nil]
    exact h.perform (hrun.unsteered operation (List.mem_append_right _ List.mem_cons_self)) hpush

omit [Producer υ] in
/-- In a new session nothing waits, and `Leads` holds of no events and no audio. -/
theorem IsNew.leads (hnew : s.IsNew) : s.Leads s.blockBytes [] [] := by
  obtain ⟨-, hpos, -⟩ := hnew.recording
  obtain ⟨-, hwaiting⟩ := hnew.untouched
  obtain ⟨spec, capacity, canceller, producer, link, dumps?, rfl, -⟩ := hnew.opened
  refine ⟨fun message hm => absurd hm List.not_mem_nil, fun c hc => ?_,
    fun event hevent => absurd hevent List.not_mem_nil, hwaiting.symm, ?_⟩
  · cases hc
    rfl
  · rw [hwaiting]
    exact hpos

/-- So `Leads` holds after every part of a run in which playback leads, by
induction on the operations with `leads_perform`. -/
theorem IsNew.leads_run (hnew : s.IsNew) (before rest : List Operation)
    (hrun : s.PlaybackLeads (before ++ rest))
    (h : (s.run before).2.Leads s.blockBytes (s.run before).1 (pushedIn before)) :
    (s.run (before ++ rest)).2.Leads s.blockBytes (s.run (before ++ rest)).1
      (pushedIn (before ++ rest)) := by
  induction rest generalizing before with
  | nil =>
      rw [List.append_nil]
      exact h
  | cons operation rest ih =>
      have hsplit : before ++ operation :: rest = (before ++ [operation]) ++ rest :=
        List.append_cons before operation rest
      rw [hsplit] at hrun ⊢
      exact ih (before ++ [operation]) hrun (hnew.leads_perform hrun.before h)

/-- In a new session in which playback leads, as `PlaybackLeads` says (no
correction is counted, nothing is suspended, taken back, lost or refused, and at
every capture tick no more was captured than was rendered before), no captured
block is dropped or passed on, and the canceller runs on the `i`-th block of all
captured audio (`pushedIn`) together with the `i`-th block of all rendered
audio. -/
theorem paired_in_place (hnew : s.IsNew) {operations : List Operation}
    (hrun : s.PlaybackLeads operations) :
    let events := (s.run operations).1
    let captured := pushedIn operations
    let rendered := bytesOfBlocks (events.filterMap Event.rendered?)
    ∃ start c, s.capture? = some start ∧ (s.run operations).2.capture? = some c
      ∧ (∀ block, .skipped block ∉ events) ∧ (∀ block dropped, .passed block dropped ∉ events)
      ∧ pairsOf events
        = ((List.range (captured.length / s.blockBytes)).map fun i =>
            ((captured.drop (i * s.blockBytes)).take s.blockBytes,
              (rendered.drop (i * s.blockBytes)).take s.blockBytes))
      ∧ Calls s.blockBytes start.pairing.canceller events c.pairing.canceller := by
  intro events captured rendered
  have hleads : (s.run operations).2.Leads s.blockBytes events captured :=
    hnew.leads_run [] operations hrun hnew.leads
  obtain ⟨start, plain, hstart, hflowing⟩ :=
    hnew.flowing_steps hrun.steps hrun.kept fun block => hrun.taken .output block
  rw [events_journalOf] at hflowing
  obtain ⟨c, hc, hholds⟩ := hflowing.capture
  obtain ⟨hsizes, hcaptured, hplayed⟩ := hflowing.calls.pairs hleads.calls
  refine ⟨start, c, hstart, hc,
    fun block hm => Bool.false_ne_true (hleads.calls (.skipped block) hm rfl),
    fun block dropped hm => Bool.false_ne_true (hleads.calls (.passed block dropped) hm rfl),
    ?_, ?_⟩
  · -- Both kinds of blocks follow each other without a gap from the beginning.
    have hfirsts : ∀ piece ∈ (pairsOf events).map Prod.fst, piece.length = s.blockBytes :=
      List.forall_mem_map.mpr fun pair hpair => (hsizes pair hpair).1
    have hseconds : ∀ piece ∈ (pairsOf events).map Prod.snd, piece.length = s.blockBytes :=
      List.forall_mem_map.mpr fun pair hpair => (hsizes pair hpair).2
    have hcaptured' : captured
        = ((pairsOf events).map Prod.fst).flatten ++ (s.run operations).2.waiting :=
      hcaptured ▸ hleads.captured_eq
    have hrendered : rendered = ((pairsOf events).map Prod.snd).flatten ++ _ :=
      hplayed ▸ hflowing.rendered_eq
    have hcount : captured.length / s.blockBytes = (pairsOf events).length := by
      have hlt := hleads.waiting_lt
      rw [hcaptured', List.length_append, length_flatten_of_forall hfirsts, List.length_map,
        Nat.mul_comm, Nat.mul_add_div (Nat.lt_of_le_of_lt (Nat.zero_le _) hlt),
        Nat.div_eq_of_lt hlt, Nat.add_zero]
    have hslices := eq_map_slices hfirsts (s.run operations).2.waiting
    have hslices' := eq_map_slices hseconds (plain.backlog.played
      ++ bytesOfBlocks ((s.run operations).2.data.items.filterMap CaptureMessage.rendered?))
    rw [← hcaptured', List.length_map, ← hcount] at hslices
    rw [← hrendered, List.length_map, ← hcount] at hslices'
    rw [List.zip_of_prod hslices hslices', List.zip_map']
  · rw [hholds.pairing.canceller_eq]
    exact hflowing.calls

/-- The hypotheses of `paired_in_place` are met where sixteen captured bytes
come in three parts, and twenty rendered ones in three others. The last part of
either waits. -/
theorem paired_in_place_trial :
    let operations : List Operation :=
      [.render 6, .push (.ofBytes ⟨#[100, 101]⟩), .render 8, .inspect ⟨true, true⟩,
        .push (.ofBytes ⟨#[102, 103, 104, 105, 106, 107, 108, 109, 110, 111]⟩), .render 6,
        .push (.ofBytes ⟨#[112, 113]⟩)]
    let events := (trial.run operations).1
    trial.PlaybackLeads operations
      ∧ pairsOf events
        = [([100, 101, 102, 103], [1, 2, 3, 4]), ([104, 105, 106, 107], [5, 6, 7, 8]),
          ([108, 109, 110, 111], [1, 2, 3, 4])]
      ∧ (∀ block dropped, .passed block dropped ∉ events)
      ∧ pairsOf events
        = ((List.range ((pushedIn operations).length / trial.blockBytes)).map fun i =>
            (((pushedIn operations).drop (i * trial.blockBytes)).take trial.blockBytes,
              ((bytesOfBlocks (events.filterMap Event.rendered?)).drop
                (i * trial.blockBytes)).take trial.blockBytes)) := by
  intro operations events
  have hroom : ∀ entry ∈ trial.journalOf operations, (match entry with
      | .lost _ => false
      | .refused _ _ => false
      | _ => true) = true := List.all_eq_true.mp (by decide +kernel)
  have hstates : ∀ k ∈ List.range (operations.length + 1),
      (trial.run (operations.take k)).2.link.counters.corrections = 0
        ∧ (pushedIn (operations.take (k + 1))).length
          ≤ (bytesOfBlocks
            ((trial.run (operations.take k)).1.filterMap Event.rendered?)).length := by
    decide +kernel
  have hinitial : ∀ before, before <+: operations →
      before.length ∈ List.range (operations.length + 1) := fun before hbefore =>
    List.mem_range.mpr (Nat.lt_succ_of_le hbefore.length_le)
  have hrun : trial.PlaybackLeads operations := by
    refine ⟨by decide, fun message hm => ?_, fun direction block hm => ?_, fun before hbefore => ?_,
      fun before block hpush => ?_⟩
    · cases hroom _ hm
    · cases hroom _ hm
    · have hstate := (hstates before.length (hinitial before hbefore)).1
      rw [← List.prefix_iff_eq_take.mp hbefore] at hstate
      exact hstate
    · have hbefore : before <+: operations := (List.prefix_append _ _).trans hpush
      have hstate := (hstates before.length (hinitial before hbefore)).2
      have hlength : before.length + 1 = (before ++ [Operation.push block]).length := by
        rw [List.length_append, List.length_singleton]
      rw [← List.prefix_iff_eq_take.mp hbefore, hlength, ← List.prefix_iff_eq_take.mp hpush]
        at hstate
      exact hstate
  obtain ⟨start, c, -, -, -, hpassed, hpairs, -⟩ := paired_in_place isNew_trial hrun
  exact ⟨hrun, by decide +kernel, hpassed, hpairs⟩

end Session

end EchoAlign
