import Mathlib.Data.List.Forall2
import EchoAlign.Proofs.Audio.Alike
import EchoAlign.Proofs.Session.Cuts
import EchoAlign.Proofs.Session.Sounding

/-!
# `EchoAlign.Proofs.Session.Alike`: capture sides that do the same

Two capture sides that differ in nothing but the clips of their playback do
the same, as long as no history is read that one of them may have lost.

* `Event.Same` says of two events that they tell the same.
* `Capture.Alike.handleAll`, `Capture.Alike.replies_eq`: messages are handled
  in the same way, and give the same answers.
* `Pairing.Alike.drive`: the same becomes of the captured audio. This is where
  the horizon rises, to the history that is kept behind the blocks.
-/

set_option autoImplicit false

namespace EchoAlign

/-! ### Events -/

/-- Two events tell the same. The playback they tell of may lie in different
clips, so it is compared by its bytes (`toList`). -/
inductive Event.Same : Event → Event → Prop where
  | refl (event : Event) : Same event event
  | cancelled (captured cleaned : Block) {played played' : Block}
      (h : played'.toList = played.toList) :
      Same (.cancelled captured played cleaned) (.cancelled captured played' cleaned)
  | passed (captured : Block) {dropped dropped' : Block} (h : dropped'.toList = dropped.toList) :
      Same (.passed captured dropped) (.passed captured dropped')

namespace Event

variable {event event' : Event} {events events' : List Event}

/-- Events that tell the same (`Event.Same`) are counted in the same way. -/
theorem Same.record_eq (h : Same event event') (counters : Counters) :
    counters.record event' = counters.record event := by
  cases h with
  | refl => rfl
  | cancelled => rfl
  | passed captured h => simp only [Counters.record, Block.size_eq h]

/-- Every trace tells the same as itself, event by event (`Same`). -/
theorem same_refl (events : List Event) : List.Forall₂ Same events events := by
  induction events with
  | nil => exact .nil
  | cons event events ih => exact .cons (.refl event) ih

/-- Traces that tell the same leave the same counters behind
(`Counters.record`). -/
theorem foldl_record_eq (h : List.Forall₂ Same events events') (counters : Counters) :
    events'.foldl Counters.record counters = events.foldl Counters.record counters := by
  induction h generalizing counters with
  | nil => rfl
  | cons hfirst _ ih => rw [List.foldl_cons, List.foldl_cons, hfirst.record_eq, ih]

end Event

/-- The canceller goes by the bytes of the playback it is given (`toList`), and
not by the block that holds them. -/
theorem cancelBlock_eq {κ : Type} [Canceller κ] (s : κ) (captured : Block) {played played' : Block}
    (h : played'.toList = played.toList) :
    cancelBlock s captured played' = cancelBlock s captured played := by
  unfold cancelBlock
  rw [Block.size_eq h, Block.bytes_eq h]

/-! ### Work on blocks -/

namespace Pairing

variable {κ : Type} [Canceller κ] {p q next : Pairing κ} {event : Event} {horizon : Int}
  {base : Nat}

/-- Two pairings are alike, but their playback may lie in different clips. From
the `horizon` on it holds the same bytes (`Tape.Alike`). -/
def Alike (horizon : Int) (p q : Pairing κ) : Prop :=
  ∃ played, q = { p with played } ∧ p.played.Alike horizon played

omit [Canceller κ] in
/-- Pairings that are alike from one `horizon` on are alike from any further one
on. -/
theorem Alike.mono (h : p.Alike horizon q) {further : Int} (hle : horizon ≤ further) :
    p.Alike further q := by
  obtain ⟨played, rfl, hplayed⟩ := h
  exact ⟨played, rfl, hplayed.mono hle⟩

omit [Canceller κ] in
/-- Pairings stay `Alike` when the audio that waits is thrown away. -/
theorem Alike.flush (h : p.Alike horizon q) : p.flush.Alike horizon q.flush := by
  obtain ⟨played, rfl, hplayed⟩ := h
  exact ⟨_, rfl, hplayed.flush⟩

/-- The same is done with the next block, and the pairings are alike behind it,
from the history on that is kept then. Nothing before the `horizon` may be read
for that. -/
theorem Alike.step? (h : p.Alike horizon q) (hrunning : p.played.Running base)
    (hword : p.played.writeHead ≤ (Word.maxSigned : Int)) (hread : horizon ≤ p.played.readHead)
    (hstep : p.step? = some (event, next)) :
    ∃ event' next', q.step? = some (event', next') ∧ event.Same event'
      ∧ next.Alike (max horizon next.played.historyFloor) next'
      ∧ p.played.historyFloor ≤ next.played.historyFloor
      ∧ horizon ≤ next.played.readHead := by
  obtain ⟨hle, hcases⟩ := step?_cases hstep
  have hbelow := hrunning.length_le
  -- Both go by the same state to decide about the block.
  have hstep' : q.step?
      = if 0 < p.skip.source then some q.skipCaptured
        else if p.canCancel then some q.cancel else some q.pass := by
    obtain ⟨played, rfl, hplayed⟩ := h
    have hblock : p.hasBlock = true := by
      unfold hasBlock
      rw [decide_eq_true_iff]
      exact hle
    have hblock' : { p with played }.hasBlock = true := hblock
    have hcan : { p with played }.canCancel = p.canCancel := by
      simp only [canCancel, hplayed.length_eq]
    unfold Pairing.step?
    rw [hblock', hcan]
    rfl
  -- Playback is only taken off as far as it lies there.
  have hadvance : ∀ {n : Nat}, n ≤ p.played.length → n ≤ Word.maxSigned
      ∧ p.played.historyFloor ≤ (p.played.advance n).historyFloor
      ∧ horizon ≤ (p.played.advance n).readHead := by
    intro n hn
    have hfits : n ≤ Word.maxSigned := by omega
    obtain ⟨-, hahead, -⟩ := hrunning.sound.advance hfits
    refine ⟨hfits, ?_, by omega⟩
    show max p.played.floor (p.played.readHead - Word.signed p.played.history)
      ≤ max p.played.floor ((p.played.advance n).readHead - Word.signed p.played.history)
    omega
  obtain ⟨played, rfl, hplayed⟩ := h
  obtain ⟨hsource, heq⟩ | ⟨hsource, hyes, heq⟩ | ⟨hsource, hno, heq⟩ := hcases
  · rw [if_pos hsource] at hstep'
    cases heq
    exact ⟨_, _, hstep', .refl _, ⟨played, rfl, hplayed.mono (Int.le_max_left _ _)⟩,
      Int.le_refl _, hread⟩
  · rw [if_neg (by omega), if_pos hyes] at hstep'
    cases heq
    obtain ⟨hfits, hfloor, hahead⟩ := hadvance (ready_of_canCancel hyes).1
    have hbytes := hplayed.toList_peek hread hfits
    have hcleaned := cancelBlock_eq p.canceller (p.captured.peek p.blockBytes) hbytes
    have hsame : { p with played }.cancel
        = (.cancelled (p.captured.peek p.blockBytes) (played.peek p.blockBytes)
            (cancelBlock p.canceller (p.captured.peek p.blockBytes)
              (p.played.peek p.blockBytes)).1,
          { p.cancel.2 with played := played.advance p.blockBytes }) := by
      simp only [Pairing.cancel, Tape.take, hcleaned]
    rw [hsame] at hstep'
    exact ⟨_, _, hstep', .cancelled _ _ hbytes, ⟨_, rfl, hplayed.advance hfits⟩, hfloor, hahead⟩
  · rw [if_neg (by omega), if_neg (Bool.eq_false_iff.mp hno)] at hstep'
    cases heq
    have hshort : min p.skip.sink p.played.length ≤ p.played.length := Nat.min_le_right _ _
    obtain ⟨hfits, hfloor, hahead⟩ := hadvance hshort
    have hbytes := hplayed.toList_peek hread hfits
    have hsame : { p with played }.pass
        = (.passed (p.captured.peek p.blockBytes)
            (played.peek (min p.skip.sink p.played.length)),
          { p.pass.2 with played := played.advance (min p.skip.sink p.played.length) }) := by
      simp only [Pairing.pass, Tape.take, Skip.takeSink, hplayed.length_eq]
    rw [hsame] at hstep'
    exact ⟨_, _, hstep', .passed _ hbytes, ⟨_, rfl, hplayed.advance hfits⟩, hfloor, hahead⟩

/-- What the one has no block for (`step?`), the other has none for either:
captured audio and skip are the same on both sides. -/
theorem Alike.step?_eq_none (h : p.Alike horizon q) (hstep : p.step? = none) :
    q.step? = none := by
  obtain ⟨played, rfl, hplayed⟩ := h
  have hshort := length_lt_of_step?_eq_none hstep
  have hnone : { p with played }.hasBlock = false := by
    unfold hasBlock
    rw [decide_eq_false_iff_not]
    exact Nat.not_le_of_lt hshort
  unfold Pairing.step?
  rw [hnone]
  rfl

/-- The same is done with one block after another. The induction is on the
number of `steps`, with the horizon rising to the history that is kept. -/
theorem Alike.driveFrom (h : p.Alike horizon q) (hrunning : p.played.Running base)
    (hword : p.played.writeHead ≤ (Word.maxSigned : Int)) (hread : horizon ≤ p.played.readHead)
    (steps : Nat) {events events' : List Event} (hevents : List.Forall₂ Event.Same events events') :
    List.Forall₂ Event.Same (driveFrom steps events p).1 (driveFrom steps events' q).1
      ∧ (driveFrom steps events p).2.Alike
          (max horizon (driveFrom steps events p).2.played.historyFloor)
          (driveFrom steps events' q).2
      ∧ p.played.historyFloor ≤ (driveFrom steps events p).2.played.historyFloor
      ∧ horizon ≤ (driveFrom steps events p).2.played.readHead := by
  induction steps generalizing p q horizon events events' with
  | zero =>
      exact ⟨List.forall₂_reverse_iff.mpr hevents, h.mono (Int.le_max_left _ _), Int.le_refl _,
        hread⟩
  | succ steps ih =>
      unfold Pairing.driveFrom
      cases hstep : p.step? with
      | none =>
          rw [h.step?_eq_none hstep]
          exact ⟨List.forall₂_reverse_iff.mpr hevents, h.mono (Int.le_max_left _ _),
            Int.le_refl _, hread⟩
      | some result =>
          obtain ⟨event, next⟩ := result
          obtain ⟨event', next', hstep', hsame, hnext, hfloor, hahead⟩ :=
            h.step? hrunning hword hread hstep
          obtain ⟨hrunning', hwrite⟩ := played_step? hrunning hword hstep
          have hkept := hrunning'.sound.historyFloor_le
          obtain ⟨hevents', hlast, hfloor', hahead'⟩ := ih hnext hrunning' (hwrite ▸ hword)
            (by omega) (.cons hsame hevents)
          rw [hstep']
          -- History that was once let go of stays so.
          have hhorizon : max (max horizon next.played.historyFloor)
              (Pairing.driveFrom steps (event :: events) next).2.played.historyFloor
            = max horizon
              (Pairing.driveFrom steps (event :: events) next).2.played.historyFloor := by
            omega
          rw [hhorizon] at hlast
          exact ⟨hevents', hlast, Int.le_trans hfloor hfloor',
            Int.le_trans (Int.le_max_left _ _) hahead'⟩

/-- The same becomes of the captured audio in `Pairing.drive`. -/
theorem Alike.drive (h : p.Alike horizon q) (hrunning : p.played.Running base)
    (hword : p.played.writeHead ≤ (Word.maxSigned : Int)) (hread : horizon ≤ p.played.readHead) :
    List.Forall₂ Event.Same p.drive.1 q.drive.1
      ∧ p.drive.2.Alike (max horizon p.drive.2.played.historyFloor) q.drive.2
      ∧ horizon ≤ p.drive.2.played.readHead := by
  have hsteps : q.captured.length = p.captured.length := by
    obtain ⟨played, rfl, -⟩ := h
    rfl
  obtain ⟨hevents, hlast, -, hahead⟩ := h.driveFrom hrunning hword hread p.captured.length .nil
  unfold Pairing.drive
  rw [hsteps]
  exact ⟨hevents, hlast, hahead⟩

end Pairing

/-! ### Messages and captured audio -/

namespace Capture

variable {κ : Type} {c c' : Capture κ} {horizon : Int}

/-- Two capture sides are alike, but their playback may lie in different clips
(`Pairing.Alike`). All else about them is equal. -/
def Alike (horizon : Int) (c c' : Capture κ) : Prop :=
  ∃ pairing, c' = { c with pairing } ∧ c.pairing.Alike horizon pairing

/-- A capture side whose tape is in order (`Tape.Sound`) is like itself, from
any `horizon` on. -/
theorem alike_refl (h : c.pairing.played.Sound) (horizon : Int) : c.Alike horizon c :=
  ⟨c.pairing, rfl, c.pairing.played, rfl, h.alike horizon⟩

/-- Sides that are `Alike` stand at the same place: timing goes by lengths and
counts only. -/
theorem Alike.timing_eq (h : c.Alike horizon c') (link : Link) :
    c'.timing link = c.timing link := by
  obtain ⟨_, rfl, played, rfl, hplayed⟩ := h
  simp only [timing, hplayed.length_eq]

/-- A correction sets the same skip on both sides, and is counted alike
(`correct`). -/
theorem Alike.correct (h : c.Alike horizon c') (link : Link) (usec : Int) :
    (c.correct link usec).1.Alike horizon (c'.correct link usec).1
      ∧ (c'.correct link usec).2 = (c.correct link usec).2 := by
  obtain ⟨_, rfl, played, rfl, hplayed⟩ := h
  exact ⟨⟨_, rfl, played, rfl, hplayed⟩, rfl⟩

/-- A resync measures the same offset on both sides, so that it sets the same
skip and leaves the same link. Behind the guards of `Capture.resync`, which look
at nothing that differs, this is `Alike.correct`. -/
theorem Alike.resync (h : c.Alike horizon c') (link : Link) (epoch : Nat)
    (playback : PlaybackTiming) :
    (c.resync link epoch playback).1.Alike horizon (c'.resync link epoch playback).1
      ∧ (c'.resync link epoch playback).2 = (c.resync link epoch playback).2 := by
  have hsuspended : c'.suspended = c.suspended ∧ c'.spec = c.spec := by
    obtain ⟨_, rfl, -⟩ := h
    exact ⟨rfl, rfl⟩
  unfold Capture.resync
  rw [hsuspended.1, hsuspended.2]
  split
  · exact ⟨h, rfl⟩
  · -- Both sides stand at the same place, and measure the same offset.
    simp only [h.timing_eq]
    obtain ⟨hcorrected, hlink⟩ := h.correct (c.timing { link with resyncPending := false }).2
      (offset c.spec playback (c.timing { link with resyncPending := false }).1)
    rw [hlink]
    exact ⟨hcorrected, rfl⟩

/-- Sides that are `Alike` stay so when both receive a rendered block. -/
theorem Alike.receive (h : c.Alike horizon c') (block : Block) :
    (c.receive block).Alike horizon (c'.receive block) := by
  obtain ⟨_, rfl, played, rfl, hplayed⟩ := h
  unfold Capture.receive
  cases hsuspended : c.suspended with
  | true => exact ⟨_, rfl, _, rfl, hplayed.flush⟩
  | false =>
      obtain ⟨e, herror, herror'⟩ | ⟨u, u', hok, hok', hafter⟩ := hplayed.append block
      · simp only [herror, herror']
        exact ⟨_, rfl, _, rfl, hplayed⟩
      · simp only [hok, hok']
        exact ⟨_, rfl, _, rfl, hafter⟩

/-- Sides that are `Alike` stay so when both take audio back. -/
theorem Alike.takeBack (h : c.Alike horizon c') (n : Nat) :
    (c.takeBack n).Alike horizon (c'.takeBack n) := by
  obtain ⟨_, rfl, played, rfl, hplayed⟩ := h
  unfold Capture.takeBack
  cases hsuspended : c.suspended with
  | true => exact ⟨_, rfl, _, rfl, hplayed.flush⟩
  | false => exact ⟨_, rfl, _, rfl, hplayed.seek _ _⟩

/-- Sides that are alike stay so when both follow a change of the device. A
suspension flushes both tapes, and `Tape.Alike.flush` takes it from there. -/
theorem Alike.follow (h : c.Alike horizon c') (state : DeviceState) :
    (c.follow state).Alike horizon (c'.follow state) := by
  cases state with
  | suspended =>
      obtain ⟨pairing, rfl, hpairing⟩ := h
      exact ⟨_, rfl, hpairing.flush⟩
  | running =>
      have hsuspended : c'.suspended = c.suspended := by
        obtain ⟨_, rfl, -⟩ := h
        rfl
      simp only [Capture.follow, hsuspended]
      split
      · obtain ⟨pairing, rfl, hpairing⟩ := h
        exact ⟨_, rfl, hpairing⟩
      · exact h

/-- A message is handled in the same way by sides that are `Alike`, and leaves
the same link. -/
theorem Alike.handle (h : c.Alike horizon c') (link : Link) (message : CaptureMessage) :
    (c.handle link message).1.Alike horizon (c'.handle link message).1
      ∧ (c'.handle link message).2 = (c.handle link message).2 := by
  cases message with
  | rendered block => exact ⟨h.receive block, rfl⟩
  | rewound n => exact ⟨h.takeBack n, rfl⟩
  | timingRequest ticket =>
      refine ⟨h, ?_⟩
      show (c'.timing link).2 = (c.timing link).2
      rw [h.timing_eq]
  | correct usec => exact h.correct link usec
  | playbackTiming epoch timing => exact h.resync link epoch timing
  | device state => exact ⟨h.follow state, rfl⟩

/-- So are messages in order, by induction on the list. Each message is dealt
with by `Alike.handle`. -/
theorem Alike.handleAll (h : c.Alike horizon c') (link : Link) (messages : List CaptureMessage) :
    (c.handleAll link messages).1.Alike horizon (c'.handleAll link messages).1
      ∧ (c'.handleAll link messages).2 = (c.handleAll link messages).2 := by
  induction messages generalizing c c' link with
  | nil => exact ⟨h, rfl⟩
  | cons message messages ih =>
      obtain ⟨hfirst, hlink⟩ := h.handle link message
      obtain ⟨hrest, hlink'⟩ := ih hfirst (c.handle link message).2
      show ((c.handle link message).1.handleAll (c.handle link message).2 messages).1.Alike horizon
          ((c'.handle link message).1.handleAll (c'.handle link message).2 messages).1 ∧ _
      rw [hlink]
      refine ⟨hrest, ?_⟩
      show ((c'.handle link message).1.handleAll (c'.handle link message).2 messages).2 = _
      rw [hlink]
      exact hlink'

/-- Questions get the same answers (`Capture.replies`) from sides that are
`Alike`. -/
theorem Alike.replies_eq (h : c.Alike horizon c') (link : Link) (messages : List CaptureMessage) :
    c'.replies link messages = c.replies link messages := by
  induction messages generalizing c c' link with
  | nil => rfl
  | cons message messages ih =>
      obtain ⟨hfirst, hlink⟩ := h.handle link message
      have hreply : c'.reply? link message = c.reply? link message := by
        cases message with
        | timingRequest ticket =>
            show some _ = some _
            rw [h.timing_eq]
        | _ => rfl
      simp only [replies, hreply, hlink, ih hfirst]

/-- Sides that are `Alike` go back to work together: `resuming` is the same in
both. -/
theorem Alike.resume (h : c.Alike horizon c') (link : Link) :
    (c.resume link).1.Alike horizon (c'.resume link).1
      ∧ (c'.resume link).2 = (c.resume link).2 := by
  have hresuming : c'.resuming = c.resuming := by
    obtain ⟨_, rfl, -⟩ := h
    rfl
  unfold Capture.resume
  rw [hresuming]
  split
  · obtain ⟨pairing, rfl, hpairing⟩ := h
    exact ⟨⟨pairing, rfl, hpairing⟩, rfl⟩
  · exact ⟨h, rfl⟩

/-- Sides that are `Alike` stay so when both accept captured audio, which is
equal on both of them. -/
theorem Alike.accept (h : c.Alike horizon c') (block : Block) :
    (c.accept block).Alike horizon (c'.accept block) := by
  obtain ⟨_, rfl, played, rfl, hplayed⟩ := h
  unfold Capture.accept
  simp only
  split
  · exact ⟨_, rfl, played, rfl, hplayed⟩
  · exact ⟨_, rfl, played, rfl, hplayed⟩

/-- Captured audio is put on the other tape, so the tape of playback (`played`)
stays as it is. -/
theorem played_accept (c : Capture κ) (block : Block) :
    (c.accept block).pairing.played = c.pairing.played := by
  unfold Capture.accept
  split
  · rfl
  · rfl

/-- Sides that are alike stay so when both go back: the playback that is taken
up again is there on both of them, from the `horizon` on. -/
theorem Alike.rewind (h : c.Alike horizon c') (n : Nat) :
    (c.rewind n).Alike horizon (c'.rewind n) := by
  obtain ⟨_, rfl, played, rfl, hplayed⟩ := h
  exact ⟨_, rfl, _, rfl, hplayed.rewind n⟩

end Capture

end EchoAlign
