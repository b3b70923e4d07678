import EchoAlign.Proofs.Session.Resync

/-!
# `EchoAlign.Proofs.Session.Pending`: somebody sees to a pending resync

Timing is sent once for each request, and a capture side that is
suspended lets it go by. A resync that is pending must not be left with
nobody to carry it out.

* `pending_attended`: in every state that a run leads to, while both sides
  are there and a resync is pending, the playback side still owes timing,
  or the timing waits in the data mailbox, or the capture side is
  suspended and will ask again when it goes back to work.
* `Attended` says this of any state, and `Attended.step` shows that every
  step keeps it: a request makes timing owed, timing that is sent waits,
  and timing that is handled ends the wait unless the side is suspended.
-/

set_option autoImplicit false

namespace EchoAlign

/-- Where no request was made (`hcount`), a resync is pending only if it was
pending before, and none was begun. -/
theorem pending_of_requestCount_eq_zero {entries : List Entry} {pending : Bool}
    (hcount : requestCount entries = 0) (hpending : entries.foldl pendingAfter pending = true) :
    pending = true ∧ ∀ epoch timing, .resynced epoch timing ∉ entries := by
  induction entries generalizing pending with
  | nil => exact ⟨hpending, fun _ _ => List.not_mem_nil⟩
  | cons entry rest ih =>
      rw [List.foldl_cons] at hpending
      have hrest : requestCount rest = 0 := by
        have hsum := requestCount_append [entry] rest
        rw [List.singleton_append, hcount] at hsum
        omega
      obtain ⟨hbefore, hnone⟩ := ih hrest hpending
      cases entry with
      | requested =>
          have hsome : requestCount (.requested :: rest) = requestCount rest + 1 :=
            List.countP_cons_of_pos rfl
          omega
      | resynced epoch timing => cases hbefore
      | _ =>
          refine ⟨hbefore, fun epoch timing hm => ?_⟩
          rcases List.mem_cons.mp hm with h | h
          · cases h
          · exact hnone epoch timing h

namespace Capture

variable {κ : Type}

/-- A resync does not change whether the side is `suspended`. -/
theorem suspended_resync (c : Capture κ) (link : Link) (epoch : Nat) (timing : PlaybackTiming) :
    (c.resync link epoch timing).1.suspended = c.suspended := by
  unfold resync
  split
  · rfl
  · rfl

/-- No message ends a suspension: `.device .running` makes the side `resuming`,
and only `Capture.resume` wakes it. -/
theorem suspended_handle {c : Capture κ} (link : Link) (message : CaptureMessage)
    (h : c.suspended = true) : (c.handle link message).1.suspended = true := by
  cases message with
  | playbackTiming epoch timing => exact (c.suspended_resync link epoch timing).trans h
  | device state =>
      cases state with
      | suspended => rfl
      | running =>
          show (c.follow .running).suspended = true
          simp only [follow, h, if_true]
  | _ => exact h

/-- Captured audio that arrives does not change whether the side is `suspended`. -/
theorem suspended_accept (c : Capture κ) (block : Block) :
    (c.accept block).suspended = c.suspended := by
  unfold accept
  split
  · rfl
  · rfl

/-- Timing of the present epoch begins the resync that is pending (`hpending`),
unless the side is suspended. -/
theorem suspended_of_not_resynced {c : Capture κ} {link : Link} {timing : PlaybackTiming}
    (hpending : link.resyncPending = true)
    (h : .resynced link.epoch timing
      ∉ c.handleEntries link (.playbackTiming link.epoch timing)) : c.suspended = true := by
  cases hsuspended : c.suspended with
  | true => rfl
  | false =>
      refine absurd (List.mem_cons_of_mem _ ?_) h
      show _ ∈ c.resyncEntries link link.epoch timing
      unfold resyncEntries
      rw [if_neg (by simp [hsuspended, hpending])]
      exact List.mem_cons_self

end Capture

namespace PlaybackScene

variable {υ : Type} [Producer υ]

/-- Timing that is owed for a pending resync is still owed after audio was made,
though a request may have come up: its epoch is new, and none that the playback
side knows of (`hknown`). -/
theorem owesTiming_play {s : PlaybackScene υ} (hpending : s.link.resyncPending = true)
    (howed : s.playback.timingEpoch? ≠ some s.link.epoch)
    (hknown : ∀ epoch, s.playback.timingEpoch? = some epoch → epoch ≤ s.link.epoch) (n : Nat) :
    (s.play n).2.owesTiming = true := by
  have hfollows := s.follows_play n
  have hstill : (s.play n).2.link.resyncPending = true := by
    rw [hfollows.pending_eq, hpending]
    refine foldl_pendingAfter_true fun epoch timing hm => ?_
    rcases mem_playEntries hm with h | ⟨_, h | h | h⟩ <;> cases h
  have hepoch : s.playback.timingEpoch? ≠ some (s.play n).2.link.epoch := by
    intro heq
    have hle := hknown _ heq
    rw [hfollows.epoch_eq] at hle heq
    rw [show requestCount (s.playEntries n) = 0 by omega] at heq
    exact howed heq
  unfold owesTiming
  rw [hstill, timingEpoch?_play, beq_eq_false_iff_ne.mpr hepoch]
  rfl

end PlaybackScene

namespace Session

variable {κ υ : Type} [Canceller κ] [Producer υ] {allowed : Operation → Prop}

/-- A capture side that is there after a step was there before, and unless the
step made a request, a suspension goes on. Only `Step.resume` ends one, and it
makes a request. -/
theorem Step.suspended {s t : Session κ υ} {entries : List Entry} (h : Step allowed s entries t)
    {c' : Capture κ} (hc' : t.capture? = some c') :
    ∃ c, s.capture? = some c
      ∧ (requestCount entries = 0 → c.suspended = true → c'.suspended = true) := by
  cases h with
  | reportCapture running ha hnew =>
      rw [postCapture_eq] at hc'
      exact ⟨c', hc', fun _ hs => hs⟩
  | reportPlayback running ha hnew =>
      rw [postPlayback_eq] at hc'
      exact ⟨c', hc', fun _ hs => hs⟩
  | postCapture message hm =>
      rw [postCapture_eq] at hc'
      exact ⟨c', hc', fun _ hs => hs⟩
  | @handleControl c message rest hc hrest =>
      cases hc'
      exact ⟨c, hc, fun _ => Capture.suspended_handle s.link message⟩
  | @handleData c message rest hc hrest =>
      cases hc'
      exact ⟨c, hc, fun _ => Capture.suspended_handle s.link message⟩
  | resume hc hresuming =>
      -- To go back to work is to make a request.
      exact ⟨_, hc, fun hcount => absurd hcount (by decide)⟩
  | @accept c block hc ha =>
      cases hc'
      exact ⟨c, hc, fun _ hs => (c.suspended_accept block).trans hs⟩
  | @pair c event pairing hc hstep =>
      cases hc'
      exact ⟨c, hc, fun _ hs => hs⟩
  | @rewindCapture c n hc ha =>
      cases hc'
      exact ⟨c, hc, fun _ hs => hs⟩
  | @correct c usec hc ha =>
      cases hc'
      exact ⟨c, hc, fun _ hs => hs⟩
  | dropCapture hc ha => cases hc'
  | _ => exact ⟨c', hc', fun _ hs => hs⟩

/-- A message that waits for a capture side goes on to wait, or it is handled,
in every step that leaves the side there. By cases on `Step`: the data mailbox
is only added to, except by the message that is handled first, and when the side
goes away. -/
theorem Step.mem_data {s t : Session κ υ} {entries : List Entry} (h : Step allowed s entries t)
    {c' : Capture κ} (hc' : t.capture? = some c') {message : CaptureMessage}
    (hm : message ∈ s.data.items) :
    message ∈ t.data.items
      ∨ ∃ c, s.capture? = some c ∧ entries = c.handleEntries s.link message
          ∧ c' = (c.handle s.link message).1 := by
  -- Posts add at the end, and only `handleData` takes a message out.
  cases h with
  | reportCapture running ha hnew =>
      rw [postCapture_eq]
      exact Or.inl hm
  | reportPlayback running ha hnew =>
      rw [postPlayback_eq]
      exact Or.inl hm
  | postCapture message hm' =>
      rw [postCapture_eq]
      exact Or.inl hm
  | repack hcontrol hdata hplayback =>
      have hitems := hdata.items
      rw [List.nil_append] at hitems
      exact Or.inl (hitems ▸ hm)
  | @handleData c next rest hc hrest =>
      rw [hrest.items, List.singleton_append] at hm
      rcases List.mem_cons.mp hm with rfl | hm
      · cases hc'
        exact Or.inr ⟨c, hc, rfl, rfl⟩
      · exact Or.inl hm
  | @play p n hp hlinked ha =>
      refine Or.inl ?_
      show message ∈ ((s.scene p).play n).2.data.items
      rw [(s.scene p).items_play]
      exact Mailbox.mem_posted hm
  | @sendTiming p hp =>
      refine Or.inl ?_
      show message ∈ (s.scene p).sendTiming.data.items
      cases howes : (s.scene p).owesTiming with
      | false =>
          rw [((s.scene p).sendTiming_of_not_owesTiming howes).1]
          exact hm
      | true =>
          rw [((s.scene p).sendTiming_of_owesTiming howes).1]
          exact Mailbox.mem_posted hm
  | @rewindPlayback p n hp ha =>
      refine Or.inl ?_
      show message ∈ ((s.scene p).rewind n).data.items
      rw [(s.scene p).items_rewind]
      exact Mailbox.mem_posted hm
  | dropCapture hc ha => cases hc'
  | _ => exact Or.inl hm

/-- How a pending resync will come about: timing is `owed`, it is `waiting` in
the mailbox, or the capture side is suspended and will ask again. -/
inductive Awaits (s : Session κ υ) (c : Capture κ) (p : Playback υ) : Prop where
  /-- The playback side is going to send timing. -/
  | owed (h : p.timingEpoch? ≠ some s.link.epoch)
  /-- The timing waits for the capture side. -/
  | waiting (timing : PlaybackTiming) (h : .playbackTiming s.link.epoch timing ∈ s.data.items)
  /-- The capture side is going to ask again. -/
  | suspended (h : c.suspended = true)

/-- A resync that is pending between two sides will come about, in one of the
ways of `Awaits`. -/
def Attended (s : Session κ υ) : Prop :=
  ∀ c p, s.capture? = some c → s.playback? = some p → s.link.resyncPending = true → s.Awaits c p

/-- A playback side that is there after a step was there before. Its
`timingEpoch?` is as before, or that of the present epoch, and then timing of
this epoch waits in the data mailbox. -/
theorem Step.timingEpoch?_cases {s t : Session κ υ} {entries : List Entry}
    (h : Step allowed s entries t) {p' : Playback υ} (hp' : t.playback? = some p') :
    ∃ p, s.playback? = some p
      ∧ (p'.timingEpoch? = p.timingEpoch?
        ∨ (p'.timingEpoch? = some s.link.epoch
          ∧ ∃ timing, .playbackTiming s.link.epoch timing ∈ t.data.items)) := by
  rcases h.timing_cases with ⟨-, -, hsame⟩ | ⟨p, timing, after, hp, -, -, -, hitems, hepoch⟩
  · obtain ⟨p, hp, heq⟩ := hsame p' hp'
    exact ⟨p, hp, Or.inl heq.symm⟩
  · refine ⟨p, hp, Or.inr ⟨hepoch p' hp', timing, ?_⟩⟩
    rw [hitems]
    exact List.mem_append_right _ List.mem_cons_self

/-- Every step keeps this. The cases follow `Awaits`: what is owed is sent or
still owed, what waits still waits or is handled, and a suspension goes on or
ends with a request. -/
theorem Attended.step {s t : Session κ υ} {before entries : List Entry} (h : s.Attended)
    (hresyncing : s.Resyncing before) (hstep : Step allowed s entries t) : t.Attended := by
  intro c' p' hc' hp' hpending
  have hfollows := hstep.follows
  obtain ⟨c, hc, hsuspended⟩ := hstep.suspended hc'
  obtain ⟨p, hp, hepoch⟩ := hstep.timingEpoch?_cases hp'
  rcases Nat.eq_zero_or_pos (requestCount entries) with hcount | hcount
  · -- Without a new request, it was pending before and awaited in one of
    -- three ways.
    rw [hfollows.pending_eq] at hpending
    obtain ⟨hbefore, hnone⟩ := pending_of_requestCount_eq_zero hcount hpending
    have hsame : t.link.epoch = s.link.epoch := by
      rw [hfollows.epoch_eq, hcount, Nat.add_zero]
    rcases hepoch with hepoch | ⟨-, timing, hm⟩
    · cases h c p hc hp hbefore with
      | owed howed =>
          refine .owed ?_
          rw [hepoch, hsame]
          exact howed
      | waiting timing hm =>
          rcases hstep.mem_data hc' hm with hm | ⟨c₀, hc₀, rfl, rfl⟩
          · refine .waiting timing ?_
            rw [hsame]
            exact hm
          · -- Timing that was handled without effect met a suspended side.
            refine .suspended (Capture.suspended_handle _ _ ?_)
            exact Capture.suspended_of_not_resynced hbefore (hnone _ _)
      | suspended hs => exact .suspended (hsuspended hcount hs)
    · refine .waiting timing ?_
      rw [hsame]
      exact hm
  · -- No timing was sent for a request that has only just been made.
    refine .owed ?_
    intro heq
    have hle : t.link.epoch ≤ s.link.epoch := by
      rcases hepoch with hepoch | ⟨hepoch, -⟩
      · exact hresyncing.known p _ hp (hepoch.symm.trans heq)
      · exact Nat.le_of_eq (Option.some.inj (heq.symm.trans hepoch))
    rw [hfollows.epoch_eq] at hle
    omega

omit [Producer υ] in
/-- In a new session, no resync is pending, and so `Attended` says nothing. -/
theorem IsNew.attended {s : Session κ υ} (h : s.IsNew) : s.Attended := by
  intro c p _ _ hpending
  rw [h.resyncing.pending_eq] at hpending
  cases hpending

/-- It is kept at any point between any two steps, by induction on `Steps`. -/
theorem IsNew.attended_steps {s t : Session κ υ} {entries : List Entry} (h : s.IsNew)
    (hsteps : Steps allowed s entries t) : t.Attended :=
  (hsteps.induct (motive := fun t entries => t.Attended ∧ t.Resyncing entries)
    ⟨h.attended, h.resyncing⟩ fun _ _ _ _ hbefore hstep =>
      ⟨hbefore.1.step hbefore.2 hstep, hbefore.2.step hstep⟩).1

/-- A capture side that has gone back to work since has asked for a resync:
without a request, `Step.suspended` carries the suspension from step to step. -/
theorem Steps.suspended {s t : Session κ υ} {entries : List Entry} (h : Steps allowed s entries t)
    {c c' : Capture κ} (hc : s.capture? = some c) (hsuspended : c.suspended = true)
    (hc' : t.capture? = some c') (hback : c'.suspended = false) : 0 < requestCount entries := by
  have hstill : ∀ c', t.capture? = some c' → requestCount entries = 0 → c'.suspended = true := by
    refine h.induct (motive := fun t entries => ∀ c', t.capture? = some c' →
      requestCount entries = 0 → c'.suspended = true) ?_ ?_
    · intro c' hc' _
      cases hc.symm.trans hc'
      exact hsuspended
    · intro t u before entries ih hstep c' hc' hcount
      obtain ⟨c, hc, hkeeps⟩ := hstep.suspended hc'
      rw [requestCount_append] at hcount
      exact hkeeps (by omega) (ih c hc (by omega))
  refine Nat.pos_of_ne_zero fun hcount => ?_
  rw [hstill c' hc' hcount] at hback
  cases hback

/-- A playback side that owes timing takes it the next time it makes audio, and
offers it to the data mailbox, so that it is `sent` or `lost`. -/
theorem timed_render {s : Session κ υ} {p : Playback υ} (hp : s.playback? = some p)
    (hlinked : s.link.linked = true) (n : Nat) (howes : ((s.scene p).play n).2.owesTiming = true) :
    ∃ before epoch timing after,
      s.journal (.render n) = before ++ .timed epoch timing :: after
        ∧ epoch = s.link.epoch + requestCount before
        ∧ (.sent (.playbackTiming epoch timing) ∈ after
          ∨ .lost (.playbackTiming epoch timing) ∈ after) := by
  have hepoch := ((s.scene p).follows_play n).epoch_eq
  obtain ⟨rest, hrender⟩ : ∃ rest, s.journal (.render n)
      = (s.scene p).playEntries n ++ ((s.scene p).play n).2.sendTimingEntries ++ rest := by
    simp only [journal, renderEntries, hp, hlinked]
    exact ⟨_, rfl⟩
  obtain ⟨after, hafter⟩ : ∃ after, after = ((s.scene p).play n).2 := ⟨_, rfl⟩
  rw [← hafter] at howes hepoch hrender
  obtain ⟨-, -, -, hentries⟩ := after.sendTiming_of_owesTiming howes
  rw [hentries, List.append_assoc, List.cons_append] at hrender
  refine ⟨_, _, _, _, hrender, hepoch, ?_⟩
  unfold PlaybackScene.postEntries
  cases after.data.hasRoom with
  | true => exact Or.inl (by simp)
  | false => exact Or.inr (by simp)

omit [Canceller κ] [Producer υ] in
/-- Timing that the playback side owes was never sent: no entry `sent` in the
run is for the present epoch. -/
theorem Resyncing.not_sent {s : Session κ υ} {entries : List Entry} (h : s.Resyncing entries)
    {p : Playback υ} (hp : s.playback? = some p) (howed : p.timingEpoch? ≠ some s.link.epoch)
    (timing : PlaybackTiming) : (s.link.epoch, timing) ∉ sentTimings entries := by
  intro hm
  obtain ⟨epoch, hremembered, hle⟩ := h.remembered p hp _ hm
  have hknown := h.known p epoch hp hremembered
  have hsame : epoch = s.link.epoch := Nat.le_antisymm hknown hle
  exact howed (hsame ▸ hremembered)

/-- In every state that a run of a new session leads to, a resync that is
pending between two sides will come about. Either no timing of the present epoch
was sent, and then the playback side takes it and offers it to the data mailbox
the next time it makes audio (`Operation.render`), or the timing waits in that
mailbox, or the capture side is `suspended`, and asks again when it goes back to
work. -/
theorem pending_attended {s : Session κ υ} (hnew : s.IsNew) (operations : List Operation)
    {c : Capture κ} {p : Playback υ} (hc : (s.run operations).2.capture? = some c)
    (hp : (s.run operations).2.playback? = some p)
    (hpending : (s.run operations).2.link.resyncPending = true) :
    let t := (s.run operations).2
    (p.timingEpoch? ≠ some t.link.epoch
        ∧ (∀ timing, (t.link.epoch, timing) ∉ sentTimings (s.journalOf operations))
        ∧ (t.link.linked = true → ∀ n, ∃ before epoch timing after,
          t.journal (.render n) = before ++ .timed epoch timing :: after
            ∧ epoch = t.link.epoch + requestCount before
            ∧ (.sent (.playbackTiming epoch timing) ∈ after
              ∨ .lost (.playbackTiming epoch timing) ∈ after)))
      ∨ (∃ timing, .playbackTiming t.link.epoch timing ∈ t.data.items)
      ∨ (c.suspended = true
        ∧ ∀ rest c', (t.run rest).2.capture? = some c' → c'.suspended = false →
          0 < requestCount (t.journalOf rest)) := by
  have hall : ∀ (operations : List Operation), ∀ operation ∈ operations,
      (fun _ => True) operation := fun _ _ _ => trivial
  have hsteps := s.steps_run (hall operations)
  have hresyncing := hnew.resyncing_steps hsteps
  cases hnew.attended_steps hsteps c p hc hp hpending with
  | owed howed =>
      refine Or.inl ⟨howed, hresyncing.not_sent hp howed, fun hlinked n =>
        timed_render hp hlinked n ?_⟩
      exact PlaybackScene.owesTiming_play hpending howed
        (fun epoch => hresyncing.known p epoch hp) n
  | waiting timing hm => exact Or.inr (Or.inl ⟨timing, hm⟩)
  | suspended hsuspended =>
      refine Or.inr (Or.inr ⟨hsuspended, fun rest c' hc' hback => ?_⟩)
      exact ((s.run operations).2.steps_run (hall rest)).suspended hc hsuspended hc' hback

/-- The hypotheses of `pending_attended` are met by timing that reaches a
suspended side: it is gone, and will not be sent again. Only the end of the
suspension is left. -/
theorem pending_attended_trial :
    let operations : List Operation :=
      [.reportDevice .input true, .render 8, .reportDevice .input false, .push (.silence 4)]
    let t := (trial.run operations).2
    t.link.resyncPending = true
      ∧ sentTimings (trial.journalOf operations) = [(t.link.epoch, ⟨0, 0, 0, 8⟩)]
      ∧ t.playback?.map (·.timingEpoch?) = some (some t.link.epoch)
      ∧ t.data.items.length = 0
      ∧ ∃ c, t.capture? = some c ∧ c.suspended = true
        ∧ ∀ rest c', (t.run rest).2.capture? = some c' → c'.suspended = false →
          0 < requestCount (t.journalOf rest) := by
  intro operations t
  have hpending : t.link.resyncPending = true := by decide +kernel
  have hepoch : t.playback?.map (·.timingEpoch?) = some (some t.link.epoch) := by decide +kernel
  have hitems : t.data.items.length = 0 := by decide +kernel
  refine ⟨hpending, by decide +kernel, hepoch, hitems, ?_⟩
  obtain ⟨c, hc⟩ := Option.isSome_iff_exists.mp (show t.capture?.isSome = true by decide +kernel)
  obtain ⟨p, hp, hremembered⟩ := Option.map_eq_some_iff.mp hepoch
  rcases pending_attended isNew_trial operations hc hp hpending with ⟨howed, -⟩ | ⟨timing, hm⟩ | h
  · exact absurd hremembered howed
  · rw [List.eq_nil_of_length_eq_zero hitems] at hm
    cases hm
  · exact ⟨c, hc, h⟩

end Session

end EchoAlign
