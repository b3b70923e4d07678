import EchoAlign.Proofs.Session.Suspension
import EchoAlign.Proofs.Session.Wiring

/-!
# `EchoAlign.Proofs.Session.Rounds`: a resync takes two rounds

In a round, audio is made and then captured audio arrives. The mailbox
between the two sides is empty after a round. In the next one, the audio that
is made goes into it, and the timing for a resync behind that, if there is
room for both. The capture side then finds the timing and carries the resync
out.

* `Ready` says what is asked of a session: both sides are there and at work,
  and nobody else asks for anything.
* `resync_completes`: a mailbox with room for two messages is enough. After
  two rounds no resync is pending, whatever came before.
* `resync_starves`: with room for one message there is never any for the
  timing, so that a resync that is asked for stays pending.
-/

set_option autoImplicit false

namespace EchoAlign

/-! ### Nobody asks for a resync -/

/-- A clock that brings no requests is only read, and `readEntries` are none. -/
theorem Link.readEntries_of_quiet {l : Link} (h : l.clock.requests = []) : l.readEntries = [] := by
  unfold readEntries Clock.interrupts
  rw [h]
  rfl

/-- No resync was asked for: the `epoch` stays the same. One that was `pending`
may have been done. -/
structure Link.Unasked (before after : Link) : Prop where
  linked_eq : after.linked = before.linked
  quiet : before.clock.requests = [] → after.clock.requests = []
  epoch_eq : after.epoch = before.epoch
  pending : after.resyncPending = true → before.resyncPending = true

namespace Link.Unasked

variable {l l' l'' : Link} {entries : List Entry}

/-- A link that does not change was not asked (`Unasked`). -/
theorem refl (l : Link) : l.Unasked l := ⟨rfl, id, rfl, id⟩

/-- Where no resync was asked for in two stretches, none was in both: `Unasked`
is transitive. -/
theorem trans (h : l.Unasked l') (h' : l'.Unasked l'') : l.Unasked l'' :=
  ⟨h'.linked_eq.trans h.linked_eq, fun hquiet => h'.quiet (h.quiet hquiet),
    h'.epoch_eq.trans h.epoch_eq, fun hpending => h.pending (h'.pending hpending)⟩

/-- The journal tells whether a resync was asked for: with no request in it
(`hcount`), the link was not asked. -/
theorem of_follows (hkeeps : l.Keeps l') (h : l.Follows entries l')
    (hcount : requestCount entries = 0) : l.Unasked l' := by
  refine ⟨hkeeps.linked_eq, hkeeps.quiet, ?_, fun hpending => ?_⟩
  · rw [h.epoch_eq, hcount, Nat.add_zero]
  · rw [h.pending_eq] at hpending
    exact (pending_of_requestCount_eq_zero hcount hpending).1

end Link.Unasked

namespace Capture

variable {κ : Type} {c : Capture κ} {link : Link}

/-- To handle a message is not to ask for a resync, if the clock brings no
requests (`hquiet`). -/
theorem requestCount_handleEntries (hquiet : link.clock.requests = [])
    (message : CaptureMessage) : requestCount (c.handleEntries link message) = 0 := by
  have hread := Link.readEntries_of_quiet hquiet
  refine List.countP_eq_zero.mpr fun entry hentry => Bool.eq_false_iff.mp ?_
  cases message with
  | rendered block =>
      rcases List.mem_cons.mp hentry with rfl | hentry
      · rfl
      · have hentry : entry ∈ c.receiveEntries block := hentry
        unfold receiveEntries at hentry
        split at hentry
        · cases hentry
        · rw [mem_appendEntries hentry]
          rfl
  | timingRequest ticket =>
      have hentry : entry ∈ Entry.handled (.timingRequest ticket) c.received :: link.readEntries :=
        hentry
      rw [hread] at hentry
      rw [List.mem_singleton.mp hentry]
      rfl
  | playbackTiming epoch timing =>
      rcases List.mem_cons.mp hentry with rfl | hentry
      · rfl
      · have hentry : entry ∈ c.resyncEntries link epoch timing := hentry
        unfold resyncEntries at hentry
        split at hentry
        · cases hentry
        · rw [hread] at hentry
          rw [List.mem_singleton.mp hentry]
          rfl
  | _ =>
      rw [List.mem_singleton.mp hentry]
      rfl

/-- To handle any number of messages is not to ask for a resync, if the clock
brings no requests (`hquiet`). -/
theorem unasked_handleAll (hquiet : link.clock.requests = []) (messages : List CaptureMessage) :
    link.Unasked (c.handleAll link messages).2 := by
  induction messages generalizing c link with
  | nil => exact Link.Unasked.refl link
  | cons message messages ih =>
      have hfirst : link.Unasked (c.handle link message).2 :=
        .of_follows (c.keeps_handle link message) (c.follows_handle link message)
          (requestCount_handleEntries hquiet message)
      exact hfirst.trans (ih (hfirst.quiet hquiet))

/-- The side is at work, and is not about to go back to it: neither `suspended`
nor `resuming`. -/
structure Working (c : Capture κ) : Prop where
  suspended_eq : c.suspended = false
  resuming_eq : c.resuming = false

/-- Only a device is suspended, and only the control side tells of it, so that a
data message (`hdata`) leaves a side at work. -/
theorem Working.handle (h : c.Working) (link : Link) {message : CaptureMessage}
    (hdata : message.isData = true) : (c.handle link message).1.Working := by
  cases message with
  | rendered block => exact ⟨h.suspended_eq, h.resuming_eq⟩
  | rewound n => exact ⟨h.suspended_eq, h.resuming_eq⟩
  | playbackTiming epoch timing =>
      show (c.resync link epoch timing).1.Working
      unfold resync
      split
      · exact h
      · exact ⟨h.suspended_eq, h.resuming_eq⟩
  | _ => cases hdata

/-- Captured audio leaves a side at work (`Working`). -/
theorem Working.accept (h : c.Working) (block : Block) : (c.accept block).Working := by
  unfold Capture.accept
  split
  · exact ⟨h.suspended_eq, h.resuming_eq⟩
  · exact h

/-- Only a `suspended` side is about to go back to work (`resuming`). -/
def Resumes (c : Capture κ) : Prop := c.resuming = true → c.suspended = true

/-- Whatever happens to a capture side, only a suspended one is about to go back
to work. One field of `Stable` for each thing that can happen; `Capture.follow`
is where both flags are set together. -/
theorem stable_resumes [Canceller κ] (allowed : Operation → Prop) :
    Stable allowed (Resumes : Capture κ → Prop) where
  handle c link message h := by
    cases message with
    | playbackTiming epoch timing =>
        show (c.resync link epoch timing).1.Resumes
        unfold resync
        split
        · exact h
        · exact h
    | device state =>
        cases state with
        | suspended => exact fun _ => rfl
        | running =>
            show (c.follow .running).Resumes
            simp only [follow]
            split
            · next hsuspended => exact fun _ => hsuspended
            · exact h
    | _ => exact h
  resume _ _ _ _ := nofun
  accept c block _ h := by
    unfold Capture.accept
    split
    · exact h
    · exact h
  pair _ _ _ _ h := h
  rewind _ _ _ h := h

end Capture

namespace Playback

variable {υ : Type} {p : Playback υ} {link : Link}

/-- No message makes the playback side ask for a resync, or forget what timing
it has sent (`timingEpoch?`). By induction on the messages, as a question reads
the clock at most and a device message leaves the link alone. -/
theorem handleAll_of_quiet (hquiet : link.clock.requests = []) (messages : List PlaybackMessage) :
    link.Unasked (p.handleAll link messages).2
      ∧ (p.handleAll link messages).1.timingEpoch? = p.timingEpoch? := by
  induction messages generalizing p link with
  | nil => exact ⟨Link.Unasked.refl link, rfl⟩
  | cons message messages ih =>
      have hnone : requestCount (handleEntries link message) = 0 := by
        cases message with
        | timingRequest ticket =>
            show requestCount link.readEntries = 0
            rw [Link.readEntries_of_quiet hquiet]
            rfl
        | device state => rfl
      have hfirst : link.Unasked (p.handle link message).2 :=
        .of_follows (p.keeps_handle link message) (p.follows_handle link message) hnone
      obtain ⟨hrest, hsame⟩ := ih (p := (p.handle link message).1) (hfirst.quiet hquiet)
      exact ⟨hfirst.trans hrest, hsame.trans (p.fst_handle link message).2⟩

end Playback

/-! ### Timing is sent when there is room -/

namespace Mailbox

variable {α : Type} {m : Mailbox α} {n : Nat}

/-- There is room for `n` messages more, in a mailbox that is open. -/
structure RoomFor (m : Mailbox α) (n : Nat) : Prop where
  closed_eq : m.closed = false
  length_add_le : m.items.length + n ≤ m.capacity

/-- Where there is room for another message, `Mailbox.hasRoom` says so. -/
theorem RoomFor.hasRoom (h : m.RoomFor (n + 1)) : m.hasRoom = true := by
  have hlength := h.length_add_le
  exact hasRoom_iff.mpr ⟨h.closed_eq, by omega⟩

/-- A message takes one place of the room that there is (`RoomFor`). -/
theorem RoomFor.post (h : m.RoomFor (n + 1)) (message : α) : (m.post message).2.RoomFor n := by
  have hlength := h.length_add_le
  refine ⟨(m.closed_post message).trans h.closed_eq, ?_⟩
  rw [items_post, h.hasRoom, if_pos rfl, List.length_append, capacity_post]
  show m.items.length + 1 + n ≤ m.capacity
  omega

end Mailbox

namespace PlaybackScene

variable {υ : Type} {s : PlaybackScene υ}

/-- No timing is owed (`owesTiming`) exactly if none is pending, or the playback
side has sent that of the present epoch. -/
theorem owesTiming_eq_false_iff :
    s.owesTiming = false
      ↔ (s.link.resyncPending = true → s.playback.timingEpoch? = some s.link.epoch) := by
  unfold owesTiming
  cases s.link.resyncPending <;> simp

/-- With room in the mailbox no timing is owed any more once it was sent, as the
reading of the clock brings no request (`hquiet`). -/
theorem owesTiming_sendTiming (hquiet : s.link.clock.requests = [])
    (hroom : s.data.hasRoom = true) : s.sendTiming.owesTiming = false := by
  cases howes : s.owesTiming with
  | false =>
      rw [(s.sendTiming_of_not_owesTiming howes).1]
      exact howes
  | true =>
      obtain ⟨-, hplayback, -, hentries⟩ := s.sendTiming_of_owesTiming howes
      -- No request comes up while the clock is read.
      have hfollows := s.follows_sendTiming
      rw [hentries, Link.readEntries_of_quiet hquiet, List.nil_append, postEntries, hroom,
        if_pos rfl] at hfollows
      refine owesTiming_eq_false_iff.mpr fun _ => ?_
      rw [hplayback, hroom, if_pos rfl, hfollows.epoch_eq]
      rfl

end PlaybackScene

namespace Session

variable {κ υ : Type} [Canceller κ] [Producer υ] {s : Session κ υ} {limit : Nat}

/-- Both sides are there and `linked`. The capture side is at work, and neither
a message of the control side waits for it nor will a resync be asked for while
the clock is read. Only the mailbox between the sides may hold something. -/
structure Ready (s : Session κ υ) : Prop where
  linked : s.link.linked = true
  capture : ∃ c, s.capture? = some c ∧ c.suspended = false
  playback : s.playback?.isSome = true
  control : s.captureControl.items = []
  quiet : s.link.clock.requests = []

omit [Canceller κ] in
/-- When audio is made and the mailbox has room for it and one message more
(`RoomFor` two), no timing is owed any more. -/
theorem owesTiming_render {p : Playback υ} (hp : s.playback? = some p)
    (hlinked : s.link.linked = true) (hquiet : s.link.clock.requests = [])
    (hroom : s.data.RoomFor 2) (n : Nat) :
    ∃ p', (s.render n).2.playback? = some p' ∧ ((s.render n).2.scene p').owesTiming = false := by
  have hplayed := (s.scene p).keeps_play n
  have hsent : ((s.scene p).render n).2.owesTiming = false := by
    show ((s.scene p).play n).2.sendTiming.owesTiming = false
    -- The audio takes one of the two places.
    refine PlaybackScene.owesTiming_sendTiming (hplayed.quiet hquiet) ?_
    rw [PlaybackScene.data_play]
    exact (hroom.post _).hasRoom
  have hstill : ((s.scene p).render n).2.link.clock.requests = [] :=
    (PlaybackScene.keeps_sendTiming _).quiet (hplayed.quiet hquiet)
  obtain ⟨hunasked, hepoch⟩ := Playback.handleAll_of_quiet
    (p := ((s.scene p).render n).2.playback) hstill (s.playbackControl.drain s.drainLimit).1
  simp only [render, hp, hlinked, Bool.not_true, Bool.false_eq_true, if_false]
  refine ⟨_, rfl, PlaybackScene.owesTiming_eq_false_iff.mpr fun hpending => ?_⟩
  have hremembered := PlaybackScene.owesTiming_eq_false_iff.mp hsent (hunasked.pending hpending)
  exact (hepoch.trans hremembered).trans (congrArg some hunasked.epoch_eq.symm)

omit [Canceller κ] in
/-- Audio that is made leaves the capture side alone, and the session stays
`Ready`. -/
theorem Ready.render (h : s.Ready) (n : Nat) : (s.render n).2.Ready := by
  obtain ⟨p, hp⟩ := Option.isSome_iff_exists.mp h.playback
  have hplayed := ((s.scene p).keeps_play n).trans (PlaybackScene.keeps_sendTiming _)
  obtain ⟨hunasked, -⟩ := Playback.handleAll_of_quiet
    (p := ((s.scene p).render n).2.playback) (hplayed.quiet h.quiet)
    (s.playbackControl.drain s.drainLimit).1
  simp only [Session.render, hp, h.linked, Bool.not_true, Bool.false_eq_true, if_false]
  exact ⟨hunasked.linked_eq.trans (hplayed.linked_eq.trans h.linked), h.capture, rfl, h.control,
    hunasked.quiet (hplayed.quiet h.quiet)⟩

omit [Producer υ] in
/-- A tick of a capture side at work asks for no resync, and leaves the playback
side alone. It takes all its messages (`Session.Wired`), none of which is about
the device, and so the side stays `Capture.Working`. -/
theorem Ready.push (h : s.Ready) (hwired : s.Wired limit) (hresumes : s.CaptureIs Capture.Resumes)
    (block : Block) :
    (s.push block).2.Ready ∧ s.link.Unasked (s.push block).2.link
      ∧ (s.push block).2.playback? = s.playback? := by
  obtain ⟨c, hc, hsuspended⟩ := h.capture
  have hworking : c.Working := by
    refine ⟨hsuspended, Bool.eq_false_iff.mpr fun hresuming => ?_⟩
    rw [hresumes c hc hresuming] at hsuspended
    cases hsuspended
  -- The messages of the tick are all from the playback side.
  have hattend : s.attend c = c.handleAll s.link (s.data.drain s.drainLimit).1 := by
    rw [attend_eq, (Mailbox.drain_of_nil h.control s.drainLimit).1, List.nil_append]
  have hunasked : s.link.Unasked (s.attend c).2 := hattend ▸ Capture.unasked_handleAll h.quiet _
  have hstill : (s.attend c).1.Working := by
    rw [hattend]
    refine Capture.handleAll_induct (motive := Capture.Working) ?_ hworking s.link
    intro c link message hmessage hworking
    exact hworking.handle link (hwired.dataOnly message (List.mem_of_mem_take hmessage))
  obtain ⟨-, hcapture, hlink, -, hplayback⟩ := push_attend hc h.linked block
  rw [Capture.resume_of_not_resuming hstill.resuming_eq] at hcapture hlink
  have hcounted : s.link.Unasked (s.push block).2.link := by
    rw [hlink]
    exact hunasked.trans ⟨rfl, id, rfl, id⟩
  refine ⟨⟨hcounted.linked_eq.trans h.linked, ⟨_, hcapture, (hstill.accept block).suspended_eq⟩,
    hplayback ▸ h.playback, (hwired.idle_push hc h.linked block).control,
    hcounted.quiet h.quiet⟩, hcounted, hplayback⟩

/-- A round, that is a playback tick and a capture tick behind it, leaves no
message for the capture side (`Idle`). -/
theorem Ready.round (h : s.Ready) (hwired : s.Wired limit)
    (hresumes : s.CaptureIs Capture.Resumes) (n : Nat) (block : Block) :
    (s.run [.render n, .push block]).2.Ready ∧ (s.run [.render n, .push block]).2.Idle := by
  have hmade := h.render n
  obtain ⟨c, hc, -⟩ := hmade.capture
  have hsteps : Steps (fun _ => True) s _ _ := s.steps_render n trivial
  have hwired' := hwired.steps hsteps
  exact ⟨(hmade.push hwired' (hresumes.steps (Capture.stable_resumes _) hsteps) block).1,
    hwired'.idle_push hc hmade.linked block⟩

/-- A resync that is attended to (`hattended`) is done in a round in which the
mailbox has room for the audio and the timing (`hroom`). -/
theorem Ready.pending_round (h : s.Ready) (hwired : s.Wired limit)
    (hresumes : s.CaptureIs Capture.Resumes) (hroom : s.data.RoomFor 2) (n : Nat) (block : Block)
    (hattended : (s.run [.render n, .push block]).2.Attended) :
    (s.run [.render n, .push block]).2.link.resyncPending = false := by
  obtain ⟨hready, hidle⟩ := h.round hwired hresumes n block
  obtain ⟨p, hp⟩ := Option.isSome_iff_exists.mp h.playback
  obtain ⟨p', hp', howes⟩ := owesTiming_render hp h.linked h.quiet hroom n
  have hsteps : Steps (fun _ => True) s _ _ := s.steps_render n trivial
  obtain ⟨-, hunasked, hplayback⟩ := (h.render n).push (hwired.steps hsteps)
    (hresumes.steps (Capture.stable_resumes _) hsteps) block
  refine Bool.eq_false_iff.mpr fun hpending => ?_
  -- None of the ways in which it could still come about is left.
  obtain ⟨c, hc, hawake⟩ := hready.capture
  cases hattended c p' hc (hplayback.trans hp') hpending with
  | owed howed =>
      have hsent := PlaybackScene.owesTiming_eq_false_iff.mp howes (hunasked.pending hpending)
      exact howed (hsent.trans (congrArg some hunasked.epoch_eq.symm))
  | waiting timing hm =>
      rw [hidle.data] at hm
      cases hm
  | suspended hsuspended =>
      rw [hsuspended] at hawake
      cases hawake

omit [Producer υ] in
/-- A new session is not suspended, and so `Capture.Resumes` holds of it. -/
theorem IsNew.resumes (h : s.IsNew) : s.CaptureIs Capture.Resumes := by
  obtain ⟨spec, capacity, canceller, producer, link, dumps?, rfl, -⟩ := h.opened
  intro c hc
  cases hc
  exact nofun

/-- In every state that a run of a new session leads to, with both sides there
and linked, the capture side at work and no message of the control side waiting
(`Ready`): when the mailbox between the sides has room for two messages
(`hcapacity`), no resync is pending after two rounds of `.render` and `.push`.
The first round empties the mailbox, and in the second the timing finds room. -/
theorem resync_completes (hnew : s.IsNew) (hcapacity : 2 ≤ s.data.capacity)
    {operations : List Operation} (hready : (s.run operations).2.Ready) (n₁ n₂ : Nat)
    (block₁ block₂ : Block) :
    let rounds : List Operation := [.render n₁, .push block₁, .render n₂, .push block₂]
    ((s.run operations).2.run rounds).2.link.resyncPending = false := by
  obtain ⟨t, ht⟩ : ∃ t, t = (s.run operations).2 := ⟨_, rfl⟩
  have hsteps := s.steps_any operations
  rw [← ht] at hready hsteps ⊢
  have hwired := hnew.wired.steps hsteps
  have hresumes := hnew.resumes.steps (Capture.stable_resumes _) hsteps
  -- Nothing is known of the mailbox before the first round.
  obtain ⟨hready', hidle⟩ := hready.round hwired hresumes n₁ block₁
  have hfirst := t.steps_any [.render n₁, .push block₁]
  have hwired' := hwired.steps hfirst
  -- The first round has emptied the mailbox.
  have hroom : (t.run [.render n₁, .push block₁]).2.data.RoomFor 2 := by
    obtain ⟨c, hc, -⟩ := hready'.capture
    refine ⟨hwired'.closed_eq (hc ▸ rfl), ?_⟩
    rw [hidle.data, hwired'.data.capacity_eq]
    exact hcapacity
  exact hready'.pending_round hwired' (hresumes.steps (Capture.stable_resumes _) hfirst) hroom n₂
    block₂ (hnew.attended_steps ((hsteps.trans hfirst).trans (steps_any _ _)))

/-- The hypotheses of `resync_completes` are met where the first of the rounds
starts with a full mailbox, so that its audio is lost. -/
theorem resync_completes_trial :
    let operations : List Operation :=
      [.render 4, .render 4, .render 4, .render 4, .requestResync]
    let rounds : List Operation :=
      [.render 4, .push (.silence 4), .render 4, .push (.silence 4)]
    (trial.run operations).2.data.items.length = 4
      ∧ (trial.run operations).2.link.resyncPending = true
      ∧ ((trial.run operations).2.run rounds).2.link.resyncPending = false := by
  intro operations rounds
  have hready : (trial.run operations).2.Ready := by
    refine ⟨by decide +kernel, ?_, by decide +kernel, by decide +kernel, by decide +kernel⟩
    have hawake : (trial.run operations).2.capture?.map (·.suspended) = some false := by
      decide +kernel
    exact Option.map_eq_some_iff.mp hawake
  exact ⟨by decide +kernel, by decide +kernel,
    resync_completes isNew_trial (by decide) hready 4 4 (.silence 4) (.silence 4)⟩

/-- With room for one message, the timing finds the mailbox full with the audio
that it is to follow. The state is `Ready` in the session `narrow`, and two
rounds leave the resync pending. -/
theorem resync_starves :
    let operations : List Operation := [.requestResync]
    let rounds : List Operation :=
      [.render 4, .push (.silence 4), .render 4, .push (.silence 4)]
    narrow.IsNew ∧ (narrow.run operations).2.Ready
      ∧ ((narrow.run operations).2.run rounds).2.link.resyncPending = true := by
  intro operations rounds
  refine ⟨isNew_narrow, ⟨by decide +kernel, ?_, by decide +kernel, by decide +kernel,
    by decide +kernel⟩, by decide +kernel⟩
  have hawake : (narrow.run operations).2.capture?.map (·.suspended) = some false := by
    decide +kernel
  exact Option.map_eq_some_iff.mp hawake

end Session

end EchoAlign
