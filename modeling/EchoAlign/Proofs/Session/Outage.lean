import EchoAlign.Proofs.Session.Sounding
import EchoAlign.Proofs.Session.Suspension
import EchoAlign.Proofs.Session.Wiring

/-!
# `EchoAlign.Proofs.Session.Outage`: from a suspension to its end

An outage begins with a capture tick in which a suspension is handled, and
ends with the first tick, possibly the same one, after whose messages the
side goes back to work.

* `Outage` says this of the operations in question.
* `Outage.hushed`: if the consumer takes no bytes back in the meantime, no
  tick of an outage uses playback up, and at its end none is left, neither
  on the tape nor in the mailbox.

A side is `Dark` while it is suspended and its tapes hold no playback. It
becomes so by a suspension, because its tapes are in order before, and stays
so until a tick sends it back to work. That happens behind the last message,
and the mailbox never holds more than is taken out in one tick (`Wired`),
so that nothing is left in it by then.
-/

set_option autoImplicit false

namespace EchoAlign

/-! ### A side in the dark -/

namespace Capture

variable {κ : Type} {c : Capture κ}

/-- The side is suspended, and no playback is left on its tapes, read as the
lists of a `PlainCapture`. -/
def Dark (c : Capture κ) : Prop :=
  ∃ plain, c.Holds plain ∧ plain.suspended = true ∧ plain.backlog.played = []

/-- No message brings playback to a side in the dark: a suspended side throws
rendered audio away, and no message ends a suspension. The proof follows the
`PlainCapture` beside the side, one case for each message. -/
theorem Dark.handle (h : c.Dark) (link : Link) (message : CaptureMessage) :
    (c.handle link message).1.Dark := by
  obtain ⟨plain, hholds, hsuspended, hplayed⟩ := h
  cases message with
  | rendered block =>
      refine ⟨plain.receive block.toList, hholds.receive block, hsuspended, ?_⟩
      simp only [PlainCapture.receive, hsuspended, if_true]
  | rewound n =>
      -- However many bytes are taken back, nothing is left.
      have hflushed := hholds.pairing.played.flush
      have htape : (c.takeBack n).pairing.played = c.pairing.played.flush true := by
        simp only [takeBack, hholds.suspended_eq, hsuspended, if_true]
      rw [← hplayed, ← htape] at hflushed
      exact ⟨{ plain with received := c.received - Word.signed n }, ⟨hholds.spec_eq,
        ⟨hholds.pairing.blockBytes_eq, hholds.pairing.captured, hflushed, hholds.pairing.skip_eq,
          hholds.pairing.canceller_eq⟩, rfl, hholds.suspended_eq, hholds.resuming_eq⟩,
        hsuspended, hplayed⟩
  | timingRequest ticket => exact ⟨plain, hholds, hsuspended, hplayed⟩
  | correct usec => exact ⟨_, (hholds.correct link usec).1, hsuspended, hplayed⟩
  | playbackTiming epoch timing =>
      -- A suspended side begins no resync.
      have hsame : (plain.resync link epoch timing).1 = plain := by
        simp only [PlainCapture.resync, hsuspended, Bool.true_or, if_true]
      have hresync := (hholds.resync link epoch timing).1
      rw [hsame] at hresync
      exact ⟨plain, hresync, hsuspended, hplayed⟩
  | device state =>
      cases state with
      | suspended => exact ⟨_, hholds.follow .suspended, rfl, rfl⟩
      | running =>
          -- The side goes back to work only at the end of the tick.
          have hrunning : plain.follow .running = { plain with resuming := true } := by
            simp only [PlainCapture.follow, hsuspended, if_true]
          have hfollow := hholds.follow .running
          rw [hrunning] at hfollow
          exact ⟨_, hfollow, hsuspended, hplayed⟩

/-- Any number of messages leaves a side in the dark (`Dark`), by induction on
the messages. -/
theorem Dark.handleAll (h : c.Dark) (link : Link) (messages : List CaptureMessage) :
    (c.handleAll link messages).1.Dark :=
  handleAll_induct (fun _ link message _ hc => hc.handle link message) h link

/-- What is left of a side when it is suspended: nothing lies on its tapes,
`captured` and `played` are empty. -/
def emptied (c : Capture κ) (base : Nat) {size : Nat} (pos : 0 < size) : PlainCapture κ where
  spec := c.spec
  backlog :=
    { base
      blockBytes := size
      pos
      captured := []
      played := []
      skip := c.pairing.skip
      canceller := c.pairing.canceller }
  received := c.received
  suspended := true
  resuming := false

/-- A suspension puts a side in the dark whose tapes are in order (`Sounds` and
`Records`), since `Capture.follow` flushes both. -/
theorem Sounds.dark_follow {size base : Nat} {written : Int} (h : c.Sounds base written)
    (hrecords : c.Records size base) (hpos : 0 < size) : (c.follow .suspended).Dark := by
  obtain ⟨bytes, hbytes⟩ := hrecords.captured
  -- Too much may lie unread on the tape of playback to be a list, but
  -- nothing is left of it.
  have hflushed := h.played.sound.holds_flush h.played.base_eq h.played.limit_eq
  have hpairing : (c.follow .suspended).pairing.Holds (c.emptied base hpos).backlog :=
    ⟨hrecords.blockBytes_eq, hbytes.flush, hflushed, rfl, rfl⟩
  exact ⟨c.emptied base hpos, ⟨rfl, hpairing, rfl, rfl, rfl⟩, rfl, rfl⟩

/-- Between two ticks (`hpush`), a side in the dark stays there, unless it is
told of bytes that are taken back (`hkept`). -/
theorem stable_dark [Canceller κ] {allowed : Operation → Prop}
    (hpush : ∀ block, ¬ allowed (.push block)) (hkept : ∀ n, ¬ allowed (.rewindCapture n)) :
    Stable allowed (Dark : Capture κ → Prop) where
  handle _ link message h := h.handle link message
  resume _ block ha := absurd ha (hpush block)
  accept _ block ha := absurd ha (hpush block)
  pair _ _ _ hstep h := by
    obtain ⟨plain, hholds, hsuspended, hplayed⟩ := h
    obtain ⟨fate, b, hb, -, hpairing⟩ := hholds.pairing.step?_eq_some hstep
    have hnothing := Backlog.played_step? hb
    rw [hplayed] at hnothing
    exact ⟨{ plain with backlog := b }, ⟨hholds.spec_eq, hpairing, hholds.received_eq,
      hholds.suspended_eq, hholds.resuming_eq⟩, hsuspended, (List.append_eq_nil_iff.mp hnothing).2⟩
  rewind _ n ha := absurd ha (hkept n)

end Capture

/-! ### Ticks in the dark -/

/-- Without playback there is none after all whole blocks are worked off, since
`Backlog.drive` only takes playback away. -/
theorem Backlog.played_drive_of_nil {κ : Type} [Canceller κ] {b : Backlog κ}
    (h : b.played = []) : b.drive.2.played = [] := by
  induction b using Backlog.drive.induct with
  | case1 b hnone =>
      rw [drive_of_none hnone]
      exact h
  | case2 b fate next hsome later rest heq ih =>
      rw [drive_of_some hsome]
      have hnothing := played_step? hsome
      rw [h] at hnothing
      exact ih (List.append_eq_nil_iff.mp hnothing).2

/-- No playback is used up: the canceller does not run (`isCall_eq`), and none
is dropped (`sinkSkipped_eq`). -/
structure Event.IsMute (event : Event) : Prop where
  isCall_eq : event.isCall = false
  sinkSkipped_eq : event.sinkSkipped = 0

/-- A block that is worked off without playback (`IsUnpaired`) uses none up. -/
theorem Event.IsUnpaired.isMute {size : Nat} {event : Event} (h : event.IsUnpaired size) :
    event.IsMute := by
  rcases h with ⟨_, rfl⟩ | ⟨_, _, rfl, -, hnone⟩
  · exact ⟨rfl, rfl⟩
  · exact ⟨rfl, hnone⟩

namespace Session

variable {κ υ : Type} [Canceller κ] [Producer υ] {s : Session κ υ} {c : Capture κ}
  {limit : Nat}

/-- No playback is left on the tapes of the capture side. Unless it is
suspended, none is left in the mailbox `data`, either. -/
def Hushed (s : Session κ υ) : Prop :=
  s.CaptureIs fun c => ∃ plain, c.Holds plain ∧ plain.backlog.played = []
    ∧ (plain.suspended = true ∨ s.data.items = [])

omit [Canceller κ] [Producer υ] in
/-- A side that is `Hushed` and suspended is in the dark (`Dark`). -/
theorem Hushed.dark (h : s.Hushed) (hsuspended : s.CaptureIs fun c => c.suspended = true) :
    s.CaptureIs Capture.Dark := by
  intro c hc
  obtain ⟨plain, hholds, hplayed, -⟩ := h c hc
  exact ⟨plain, hholds, hholds.suspended_eq.symm.trans (hsuspended c hc), hplayed⟩

omit [Producer υ] in
/-- A tick that finds the side in the dark, when it has handled its messages
(`Session.attend`), uses no playback up, and leaves none: all of its events are
`IsMute`, and the session is `Hushed`. -/
theorem push_of_dark (hwired : s.Wired limit) (hc : s.capture? = some c)
    (hlinked : s.link.linked = true) (hdark : (s.attend c).1.Dark) (block : Block) :
    (s.push block).2.Hushed ∧ ∀ event ∈ (s.push block).1, event.IsMute := by
  obtain ⟨plain, hholds, -, hplayed⟩ := hdark
  -- Whether or not the side goes back to work, it has no playback.
  have hresumed : (s.drainCapture c).1.Holds (plain.resume (s.attend c).2).1 :=
    (hholds.resume (s.attend c).2).1
  have hnone : (plain.resume (s.attend c).2).1.backlog.played = [] := by
    unfold PlainCapture.resume
    split
    · exact hplayed
    · exact hplayed
  obtain ⟨-, hcapture, -⟩ := push_eq hc hlinked block
  have hempty : (s.push block).2.data.items = [] := (hwired.idle_push hc hlinked block).data
  constructor
  · intro c' hc'
    have haccepted := hresumed.accept block
    cases hc'.symm.trans hcapture
    have hnone' : ((plain.resume (s.attend c).2).1.accept block.toList).backlog.played = [] := hnone
    exact ⟨_, (haccepted.process s.link).2.1, Backlog.played_drive_of_nil hnone', Or.inr hempty⟩
  · have hlength : (s.drainCapture c).1.pairing.played.length = 0 := by
      rw [hresumed.pairing.played.length_eq, hnone]
      rfl
    obtain ⟨c', -, -, hunpaired, -⟩ := push_of_muted (plain.resume (s.attend c).2).1.backlog.pos hc
      hlinked ⟨hresumed.pairing.blockBytes_eq, _, hresumed.pairing.captured⟩ hlength block
    exact fun event hevent => (hunpaired event hevent).isMute

/-- Only capture ticks use playback up, as no other operation has events that
are not `IsMute`. -/
theorem isMute_of_mem_perform {operation : Operation} (hpush : ∀ block, operation ≠ .push block)
    {event : Event} (hevent : event ∈ (s.perform operation).1) : event.IsMute := by
  obtain ⟨-, -, hcall, -, -, hsink⟩ :=
    Event.of_not_isWorked (isWorked_of_mem_perform hpush hevent)
  exact ⟨hcall, hsink⟩

/-- Whatever happens to a side in the dark, no playback is used up, and none is
left. A capture tick is `push_of_dark`, and anything else is `stable_dark`. -/
theorem hushed_perform (hdark : s.CaptureIs Capture.Dark) (hwired : s.Wired limit)
    {operation : Operation} (hkeeps : KeepsCapture operation) :
    (s.perform operation).2.Hushed
      ∧ ∀ event ∈ (s.perform operation).1, event.IsMute := by
  have hhushed : ∀ {s : Session κ υ}, s.CaptureIs Capture.Dark → s.Hushed := by
    intro s hdark c hc
    obtain ⟨plain, hholds, hsuspended, hplayed⟩ := hdark c hc
    exact ⟨plain, hholds, hplayed, Or.inl hsuspended⟩
  by_cases hpush : ∃ block, operation = .push block
  · obtain ⟨block, rfl⟩ := hpush
    show (s.push block).2.Hushed ∧ ∀ event ∈ (s.push block).1, event.IsMute
    cases hc : s.capture? with
    | none =>
        simp only [push, hc]
        exact ⟨hhushed hdark, fun event hevent => absurd hevent List.not_mem_nil⟩
    | some c =>
        cases hlinked : s.link.linked with
        | false =>
            simp only [push, hc, hlinked, Bool.not_false, if_true]
            exact ⟨hhushed hdark, fun event hevent => absurd hevent List.not_mem_nil⟩
        | true =>
            have hattended : (s.attend c).1.Dark := ((hdark c hc).handleAll _ _).handleAll _ _
            exact push_of_dark hwired hc hlinked hattended block
  · have hquiet : ∀ block, operation ≠ .push block := fun block hblock => hpush ⟨block, hblock⟩
    have hstable : Capture.Stable (· = operation) (Capture.Dark : Capture κ → Prop) :=
      Capture.stable_dark (fun block ha => hquiet block ha.symm) fun n ha => hkeeps n ha.symm
    exact ⟨hhushed (hdark.steps hstable (s.steps_perform rfl)),
      fun event hevent => isMute_of_mem_perform hquiet hevent⟩

/-! ### An outage -/

/-- Whether the capture side is `suspended`, if it is there. -/
def suspended? (s : Session κ υ) : Option Bool := s.capture?.map (·.suspended)

/-- The capture side is suspended up to the last of these operations, which
sends it back to work: `suspended?` is `some true` before each, and `some false`
after the last. -/
def Lasts : Session κ υ → List Operation → Prop
  | s, [] => s.suspended? = some false
  | s, operation :: rest => s.suspended? = some true ∧ Lasts (s.perform operation).2 rest

/-- The side is back at work when a suspension that `Lasts` so long is over. -/
theorem Lasts.awake {operations : List Operation} (h : s.Lasts operations) :
    (s.run operations).2.suspended? = some false := by
  induction operations generalizing s with
  | nil => exact h
  | cons operation rest ih => exact ih h.2

/-- Whether a suspension `Lasts` up to the end of given operations can be found
by performing them. -/
instance decidableLasts : (s : Session κ υ) → (operations : List Operation) →
    Decidable (s.Lasts operations)
  | s, [] => inferInstanceAs (Decidable (s.suspended? = some false))
  | s, operation :: rest =>
      have := decidableLasts (s.perform operation).2 rest
      inferInstanceAs (Decidable (s.suspended? = some true ∧ Lasts (s.perform operation).2 rest))

/-- A suspension is handled in a capture tick, and the side goes back to work in
the last of the operations that begin with it (`Lasts`). The tick pushes
`block`, and `rest` comes behind it. -/
structure Outage (s : Session κ υ) (block : Block) (rest : List Operation) : Prop where
  linked : s.link.linked = true
  capture : s.capture?.isSome = true
  suspends : .device .suspended ∈ (s.captureControl.drain s.drainLimit).1
  lasts : (s.push block).2.Lasts rest

omit [Canceller κ] [Producer υ] in
/-- A side whose tapes are in order (`hsounds`, `hrecords`) is in the dark once
it has handled a suspension, whatever is handled before and behind. -/
theorem dark_attend {size base : Nat} {written : Int} (hcontrol : s.ControlOnly)
    (hsounds : c.Sounds base written) (hrecords : c.Records size base) (hpos : 0 < size)
    (hsuspends : .device .suspended ∈ (s.captureControl.drain s.drainLimit).1) :
    (s.attend c).1.Dark := by
  obtain ⟨first, later, hsplit⟩ := List.append_of_mem hsuspends
  -- What the control side says brings no audio.
  have hfirst : ∀ message ∈ first, message.isData = false := by
    intro message hmessage
    refine hcontrol message ?_
    rw [(s.captureControl.takes_drain s.drainLimit).items, hsplit]
    exact List.mem_append_left _ (List.mem_append_left _ hmessage)
  have hbefore : (c.handleAll s.link first).1.Sounds base written
      ∧ (c.handleAll s.link first).1.Records size base := by
    refine Capture.handleAll_induct (motive := fun c => c.Sounds base written
      ∧ c.Records size base) ?_ ⟨hsounds, hrecords⟩ s.link
    intro c link message hmessage ⟨hsounds, hrecords⟩
    have hdata := hfirst message hmessage
    have hnone : postedBytes [message] = 0 := by
      cases message <;> first | rfl | cases hdata
    refine ⟨(hsounds.handle link fun n hn => ?_).mono (by omega), hrecords.handle link message⟩
    rw [hn] at hdata
    cases hdata
  have hdark : (c.handleAll s.link (s.captureControl.drain s.drainLimit).1).1.Dark := by
    rw [hsplit, Capture.handleAll_append]
    exact (hbefore.1.dark_follow hbefore.2 hpos).handleAll (c.handleAll s.link first).2 later
  exact hdark.handleAll _ _

/-- Up to the end of an outage no playback is used up. By then none is left on
the tapes or in the mailbox. By induction on the operations: the side is in the
dark as long as it `Lasts`. -/
theorem Hushed.run (h : s.Hushed) (hwired : s.Wired limit) {operations : List Operation}
    (hlasts : s.Lasts operations) (hkept : ∀ operation ∈ operations, KeepsCapture operation) :
    (∀ event ∈ (s.run operations).1, event.IsMute)
      ∧ (s.run operations).2.data.items = []
      ∧ ∃ c plain, (s.run operations).2.capture? = some c ∧ c.Holds plain
        ∧ plain.backlog.played = [] := by
  induction operations generalizing s with
  | nil =>
      -- The side is back at work, and then the mailbox is empty.
      obtain ⟨c, hc, hawake⟩ := Option.map_eq_some_iff.mp hlasts
      obtain ⟨plain, hholds, hplayed, hsuspended | hempty⟩ := h c hc
      · rw [hholds.suspended_eq, hsuspended] at hawake
        cases hawake
      · exact ⟨fun event hevent => absurd hevent List.not_mem_nil, hempty, c, plain, hc, hholds,
          hplayed⟩
  | cons operation rest ih =>
      -- The side is suspended still, and so it is in the dark.
      obtain ⟨hsuspended, hlasts⟩ := hlasts
      obtain ⟨hfirst, hrest⟩ := List.forall_mem_cons.mp hkept
      have hdark : s.CaptureIs Capture.Dark := by
        refine h.dark fun c hc => ?_
        rw [suspended?, hc] at hsuspended
        exact Option.some.inj hsuspended
      obtain ⟨hnext, hquiet⟩ := hushed_perform hdark hwired hfirst
      have hsteps : Steps (fun _ => True) s (s.journal operation) (s.perform operation).2 :=
        s.steps_perform trivial
      obtain ⟨hlater, hend⟩ := ih hnext (hwired.steps hsteps) hlasts hrest
      refine ⟨fun event hevent => ?_, hend⟩
      rcases List.mem_append.mp hevent with hevent | hevent
      · exact hquiet event hevent
      · exact hlater event hevent

/-- During an `Outage` no playback is used up, as all events are `IsMute`. At
its end, none is left on the tapes or in the mailbox. -/
theorem Outage.hushed {block : Block} {rest : List Operation} (h : s.Outage block rest)
    {size base : Nat} {written : Int} (hwired : s.Wired limit) (hcontrol : s.ControlOnly)
    (hsounds : s.CaptureIs (Capture.Sounds base written))
    (hrecords : s.CaptureIs (Capture.Records size base)) (hpos : 0 < size)
    (hkept : ∀ operation ∈ rest, KeepsCapture operation) :
    (∀ event ∈ (s.run (.push block :: rest)).1, event.IsMute)
      ∧ (s.run (.push block :: rest)).2.data.items = []
      ∧ ∃ c plain, (s.run (.push block :: rest)).2.capture? = some c ∧ c.Holds plain
        ∧ plain.backlog.played = [] := by
  obtain ⟨c, hc⟩ := Option.isSome_iff_exists.mp h.capture
  have hdark := dark_attend hcontrol (hsounds c hc) (hrecords c hc) hpos h.suspends
  obtain ⟨hhushed, hquiet⟩ := push_of_dark hwired hc h.linked hdark block
  have hsteps : Steps (fun _ => True) s (s.journal (.push block)) (s.push block).2 :=
    s.steps_perform trivial
  obtain ⟨hlater, hend⟩ := hhushed.run (hwired.steps hsteps) h.lasts hkept
  refine ⟨fun event hevent => ?_, hend⟩
  rcases List.mem_append.mp hevent with hevent | hevent
  · exact hquiet event hevent
  · exact hlater event hevent

/-- This is so in every run of a new session, as long as no more was rendered
before than a word can count (`hbytes`). -/
theorem IsNew.hushed {new : Session κ υ} (hnew : new.IsNew) {before : List Entry}
    (hbefore : Steps FitsWord new before s)
    (hbytes : renderedBytesOf (before.filterMap Entry.event?) ≤ Word.maxSigned) {block : Block}
    {rest : List Operation} (houtage : s.Outage block rest)
    (hkept : ∀ operation ∈ rest, KeepsCapture operation) :
    (∀ event ∈ (s.run (.push block :: rest)).1, event.IsMute)
      ∧ (s.run (.push block :: rest)).2.data.items = []
      ∧ ∃ c plain, (s.run (.push block :: rest)).2.capture? = some c ∧ c.Holds plain
        ∧ plain.backlog.played = [] := by
  obtain ⟨-, hpos, hrecords⟩ := hnew.recording
  exact houtage.hushed (hnew.wired.steps hbefore) (hnew.balanced_steps hbefore).1.control
    (hnew.sounding_steps hbefore hbytes)
    (hrecords.steps (Capture.stable_records _ _ _) hbefore) hpos hkept

end Session

end EchoAlign
