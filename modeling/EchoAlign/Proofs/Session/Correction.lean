import EchoAlign.Proofs.Session.Removal

/-!
# `EchoAlign.Proofs.Session.Correction`: a correction removes what it asks for

A correction or a resync puts a skip in place. It happens at once, while a
drift check waits, or in the middle of a capture tick, which then goes on with
the other messages and with the captured audio (`Realigns`).

* `push_midTick`: from the middle of a capture tick, the rest of the tick is a
  tick itself.
* `correction_exact`: from the correction on, in whatever portions audio is
  pushed and rendered, the first captured bytes or the first bytes of playback
  are dropped, as many as the correction asks for, and no others.
-/

set_option autoImplicit false

namespace EchoAlign

/-- Neither realigns the streams at once (`correct`) nor takes bytes back. After
such operations, what a skip takes is in front of everything else. -/
def Operation.isOnward : Operation → Bool
  | correct _ => false
  | rewindCapture _ => false
  | rewindPlayback _ => false
  | _ => true

/-- The last of these messages is a correction, or begins a resync: its entry
says that the skip is replaced (`Entry.replacesSkip`). -/
def Capture.RealignsLast {κ : Type} (c : Capture κ) (link : Link)
    (messages : List CaptureMessage) : Prop :=
  ∃ first message, messages = first ++ [message]
    ∧ ∃ entry ∈ (c.handleAll link first).1.handleEntries (c.handleAll link first).2 message,
        entry.replacesSkip = true

namespace Session

variable {κ υ : Type} [Canceller κ] [Producer υ] {allowed : Operation → Prop} {s : Session κ υ}
  {c : Capture κ} {limit : Nat}

/-! ### In the middle of a capture tick -/

/-- The session within a capture tick, when the capture side has handled `n`
messages of the control side and `k` of the playback side. What it answered is
heard. -/
def midTick (s : Session κ υ) (c : Capture κ) (n k : Nat) : Session κ υ :=
  let handled := c.handleAll s.link ((s.captureControl.drain n).1 ++ (s.data.drain k).1)
  { s with
    capture? := some handled.1
    link := handled.2
    captureControl := (s.captureControl.drain n).2
    data := (s.data.drain k).2
    drift := s.drift.hearCapture
      (c.replies s.link ((s.captureControl.drain n).1 ++ (s.data.drain k).1)) }

/-- What the journal tells of a capture tick up to the middle, where `n` and `k`
messages have been handled. -/
def midTickEntries (s : Session κ υ) (c : Capture κ) (n k : Nat) : List Entry :=
  let control := (s.captureControl.drain n).1
  let handled := c.handleAll s.link control
  c.handleAllEntries s.link control
    ++ handled.1.handleAllEntries handled.2 (s.data.drain k).1

omit [Canceller κ] [Producer υ] in
/-- While messages are handled, no event is told: `midTickEntries` are about
messages. -/
theorem events_midTickEntries (s : Session κ υ) (c : Capture κ) (n k : Nat) :
    (s.midTickEntries c n k).filterMap Entry.event? = [] := by
  simp [midTickEntries]

/-- The middle of a capture tick can be reached in steps (`Steps`), so that all
invariants hold there. -/
theorem steps_midTick (hc : s.capture? = some c) (n k : Nat) :
    Steps allowed s (s.midTickEntries c n k) (s.midTick c n k) := by
  have hheard : Steps allowed s _ _ := (Step.checking s (s.drift.hearCapture
    (c.replies s.link ((s.captureControl.drain n).1 ++ (s.data.drain k).1)))).steps
  have hcontrol := hheard.trans (steps_handleControl hc (s.captureControl.takes_drain n))
  have hdata := hcontrol.trans (steps_handleData rfl (s.data.takes_drain k))
  unfold midTick
  rw [Capture.handleAll_append]
  exact hdata

omit [Canceller κ] [Producer υ] in
/-- The messages that were handled and those that are left are all that waited,
in the order in which a tick handles them. By `hfirst` no message of the
playback side is handled before one of the control side. -/
theorem drain_midTick (hwired : s.Wired limit) (c : Capture κ) {n k : Nat}
    (hfirst : k = 0 ∨ s.captureControl.items.length ≤ n) :
    ((s.captureControl.drain n).1 ++ (s.data.drain k).1)
        ++ (((s.midTick c n k).captureControl.drain (s.midTick c n k).drainLimit).1
          ++ ((s.midTick c n k).data.drain (s.midTick c n k).drainLimit).1)
      = (s.captureControl.drain s.drainLimit).1 ++ (s.data.drain s.drainLimit).1 := by
  have hcontrol := congrArg Prod.fst (hwired.control.drain_drain n)
  have hdata := congrArg Prod.fst (hwired.data.drain_drain k)
  show _ ++ (((s.captureControl.drain n).2.drain s.drainLimit).1
      ++ ((s.data.drain k).2.drain s.drainLimit).1) = _
  rw [hwired.drainLimit_eq, hcontrol, hdata, hwired.control.drain.1, hwired.data.drain.1]
  show (s.captureControl.items.take n ++ s.data.items.take k)
    ++ (s.captureControl.items.drop n ++ s.data.items.drop k) = _
  -- Control messages come before data.
  rcases hfirst with rfl | hall
  · rw [List.take_zero, List.append_nil, ← List.append_assoc, List.take_append_drop,
      List.drop_zero]
  · rw [List.take_of_length_le hall, List.drop_of_length_le hall, List.nil_append,
      List.append_assoc, List.take_append_drop]

omit [Canceller κ] [Producer υ] in
/-- The messages that are left are handled as they would have been: `attend`
from the middle on comes to `attend` of all. -/
theorem attend_midTick (hwired : s.Wired limit) {n k : Nat}
    (hfirst : k = 0 ∨ s.captureControl.items.length ≤ n) {handled : Capture κ}
    (hhandled : (s.midTick c n k).capture? = some handled) :
    (s.midTick c n k).attend handled = s.attend c := by
  cases hhandled
  rw [attend_eq, attend_eq, ← drain_midTick hwired c hfirst]
  exact (c.handleAll_append s.link _ _).symm

omit [Canceller κ] [Producer υ] in
/-- Their answers are heard behind those that were given before, which comes to
`hearCapture` of all of them. -/
theorem hearCapture_midTick (hwired : s.Wired limit) {n k : Nat}
    (hfirst : k = 0 ∨ s.captureControl.items.length ≤ n) {handled : Capture κ}
    (hhandled : (s.midTick c n k).capture? = some handled) :
    (s.midTick c n k).drift.hearCapture ((s.midTick c n k).drainReplies handled)
      = s.drift.hearCapture (s.drainReplies c) := by
  cases hhandled
  rw [drainReplies, drainReplies, ← drain_midTick hwired c hfirst]
  exact ((congrArg s.drift.hearCapture (c.replies_append s.link _ _)).trans
    (s.drift.hearCapture_append _ _)).symm

omit [Producer υ] in
/-- From the middle of a capture tick (`midTick`), the rest of the tick is a
tick. -/
theorem push_midTick (hwired : s.Wired limit) (hc : s.capture? = some c)
    (hlinked : s.link.linked = true) {n k : Nat}
    (hfirst : k = 0 ∨ s.captureControl.items.length ≤ n) (block : Block) :
    (s.midTick c n k).push block = s.push block := by
  obtain ⟨handled, hhandled⟩ : ∃ handled, (s.midTick c n k).capture? = some handled := ⟨_, rfl⟩
  have hstill : (s.midTick c n k).link.linked = true :=
    (c.keeps_handleAll s.link _).linked_eq.trans hlinked
  have hcontrol := congrArg Prod.snd (hwired.control.drain_drain n)
  have hdata := congrArg Prod.snd (hwired.data.drain_drain k)
  rw [← hwired.drainLimit_eq] at hcontrol hdata
  have hattend := attend_midTick hwired hfirst hhandled
  have hdrain : (s.midTick c n k).drainCapture handled
      = ((s.drainCapture c).1, { (s.drainCapture c).2 with capture? := some handled }) := by
    show ((((s.midTick c n k).attend handled).1.resume ((s.midTick c n k).attend handled).2).1,
      { s.midTick c n k with
        captureControl := ((s.captureControl.drain n).2.drain s.drainLimit).2
        data := ((s.data.drain k).2.drain s.drainLimit).2
        drift := (s.midTick c n k).drift.hearCapture ((s.midTick c n k).drainReplies handled)
        link := (((s.midTick c n k).attend handled).1.resume
          ((s.midTick c n k).attend handled).2).2 }) = _
    rw [hattend, hcontrol, hdata, hearCapture_midTick hwired hfirst hhandled]
    cases hhandled
    rfl
  simp only [push, hhandled, hc, hstill, hlinked, hdrain]
  rfl

/-! ### When the streams are realigned -/

/-- While these operations happen to a session, the streams are realigned. Right
behind that, the session is `m`, to which the operations `later` happen. A
correction by message falls into the middle of a capture tick, so `m` may be a
`midTick`. -/
inductive Realigns (s : Session κ υ) : List Operation → Session κ υ → List Operation → Prop where
  /-- At once. -/
  | atOnce (usec : Int) (rest : List Operation) :
      s.Realigns (.correct usec :: rest) (s.correct usec) rest
  /-- By a message that is handled in a capture tick. The tick goes on. -/
  | inTick {c : Capture κ} (block : Block) (rest : List Operation) (n k : Nat)
      (hc : s.capture? = some c) (hlinked : s.link.linked = true)
      (hfirst : k = 0 ∨ s.captureControl.items.length ≤ n)
      (hlast : c.RealignsLast s.link ((s.captureControl.drain n).1 ++ (s.data.drain k).1)) :
      s.Realigns (.push block :: rest) (s.midTick c n k) (.push block :: rest)

/-- What happens behind that is the rest of what happens, and nothing was worked
off before it. So whatever a run worked off from the realignment on is what it
worked off at all. `Session.Wired` is needed for the messages of a tick to be
all that wait. -/
theorem Realigns.run_eq {operations later : List Operation} {m : Session κ υ}
    (h : s.Realigns operations m later) (hwired : s.Wired limit) :
    ∃ entries, Steps FitsWord s entries m
      ∧ (∀ event ∈ entries.filterMap Entry.event?, event.isWorked = false)
      ∧ s.run operations
        = (entries.filterMap Entry.event? ++ (m.run later).1, (m.run later).2) := by
  cases h with
  | atOnce usec rest =>
      have hsteps : Steps FitsWord s [] (s.correct usec) :=
        s.steps_perform (show FitsWord (.correct usec) from nofun)
      exact ⟨_, hsteps, fun event hevent => absurd hevent List.not_mem_nil, rfl⟩
  | @inTick c block rest n k hc hlinked hfirst hlast =>
      have hnothing := events_midTickEntries s c n k
      refine ⟨_, steps_midTick hc n k, ?_, ?_⟩
      · rw [hnothing]
        exact fun event hevent => absurd hevent List.not_mem_nil
      · rw [hnothing]
        simp only [run, perform, push_midTick hwired hc hlinked hfirst, List.nil_append]

/-! ### What is removed -/

omit [Canceller κ] [Producer υ] in
/-- What happens onward takes no playback back, so that it fits a word
(`FitsWord`). -/
theorem fitsWord_of_isOnward {operation : Operation} (h : operation.isOnward = true) :
    FitsWord operation := by
  intro n hn
  rw [hn] at h
  cases h

/-- From any point of a run on, the skip that is pending there takes the bytes
in front: `Removes` says so of captured audio. -/
theorem IsNew.removes_run {new : Session κ υ} (hnew : new.IsNew) {before : List Entry}
    (hbefore : Steps FitsWord new before s) (hc : s.capture? = some c)
    {operations : List Operation} (honward : ∀ operation ∈ operations, operation.isOnward = true)
    (hkept : ∀ entry ∈ s.journalOf operations, entry.replacesSkip = false)
    (hbytes : renderedBytesOf ((before ++ s.journalOf operations).filterMap Entry.event?)
      ≤ Word.maxSigned) :
    ∃ left, c.pairing.skip.Removes (s.run operations).1 left := by
  have hsteps : Steps (fun operation => operation.isOnward = true) s (s.journalOf operations)
      (s.run operations).2 := s.steps_run honward
  have hremoving : (s.run operations).2.Removing c.pairing.skip
      ((s.journalOf operations).filterMap Entry.event?) := by
    refine hnew.steps_induct hbefore (fun _ => fitsWord_of_isOnward) hsteps hbytes
      (motive := fun t entries => t.Removing c.pairing.skip (entries.filterMap Entry.event?))
      ?_ ?_
    · refine ⟨c.pairing.skip, Skip.removes_of_idle _ nofun, fun c' hc' => ?_⟩
      cases hc.symm.trans hc'
      rfl
    · intro t u first next hinOrder hremoving hstep hmem
      rw [List.filterMap_append]
      exact hremoving.step hinOrder nofun hstep fun entry hentry => hkept entry (hmem entry hentry)
  obtain ⟨left, hremoves, -⟩ := hremoving
  rw [events_journalOf] at hremoves
  exact ⟨left, hremoves⟩

/-- From any point of a run on at which the device works, playback leaves the
tape in the order in which it was put there and sent, as long as nothing
disturbs it (`Entry.disturbs`). -/
theorem IsNew.used_prefix_run {new : Session κ υ} (hnew : new.IsNew) {before : List Entry}
    (hbefore : Steps FitsWord new before s) (hc : s.capture? = some c)
    (hawake : c.suspended = false) {operations : List Operation}
    (honward : ∀ operation ∈ operations, operation.isOnward = true)
    (hcalm : ∀ entry ∈ s.journalOf operations, entry.disturbs = false)
    (hbytes : renderedBytesOf ((before ++ s.journalOf operations).filterMap Entry.event?)
      ≤ Word.maxSigned) :
    usedOf (s.run operations).1
      <+: c.pairing.played.unread ++ s.waitingAudio ++ sentOf (s.journalOf operations) := by
  have hsteps : Steps (fun operation => operation.isOnward = true) s (s.journalOf operations)
      (s.run operations).2 := s.steps_run honward
  have hsupplied : (s.run operations).2.Supplied (c.pairing.played.unread ++ s.waitingAudio)
      (s.journalOf operations) := by
    refine hnew.steps_induct hbefore (fun _ => fitsWord_of_isOnward) hsteps hbytes
      (motive := fun t entries =>
        t.Supplied (c.pairing.played.unread ++ s.waitingAudio) entries) ?_ ?_
    · refine ⟨List.nil_prefix, fun c' hc' => ?_⟩
      cases hc.symm.trans hc'
      exact ⟨hawake, (List.append_nil _).symm⟩
    · intro t u first next hinOrder hsupplied hstep hmem
      exact hsupplied.step (hstep.supplies hinOrder nofun nofun
        fun entry hentry => hcalm entry (hmem entry hentry))
  have hused := hsupplied.used_prefix
  rw [events_journalOf] at hused
  exact hused

/-- In every run: once the streams have been realigned, be it at once or by a
message (`Realigns`), and until they are realigned again, audio comes again or
is refused, or the device is suspended, exactly those bytes are dropped that are
to be dropped.

Of the captured audio that waits and that is taken in later, the first bytes are
dropped, and all that are worked off behind them are handed on, in order. Of the
playback on the tape, on its way and sent later, the first bytes never get to
the canceller, and all that leave the tape behind them do; what is sent to a
device that is still suspended does not get onto the tape. As long as playback
is to be dropped, captured blocks are passed on as they are. -/
theorem correction_exact (hnew : s.IsNew) {before operations later : List Operation}
    {m : Session κ υ} (hword : ∀ n, .rewindPlayback n ∈ before → n ≤ Word.maxSigned)
    (hbytes : renderedBytesOf (s.run (before ++ operations)).1 ≤ Word.maxSigned)
    (hrealigns : (s.run before).2.Realigns operations m later) (hc : m.capture? = some c)
    (honward : ∀ operation ∈ later, operation.isOnward = true)
    (hcalm : ∀ entry ∈ m.journalOf later, entry.disturbs = false) :
    let skip := c.pairing.skip
    let events := (m.run later).1
    (∃ first, (s.run before).2.run operations = (first ++ events, (m.run later).2)
        ∧ ∀ event ∈ first, event.isWorked = false)
      ∧ events.flatMap Event.lots = labelled skip.source .skipped .forwarded (takenOf events)
      ∧ takenOf events <+: c.pairing.captured.unread ++ m.acceptedOf later
      ∧ events.flatMap Event.uses = labelled skip.sink .dropped .heard (usedOf events)
      ∧ (c.suspended = false → usedOf events
          <+: c.pairing.played.unread ++ m.waitingAudio ++ sentOf (m.journalOf later))
      ∧ (skip.source = 0 → ∀ first event last, events = first ++ event :: last →
          event.isWorked = true → (usedOf first).length < skip.sink → event.isPass = true) := by
  intro skip events
  have hbefore : Steps FitsWord s (s.journalOf before) (s.run before).2 :=
    s.steps_run fun operation hmem n hn => hword n (hn ▸ hmem)
  obtain ⟨entries, hsteps, hidle, hrun⟩ :=
    hrealigns.run_eq (hnew.wired.steps hbefore)
  have hsofar : Steps FitsWord s _ m := hbefore.trans hsteps
  rw [run_append, hrun, ← List.append_assoc, ← s.events_journalOf before,
    ← m.events_journalOf later, ← List.filterMap_append, ← List.filterMap_append] at hbytes
  -- From `m` on, the skip is only used up, as nothing of `later` disturbs it.
  obtain ⟨left, hremoves⟩ := hnew.removes_run hsofar hc honward
    (fun entry hentry => (Entry.of_not_disturbs (hcalm entry hentry)).1) hbytes
  have htaken : takenOf events <+: c.pairing.captured.unread ++ m.acceptedOf later := by
    obtain ⟨-, hpos, hrecords⟩ := hnew.recording
    have hwaits : m.waiting = c.pairing.captured.unread := by rw [waiting, hc]
    rw [← hwaits]
    have hback : ∀ n, .rewindCapture n ∉ later := fun n hn => by cases honward _ hn
    exact taken_prefix hpos (hrecords.steps (Capture.stable_records _ _ _) hsofar) hback
      fun entry hentry => (Entry.of_not_disturbs (hcalm entry hentry)).2
  exact ⟨⟨_, hrun, hidle⟩, hremoves.lots_eq, htaken, hremoves.uses_eq,
    fun hawake => hnew.used_prefix_run hsofar hc hawake honward hcalm hbytes, hremoves.passes⟩

/-- The hypotheses of `correction_exact` are met: a correction by a message
drops twenty-two bytes of playback, more than there are when it is handled. They
go in portions of eight, eight and six, while blocks of captured audio are
passed on as they are. -/
theorem correction_exact_trial :
    let before : List Operation := [.render 8, .postCorrection (-125)]
    let operations : List Operation :=
      [.push (.ofBytes ⟨#[100, 101, 102, 103, 104, 105]⟩), .render 8,
        .push (.ofBytes ⟨#[106, 107, 108, 109, 110, 111]⟩), .render 8,
        .push (.ofBytes ⟨#[112, 113, 114, 115]⟩), .render 4,
        .push (.ofBytes ⟨#[116, 117, 118, 119]⟩)]
    let events := ((trial.run before).2.run operations).1
    takenOf events = (List.range 20).map (UInt8.ofNat <| 100 + ·)
      ∧ usedOf events
        = [1, 2, 3, 4, 5, 6, 7, 8] ++ [1, 2, 3, 4, 5, 6, 7, 8] ++ [1, 2, 3, 4, 5, 6] ++ [7, 8, 1, 2]
      ∧ ∃ m c, (trial.run before).2.Realigns operations m operations ∧ m.capture? = some c
        ∧ (c.pairing.skip.source, c.pairing.skip.sink) = (0, 22)
        ∧ events = (m.run operations).1
        ∧ events.flatMap Event.lots = labelled 0 .skipped .forwarded (takenOf events)
        ∧ events.flatMap Event.uses = labelled 22 .dropped .heard (usedOf events)
        ∧ usedOf events
          <+: c.pairing.played.unread ++ m.waitingAudio ++ sentOf (m.journalOf operations)
        ∧ ∀ first event last, events = first ++ event :: last → event.isWorked = true →
            (usedOf first).length < 22 → event.isPass = true := by
  intro before operations events
  obtain ⟨found, hfound⟩ : ∃ found, (trial.run before).2.capture? = some found :=
    Option.isSome_iff_exists.mp (by decide +kernel)
  obtain ⟨m, hm⟩ : ∃ m, m = (trial.run before).2.midTick found 1 0 := ⟨_, rfl⟩
  have hmiddle : ((trial.run before).2.capture?.map fun found =>
      (((trial.run before).2.midTick found 1 0).capture?.map fun c => (c.suspended, c.pairing.skip),
        (((trial.run before).2.midTick found 1 0).journalOf operations).all (!·.disturbs)))
      = some (some (false, ⟨0, 22⟩), true) := by decide +kernel
  rw [hfound] at hmiddle
  obtain ⟨hcapture, hcalm⟩ := Prod.mk.inj (Option.some.inj hmiddle)
  rw [← hm] at hcapture hcalm
  obtain ⟨c, hc, hstate⟩ := Option.map_eq_some_iff.mp hcapture
  obtain ⟨hawake, hskip⟩ := Prod.mk.inj hstate
  have hrealigns : (trial.run before).2.Realigns operations m operations := by
    rw [hm]
    exact .inTick _ _ 1 0 hfound (by decide +kernel) (Or.inl rfl)
      ⟨[], .correct (-125), by decide +kernel, _, List.mem_cons_self, rfl⟩
  have hsame : m.run operations = (trial.run before).2.run operations := by
    have hwired : (trial.run before).2.Wired trial.data.capacity :=
      isNew_trial.wired.steps (trial.steps_any before)
    rw [hm]
    simp only [operations, run, perform,
      push_midTick hwired hfound (by decide +kernel) (Or.inl rfl)]
  obtain ⟨-, hlots, -, huses, hused, hpasses⟩ := correction_exact isNew_trial
    (fun n hmem => by simp [before] at hmem) (by decide +kernel) hrealigns hc (by decide)
    fun entry hentry => by simpa using List.all_eq_true.mp hcalm entry hentry
  rw [hskip, hsame] at hlots huses hpasses
  rw [hsame] at hused
  exact ⟨by decide +kernel, by decide +kernel, m, c, hrealigns, hc, by rw [hskip],
    congrArg Prod.fst hsame.symm, hlots, huses, hused hawake, hpasses rfl⟩

end Session

end EchoAlign
