import EchoAlign.Proofs.Session.Acts
import EchoAlign.Proofs.Session.Wiring

/-!
# `EchoAlign.Proofs.Session.Following`: the capture side follows its device

The state of the capture device is kept twice: the link knows what was last
reported, and the capture side knows what it was told. A report that changes
the first is posted as a message to the second, once.

* `suspended_follows`: behind every capture tick the two agree, if the mailbox
  took the message of the latest change.
* `report_is_lost`: a change whose message is lost is not told again, and the
  two go on to differ.

`InStep` is the invariant: the messages that wait take the capture side to the
state that was last reported. No step but a change touches it, and a change
whose message is taken brings it about, whatever was so before.
-/

set_option autoImplicit false

namespace EchoAlign

/-- Whether the device runs, as far as one knows who gets to know a message.
Only a message `device` says anything about it. -/
def CaptureMessage.tells (known : Bool) : CaptureMessage → Bool
  | device .running => true
  | device .suspended => false
  | _ => known

/-- A question or a correction (`isControl`) tells nothing of the device. -/
theorem CaptureMessage.tells_of_isControl {message : CaptureMessage}
    (h : message.isControl = true) (known : Bool) : message.tells known = known := by
  cases message <;> first | rfl | cases h

/-- What the playback side posts (`isData`) tells nothing of the capture device. -/
theorem CaptureMessage.tells_of_isData {message : CaptureMessage} (h : message.isData = true)
    (known : Bool) : message.tells known = known := by
  cases message <;> first | rfl | cases h

namespace Capture

variable {κ : Type} {c : Capture κ}

/-- Whether the side is at work, or goes back to work at the end of its tick
(`Capture.resume`). -/
def isRunning (c : Capture κ) : Bool := !c.suspended || c.resuming

/-- A message that is handled changes whether the side runs in the way in which
it `tells` of the device. -/
theorem isRunning_handle (link : Link) (message : CaptureMessage) :
    (c.handle link message).1.isRunning = message.tells c.isRunning := by
  cases message with
  | playbackTiming epoch timing =>
      show (c.resync link epoch timing).1.isRunning = c.isRunning
      unfold resync
      split
      · rfl
      · rfl
  | device state =>
      cases state with
      | suspended => rfl
      | running =>
          show (c.follow .running).isRunning = true
          simp only [follow]
          split
          · exact Bool.or_true _
          · next hawake => simp [isRunning, Bool.eq_false_iff.mpr hawake]
  | _ => rfl

/-- Audio that is accepted has nothing to do with whether the side runs
(`isRunning`). -/
theorem isRunning_accept (block : Block) : (c.accept block).isRunning = c.isRunning := by
  unfold Capture.accept
  split
  · rfl
  · rfl

/-- At the end of a tick, when nobody is `resuming` any more, the side is
suspended or runs. -/
theorem suspended_eq_not_isRunning (h : c.resuming = false) : c.suspended = !c.isRunning := by
  rw [isRunning, h, Bool.or_false, Bool.not_not]

end Capture

namespace Session

variable {κ υ : Type} {s t : Session κ υ} {limit : Nat}

/-- The messages that wait take the capture side to the state in which its
device was last reported (`Link.captureActive`). So the two copies of that state
agree once all of them are handled. -/
def InStep (s : Session κ υ) : Prop :=
  s.CaptureIs fun c =>
    s.captureControl.items.foldl CaptureMessage.tells c.isRunning = s.link.captureActive

/-- Neither what the side knows nor what waits for it has changed, so the two
copies stay in step (`InStep`). -/
theorem InStep.congr (h : s.InStep)
    (hcapture : ∀ c', t.capture? = some c' →
      ∃ c, s.capture? = some c ∧ c'.isRunning = c.isRunning)
    (hitems : t.captureControl.items = s.captureControl.items)
    (hactive : t.link.captureActive = s.link.captureActive) : t.InStep := by
  intro c' hc'
  obtain ⟨c, hc, hsame⟩ := hcapture c' hc'
  rw [hitems, hactive, hsame]
  exact h c hc

/-- A message that tells nothing of the device (`hm`) may be posted, and may be
lost as well. -/
theorem InStep.post (h : s.InStep) {message : CaptureMessage} (hm : message.isControl = true)
    (hcapture : t.capture? = s.capture?)
    (hitems : t.captureControl.items = (s.captureControl.post message).2.items)
    (hactive : t.link.captureActive = s.link.captureActive) : t.InStep := by
  intro c hc
  rw [hitems, hactive, Mailbox.items_post]
  split
  · rw [List.foldl_append]
    exact (CaptureMessage.tells_of_isControl hm _).trans (h c (hcapture ▸ hc))
  · exact h c (hcapture ▸ hc)

variable [Canceller κ] [Producer υ] {allowed : Operation → Prop} {entries : List Entry}

/-- Only reports change what is known of the device in `Link.captureActive`. -/
theorem Step.captureActive_eq (hstep : Step allowed s entries t)
    (hreport : ∀ running, ¬ allowed (.reportDevice .input running)) :
    t.link.captureActive = s.link.captureActive := by
  cases hstep with
  | reportCapture running ha hnew => exact absurd ha (hreport running)
  | reportPlayback running ha hnew =>
      rw [postPlayback_eq]
      exact (Link.keeps_lost _ _).captureActive_eq
  | postCapture message hm =>
      rw [postCapture_eq]
      exact (s.link.keeps_lost _).captureActive_eq
  | read => exact s.link.keeps_readClock.captureActive_eq
  | @handleControl c message rest hc hrest =>
      exact (c.keeps_handle s.link message).captureActive_eq
  | @handleData c message rest hc hrest =>
      exact (c.keeps_handle s.link message).captureActive_eq
  | @handlePlayback p message rest hp hrest =>
      exact (p.keeps_handle s.link message).captureActive_eq
  | @correct c usec hc ha => exact (c.keeps_correct s.link usec).captureActive_eq
  | @play p n hp hlinked ha => exact ((s.scene p).keeps_play n).captureActive_eq
  | @sendTiming p hp => exact (s.scene p).keeps_sendTiming.captureActive_eq
  | @rewindPlayback p n hp ha => exact ((s.scene p).keeps_rewind n).captureActive_eq
  | _ => rfl

/-- Without a change of the device, the two copies of its state go on to be in
step (`InStep`). -/
theorem InStep.step (h : s.InStep) (hwired : s.Wired limit) (hstep : Step allowed s entries t)
    (hreport : ∀ running, ¬ allowed (.reportDevice .input running)) : t.InStep := by
  have hactive := hstep.captureActive_eq hreport
  -- A step leaves the side and its mailbox alone, or lets the side act on
  -- something else than what waits in that mailbox.
  have hsame : t.capture? = s.capture? → t.captureControl = s.captureControl → t.InStep :=
    fun hcapture hcontrol => h.congr (fun c hc => ⟨c, hcapture ▸ hc, rfl⟩) (hcontrol ▸ rfl) hactive
  have hacts : ∀ {c c' : Capture κ}, s.capture? = some c → t.capture? = some c' →
      c'.isRunning = c.isRunning → t.captureControl = s.captureControl → t.InStep := by
    intro c c' hc hc' hrunning hcontrol
    refine h.congr (fun c'' hc'' => ⟨c, hc, ?_⟩) (hcontrol ▸ rfl) hactive
    cases hc'.symm.trans hc''
    exact hrunning
  cases hstep with
  | reportCapture running ha hnew => exact absurd ha (hreport running)
  | reportPlayback running ha hnew =>
      rw [postPlayback_eq] at hsame ⊢
      exact hsame rfl rfl
  | postCapture message hm =>
      rw [postCapture_eq] at hactive ⊢
      exact h.post hm rfl rfl hactive
  | askCapture message hm ha => exact h.post hm rfl rfl hactive
  | repack hcontrol hdata hplayback =>
      refine h.congr (fun c hc => ⟨c, hc, rfl⟩) ?_ hactive
      exact hcontrol.items.symm
  | @handleControl c message rest hc hrest =>
      -- What the message tells is known now, and it does not wait any more.
      intro c' hc'
      cases hc'
      have hbefore := h c hc
      rw [hrest.items] at hbefore
      rw [Capture.isRunning_handle, hactive]
      exact hbefore
  | @handleData c message rest hc hrest =>
      refine hacts hc rfl ?_ rfl
      rw [Capture.isRunning_handle]
      refine CaptureMessage.tells_of_isData (hwired.dataOnly message ?_) _
      rw [hrest.items]
      exact List.mem_cons_self
  | @resume c hc hresuming ha =>
      refine hacts hc rfl ?_ rfl
      rw [Capture.isRunning, Capture.isRunning, hresuming, Bool.or_true]
      rfl
  | @accept c block hc ha => exact hacts hc rfl (Capture.isRunning_accept block) rfl
  | pair hc hpair => exact hacts hc rfl rfl rfl
  | rewindCapture n hc ha => exact hacts hc rfl rfl rfl
  | correct usec hc ha => exact hacts hc rfl rfl rfl
  | dropCapture hc ha => exact fun c hc' => nomatch hc'
  | _ => exact hsame rfl rfl

/-- So it is over any number of steps without a report of the capture device
(`hreport`), by `InStep.step` for each. -/
theorem InStep.steps (h : s.InStep) (hwired : s.Wired limit) (hsteps : Steps allowed s entries t)
    (hreport : ∀ running, ¬ allowed (.reportDevice .input running)) : t.InStep :=
  (hsteps.induct (motive := fun t _ => t.InStep ∧ t.Wired limit) ⟨h, hwired⟩
    fun _ _ _ _ hbefore hstep =>
      ⟨hbefore.1.step hbefore.2 hstep hreport, hbefore.2.step hstep⟩).1

/-! ### Changes of the device -/

/-- Whether the mailbox takes the message of the change that an operation
brings, if it is a report of another state of the capture device than the one
that is known (`captureActive`). When the control side is gone, no message is
posted, and the change counts as not taken. -/
def changeBy (s : Session κ υ) : Operation → List Bool
  | .reportDevice .input running =>
      if s.link.captureActive = running then [] else [s.controlled && s.captureControl.hasRoom]
  | _ => []

/-- Whether the mailbox took their messages, for the changes of the capture
device in a run, in order (`changeBy`). -/
def changesOf : Session κ υ → List Operation → List Bool
  | _, [] => []
  | s, operation :: rest => s.changeBy operation ++ (s.perform operation).2.changesOf rest

omit [Canceller κ] [Producer υ] in
/-- A report of the state that is known (`captureActive`) is ignored. -/
theorem reportDevice_of_known {running : Bool} (h : s.link.captureActive = running) :
    s.reportDevice .input running = s := by
  unfold reportDevice
  split
  · rfl
  · simp only [h, beq_self_eq_true, if_true]

/-- An operation that brings no change (`changeBy`) is ignored, or is not a
report of the capture device. -/
theorem unchanged_perform {operation : Operation} (hnone : s.changeBy operation = []) :
    (s.perform operation).2 = s ∨ ∀ running, operation ≠ .reportDevice .input running := by
  by_cases hreport : ∃ running, operation = .reportDevice .input running
  · obtain ⟨running, rfl⟩ := hreport
    by_cases hknown : s.link.captureActive = running
    · exact Or.inl (reportDevice_of_known hknown)
    · simp only [changeBy, hknown, if_false] at hnone
      cases hnone
  · exact Or.inr fun running hrunning => hreport ⟨running, hrunning⟩

/-- Without a change (`changeBy`), what is known of the device stays the same. -/
theorem captureActive_perform {operation : Operation} (hnone : s.changeBy operation = []) :
    (s.perform operation).2.link.captureActive = s.link.captureActive := by
  rcases unchanged_perform hnone with hsame | hother
  · rw [hsame]
  · have hsteps : Steps (· = operation) s _ _ := s.steps_perform rfl
    exact hsteps.induct (motive := fun t _ => t.link.captureActive = s.link.captureActive) rfl
      fun _ _ _ _ hbefore hstep =>
        (hstep.captureActive_eq fun running hrunning => hother running hrunning.symm).trans hbefore

/-- An operation that brings no change (`changeBy`) keeps the two copies in
step. -/
theorem InStep.perform (h : s.InStep) (hwired : s.Wired limit) {operation : Operation}
    (hnone : s.changeBy operation = []) : (s.perform operation).2.InStep := by
  rcases unchanged_perform hnone with hsame | hother
  · rw [hsame]
    exact h
  · have hsteps : Steps (· = operation) s _ _ := s.steps_perform rfl
    exact h.steps hwired hsteps fun running hrunning => hother running hrunning.symm

omit [Canceller κ] [Producer υ] in
/-- The message of a change is the last that waits, so that it does not matter
what the capture side has known before. Hence one message that is taken puts the
copies back in step. It must be a change (`hnew`), since `Session.reportDevice`
posts nothing otherwise. -/
theorem inStep_reportDevice {running : Bool} (hcontrolled : s.controlled = true)
    (hroom : s.captureControl.hasRoom = true) (hnew : s.link.captureActive ≠ running) :
    (s.reportDevice .input running).InStep := by
  -- It does not matter what the earlier messages tell, or whether some of
  -- them were lost.
  have htold : ∀ known, (s.captureControl.items ++ [CaptureMessage.device (stateOf running)]).foldl
      CaptureMessage.tells known = running := by
    intro known
    rw [List.foldl_append]
    cases running with
    | true => rfl
    | false => rfl
  have hreported : s.reportDevice .input running
      = { s with
          captureControl := (s.captureControl.post (.device (stateOf running))).2
          link := if running then { s.link with captureActive := running }.requestResync
            else { s.link with captureActive := running } } := by
    simp only [reportDevice, hcontrolled, Bool.not_true, Bool.false_eq_true, if_false,
      beq_false_of_ne hnew, postCapture_eq, hroom, if_true]
    cases running with
    | true => rfl
    | false => rfl
  have hactive : (s.reportDevice .input running).link.captureActive = running := by
    rw [hreported]
    cases running with
    | true => rfl
    | false => rfl
  intro c hc
  rw [hactive, hreported]
  show ((s.captureControl.post (.device (stateOf running))).2.items).foldl _ _ = running
  rw [Mailbox.items_post, hroom, if_pos rfl]
  exact htold c.isRunning

omit [Canceller κ] [Producer υ] in
/-- Where the message of a change is taken (`changeBy`), it is a report of
another state, and there is room for it. -/
theorem inStep_of_changeBy_eq {operation : Operation} (h : s.changeBy operation = [true]) :
    ∃ running, operation = .reportDevice .input running ∧ s.link.captureActive ≠ running
      ∧ s.controlled = true ∧ s.captureControl.hasRoom = true := by
  unfold changeBy at h
  split at h
  · next running =>
      split at h
      · cases h
      · next hnew =>
          obtain ⟨hcontrolled, hroom⟩ := Bool.and_eq_true_iff.mp (List.singleton_inj.mp h)
          exact ⟨running, rfl, hnew, hcontrolled, hroom⟩
  · cases h

omit [Canceller κ] [Producer υ] in
/-- An operation brings one change at most, so that `changeBy` has no more than
one item. -/
theorem changeBy_cases (s : Session κ υ) (operation : Operation) :
    s.changeBy operation = [] ∨ ∃ taken, s.changeBy operation = [taken] := by
  unfold changeBy
  split
  · split
    · exact Or.inl rfl
    · exact Or.inr ⟨_, rfl⟩
  · exact Or.inl rfl

/-- The two copies are in step behind a run if the latest change was taken, or
if they were in step and there was none. By induction on the operations; a
change in the middle that was lost (`changesOf` has `false` for it) is made up
for by a later one that is taken. -/
theorem inStep_run (hwired : s.Wired limit) {operations : List Operation}
    (h : (s.changesOf operations).getLast? = some true
      ∨ s.changesOf operations = [] ∧ s.InStep) : (s.run operations).2.InStep := by
  induction operations generalizing s with
  | nil =>
      rcases h with h | ⟨-, h⟩
      · cases h
      · exact h
  | cons operation rest ih =>
      have hsteps : Steps (fun _ => True) s (s.journal operation) (s.perform operation).2 :=
        s.steps_perform trivial
      refine ih (s := (s.perform operation).2) (hwired.steps hsteps) ?_
      rcases h with hlast | ⟨hnone, hin⟩
      · rw [changesOf, List.getLast?_append] at hlast
        cases hrest : (s.perform operation).2.changesOf rest with
        | nil =>
            -- The latest change is the one of this operation.
            rw [hrest] at hlast
            right
            refine ⟨rfl, ?_⟩
            rcases s.changeBy_cases operation with hchange | ⟨taken, hchange⟩
            · rw [hchange] at hlast
              cases hlast
            · rw [hchange] at hlast
              cases Option.some.inj hlast
              obtain ⟨running, rfl, hnew, hcontrolled, hroom⟩ := inStep_of_changeBy_eq hchange
              exact inStep_reportDevice hcontrolled hroom hnew
        | cons first later =>
            left
            rw [hrest, List.getLast?_cons] at hlast
            rw [List.getLast?_cons]
            exact hlast
      · obtain ⟨hfirst, hlater⟩ := List.append_eq_nil_iff.mp hnone
        exact Or.inr ⟨hlater, hin.perform hwired hfirst⟩

/-- As long as no start was reported, nothing has changed, so a run in which one
was reported has changes (`changesOf`). -/
theorem changesOf_ne_nil (hidle : s.link.captureActive = false) {operations : List Operation}
    (hstarted : .reportDevice .input true ∈ operations) : s.changesOf operations ≠ [] := by
  induction operations generalizing s with
  | nil => cases hstarted
  | cons operation rest ih =>
      intro hnone
      obtain ⟨hfirst, hlater⟩ := List.append_eq_nil_iff.mp hnone
      rcases List.mem_cons.mp hstarted with rfl | hstarted
      · simp only [changeBy, hidle, Bool.false_eq_true, if_false] at hfirst
        cases hfirst
      · exact ih ((captureActive_perform hfirst).trans hidle) hstarted hlater

/-- Behind a capture tick the side is in the state that its messages tell, which
is the one that was last reported. `Session.Wired` sees that the tick takes all
of its messages. -/
theorem InStep.push (h : s.InStep) (hwired : s.Wired limit) {c : Capture κ}
    (hc : s.capture? = some c) (hlinked : s.link.linked = true) (block : Block) :
    ∃ c', (s.push block).2.capture? = some c'
      ∧ c'.suspended = !(s.push block).2.link.captureActive := by
  have hsteps : Steps (· = .push block) s _ _ := s.steps_push block rfl
  have hin := h.steps hwired hsteps nofun
  obtain ⟨-, hcapture, -⟩ := push_attend hc hlinked block
  obtain ⟨-, hresumed⟩ := (s.attend c).1.resume_cases (s.attend c).2
  refine ⟨_, hcapture, ?_⟩
  -- Nothing waits any more, so that the side knows all that was told.
  have htold := hin _ hcapture
  rw [(hwired.idle_push hc hlinked block).control] at htold
  rw [← htold]
  refine Capture.suspended_eq_not_isRunning ?_
  show (((s.attend c).1.resume (s.attend c).2).1.accept block).resuming = false
  unfold Capture.accept
  split
  · exact hresumed
  · exact hresumed

/-- In every run in which the capture device was reported running: if the
mailbox took the message of the latest change (the last entry of `changesOf` is
not `false`), then behind every capture tick that finds the side there and
linked, the side is suspended exactly when its device was last reported
suspended. -/
theorem suspended_follows (hnew : s.IsNew) {operations : List Operation}
    (hstarted : .reportDevice .input true ∈ operations)
    (htaken : (s.changesOf operations).getLast? ≠ some false) {c : Capture κ}
    (hc : (s.run operations).2.capture? = some c)
    (hlinked : (s.run operations).2.link.linked = true) (block : Block) :
    let t := ((s.run operations).2.push block).2
    ∃ c', t.capture? = some c' ∧ c'.suspended = !t.link.captureActive := by
  have hidle : s.link.captureActive = false := by
    obtain ⟨spec, capacity, canceller, producer, link, dumps?, rfl, ⟨_, _, _, _, rfl⟩, -⟩ :=
      hnew.opened
    rfl
  -- There was a change, and so the latest was taken.
  have hlast : (s.changesOf operations).getLast? = some true := by
    cases hlast : (s.changesOf operations).getLast? with
    | none => exact absurd (List.getLast?_eq_none_iff.mp hlast) (changesOf_ne_nil hidle hstarted)
    | some taken =>
        cases taken with
        | true => rfl
        | false => exact absurd hlast htaken
  exact (inStep_run hnew.wired (Or.inl hlast)).push (hnew.wired.steps (s.steps_any operations)) hc
    hlinked block

/-- The hypotheses of `suspended_follows` are met where the device stops and
starts and stops again between two ticks, around a correction. -/
theorem suspended_follows_trial :
    let operations : List Operation :=
      [.reportDevice .input true, .push (.silence 0), .reportDevice .input false,
        .postCorrection 0, .reportDevice .input true, .reportDevice .input false]
    let t := ((trial.run operations).2.push (.silence 0)).2
    trial.changesOf operations = [true, true, true, true]
      ∧ t.link.captureActive = false
      ∧ ∃ c', t.capture? = some c' ∧ c'.suspended = !t.link.captureActive := by
  intro operations t
  have htaken : trial.changesOf operations = [true, true, true, true] := by decide +kernel
  obtain ⟨c, hc⟩ := Option.isSome_iff_exists.mp
    (show (trial.run operations).2.capture?.isSome = true by decide +kernel)
  refine ⟨htaken, by decide +kernel, ?_⟩
  exact suspended_follows isNew_trial List.mem_cons_self (by rw [htaken]; decide) hc
    (by decide +kernel) (.silence 0)

/-- A correction that waits takes the room of the message. The capture side goes
on as if its device ran, and the last entry of `changesOf` is `false`. -/
theorem report_is_lost :
    let operations : List Operation :=
      [.reportDevice .input true, .push (.silence 0), .postCorrection 0,
        .reportDevice .input false]
    let t := ((narrow.run operations).2.push (.silence 0)).2
    narrow.IsNew ∧ (narrow.run operations).2.link.linked = true
      ∧ narrow.changesOf operations = [true, false]
      ∧ t.link.captureActive = false ∧ t.capture?.map (·.suspended) = some false := by
  intro operations t
  exact ⟨isNew_narrow, by decide +kernel, by decide +kernel, by decide +kernel, by decide +kernel⟩

end Session

end EchoAlign
