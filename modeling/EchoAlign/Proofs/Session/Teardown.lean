import EchoAlign.Proofs.Session.Acts
import EchoAlign.Proofs.Session.Start
import EchoAlign.Proofs.Session.Visits

/-!
# `EchoAlign.Proofs.Session.Teardown`: the end of a session

A session ends with `shutdown`, or when its control side goes away. The two
sides that devices drive go away on their own, before or after that, and
their devices may go on to call. Messages that were accepted before may
still wait in the mailboxes.

* `Ended.perform_callback`: once a session has ended, a call of a device or
  of the consumer leaves all of it as it is.
* `Step.cancellerCalls_cases`: the canceller is finished when the capture
  side goes away, and is asked for nothing without it.
* `finished?_run`: what is left behind (`Session.finished?`) is the canceller
  of that moment, finished.
* `teardown_final`: all of it, for every run and every order of the teardown.

Producers and cancellers are arbitrary here, those that count how often
they are asked among them. A session that is left as it is has asked
neither.
-/

set_option autoImplicit false

namespace EchoAlign

namespace Operation

/-- Whether the session ends with it: `shutdown` or `dropControl`. -/
def isEnd : Operation → Bool
  | shutdown => true
  | dropControl => true
  | _ => false

/-- Whether a device calls, or the consumer, by one of the four operations on
audio: `push`, `render` and the two rewinds. -/
def isCallback : Operation → Bool
  | push _ => true
  | render _ => true
  | rewindPlayback _ => true
  | rewindCapture _ => true
  | _ => false

/-- Whether the capture side goes away, by `dropCapture`. -/
def isDropCapture : Operation → Bool
  | dropCapture => true
  | _ => false

end Operation

/-- What a session asks of its canceller: to `run` on two blocks, or to let go
of its state (`finish`). -/
inductive CancellerCall where
  /-- To take the playback out of captured audio. -/
  | run (captured played : Block)
  /-- To let go of its state. -/
  | finish

/-- What an event asks of the canceller: `cancelled` is a run, and `released`
the end. -/
def Event.cancellerCall? : Event → Option CancellerCall
  | cancelled captured played _ => some (.run captured played)
  | released => some .finish
  | _ => none

/-- What events ask of the canceller, in order, by `Event.cancellerCall?`. -/
def cancellerCalls (events : List Event) : List CancellerCall :=
  events.filterMap Event.cancellerCall?

/-- Runs of the canceller on these `pairs` of blocks, in order. -/
def runCalls (pairs : List (Block × Block)) : List CancellerCall :=
  pairs.map fun pair => .run pair.1 pair.2

/-- What is asked in two parts is what is asked in the first and then in the
second, as `cancellerCalls` picks events out. -/
theorem cancellerCalls_append (first rest : List Event) :
    cancellerCalls (first ++ rest) = cancellerCalls first ++ cancellerCalls rest :=
  List.filterMap_append

/-- Runs on pairs in two parts are those on the first and then on the second, as
`runCalls` goes pair by pair. -/
theorem runCalls_append (first rest : List (Block × Block)) :
    runCalls (first ++ rest) = runCalls first ++ runCalls rest :=
  List.map_append

/-- An answer to the control side (`isAnswer`) asks nothing of the canceller. -/
theorem cancellerCalls_of_isAnswer {events : List Event}
    (h : ∀ event ∈ events, event.isAnswer = true) : cancellerCalls events = [] := by
  refine List.filterMap_eq_nil_iff.mpr fun event hevent => ?_
  have hanswer := h event hevent
  cases event <;> first | rfl | cases hanswer

namespace Session

variable {κ υ : Type} [Canceller κ] [Producer υ] {allowed : Operation → Prop}
  {s t : Session κ υ} {entries : List Entry}

/-! ### A session that has ended -/

/-- The session has ended: its sides are not `linked` any more. -/
def Ended (s : Session κ υ) : Prop := s.link.linked = false

/-- While the session runs (`linked`), there is a control side to end it
(`controlled`). -/
def Governed (s : Session κ υ) : Prop := s.link.linked = true → s.controlled = true

/-- Only the end of a session ends it (`hshutdown`, `hdrop`), and the control
side goes away only then. -/
theorem Step.linked_eq (hstep : Step allowed s entries t) (hshutdown : ¬ allowed .shutdown)
    (hdrop : ¬ allowed .dropControl) :
    t.link.linked = s.link.linked ∧ t.controlled = s.controlled := by
  cases hstep with
  | unlink ha => exact absurd ha (not_or.mpr ⟨hshutdown, hdrop⟩)
  | leave ha => exact absurd ha hdrop
  | read => exact ⟨s.link.keeps_readClock.linked_eq, rfl⟩
  | reportCapture running ha hnew =>
      rw [postCapture_eq]
      exact ⟨(Link.keeps_lost _ _).linked_eq, rfl⟩
  | reportPlayback running ha hnew =>
      rw [postPlayback_eq]
      exact ⟨(Link.keeps_lost _ _).linked_eq, rfl⟩
  | postCapture message hm =>
      rw [postCapture_eq]
      exact ⟨(Link.keeps_lost _ _).linked_eq, rfl⟩
  | @handleControl c message rest hc hrest =>
      exact ⟨(c.keeps_handle s.link message).linked_eq, rfl⟩
  | @handleData c message rest hc hrest =>
      exact ⟨(c.keeps_handle s.link message).linked_eq, rfl⟩
  | @handlePlayback p message rest hp hrest =>
      exact ⟨(p.keeps_handle s.link message).linked_eq, rfl⟩
  | @correct c usec hc ha => exact ⟨(c.keeps_correct s.link usec).linked_eq, rfl⟩
  | @play p n hp hlinked ha => exact ⟨((s.scene p).keeps_play n).linked_eq, rfl⟩
  | @sendTiming p hp => exact ⟨(s.scene p).keeps_sendTiming.linked_eq, rfl⟩
  | @rewindPlayback p n hp ha => exact ⟨((s.scene p).keeps_rewind n).linked_eq, rfl⟩
  | _ => exact ⟨rfl, rfl⟩

/-- What is no end of the session (`isEnd`) ends nothing. -/
theorem linked_perform {operation : Operation} (h : operation.isEnd = false) :
    (s.perform operation).2.link.linked = s.link.linked
      ∧ (s.perform operation).2.controlled = s.controlled := by
  have hsteps : Steps (· = operation) s _ _ := s.steps_perform rfl
  refine hsteps.induct (motive := fun t _ => t.link.linked = s.link.linked
    ∧ t.controlled = s.controlled) ⟨rfl, rfl⟩ fun t u _ _ hbefore hstep => ?_
  obtain ⟨hlinked, hcontrolled⟩ := hstep.linked_eq (fun heq => by rw [← heq] at h; cases h)
    (fun heq => by rw [← heq] at h; cases h)
  exact ⟨hlinked.trans hbefore.1, hcontrolled.trans hbefore.2⟩

/-- An end of the session ends it, if there is a control side to do so
(`Governed`). -/
theorem ended_perform {stop : Operation} (hstop : stop.isEnd = true) (h : s.Governed) :
    (s.perform stop).2.Ended := by
  have hshutdown : s.shutdown.link.linked = false := by
    unfold shutdown
    by_cases hcontrolled : s.controlled = true
    · rw [if_pos hcontrolled]
    · -- Nobody is left to end the session, so it has ended.
      rw [if_neg hcontrolled]
      exact Bool.not_eq_true _ ▸ fun hlinked => hcontrolled (h hlinked)
  cases stop with
  | shutdown => exact hshutdown
  | dropControl => exact hshutdown
  | _ => cases hstop

/-- Every operation leaves a session that runs with a control side (`Governed`). -/
theorem Governed.perform (h : s.Governed) (operation : Operation) :
    (s.perform operation).2.Governed := by
  cases hend : operation.isEnd with
  | false =>
      obtain ⟨hlinked, hcontrolled⟩ := linked_perform (s := s) hend
      intro hrunning
      rw [hcontrolled]
      exact h (hlinked ▸ hrunning)
  | true =>
      intro hrunning
      exact nomatch (ended_perform hend h).symm.trans hrunning

/-- Every run leaves a session that runs with a control side (`Governed`), by
induction on the operations. -/
theorem Governed.run (h : s.Governed) (operations : List Operation) :
    (s.run operations).2.Governed := by
  induction operations generalizing s with
  | nil => exact h
  | cons operation rest ih => exact ih (h.perform operation)

omit [Producer υ] in
/-- A new session has a control side, and so it is `Governed`. -/
theorem IsNew.governed (h : s.IsNew) : s.Governed := by
  obtain ⟨_, _, _, _, _, _, rfl, -⟩ := h.opened
  exact fun _ => rfl

/-- A session that has `Ended` does not come back, whatever the operation. -/
theorem Ended.perform (h : s.Ended) (operation : Operation) : (s.perform operation).2.Ended := by
  cases hend : operation.isEnd with
  | false => exact (linked_perform hend).1.trans h
  | true => exact ended_perform hend fun hlinked => nomatch h.symm.trans hlinked

/-- A session that has `Ended` does not come back, whatever the operations. -/
theorem Ended.run (h : s.Ended) (operations : List Operation) : (s.run operations).2.Ended := by
  induction operations generalizing s with
  | nil => exact h
  | cons operation rest ih => exact ih (h.perform operation)

/-- Once a session has `Ended`, a callback leaves all of it as it is. The
playback device gets silence, and nobody gets anything else. -/
theorem Ended.perform_callback (h : s.Ended) {callback : Operation}
    (hcallback : callback.isCallback = true) :
    (s.perform callback).2 = s
      ∧ ∀ event ∈ (s.perform callback).1,
          ∃ n, callback = .render n ∧ event = .rendered (Block.silence n) := by
  have hlinked : (!s.link.linked) = true := by rw [h, Bool.not_false]
  have hnothing : ∀ event ∈ ([] : List Event),
      ∃ n, callback = .render n ∧ event = .rendered (Block.silence n) :=
    fun event hevent => absurd hevent List.not_mem_nil
  -- Each callback stops at the link, whether its side is there or not.
  cases callback with
  | push block =>
      simp only [Session.perform, Session.push, hlinked, if_true]
      cases s.capture? with
      | none => exact ⟨rfl, hnothing⟩
      | some c => exact ⟨rfl, hnothing⟩
  | rewindCapture n =>
      simp only [Session.perform, Session.rewindCapture, hlinked, if_true]
      cases s.capture? with
      | none => exact ⟨rfl, hnothing⟩
      | some c => exact ⟨rfl, hnothing⟩
  | render n =>
      simp only [Session.perform, Session.render, hlinked, if_true]
      cases s.playback? with
      | none => exact ⟨rfl, hnothing⟩
      | some p => exact ⟨rfl, fun event hevent => ⟨n, rfl, List.mem_singleton.mp hevent⟩⟩
  | rewindPlayback n =>
      simp only [Session.perform, Session.rewindPlayback, hlinked, Bool.true_or, if_true]
      cases s.playback? with
      | none => exact ⟨rfl, hnothing⟩
      | some p => exact ⟨rfl, hnothing⟩
  | _ => cases hcallback

/-! ### What is asked of the canceller -/

/-- The consumer is let go (`Event.released`) only when the capture side goes
away. -/
theorem Step.of_released (hstep : Step allowed s entries t)
    (hreleased : .event .released ∈ entries) :
    allowed .dropCapture ∧ s.capture?.isSome = true := by
  cases hstep with
  | dropCapture hc ha => exact ⟨ha, Option.isSome_of_eq_some hc⟩
  | read => cases mem_readEntries hreleased
  | answer event he =>
      cases List.mem_singleton.mp hreleased
      cases he
  | handleControl message hc hrest =>
      rcases Capture.mem_handleEntries hreleased with h | h | ⟨_, _, h⟩ | ⟨_, _, _, h⟩ <;> cases h
  | handleData message hc hrest =>
      rcases Capture.mem_handleEntries hreleased with h | h | ⟨_, _, h⟩ | ⟨_, _, _, h⟩ <;> cases h
  | handlePlayback message hp hrest => cases Playback.mem_handleEntries hreleased
  | accept block hc ha => cases Capture.mem_appendEntries hreleased
  | pair hc hpair =>
      cases List.mem_singleton.mp hreleased
      obtain ⟨-, ⟨-, heq⟩ | ⟨-, -, heq⟩ | ⟨-, -, heq⟩⟩ := Pairing.step?_cases hpair <;> cases heq
  | play n hp hlinked ha =>
      rcases PlaybackScene.mem_playEntries hreleased with h | ⟨_, h | h | h⟩ <;> cases h
  | sendTiming hp =>
      rcases PlaybackScene.mem_sendTimingEntries hreleased with h | ⟨_, _, h | h | h⟩ <;> cases h
  | rewindPlayback n hp ha =>
      rcases PlaybackScene.mem_postEntries hreleased with h | h <;> cases h
  | resume hc hresuming ha => cases List.mem_singleton.mp hreleased
  | rewindCapture n hc ha => cases List.mem_singleton.mp hreleased
  | idle n hp hlinked ha => cases List.mem_singleton.mp hreleased
  | request => cases List.mem_singleton.mp hreleased
  | _ => cases hreleased

/-- In a step, the canceller is only run, and that only if the capture side is
there, or the capture side goes away, and the canceller is finished. By cases on
`Step`: `Step.pair` may run it once, and `Step.dropCapture` finishes it. -/
theorem Step.cancellerCalls_cases (hstep : Step allowed s entries t) :
    (t.capture?.isSome = s.capture?.isSome
        ∧ ∃ pairs, cancellerCalls (entries.filterMap Entry.event?) = runCalls pairs
          ∧ (s.capture? = none → pairs = []))
      ∨ (allowed .dropCapture ∧ s.capture?.isSome = true ∧ t.capture? = none
        ∧ cancellerCalls (entries.filterMap Entry.event?) = [.finish]) := by
  -- In most steps nothing is asked of the canceller.
  have hidle : t.capture?.isSome = s.capture?.isSome →
      cancellerCalls (entries.filterMap Entry.event?) = [] →
      t.capture?.isSome = s.capture?.isSome
        ∧ ∃ pairs, cancellerCalls (entries.filterMap Entry.event?) = runCalls pairs
          ∧ (s.capture? = none → pairs = []) :=
    fun hsome hcalls => ⟨hsome, [], hcalls, fun _ => rfl⟩
  have hacts : ∀ {c c' : Capture κ}, s.capture? = some c → t.capture? = some c' →
      t.capture?.isSome = s.capture?.isSome := fun hc hc' => by rw [hc, hc']; rfl
  cases hstep.act with
  | quiet hevents hsame hdata =>
      exact Or.inl (hidle (by rw [hsame]) (cancellerCalls_of_isAnswer hevents))
  | control hc hmessage hentries hnext hdata =>
      refine Or.inl (hidle (hacts hc hnext) ?_)
      rw [hentries, Capture.events_handleEntries]
      rfl
  | data hc hentries hnext hdata =>
      refine Or.inl (hidle (hacts hc hnext) ?_)
      rw [hentries, Capture.events_handleEntries]
      rfl
  | resume hc ha hentries hnext hdata =>
      exact Or.inl (hidle (hacts hc hnext) (by rw [hentries]; rfl))
  | @accept c block hc ha hentries hnext hdata =>
      refine Or.inl (hidle (hacts hc hnext) ?_)
      rw [hentries, Capture.acceptEntries, Capture.events_appendEntries]
      rfl
  | @pair c event pairing hc hpair hentries hnext hdata =>
      refine Or.inl ⟨hacts hc hnext, ?_⟩
      rw [hentries]
      have hsome : s.capture? = none → ∀ pairs : List (Block × Block), pairs = [] :=
        fun hnone => nomatch hc.symm.trans hnone
      obtain ⟨-, ⟨-, heq⟩ | ⟨-, -, heq⟩ | ⟨-, -, heq⟩⟩ := Pairing.step?_cases hpair
      · cases heq
        exact ⟨[], rfl, fun _ => rfl⟩
      · cases heq
        exact ⟨[(_, _)], rfl, fun hnone => hsome hnone _⟩
      · cases heq
        exact ⟨[], rfl, fun _ => rfl⟩
  | rewind hc ha hentries hnext hdata =>
      exact Or.inl (hidle (hacts hc hnext) (by rw [hentries]; rfl))
  | correct hc ha hentries hnext hdata =>
      exact Or.inl (hidle (hacts hc hnext) (by rw [hentries]; rfl))
  | @post message hevents hword hsame hdata =>
      refine Or.inl (hidle (by rw [hsame]) ?_)
      rw [hevents]
      cases message.rendered? with
      | none => rfl
      | some block => rfl
  | idle hentries hsame hdata =>
      exact Or.inl (hidle (by rw [hsame]) (by rw [hentries]; rfl))
  | drop hentries hnext hdata =>
      obtain ⟨ha, hsome⟩ := hstep.of_released (by rw [hentries]; exact List.mem_singleton_self _)
      exact Or.inr ⟨ha, hsome, hnext, by rw [hentries]; rfl⟩

/-- The canceller is finished once the capture side has gone away, and not
before. By induction on `Steps` with `Step.cancellerCalls_cases`. -/
theorem Steps.cancellerCalls_eq (hsteps : Steps allowed s entries t)
    (hsome : s.capture?.isSome = true) :
    ∃ pairs, cancellerCalls (entries.filterMap Entry.event?)
      = runCalls pairs ++ if t.capture?.isSome then [] else [.finish] := by
  refine hsteps.induct (motive := fun t entries => ∃ pairs,
    cancellerCalls (entries.filterMap Entry.event?)
      = runCalls pairs ++ if t.capture?.isSome then [] else [.finish]) ?_ ?_
  · exact ⟨[], by rw [hsome]; rfl⟩
  · intro t u before entries ⟨pairs, hbefore⟩ hstep
    rw [List.filterMap_append, cancellerCalls_append, hbefore]
    rcases hstep.cancellerCalls_cases with ⟨hsame, later, hcalls, hnone⟩ | ⟨-, hthere, hgone, hcalls⟩
    · rw [hcalls, hsame]
      cases hc : t.capture? with
      | none =>
          -- Without the capture side there are no more runs.
          rw [hnone hc]
          exact ⟨pairs, List.append_nil _⟩
      | some c => exact ⟨pairs ++ later, by simp [runCalls_append]⟩
    · rw [hcalls, hthere, hgone]
      exact ⟨pairs, by simp⟩

/-- The capture side is there until it goes away with `dropCapture`. -/
theorem isSome_capture?_run (s : Session κ υ) (operations : List Operation) :
    (s.run operations).2.capture?.isSome
      = (s.capture?.isSome && !operations.any Operation.isDropCapture) := by
  induction operations generalizing s with
  | nil => exact (Bool.and_true _).symm
  | cons operation rest ih =>
      have hfirst : (s.perform operation).2.capture?.isSome
          = (s.capture?.isSome && !operation.isDropCapture) := by
        cases hdrop : operation.isDropCapture with
        | true =>
            cases operation with
            | dropCapture =>
                show s.dropCapture.2.capture?.isSome = _
                unfold dropCapture
                split
                · next hnone => rw [hnone]; rfl
                · exact (Bool.and_false _).symm
            | _ => cases hdrop
        | false =>
            rw [Bool.not_false, Bool.and_true]
            have hsteps : Steps (· = operation) s _ _ := s.steps_perform rfl
            refine hsteps.induct (motive := fun t _ => t.capture?.isSome = s.capture?.isSome) rfl
              fun t u _ _ hbefore hstep => ?_
            rcases hstep.cancellerCalls_cases with ⟨hsame, -⟩ | ⟨ha, -⟩
            · exact hsame.trans hbefore
            · rw [← ha] at hdrop
              cases hdrop
      show ((s.perform operation).2.run rest).2.capture?.isSome = _
      rw [ih, hfirst, List.any_cons, Bool.not_or, Bool.and_assoc]

/-- Nothing finishes the canceller but the capture side as it goes away, so that
`finished?` stays in every other step. -/
theorem Step.finished?_eq (hstep : Step allowed s entries t) (hdrop : ¬ allowed .dropCapture) :
    t.finished? = s.finished? := by
  cases hstep with
  | dropCapture hc ha => exact absurd ha hdrop
  | reportCapture running ha hnew => rw [postCapture_eq]
  | reportPlayback running ha hnew => rw [postPlayback_eq]
  | postCapture message hm => rw [postCapture_eq]
  | _ => rfl

/-- A canceller is finished no more than once: what is left of it in `finished?`
stays, since a capture side that is gone does not go away again. -/
theorem finished?_perform_eq {operation : Operation}
    (h : operation.isDropCapture = false ∨ s.capture? = none) :
    (s.perform operation).2.finished? = s.finished? := by
  have hother : operation.isDropCapture = false →
      (s.perform operation).2.finished? = s.finished? := by
    intro hdrop
    have hsteps : Steps (· = operation) s _ _ := s.steps_perform rfl
    refine hsteps.induct (motive := fun t _ => t.finished? = s.finished?) rfl
      fun t u _ _ hbefore hstep => ?_
    exact (hstep.finished?_eq fun heq => by rw [← heq] at hdrop; cases hdrop).trans hbefore
  rcases h with hdrop | hnone
  · exact hother hdrop
  · cases operation with
    | dropCapture =>
        show s.dropCapture.2.finished? = s.finished?
        unfold dropCapture
        rw [hnone]
    | _ => exact hother rfl

/-- Over a run, what is left of the canceller in `finished?` stays as it is, if
the capture side stays or is gone already. -/
theorem finished?_run_eq {operations : List Operation}
    (h : operations.any Operation.isDropCapture = false ∨ s.capture? = none) :
    (s.run operations).2.finished? = s.finished? := by
  induction operations generalizing s with
  | nil => rfl
  | cons operation rest ih =>
      have hfirst : operation.isDropCapture = false ∨ s.capture? = none :=
        h.imp_left fun hany => (Bool.or_eq_false_iff.mp hany).1
      refine (ih ?_).trans (finished?_perform_eq hfirst)
      rcases h with hany | hnone
      · exact Or.inl (Bool.or_eq_false_iff.mp hany).2
      · have hgone := isSome_capture?_run s [operation]
        rw [hnone, Option.isSome_none, Bool.false_and] at hgone
        exact Or.inr (Option.isNone_iff_eq_none.mp (Option.not_isSome _ ▸ hgone ▸ rfl))

/-- As long as the capture side is there, its canceller is not finished. Once it
goes away, `Session.finished?` is its last canceller, finished, and stays so. -/
theorem finished?_run (hnew : s.IsNew) {before : List Operation} {c : Capture κ}
    (hc : (s.run before).2.capture? = some c) (after : List Operation) :
    (s.run before).2.finished? = none
      ∧ (s.run (before ++ .dropCapture :: after)).2.finished?
        = some (Canceller.finish c.pairing.canceller) := by
  constructor
  · have hstays := isSome_capture?_run s before
    rw [hc, Option.isSome_some] at hstays
    have hany := (Bool.and_eq_true_iff.mp hstays.symm).2
    rw [finished?_run_eq (Or.inl (Bool.not_eq_true' _ ▸ hany))]
    obtain ⟨_, _, _, _, _, _, rfl, -⟩ := hnew.opened
    rfl
  · have hdropped : (s.run before).2.dropCapture.2.finished?
        = some (Canceller.finish c.pairing.canceller) := by
      unfold dropCapture
      rw [hc]
    have hgone : (s.run before).2.dropCapture.2.capture? = none := by
      unfold dropCapture
      rw [hc]
    rw [run_append]
    show ((s.run before).2.dropCapture.2.run after).2.finished? = _
    rw [finished?_run_eq (Or.inr hgone), hdropped]

/-! ### Every order of a teardown -/

/-- In every run: once the session was shut down, or its control side has gone
away (`Operation.isEnd`), a callback of a device or of the consumer
(`Operation.isCallback`) leaves all of the session as it is, whatever has happened
since, and whatever waits in the mailboxes. The playback device gets silence, and
nobody gets anything else. The canceller is finished once, when the capture side
goes away (`dropCapture`), and is not run after that. What is left of it then
(`Session.finished?`) is the canceller that the last run left, finished. -/
theorem teardown_final (hnew : s.IsNew) :
    (∀ (before after : List Operation) (stop callback : Operation), stop.isEnd = true →
        callback.isCallback = true →
        let ended := (s.run (before ++ stop :: after)).2
        (ended.perform callback).2 = ended
          ∧ ∀ event ∈ (ended.perform callback).1,
              ∃ n, callback = .render n ∧ event = .rendered (Block.silence n))
      ∧ (∀ operations, ∃ pairs, cancellerCalls (s.run operations).1
          = runCalls pairs ++ if operations.any Operation.isDropCapture then [.finish] else [])
      ∧ ∀ (before after : List Operation) (c : Capture κ), (s.run before).2.capture? = some c →
          (s.run before).2.finished? = none
            ∧ (s.run (before ++ .dropCapture :: after)).2.finished?
              = some (Canceller.finish c.pairing.canceller) := by
  refine ⟨?_, ?_, fun before after c hc => finished?_run hnew hc after⟩
  · intro before after stop callback hstop hcallback ended
    have hended : ended.Ended := by
      have hrun : ended = (((s.run before).2.perform stop).2.run after).2 := by
        show (s.run (before ++ stop :: after)).2 = _
        rw [run_append]
        rfl
      rw [hrun]
      exact (ended_perform hstop (hnew.governed.run before)).run after
    exact hended.perform_callback hcallback
  · intro operations
    have hsome : s.capture?.isSome = true := by
      obtain ⟨_, _, _, _, _, _, rfl, -⟩ := hnew.opened
      rfl
    obtain ⟨pairs, hcalls⟩ := (s.steps_any operations).cancellerCalls_eq hsome
    rw [events_journalOf, isSome_capture?_run, hsome, Bool.true_and] at hcalls
    refine ⟨pairs, hcalls.trans ?_⟩
    cases operations.any Operation.isDropCapture <;> rfl

/-- The hypotheses of `teardown_final` are met: the session is shut down after
one run of the canceller, while audio, a correction and a change of the device
wait in the mailboxes. It is shut down again, and the sides go away one after
the other. -/
theorem teardown_final_trial :
    let before : List Operation :=
      [.render 8, .push (.silence 4), .render 8, .postCorrection 1000, .reportDevice .input true]
    let after : List Operation := [.shutdown, .dropPlayback, .dropControl]
    let ended := (trial.run (before ++ .shutdown :: after)).2
    let whole := before ++ .shutdown :: (after ++ [.dropCapture, .push (.silence 4), .dropCapture])
    (ended.data.items.length, ended.captureControl.items.length) = (1, 2)
      ∧ (ended.perform (.push (.silence 4))).2 = ended
      ∧ (ended.perform (.rewindCapture 4)).2 = ended
      ∧ ∃ pairs, pairs.length = 1
        ∧ cancellerCalls (trial.run whole).1 = runCalls pairs ++ [.finish] := by
  intro before after ended whole
  obtain ⟨hcallback, hcalls, -⟩ := teardown_final isNew_trial
  obtain ⟨pairs, hpairs⟩ := hcalls whole
  have hdropped : whole.any Operation.isDropCapture = true := by decide
  rw [hdropped] at hpairs
  have hcount : (cancellerCalls (trial.run whole).1).length = 2 := by decide +kernel
  have hlength : pairs.length = 1 := by
    rw [hpairs, List.length_append, runCalls, List.length_map] at hcount
    exact Nat.succ.inj hcount
  exact ⟨by decide +kernel, (hcallback before after .shutdown (.push (.silence 4)) rfl rfl).1,
    (hcallback before after .shutdown (.rewindCapture 4) rfl rfl).1, pairs, hlength, hpairs⟩

end Session

end EchoAlign
