import EchoAlign.Proofs.Session.Reference
import EchoAlign.Proofs.Session.Start
import EchoAlign.Proofs.Session.Visits

/-!
# `EchoAlign.Proofs.Session.Hearing`: what the playback device hears

The playback device calls for audio, and gives some of it back. What it
hears is for the producer alone to say, and for the end of the session:
nothing that the capture device, the consumer, the control side or the
world outside does has any bearing on it.

* `Operation.calls` are the calls of the playback device in a run, each
  with whether the session had ended by then, and `hear` is what a producer
  has to say to them.
* `Serves.perform`: everything else that happens leaves the producer alone
  and makes no audio.
* `heard_alike`: two sessions whose producers are in the same state, and
  which are called alike, let their devices hear the same.
-/

set_option autoImplicit false

namespace EchoAlign

/-- The calls of the playback device, each with whether the session had ended by
then. There are none after the playback side has gone away (`dropPlayback`). -/
def Operation.calls (ended : Bool) : List Operation → List (Bool × DeviceCall)
  | [] => []
  | .render n :: rest => (ended, .render n) :: calls ended rest
  | .rewindPlayback n :: rest => (ended, .rewind n) :: calls ended rest
  | .shutdown :: rest => calls true rest
  | .dropControl :: rest => calls true rest
  | .dropPlayback :: _ => []
  | _ :: rest => calls ended rest

/-- The audio a device hears that calls for it: what the producer makes, and
when the session has ended, as many bytes of silence. Nothing but the `producer`
and the calls has a part in it. -/
def hear {υ : Type} [Producer υ] (producer : υ) : List (Bool × DeviceCall) → List (List UInt8)
  | [] => []
  | (false, .render n) :: rest =>
      (Producer.render producer n).1.block.toList :: hear (Producer.render producer n).2 rest
  | (false, .rewind n) :: rest =>
      hear (if n = 0 then producer else Producer.rewind producer n) rest
  | (true, .render n) :: rest => List.replicate n 0 :: hear producer rest
  | (true, .rewind _) :: rest => hear producer rest

/-- The audio that events hand to the playback device (`Event.rendered?`), call
by call. -/
def heardIn (events : List Event) : List (List UInt8) :=
  (events.filterMap Event.rendered?).map Block.toList

/-- What is heard in two stretches of events is heard in both, one after the
other, as `heardIn` puts blocks one behind the other. -/
theorem heardIn_append (first rest : List Event) :
    heardIn (first ++ rest) = heardIn first ++ heardIn rest := by
  unfold heardIn
  rw [List.filterMap_append, List.map_append]

/-! ### What becomes of the producer -/

namespace PlaybackScene

variable {υ : Type} (s : PlaybackScene υ)

/-- Sending a reference of a block (`send`) leaves the producer alone. -/
theorem producer_send (block : Block) :
    (s.send block).playback.producer = s.playback.producer := by
  unfold send post
  simp only
  split
  · rfl
  · rfl

/-- Sending timing (`sendTiming`) leaves the producer alone. -/
theorem producer_sendTiming : s.sendTiming.playback.producer = s.playback.producer := by
  cases howes : s.owesTiming with
  | false => rw [(s.sendTiming_of_not_owesTiming howes).1]
  | true =>
      rw [(s.sendTiming_of_owesTiming howes).2.1]
      split
      · rfl
      · rfl

/-- The block is the one that the producer makes (`Producer.render`), whatever
becomes of the messages about it. -/
theorem render_eq [Producer υ] (n : Nat) :
    (s.render n).1 = (Producer.render s.playback.producer n).1.block
      ∧ (s.render n).2.playback.producer = (Producer.render s.playback.producer n).2 := by
  refine ⟨rfl, ?_⟩
  simp only [render, producer_sendTiming, producer_send, Playback.fst_noteUnderrun]

/-- What the device gives back goes back to the producer with `Producer.rewind`,
whether or not the capture side can be told. -/
theorem producer_rewind [Producer υ] (n : Nat) :
    (s.rewind n).playback.producer = Producer.rewind s.playback.producer n := by
  unfold rewind post
  simp only
  split
  · rfl
  · rfl

/-- Rendering changes nothing of the link but counters, the clock and the
pending resync (`Link.Keeps`). -/
theorem keeps_render [Producer υ] (n : Nat) : s.link.Keeps (s.render n).2.link :=
  (s.keeps_play n).trans (keeps_sendTiming (s.play n).2)

end PlaybackScene

namespace Playback

variable {υ : Type} [Producer υ] (p : Playback υ)

omit [Producer υ] in
/-- No `PlaybackMessage` reaches the producer. -/
theorem producer_handle (link : Link) (message : PlaybackMessage) :
    (p.handle link message).1.producer = p.producer := by
  cases message with
  | timingRequest ticket => rfl
  | device state => cases state <;> rfl

omit [Producer υ] in
/-- Nor do messages in order, and they leave of the link what `Link.Keeps` says. -/
theorem handleAll_keeps (link : Link) (messages : List PlaybackMessage) :
    (p.handleAll link messages).1.producer = p.producer
      ∧ link.Keeps (p.handleAll link messages).2 := by
  induction messages generalizing p link with
  | nil => exact ⟨rfl, Link.Keeps.refl link⟩
  | cons message rest ih =>
      obtain ⟨hproducer, hkeeps⟩ := ih (p.handle link message).1 (p.handle link message).2
      exact ⟨hproducer.trans (p.producer_handle link message),
        (p.keeps_handle link message).trans hkeeps⟩

end Playback

namespace Session

variable {κ υ : Type} [Canceller κ] [Producer υ]

/-- The producer is in this state, if the playback side is there. Whoever could
end the session is there, too, unless it has `ended`. -/
structure Serves (s : Session κ υ) (producer? : Option υ) (ended : Bool) : Prop where
  producer_eq : s.playback?.map Playback.producer = producer?
  linked_eq : s.link.linked = !ended
  controlled : ended = false → s.controlled = true

/-- Whether something is neither a call of the playback device (`render`,
`rewindPlayback`) nor the end of anything it depends on. The capture side may do
all it likes. -/
def IsAside : Operation → Prop
  | .render _ => False
  | .rewindPlayback _ => False
  | .shutdown => False
  | .dropControl => False
  | .dropPlayback => False
  | _ => True

variable {s t : Session κ υ} {producer? : Option υ} {producer : υ} {ended : Bool}
  {entries : List Entry}

/-- A step that the playback device has no part in (`IsAside`) leaves the
producer alone and makes no audio. -/
theorem Serves.step (h : s.Serves producer? ended) (hstep : Step IsAside s entries t) :
    t.Serves producer? ended ∧ heardIn (entries.filterMap Entry.event?) = [] := by
  -- The link goes on to say whether the session has ended.
  have hkept : ∀ {link : Link}, s.link.Keeps link → link.linked = !ended := fun hlink =>
    hlink.linked_eq.trans h.linked_eq
  cases hstep with
  | request => exact ⟨⟨h.producer_eq, h.linked_eq, h.controlled⟩, rfl⟩
  | read =>
      rw [events_readEntries]
      exact ⟨⟨h.producer_eq, hkept s.link.keeps_readClock, h.controlled⟩, rfl⟩
  | world => exact ⟨⟨h.producer_eq, h.linked_eq, h.controlled⟩, rfl⟩
  | unlink ha => exact ha.elim False.elim False.elim
  | leave ha => exact ha.elim
  | checking drift => exact ⟨⟨h.producer_eq, h.linked_eq, h.controlled⟩, rfl⟩
  | answer event he =>
      refine ⟨h, ?_⟩
      cases event <;> first | rfl | cases he
  | reportCapture running ha hnew =>
      rw [postCapture_eq]
      exact ⟨⟨h.producer_eq, (Link.keeps_lost _ _).linked_eq.trans h.linked_eq, h.controlled⟩, rfl⟩
  | reportPlayback running ha hnew =>
      rw [postPlayback_eq]
      exact ⟨⟨h.producer_eq, (Link.keeps_lost _ _).linked_eq.trans h.linked_eq, h.controlled⟩, rfl⟩
  | postCapture message hm =>
      rw [postCapture_eq]
      exact ⟨⟨h.producer_eq, (Link.keeps_lost _ _).linked_eq.trans h.linked_eq, h.controlled⟩, rfl⟩
  | askCapture message hm ha => exact ⟨⟨h.producer_eq, h.linked_eq, h.controlled⟩, rfl⟩
  | askPlayback ticket ha => exact ⟨⟨h.producer_eq, h.linked_eq, h.controlled⟩, rfl⟩
  | repack => exact ⟨⟨h.producer_eq, h.linked_eq, h.controlled⟩, rfl⟩
  | @handleControl c message rest hc hrest =>
      rw [Capture.events_handleEntries]
      exact ⟨⟨h.producer_eq, hkept (c.keeps_handle s.link message), h.controlled⟩, rfl⟩
  | @handleData c message rest hc hrest =>
      rw [Capture.events_handleEntries]
      exact ⟨⟨h.producer_eq, hkept (c.keeps_handle s.link message), h.controlled⟩, rfl⟩
  | @handlePlayback p message rest hp hrest =>
      rw [Playback.events_handleEntries]
      have hproducer := h.producer_eq
      rw [hp] at hproducer
      exact ⟨⟨(congrArg some (p.producer_handle s.link message)).trans hproducer,
        hkept (p.keeps_handle s.link message), h.controlled⟩, rfl⟩
  | resume => exact ⟨⟨h.producer_eq, h.linked_eq, h.controlled⟩, rfl⟩
  | @accept c block hc ha =>
      rw [Capture.acceptEntries, Capture.events_appendEntries]
      exact ⟨⟨h.producer_eq, h.linked_eq, h.controlled⟩, rfl⟩
  | @pair c event pairing hc hpair =>
      refine ⟨⟨h.producer_eq, h.linked_eq, h.controlled⟩, ?_⟩
      obtain ⟨-, ⟨-, hevent⟩ | ⟨-, -, hevent⟩ | ⟨-, -, hevent⟩⟩ := Pairing.step?_cases hpair
      · cases hevent
        rfl
      · cases hevent
        rfl
      · cases hevent
        rfl
  | rewindCapture n hc ha => exact ⟨⟨h.producer_eq, h.linked_eq, h.controlled⟩, rfl⟩
  | @correct c usec hc ha =>
      exact ⟨⟨h.producer_eq, hkept (c.keeps_correct s.link usec), h.controlled⟩, rfl⟩
  | play n hp hlinked ha => exact ha.elim
  | @sendTiming p hp =>
      rw [PlaybackScene.events_sendTimingEntries]
      have hproducer := h.producer_eq
      rw [hp] at hproducer
      exact ⟨⟨(congrArg some (s.scene p).producer_sendTiming).trans hproducer,
        hkept (s.scene p).keeps_sendTiming, h.controlled⟩, rfl⟩
  | rewindPlayback n hp ha => exact ha.elim
  | idle n hp hlinked ha => exact ha.elim
  | dropCapture hc ha => exact ⟨⟨h.producer_eq, h.linked_eq, h.controlled⟩, rfl⟩
  | dropPlayback hp ha => exact ha.elim

/-- What the playback device has no part in (`IsAside`) leaves the producer
alone and makes no audio. -/
theorem Serves.perform (h : s.Serves producer? ended) {operation : Operation}
    (haside : IsAside operation) :
    (s.perform operation).2.Serves producer? ended ∧ heardIn (s.perform operation).1 = [] := by
  have hsteps : Steps IsAside s (s.journal operation) (s.perform operation).2 :=
    s.steps_perform haside
  rw [← s.events_journal operation]
  refine hsteps.induct
    (motive := fun t entries =>
      t.Serves producer? ended ∧ heardIn (entries.filterMap Entry.event?) = []) ⟨h, rfl⟩ ?_
  intro t u before entries ⟨hserves, hsilent⟩ hstep
  obtain ⟨hserves', hsilent'⟩ := hserves.step hstep
  refine ⟨hserves', ?_⟩
  rw [List.filterMap_append, heardIn_append, hsilent, hsilent']
  rfl

/-! ### What the playback device has a part in -/

omit [Canceller κ] [Producer υ] in
/-- A session that `Serves` with a producer has a playback side, and the
producer is in it. -/
theorem Serves.playback (h : s.Serves (some producer) ended) :
    ∃ p, s.playback? = some p ∧ p.producer = producer :=
  Option.map_eq_some_iff.mp h.producer_eq

omit [Canceller κ] in
/-- The device gets what the producer makes, as it is, and the session goes on
to serve (`Serves`) with what is left of the producer. -/
theorem Serves.render (h : s.Serves (some producer) false) (n : Nat) :
    (s.render n).1 = [.rendered (Producer.render producer n).1.block]
      ∧ (s.render n).2.Serves (some (Producer.render producer n).2) false := by
  obtain ⟨p, hp, rfl⟩ := h.playback
  obtain ⟨hblock, hproducer⟩ := (s.scene p).render_eq n
  obtain ⟨hproducer', hkeeps⟩ := ((s.scene p).render n).2.playback.handleAll_keeps
    ((s.scene p).render n).2.link (s.playbackControl.drain s.drainLimit).1
  simp only [Session.render, hp, h.linked_eq, Bool.not_false, Bool.not_true, Bool.false_eq_true,
    if_false]
  refine ⟨congrArg (fun block => [Event.rendered block]) hblock,
    congrArg some (hproducer'.trans hproducer), ?_, h.controlled⟩
  exact (((s.scene p).keeps_render n).trans hkeeps).linked_eq.trans h.linked_eq

omit [Canceller κ] in
/-- When the session has `ended`, the device gets silence, and the producer is
not asked. -/
theorem Serves.render_ended (h : s.Serves (some producer) true) (n : Nat) :
    s.render n = ([.rendered (Block.silence n)], s) := by
  obtain ⟨p, hp, -⟩ := h.playback
  simp only [Session.render, hp, h.linked_eq, Bool.not_true, Bool.not_false, if_true]

omit [Canceller κ] in
/-- What the device gives back goes back to the producer with `Producer.rewind`.
Nothing at all is not given back. -/
theorem Serves.rewindPlayback (h : s.Serves (some producer) false) (n : Nat) :
    (s.rewindPlayback n).Serves
      (some (if n = 0 then producer else Producer.rewind producer n)) false := by
  obtain ⟨p, hp, rfl⟩ := h.playback
  simp only [Session.rewindPlayback, hp, h.linked_eq, Bool.not_false, Bool.not_true, Bool.false_or]
  by_cases hn : n = 0
  · rw [if_pos hn, if_pos (beq_iff_eq.mpr hn)]
    exact h
  · rw [if_neg hn, if_neg fun heq => hn (beq_iff_eq.mp heq)]
    exact ⟨congrArg some ((s.scene p).producer_rewind n),
      ((s.scene p).keeps_rewind n).linked_eq.trans h.linked_eq, h.controlled⟩

omit [Canceller κ] in
/-- When the session has `ended`, nothing is given back to the producer. -/
theorem Serves.rewindPlayback_ended (h : s.Serves (some producer) true) (n : Nat) :
    s.rewindPlayback n = s := by
  obtain ⟨p, hp, -⟩ := h.playback
  simp only [Session.rewindPlayback, hp, h.linked_eq, Bool.not_true, Bool.not_false, Bool.true_or,
    if_true]

omit [Canceller κ] [Producer υ] in
/-- A `shutdown` ends the session, and leaves the producer as it is. -/
theorem Serves.shutdown (h : s.Serves producer? ended) : s.shutdown.Serves producer? true := by
  unfold Session.shutdown
  by_cases hcontrolled : s.controlled = true
  · rw [if_pos hcontrolled]
    exact ⟨h.producer_eq, rfl, nofun⟩
  · -- Nobody is left to end the session, so it has ended.
    rw [if_neg hcontrolled]
    cases ended with
    | false => exact absurd (h.controlled rfl) hcontrolled
    | true => exact h

omit [Canceller κ] [Producer υ] in
/-- So does the control side when it goes away (`dropControl`). -/
theorem Serves.dropControl (h : s.Serves producer? ended) : s.dropControl.Serves producer? true :=
  ⟨h.shutdown.producer_eq, h.shutdown.linked_eq, nofun⟩

omit [Canceller κ] [Producer υ] in
/-- Without a playback side there is no producer any more, so that `Serves`
holds of `none`. -/
theorem Serves.dropPlayback (h : s.Serves producer? ended) : s.dropPlayback.Serves none ended := by
  unfold Session.dropPlayback
  cases hp : s.playback? with
  | none => exact ⟨congrArg (Option.map Playback.producer) hp, h.linked_eq, h.controlled⟩
  | some p => exact ⟨rfl, h.linked_eq, h.controlled⟩

/-- What is heard in a run is heard in its first operation, and then in the
others, by `heardIn_append`. -/
theorem heardIn_run_cons (s : Session κ υ) (operation : Operation) (rest : List Operation) :
    heardIn (s.run (operation :: rest)).1
      = heardIn (s.perform operation).1 ++ heardIn ((s.perform operation).2.run rest).1 :=
  heardIn_append ..

/-- Nobody hears anything without a playback side, whatever else happens. By
induction on the operations, as `Serves` with no producer is kept by each of
them. -/
theorem Serves.silent_run (h : s.Serves none ended) (operations : List Operation) :
    heardIn (s.run operations).1 = [] := by
  induction operations generalizing s ended with
  | nil => rfl
  | cons operation rest ih =>
      have hnone : s.playback? = none := Option.map_eq_none_iff.mp h.producer_eq
      have hfirst : ∃ ended', (s.perform operation).2.Serves none ended'
          ∧ heardIn (s.perform operation).1 = [] := by
        cases operation with
        | render n =>
            simp only [Session.perform, Session.render, hnone]
            exact ⟨ended, h, rfl⟩
        | rewindPlayback n =>
            simp only [Session.perform, Session.rewindPlayback, hnone]
            exact ⟨ended, h, rfl⟩
        | shutdown => exact ⟨true, h.shutdown, rfl⟩
        | dropControl => exact ⟨true, h.dropControl, rfl⟩
        | dropPlayback => exact ⟨ended, h.dropPlayback, rfl⟩
        | _ => exact ⟨ended, h.perform trivial⟩
      obtain ⟨ended', hserves, hsilent⟩ := hfirst
      rw [heardIn_run_cons, hsilent, ih hserves]
      rfl

/-- During a run, the device hears what the producer has to say to its calls
(`hear`, `Operation.calls`). The induction is on the operations, with the calls
of the playback device and the ends as the cases that matter. -/
theorem Serves.heard_run (h : s.Serves (some producer) ended) (operations : List Operation) :
    heardIn (s.run operations).1 = hear producer (Operation.calls ended operations) := by
  induction operations generalizing s producer ended with
  | nil => rfl
  | cons operation rest ih =>
      rw [heardIn_run_cons]
      -- Most operations make nothing heard, and leave the producer where it is.
      have haside : IsAside operation →
          heardIn (s.perform operation).1 ++ heardIn ((s.perform operation).2.run rest).1
            = hear producer (Operation.calls ended rest) := by
        intro haside
        obtain ⟨hserves, hsilent⟩ := h.perform haside
        rw [hsilent, ih hserves]
        rfl
      cases operation with
      | render n =>
          cases ended with
          | false =>
              obtain ⟨hevents, hserves⟩ := h.render n
              have hrender : s.perform (.render n) = ((s.render n).1, (s.render n).2) := rfl
              rw [hrender, hevents, ih hserves]
              rfl
          | true =>
              have hrender : s.perform (.render n) = _ := h.render_ended n
              rw [hrender, ih h]
              show [(Block.silence n).toList] ++ _ = _
              rw [Block.toList_silence]
              rfl
      | rewindPlayback n =>
          cases ended with
          | false => exact ih (h.rewindPlayback n)
          | true =>
              have hrewind : s.perform (.rewindPlayback n) = ([], s.rewindPlayback n) := rfl
              rw [hrewind, h.rewindPlayback_ended n]
              exact ih h
      | shutdown => exact ih h.shutdown
      | dropControl => exact ih h.dropControl
      | dropPlayback => exact h.dropPlayback.silent_run rest
      | _ => exact haside trivial

omit [Producer υ] in
/-- A session that was just created (`create`) serves with the producer it was
given, if its link is up (`hlinked`). -/
theorem serves_create (spec : StreamSpec) (capacity : Nat) (canceller : κ) (producer : υ)
    {link : Link} (hlinked : link.linked = true) (dumps? : Option Dumps) :
    (create spec capacity canceller producer link dumps?).Serves (some producer) false :=
  ⟨rfl, hlinked, fun _ => rfl⟩

/-- Two sessions have producers in the same state (`Serves`), and are otherwise
alike in nothing. If the playback devices call for the same (`Operation.calls`),
and the sessions end at the same point of it, whatever else happens to either,
then the devices hear the same: what the producer makes, as it is, and after the
end as many bytes of silence. -/
theorem heard_alike {κ' : Type} [Canceller κ'] {s : Session κ υ} {t : Session κ' υ} {producer : υ}
    {ended : Bool} (hs : s.Serves (some producer) ended) (ht : t.Serves (some producer) ended)
    {operations others : List Operation}
    (hcalls : Operation.calls ended operations = Operation.calls ended others) :
    heardIn (s.run operations).1 = heardIn (t.run others).1
      ∧ heardIn (s.run operations).1 = hear producer (Operation.calls ended operations) := by
  refine ⟨?_, hs.heard_run operations⟩
  rw [hs.heard_run, ht.heard_run, hcalls]

/-- The hypotheses of `heard_alike` are met by a session that loses half of its
messages, and whose capture side goes away, and one that is realigned all the
time. -/
theorem heard_alike_trial :
    let operations : List Operation :=
      [.render 4, .requestResync, .render 2, .startCheck, .rewindPlayback 4,
        .dropCapture, .render 6, .shutdown, .rewindPlayback 2, .render 3]
    let others : List Operation :=
      [.push (.silence 8), .correct 500, .render 4, .rewindCapture 4, .render 2,
        .rewindPlayback 4, .reportDevice .input true, .correct (-500), .push (.silence 8),
        .render 6, .dropControl, .rewindPlayback 2, .requestResync, .render 3, .dropPlayback]
    Operation.calls false operations
        = [(false, .render 4), (false, .render 2), (false, .rewind 4), (false, .render 6),
          (true, .rewind 2), (true, .render 3)]
      ∧ heardIn (narrow.run operations).1
        = [[1, 2, 3, 4], [5, 6], [3, 4, 5, 6, 7, 8], [0, 0, 0]]
      ∧ heardIn (narrow.run operations).1 = heardIn (trial.run others).1 := by
  intro operations others
  have hheard := heard_alike (serves_create _ _ _ _ rfl _ : narrow.Serves _ false)
    (serves_create _ _ _ _ rfl _ : trial.Serves _ false)
    (show Operation.calls false operations = Operation.calls false others by decide)
  exact ⟨by decide, by decide +kernel, hheard.1⟩

end Session

end EchoAlign
