import EchoAlign.Proofs.Session.Visits

/-!
# `EchoAlign.Proofs.Session.Shift`: what moves the pairing

A captured byte is paired with the playback byte that lies at the same
distance from its read head. Between one run of the canceller and the
next, the pairing moves by the difference of what is taken off the two
tapes.

* `shift_between_calls`: the pairing moves by the playback bytes that are
  dropped, less the captured bytes that are dropped, less the captured
  blocks that are passed on as they are. Where there is enough played
  audio, a skip of captured audio moves it by its size, and a skip of
  playback by a block less.
* `shift_of_sink_skip`: such a skip of playback does not move it by its
  size.
* `events_visits`: the visits of a run are what its trace tells of captured
  audio.

`Paired` is the invariant behind it. It holds whenever no audio is taken
back.
-/

set_option autoImplicit false

namespace EchoAlign

/-- Nothing is taken back, by neither of the two rewinds, `rewindPlayback` and
`rewindCapture`. -/
def Operation.isForward : Operation → Bool
  | rewindPlayback _ => false
  | rewindCapture _ => false
  | _ => true

/-! ### What leaves the read heads alone -/

/-- Audio that is put on a tape with `append` leaves its read head alone. -/
theorem Tape.readHead_append {t t' : Tape} {block : Block} (h : t.append block = .ok t') :
    t'.readHead = t.readHead := by
  simp only [append] at h
  split at h
  · cases h
  · split at h
    · cases h
      rfl
    · split at h
      · cases h
      · cases h
        rfl

namespace Capture

variable {κ : Type}

/-- The same blocks are paired at the same places: the size of a block and the
`shift` stay the same. -/
structure SamePlace (c next : Capture κ) : Prop where
  blockBytes_eq : next.pairing.blockBytes = c.pairing.blockBytes
  shift_eq : next.pairing.shift = c.pairing.shift

variable (c : Capture κ) (link : Link)

/-- A side that does not change stays in place: `SamePlace` is reflexive. -/
theorem samePlace_refl : c.SamePlace c := ⟨rfl, rfl⟩

/-- Rendered audio that arrives (`receive`) leaves a side in place. -/
theorem samePlace_receive (block : Block) : c.SamePlace (c.receive block) := by
  refine ⟨rfl, ?_⟩
  show (c.receive block).pairing.played.readHead - c.pairing.captured.readHead = _
  simp only [receive]
  split
  · rfl
  · split
    · next played happend =>
        rw [Tape.readHead_append happend]
        rfl
    · rfl

/-- Rendered audio that is taken back (`takeBack`) leaves a side in place, as it
is taken from behind the read head. -/
theorem samePlace_takeBack (bytes : Nat) : c.SamePlace (c.takeBack bytes) := by
  refine ⟨rfl, ?_⟩
  show (c.takeBack bytes).pairing.played.readHead - c.pairing.captured.readHead = _
  simp only [takeBack]
  split
  · rfl
  · rfl

/-- A change of the device's state (`follow`) leaves a side in place: a
suspension moves the write heads to the read heads. -/
theorem samePlace_follow (state : DeviceState) : c.SamePlace (c.follow state) := by
  cases state with
  | suspended => exact ⟨rfl, rfl⟩
  | running =>
      simp only [follow]
      split
      · exact ⟨rfl, rfl⟩
      · exact ⟨rfl, rfl⟩

/-- A `resync` leaves a side in place; it only sets the skip. -/
theorem samePlace_resync (epoch : Nat) (playback : PlaybackTiming) :
    c.SamePlace (c.resync link epoch playback).1 := by
  simp only [resync]
  split
  · exact ⟨rfl, rfl⟩
  · exact ⟨rfl, rfl⟩

/-- No message moves the pairing: `SamePlace` holds for every `CaptureMessage`. -/
theorem samePlace_handle (message : CaptureMessage) :
    c.SamePlace (c.handle link message).1 := by
  cases message with
  | rendered block => exact c.samePlace_receive block
  | rewound bytes => exact c.samePlace_takeBack bytes
  | timingRequest ticket => exact c.samePlace_refl
  | correct usec => exact ⟨rfl, rfl⟩
  | playbackTiming epoch timing => exact c.samePlace_resync link epoch timing
  | device state => exact c.samePlace_follow state

/-- Nor does captured audio that arrives (`accept`), as it is put on at the
write head. -/
theorem samePlace_accept (block : Block) : c.SamePlace (c.accept block) := by
  unfold accept
  split
  · next captured happend =>
      refine ⟨rfl, ?_⟩
      show c.pairing.played.readHead - captured.readHead = _
      rw [Tape.readHead_append happend]
      rfl
  · exact ⟨rfl, rfl⟩

end Capture

namespace Session

variable {κ υ : Type} [Canceller κ] [Producer υ]

/-- The visits while one operation is performed: those of `Pairing.visits` in a
capture tick of a linked side, and none otherwise. -/
def visitsOf (s : Session κ υ) : Operation → List (Visit κ)
  | .push block =>
      match s.capture? with
      | none => []
      | some capture =>
          if !s.link.linked then []
          else
            let pairing := ((s.drainCapture capture).1.accept block).pairing
            pairing.visits pairing.captured.length
  | _ => []

/-- The visits during a run, in the states that the operations meet, by
`visitsOf` for each. -/
def visits (s : Session κ υ) : List Operation → List (Visit κ)
  | [] => []
  | operation :: rest => s.visitsOf operation ++ (s.perform operation).2.visits rest

/-- An operation that takes nothing back: `isForward` holds of it. -/
def Forward (operation : Operation) : Prop := operation.isForward = true

/-! ### The visits are the trace -/

/-- Only a block that is pushed brings events about captured audio, and these
are the events of its visits. For a capture tick they are those of
`Pairing.visits`, by `filter_drive`; for the others both lists are empty. -/
theorem events_visitsOf (s : Session κ υ) (operation : Operation) :
    (s.visitsOf operation).map (·.event) = (s.perform operation).1.filter Event.isWorked := by
  cases operation with
  | push block =>
      simp only [visitsOf, perform, push]
      cases s.capture? with
      | none => rfl
      | some capture =>
          cases s.link.linked with
          | false => rfl
          | true =>
              exact (Pairing.filter_drive _).symm
  | render bytes =>
      simp only [perform, render]
      split
      · rfl
      · split
        · rfl
        · rfl
  | rewindCapture bytes =>
      simp only [perform, rewindCapture]
      split
      · rfl
      · split
        · rfl
        · rfl
  | postCorrection usec =>
      simp only [perform, postCorrection]
      split
      · rfl
      · rfl
  | startCheck =>
      refine (List.filter_eq_nil_iff.mpr fun event hevent => ?_).symm
      obtain ⟨outcome, rfl⟩ := mem_startCheck hevent
      exact Bool.false_ne_true
  | continueCheck =>
      refine (List.filter_eq_nil_iff.mpr fun event hevent => ?_).symm
      obtain ⟨outcome, rfl⟩ := mem_continueCheck hevent
      exact Bool.false_ne_true
  | dropCapture =>
      simp only [perform, dropCapture]
      split
      · rfl
      · rfl
  | _ => rfl

/-! ### What every step keeps -/

/-- The tapes of the capture side hold lists of bytes, its blocks have
`size` bytes, and no message that waits takes audio back. -/
structure Paired (size : Nat) (s : Session κ υ) : Prop where
  control : s.ControlOnly
  forward : ∀ n, .rewound n ∉ s.data.items
  capture : ∀ c, s.capture? = some c → c.pairing.blockBytes = size ∧ ∃ plain, c.Holds plain

variable {size : Nat} {s t : Session κ υ} {entries : List Entry}

/-- No message that takes audio back comes to wait. A rewind would be posted by
`Operation.rewindPlayback`, which is not `Forward`. -/
theorem Paired.forward_step (h : s.Paired size) (hstep : Step Forward s entries t) (n : Nat) :
    .rewound n ∉ t.data.items := by
  -- Only a rewind of playback posts such a message, and none is allowed.
  have hposted : ∀ (message : CaptureMessage) {items : List CaptureMessage},
      items = (if s.data.hasRoom then s.data.items ++ [message] else s.data.items) →
      message ≠ .rewound n → .rewound n ∉ items := by
    intro message items hitems hne hm
    rw [hitems] at hm
    rcases Mailbox.mem_of_posted hm with hm | heq
    · exact h.forward n hm
    · exact hne heq.symm
  cases hstep with
  | reportCapture running ha hnew =>
      rw [postCapture_eq]
      exact h.forward n
  | reportPlayback running ha hnew =>
      rw [postPlayback_eq]
      exact h.forward n
  | postCapture message hm =>
      rw [postCapture_eq]
      exact h.forward n
  | repack hcontrol hdata hplayback => exact fun hm => h.forward n (hdata.items ▸ hm)
  | handleData message hc hrest =>
      intro hm
      refine h.forward n ?_
      rw [hrest.items]
      exact List.mem_cons_of_mem _ hm
  | @play p k hp hlinked ha => exact hposted _ ((s.scene p).items_play k) nofun
  | @sendTiming p hp =>
      show .rewound n ∉ (s.scene p).sendTiming.data.items
      cases howes : (s.scene p).owesTiming with
      | false =>
          rw [((s.scene p).sendTiming_of_not_owesTiming howes).1]
          exact h.forward n
      | true => exact hposted _ ((s.scene p).sendTiming_of_owesTiming howes).1 nofun
  | rewindPlayback k hp ha => cases ha
  | dropCapture hc ha => exact List.not_mem_nil
  | _ => exact h.forward n

/-- Only a block that is worked off moves the pairing, and its event says by how
much (`shiftOf`). -/
theorem Paired.capture_step (h : s.Paired size) (hstep : Step Forward s entries t)
    {c' : Capture κ} (hc' : t.capture? = some c') :
    ∃ c, s.capture? = some c ∧ c'.pairing.blockBytes = size ∧ (∃ plain, c'.Holds plain)
      ∧ c'.pairing.shift = c.pairing.shift + shiftOf (entries.filterMap Entry.event?) := by
  -- Most steps leave the capture side alone.
  have hsame : shiftOf (entries.filterMap Entry.event?) = 0 → s.capture? = some c' →
      ∃ c, s.capture? = some c ∧ c'.pairing.blockBytes = size ∧ (∃ plain, c'.Holds plain)
        ∧ c'.pairing.shift = c.pairing.shift + shiftOf (entries.filterMap Entry.event?) := by
    intro hzero hc
    obtain ⟨hsize, hholds⟩ := h.capture c' hc
    exact ⟨c', hc, hsize, hholds, by rw [hzero, Int.add_zero]⟩
  have hplace : ∀ {c : Capture κ} {plain : PlainCapture κ},
      shiftOf (entries.filterMap Entry.event?) = 0 → s.capture? = some c → c.SamePlace c' →
      c'.Holds plain →
      ∃ c, s.capture? = some c ∧ c'.pairing.blockBytes = size ∧ (∃ plain, c'.Holds plain)
        ∧ c'.pairing.shift = c.pairing.shift + shiftOf (entries.filterMap Entry.event?) := by
    intro c plain hzero hc hsame hholds
    refine ⟨c, hc, hsame.blockBytes_eq.trans (h.capture c hc).1, ⟨plain, hholds⟩, ?_⟩
    rw [hzero, Int.add_zero]
    exact hsame.shift_eq
  cases hstep with
  | read => exact hsame (by rw [events_readEntries]; rfl) hc'
  | answer event he => exact hsame (by cases event <;> first | rfl | cases he) hc'
  | reportCapture running ha hnew =>
      rw [postCapture_eq] at hc'
      exact hsame rfl hc'
  | reportPlayback running ha hnew =>
      rw [postPlayback_eq] at hc'
      exact hsame rfl hc'
  | postCapture message hm =>
      rw [postCapture_eq] at hc'
      exact hsame rfl hc'
  | @handleControl c message rest hc hrest =>
      cases hc'
      obtain ⟨-, plain, hholds⟩ := h.capture c hc
      have hdata : message.isData = false :=
        h.control message (by rw [hrest.items]; exact List.mem_cons_self)
      have hhandle := hholds.handle s.link fun n (hn : message = .rewound n) => by
        rw [hn] at hdata
        cases hdata
      exact hplace (by rw [Capture.events_handleEntries]; rfl) hc
        (c.samePlace_handle s.link message) hhandle.1
  | @handleData c message rest hc hrest =>
      cases hc'
      obtain ⟨-, plain, hholds⟩ := h.capture c hc
      have hhandle := hholds.handle s.link fun n (hn : message = .rewound n) => by
        refine absurd ?_ (h.forward n)
        rw [hrest.items, hn]
        exact List.mem_cons_self
      exact hplace (by rw [Capture.events_handleEntries]; rfl) hc
        (c.samePlace_handle s.link message) hhandle.1
  | handlePlayback message hp hrest =>
      exact hsame (by rw [Playback.events_handleEntries]; rfl) hc'
  | @resume c hc hresuming =>
      cases hc'
      obtain ⟨hsize, plain, hholds⟩ := h.capture c hc
      exact ⟨c, hc, hsize, ⟨{ plain with suspended := false, resuming := false },
        hholds.spec_eq, hholds.pairing, hholds.received_eq, rfl, rfl⟩, (Int.add_zero _).symm⟩
  | @accept c block hc ha =>
      cases hc'
      obtain ⟨-, plain, hholds⟩ := h.capture c hc
      have hnothing : (c.acceptEntries block).filterMap Entry.event? = [] :=
        Capture.events_appendEntries ..
      exact hplace (by rw [hnothing]; rfl) hc (c.samePlace_accept block) (hholds.accept block)
  | @pair c event pairing hc hstep =>
      cases hc'
      obtain ⟨hsize, plain, hholds⟩ := h.capture c hc
      obtain ⟨hnext, b, hb⟩ := hholds.pairing.next hstep
      have hvisit : Visit.Sound size ⟨c.pairing, event, pairing⟩ :=
        ⟨hstep, hsize, plain.backlog, hholds.pairing⟩
      exact ⟨c, hc, hnext.trans hsize, ⟨{ plain with backlog := b }, hholds.spec_eq, hb,
        hholds.received_eq, hholds.suspended_eq, hholds.resuming_eq⟩, hvisit.takes.shift_eq⟩
  | rewindCapture n hc ha => cases ha
  | @correct c usec hc ha =>
      cases hc'
      obtain ⟨-, plain, hholds⟩ := h.capture c hc
      exact hplace rfl hc ⟨rfl, rfl⟩ (hholds.correct s.link usec).1
  | play n hp hlinked ha =>
      exact hsame (by rw [PlaybackScene.events_playEntries]; rfl) hc'
  | sendTiming hp => exact hsame (by rw [PlaybackScene.events_sendTimingEntries]; rfl) hc'
  | rewindPlayback n hp ha => cases ha
  | dropCapture hc ha => cases hc'
  | _ => exact hsame rfl hc'

/-- Every step of a `Forward` operation keeps what is paired: the tapes are in
order, and no rewind waits. -/
theorem Paired.step (h : s.Paired size) (hstep : Step Forward s entries t) : t.Paired size := by
  refine ⟨h.control.step hstep, h.forward_step hstep, fun c' hc' => ?_⟩
  obtain ⟨c, -, hsize, hholds, -⟩ := h.capture_step hstep hc'
  exact ⟨hsize, hholds⟩

/-- Any number of steps moves the pairing by what their events take off the
tapes, `shiftOf` them. -/
theorem Paired.steps (h : s.Paired size) (hsteps : Steps Forward s entries t) :
    t.Paired size ∧ ∀ c', t.capture? = some c' → ∃ c, s.capture? = some c
      ∧ c'.pairing.shift = c.pairing.shift + shiftOf (entries.filterMap Entry.event?) := by
  refine hsteps.induct (motive := fun t entries => t.Paired size ∧ ∀ c', t.capture? = some c' →
    ∃ c, s.capture? = some c
      ∧ c'.pairing.shift = c.pairing.shift + shiftOf (entries.filterMap Entry.event?)) ?_ ?_
  · exact ⟨h, fun c hc => ⟨c, hc, (Int.add_zero _).symm⟩⟩
  · intro t u before entries ⟨ht, hbefore⟩ hstep
    refine ⟨ht.step hstep, fun c'' hc'' => ?_⟩
    obtain ⟨c', hc', -, -, hlast⟩ := ht.capture_step hstep hc''
    obtain ⟨c, hc, hfirst⟩ := hbefore c' hc'
    refine ⟨c, hc, ?_⟩
    rw [hlast, hfirst, List.filterMap_append, shiftOf_append, Int.add_assoc]

omit [Producer υ] in
/-- Without a capture side there are no visits: only a tick of this side has
any. -/
theorem visitsOf_of_capture?_eq_none (hc : s.capture? = none) (operation : Operation) :
    s.visitsOf operation = [] := by
  cases operation with
  | push block => simp only [visitsOf, hc]
  | _ => rfl

/-- The visits while one thing happens follow each other from the shift that the
side has (`Tracks`). -/
theorem Paired.tracks_visitsOf (h : s.Paired size) {operation : Operation}
    (hforward : Forward operation) {c : Capture κ} (hc : s.capture? = some c) :
    Tracks c.pairing.shift (s.visitsOf operation)
      ∧ ∀ v ∈ s.visitsOf operation, v.Sound size := by
  have hnone : Tracks c.pairing.shift ([] : List (Visit κ))
      ∧ ∀ v ∈ ([] : List (Visit κ)), v.Sound size :=
    ⟨trivial, fun v hv => absurd hv List.not_mem_nil⟩
  cases operation with
  | push block =>
      simp only [visitsOf, hc]
      cases s.link.linked with
      | false => exact hnone
      | true =>
          -- What is taken in first does not move the pairing.
          obtain ⟨htaken, hshift⟩ := h.steps (steps_takeIn hc block hforward)
          obtain ⟨hsize, plain, hholds⟩ := htaken.capture _ rfl
          obtain ⟨c₀, hc₀, heq⟩ := hshift _ rfl
          rw [events_takeInEntries] at heq
          cases hc.symm.trans hc₀
          have htracks := hholds.pairing.tracks_visits
            ((s.drainCapture c).1.accept block).pairing.captured.length
          rw [heq, hsize] at htracks
          rw [show c.pairing.shift = _ from (Int.add_zero _).symm]
          exact htracks
  | _ => exact hnone

/-- So do the visits during a run, by induction on the operations. Each
operation finds the shift that the ones before it have left, by `Paired.steps`. -/
theorem Paired.tracks_visits (h : s.Paired size) {operations : List Operation}
    (hforward : ∀ operation ∈ operations, Forward operation) (start : Int)
    (hstart : ∀ c, s.capture? = some c → c.pairing.shift = start) :
    Tracks start (s.visits operations) ∧ ∀ v ∈ s.visits operations, v.Sound size := by
  induction operations generalizing s start with
  | nil => exact ⟨trivial, fun v hv => absurd hv List.not_mem_nil⟩
  | cons operation rest ih =>
      obtain ⟨hfirst, hrest⟩ := List.forall_mem_cons.mp hforward
      obtain ⟨hnext, hshift⟩ := h.steps (s.steps_perform hfirst)
      have hone : Tracks start (s.visitsOf operation)
          ∧ ∀ v ∈ s.visitsOf operation, v.Sound size := by
        cases hc : s.capture? with
        | none =>
            rw [visitsOf_of_capture?_eq_none hc]
            exact ⟨trivial, fun v hv => absurd hv List.not_mem_nil⟩
        | some c =>
            rw [← hstart c hc]
            exact h.tracks_visitsOf hfirst hc
      have hlater := ih hnext hrest (start + shiftOf ((s.visitsOf operation).map (·.event)))
        fun c' hc' => by
          obtain ⟨c, hc, heq⟩ := hshift c' hc'
          rw [heq, hstart c hc, events_journal, events_visitsOf, shiftOf_filter]
      refine ⟨tracks_append.mpr ⟨hone.1, hlater.1⟩, fun v hv => ?_⟩
      rcases List.mem_append.mp hv with hv | hv
      · exact hone.2 v hv
      · exact hlater.2 v hv

/-- The events of the visits are those events of the trace that tell of captured
audio (`isWorked`). -/
theorem events_visits (s : Session κ υ) (operations : List Operation) :
    (s.visits operations).map (·.event) = (s.run operations).1.filter Event.isWorked := by
  induction operations generalizing s with
  | nil => rfl
  | cons operation rest ih =>
      simp only [visits, run, List.map_append, List.filter_append, events_visitsOf, ih]

omit [Producer υ] in
/-- In a new session, nothing was taken off the tapes, so that the `shift` is 0. -/
theorem IsNew.paired (h : s.IsNew) :
    s.Paired s.blockBytes ∧ ∀ c, s.capture? = some c → c.pairing.shift = 0 := by
  obtain ⟨spec, capacity, canceller, producer, link, dumps?, rfl, ⟨_, _, _, _, rfl⟩, hspec, hrate,
    -, hframes⟩ := h.opened
  have hholds := Capture.holds_create hspec hrate (StreamSpec.bytesOfFrames_pos hspec hframes)
  refine ⟨⟨fun m hm => absurd hm List.not_mem_nil, fun n => List.not_mem_nil, ?_⟩, ?_⟩
  · intro c hc
    cases hc
    exact ⟨rfl, _, hholds⟩
  · intro c hc
    cases hc
    rfl

/-! ### From one run of the canceller to the next -/

/-- Two visits run the canceller, and those `between` them do not. -/
structure NextCall (visits : List (Visit κ)) (first : Visit κ) (between : List (Visit κ))
    (second : Visit κ) : Prop where
  split : ∃ before after, visits = before ++ first :: (between ++ second :: after)
  first_isCall : first.event.isCall = true
  second_isCall : second.event.isCall = true
  idle : ∀ v ∈ between, v.event.isCall = false

/-- From one run of the canceller to the next (`NextCall`), the pairing moves by
what is taken off the tapes in between: the run itself takes as much off either. -/
theorem NextCall.shift_sub {visits between : List (Visit κ)} {first second : Visit κ}
    (h : NextCall visits first between second) (htracks : Tracks 0 visits)
    (hsound : ∀ v ∈ visits, v.Sound size) :
    second.pairing.shift - first.pairing.shift = shiftOf (between.map (·.event)) := by
  obtain ⟨before, after, rfl⟩ := h.split
  obtain ⟨-, hfirst, hrest⟩ := tracks_append.mp htracks
  obtain ⟨-, hsecond, -⟩ := tracks_append.mp hrest
  -- The canceller takes as much off either tape.
  have hcall : shiftOf [first.event] = 0 := by
    obtain ⟨hcaptured, hplayed, -⟩ := (hsound first (by simp)).takes.call h.first_isCall
    rw [shiftOf_singleton, hcaptured, hplayed, Int.sub_self]
  omega

/-- In every run of a new session in which nothing is taken back (`isForward`):
before each visit, the pairing has moved by what the events before it took off
the tapes (`shiftOf`). From one run of the canceller to the next (`NextCall`),
it moves by the playback bytes that are dropped, less the captured bytes that
are dropped, less the captured blocks that are passed on. Where there is enough
played audio (`Visit.Ample`), a block is passed on just when playback is to be
dropped. A skip that goes `Undisturbed` up to the next run of the canceller then
moves the pairing by its size, less a block if it is one of playback. -/
theorem shift_between_calls (hnew : s.IsNew) {operations : List Operation}
    (hforward : ∀ operation ∈ operations, operation.isForward = true) :
    (s.visits operations).map (·.event) = (s.run operations).1.filter Event.isWorked
      ∧ (∀ before v after, s.visits operations = before ++ v :: after →
        v.pairing.shift = shiftOf (before.map (·.event)))
      ∧ ∀ first between second, NextCall (s.visits operations) first between second →
        second.pairing.shift - first.pairing.shift
            = sinkSkippedOf (between.map (·.event)) - sourceSkippedOf (between.map (·.event))
              - s.blockBytes * passesOf (between.map (·.event))
          ∧ ((∀ v ∈ between, v.Ample) →
            (∀ v ∈ between, v.event.isPass = true
              ↔ v.pairing.skip.source = 0 ∧ 0 < v.pairing.skip.sink)
            ∧ ∀ skip, Undisturbed skip (between ++ [second]) →
              second.pairing.shift - first.pairing.shift
                = skip.sink - skip.source - if 0 < skip.sink then s.blockBytes else 0) := by
  obtain ⟨hpaired, hstart⟩ := hnew.paired
  obtain ⟨htracks, hsound⟩ := hpaired.tracks_visits hforward 0 hstart
  refine ⟨s.events_visits operations, ?_, ?_⟩
  · intro before v after hsplit
    rw [hsplit] at htracks
    obtain ⟨-, hv, -⟩ := tracks_append.mp htracks
    rw [hv, Int.zero_add]
  · intro first between second hnext
    have hmoved := hnext.shift_sub htracks hsound
    -- All that lies between the calls was visited in a sound state.
    have hmember : ∀ v, v ∈ between ∨ v = second → v.Sound s.blockBytes := by
      obtain ⟨before, after, hsplit⟩ := hnext.split
      intro v hv
      refine hsound v ?_
      rw [hsplit]
      rcases hv with hv | rfl
      · simp [hv]
      · simp
    have hbetween := fun v hv => hmember v (Or.inl hv)
    have hidle := shiftOf_idle hbetween hnext.idle
    refine ⟨hmoved.trans hidle, fun hample => ⟨fun v hv => ?_, fun skip hskip => ?_⟩⟩
    · exact ((hbetween v hv).isPass_iff_of_ample (hample v hv)).1
    · have hsecond := hmember second (Or.inr rfl)
      obtain ⟨hsource, hsink⟩ :=
        skipped_of_undisturbed hbetween hnext.idle hsecond hnext.second_isCall hskip
      have hpasses :=
        passes_of_undisturbed hbetween hnext.idle hsecond hnext.second_isCall hskip hample
      rw [hmoved, hidle, hsource, hsink, hpasses]
      split
      · omega
      · omega

/-- The hypotheses of `shift_between_calls` are met by a skip of 22 bytes of
playback, which moves the pairing by 22 less a block of 4, and then one of 2
bytes of captured audio. -/
theorem shift_between_calls_trial :
    let operations : List Operation :=
      [.render 40, .push (.silence 4), .correct (-125), .push (.silence 8), .correct 125,
        .push (.silence 6)]
    ∃ first between second between' third,
      NextCall (trial.visits operations) first between second
        ∧ NextCall (trial.visits operations) second between' third
        ∧ second.pairing.shift - first.pairing.shift = 22 - 4
        ∧ third.pairing.shift - second.pairing.shift = -2 := by
  intro operations
  have hfound : (trial.visits operations).map (fun v =>
      (v.event.isCall, v.pairing.skip, v.next.skip, v.pairing.blockBytes, v.pairing.played.length))
        = [(true, ⟨0, 0⟩, ⟨0, 0⟩, 4, 40), (false, ⟨0, 22⟩, ⟨0, 0⟩, 4, 36),
          (true, ⟨0, 0⟩, ⟨0, 0⟩, 4, 14), (false, ⟨2, 0⟩, ⟨0, 0⟩, 4, 10),
          (true, ⟨0, 0⟩, ⟨0, 0⟩, 4, 10)] := by decide +kernel
  simp only [List.map_eq_cons_iff, List.map_eq_nil_iff, Prod.mk.injEq] at hfound
  obtain ⟨v₀, _, hv, ⟨hcall₀, -⟩, v₁, _, rfl, ⟨hcall₁, hskip₁, hnext₁, hblock₁, hlength₁⟩,
    v₂, _, rfl, ⟨hcall₂, hskip₂, -⟩, v₃, _, rfl, ⟨hcall₃, hskip₃, hnext₃, hblock₃, hlength₃⟩,
    v₄, _, rfl, ⟨hcall₄, hskip₄, -⟩, rfl⟩ := hfound
  have hfirst : NextCall (trial.visits operations) v₀ [v₁] v₂ :=
    ⟨⟨[], [v₃, v₄], hv⟩, hcall₀, hcall₂, by simpa using hcall₁⟩
  have hsecond : NextCall (trial.visits operations) v₂ [v₃] v₄ :=
    ⟨⟨[v₀, v₁], [], hv⟩, hcall₂, hcall₄, by simpa using hcall₃⟩
  have hforward : ∀ operation ∈ operations, operation.isForward = true := by decide
  obtain ⟨-, -, hall⟩ := shift_between_calls isNew_trial hforward
  have hample₁ : ∀ v ∈ [v₁], v.Ample := by simp [Visit.Ample, hskip₁, hblock₁, hlength₁]
  have hample₃ : ∀ v ∈ [v₃], v.Ample := by simp [Visit.Ample, hskip₃, hblock₃, hlength₃]
  refine ⟨v₀, [v₁], v₂, [v₃], v₄, hfirst, hsecond, ?_, ?_⟩
  · exact ((hall _ _ _ hfirst).2 hample₁).2 ⟨0, 22⟩
      ⟨hskip₁, hskip₂.trans hnext₁.symm, trivial⟩
  · exact ((hall _ _ _ hsecond).2 hample₃).2 ⟨2, 0⟩
      ⟨hskip₃, hskip₄.trans hnext₃.symm, trivial⟩

/-- A skip of 22 bytes of playback moves the pairing by 18 only, though all
audio finds room and there is enough played audio throughout. The captured block
that is passed on meanwhile is taken off the tape as well. So the skip is not
what `Pairing.shift` moves by, and `Visit.Ample` holds all along. -/
theorem shift_of_sink_skip :
    let operations : List Operation :=
      [.render 40, .push (.silence 4), .correct (-125), .push (.silence 8)]
    (∀ message, .lost message ∉ trial.journalOf operations)
      ∧ (∀ direction block, .refused direction block ∉ trial.journalOf operations)
      ∧ (∀ v ∈ trial.visits operations, v.Ample)
      ∧ ∃ first between second, NextCall (trial.visits operations) first between second
        ∧ second.pairing.shift - first.pairing.shift
          ≠ sinkSkippedOf (between.map (·.event)) - sourceSkippedOf (between.map (·.event)) := by
  intro operations
  have hroom : ∀ entry ∈ trial.journalOf operations, (match entry with
      | .lost _ => false
      | .refused _ _ => false
      | _ => true) = true := List.all_eq_true.mp (by decide +kernel)
  have hfound : (trial.visits operations).map (fun v =>
      (v.event.isCall, v.pairing.shift, v.event.sinkSkipped, v.event.sourceSkipped,
        decide (v.pairing.skip.sink + v.pairing.blockBytes ≤ v.pairing.played.length)))
        = [(true, 0, 0, 0, true), (false, 0, 22, 0, true), (true, 18, 0, 0, true)] := by
    decide +kernel
  simp only [List.map_eq_cons_iff, List.map_eq_nil_iff, Prod.mk.injEq, decide_eq_true_eq]
    at hfound
  obtain ⟨v₀, _, hv, ⟨hcall₀, hshift₀, -, -, hample₀⟩, v₁, _, rfl,
    ⟨hcall₁, -, hsink₁, hsource₁, hample₁⟩, v₂, _, rfl, ⟨hcall₂, hshift₂, -, -, hample₂⟩, rfl⟩ :=
    hfound
  refine ⟨?_, ?_, ?_, v₀, [v₁], v₂, ⟨⟨[], [], hv⟩, hcall₀, hcall₂, by simpa using hcall₁⟩, ?_⟩
  · intro message hm
    cases hroom _ hm
  · intro direction block hm
    cases hroom _ hm
  · simp [hv, Visit.Ample, hample₀, hample₁, hample₂]
  · simp [hshift₀, hshift₂, sinkSkippedOf, sourceSkippedOf, Event.total, hsink₁, hsource₁]

end Session

end EchoAlign
