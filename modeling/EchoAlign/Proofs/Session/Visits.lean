import EchoAlign.Proofs.Session.Plain
import EchoAlign.Proofs.Session.Steps

/-!
# `EchoAlign.Proofs.Session.Visits`: the blocks that are worked off

The capture side works off one captured block after another. A `Visit` is
one of them: the pairing as it was found, what became of the block, and
the pairing as it was left. The difference between the two read heads is
the `shift` of a pairing. It says which playback byte the next captured
byte is paired with.

* `Visit.Sound.takes`: what a visit takes off either tape, and what it
  leaves of the skip.
* `Pairing.Holds.tracks_visits`: every visit moves the shift by what its
  event takes off the tapes.
* `shiftOf_idle`: away from the runs of the canceller, that is the playback
  that is dropped, less the captured audio that is dropped or passed on.
* `skipped_of_undisturbed`, `passes_of_undisturbed`: from a skip to the
  next run of the canceller, the whole skip is dropped. Where there is
  enough played audio, one block is passed on for a skip of playback, and
  none for a skip of captured audio.
-/

set_option autoImplicit false

namespace EchoAlign

/-! ### What events take off the tapes -/

namespace Event

/-- The captured bytes an event takes off the tape: `skipped`, `cancelled` or
`passed` on. -/
def capturedBytes : Event → Nat
  | skipped captured => captured.size
  | cancelled captured _ _ => captured.size
  | passed captured _ => captured.size
  | _ => 0

/-- The playback bytes an event takes off the tape, given to the canceller
(`cancelled`) or dropped (`passed`). -/
def playedBytes : Event → Nat
  | cancelled _ played _ => played.size
  | passed _ dropped => dropped.size
  | _ => 0

/-- The captured bytes an event drops to realign, in `Event.skipped`. -/
def sourceSkipped : Event → Nat
  | skipped captured => captured.size
  | _ => 0

/-- The playback bytes an event drops to realign, in `Event.passed`. -/
def sinkSkipped : Event → Nat
  | passed _ dropped => dropped.size
  | _ => 0

/-- Whether an event is a run of the canceller, `Event.cancelled`. -/
def isCall : Event → Bool
  | cancelled _ _ _ => true
  | _ => false

/-- Whether an event passes a captured block on as it is, `Event.passed`. -/
def isPass : Event → Bool
  | passed _ _ => true
  | _ => false

/-- Whether an event tells what became of captured audio: `skipped`, `cancelled`
or `passed`. -/
def isWorked : Event → Bool
  | skipped _ => true
  | cancelled _ _ _ => true
  | passed _ _ => true
  | _ => false

variable {event : Event}

/-- Only what is passed on (`isPass`) comes with playback that is dropped. -/
theorem sinkSkipped_eq_zero (h : event.isPass = false) : event.sinkSkipped = 0 := by
  cases event with
  | passed captured dropped => cases h
  | _ => rfl

/-- Without a run of the canceller (`isCall`), playback is only dropped. -/
theorem playedBytes_of_not_isCall (h : event.isCall = false) :
    event.playedBytes = event.sinkSkipped := by
  cases event with
  | cancelled captured played cleaned => cases h
  | _ => rfl

/-- Without a run of the canceller (`isCall`), captured audio is dropped or
passed on. -/
theorem capturedBytes_of_not_isCall (h : event.isCall = false) :
    event.capturedBytes
      = event.sourceSkipped + if event.isPass then event.capturedBytes else 0 := by
  cases event with
  | cancelled captured played cleaned => cases h
  | passed captured dropped => exact (Nat.zero_add _).symm
  | _ => rfl

/-- A number that belongs to each event, for all of them together.
`sourceSkippedOf`, `sinkSkippedOf` and `renderedBytesOf` are such totals. -/
def total (number : Event → Nat) : List Event → Nat
  | [] => 0
  | event :: rest => number event + total number rest

/-- The `total` of two parts is the sum of theirs. -/
theorem total_append (number : Event → Nat) (first rest : List Event) :
    total number (first ++ rest) = total number first + total number rest := by
  induction first with
  | nil => exact (Nat.zero_add _).symm
  | cons event first ih =>
      show number event + total number (first ++ rest) = _
      rw [ih, ← Nat.add_assoc]
      rfl

/-- Where nothing belongs to any event, the `total` is nothing. -/
theorem total_eq_zero {number : Event → Nat} {events : List Event}
    (h : ∀ event ∈ events, number event = 0) : total number events = 0 := by
  induction events with
  | nil => rfl
  | cons event rest ih =>
      obtain ⟨hfirst, hrest⟩ := List.forall_mem_cons.mp h
      show number event + total number rest = 0
      rw [hfirst, ih hrest]

/-- Events to which nothing belongs do not count, and may be filtered out. By
induction on the events with a case split on `counts`. -/
theorem total_filter {number : Event → Nat} {counts : Event → Bool}
    (h : ∀ event, counts event = false → number event = 0) (events : List Event) :
    total number (events.filter counts) = total number events := by
  induction events with
  | nil => rfl
  | cons event rest ih =>
      cases hcounts : counts event with
      | true =>
          rw [List.filter_cons_of_pos hcounts]
          exact congrArg (number event + ·) ih
      | false =>
          rw [List.filter_cons_of_neg (by simp [hcounts]), ih]
          show _ = number event + total number rest
          rw [h event hcounts, Nat.zero_add]

end Event

/-- The captured bytes that events drop to realign, as the total of
`Event.sourceSkipped`. -/
def sourceSkippedOf (events : List Event) : Nat := Event.total Event.sourceSkipped events

/-- The playback bytes that events drop to realign, as the total of
`Event.sinkSkipped`. -/
def sinkSkippedOf (events : List Event) : Nat := Event.total Event.sinkSkipped events

/-- How many captured blocks events pass on, by `Event.isPass`. -/
def passesOf (events : List Event) : Nat := events.countP Event.isPass

/-- By how much events take more playback than captured audio off the tapes
(`playedBytes`, `capturedBytes`), or less if it is negative. -/
def shiftOf (events : List Event) : Int :=
  Event.total Event.playedBytes events - Event.total Event.capturedBytes events

/-- The shift of one event: the difference of its `playedBytes` and its
`capturedBytes`. -/
theorem shiftOf_singleton (event : Event) :
    shiftOf [event] = event.playedBytes - event.capturedBytes := rfl

/-- The shift of events in two parts is the sum of theirs, as `total` is. -/
theorem shiftOf_append (first rest : List Event) :
    shiftOf (first ++ rest) = shiftOf first + shiftOf rest := by
  unfold shiftOf
  rw [Event.total_append, Event.total_append]
  omega

/-- Only what becomes of captured audio (`isWorked`) takes audio off the tapes,
so that the other events do not move anything. -/
theorem shiftOf_filter (events : List Event) :
    shiftOf (events.filter Event.isWorked) = shiftOf events := by
  unfold shiftOf
  rw [Event.total_filter, Event.total_filter]
  · intro event h
    cases event <;> first | rfl | cases h
  · intro event h
    cases event <;> first | rfl | cases h

/-! ### Visits -/

/-- A captured block is worked off: by `Pairing.step?`, from one pairing to the
next, with an event. -/
structure Visit (κ : Type) where
  /-- How the pairing was found. -/
  pairing : Pairing κ
  event : Event
  /-- How the pairing was left. -/
  next : Pairing κ

namespace Pairing

variable {κ : Type} [Canceller κ]

/-- By how much more playback than captured audio was taken off the tapes, by
each `readHead`. -/
def shift (p : Pairing κ) : Int := p.played.readHead - p.captured.readHead

/-- The blocks that are worked off in up to `steps` steps. -/
def visits : Nat → Pairing κ → List (Visit κ)
  | 0, _ => []
  | steps + 1, p =>
      match p.step? with
      | none => []
      | some (event, next) => ⟨p, event, next⟩ :: visits steps next

/-- The events of the visits are the events of the steps of `Pairing.driveFrom`. -/
theorem events_visits (p : Pairing κ) (steps : Nat) (before : List Event) :
    (p.driveFrom steps before).1 = before.reverse ++ (p.visits steps).map (·.event) := by
  induction steps generalizing p before with
  | zero => exact (List.append_nil _).symm
  | succ steps ih =>
      unfold driveFrom visits
      cases hstep : p.step? with
      | none => exact (List.append_nil _).symm
      | some result =>
          obtain ⟨event, next⟩ := result
          simp only [ih, List.reverse_cons, List.append_assoc, List.map_cons,
            List.singleton_append]

omit [Canceller κ] in
/-- A block that can be cancelled (`canCancel`) finds as much playback, and none
of it is to be dropped. -/
theorem ready_of_canCancel {p : Pairing κ} (h : p.canCancel = true) :
    p.blockBytes ≤ p.played.length ∧ p.skip.sink = 0 := by
  simpa [canCancel] using h

/-- A block is skipped, cancelled or passed on: what `Pairing.step?` gives is
one of the three, and the conditions say which. -/
theorem step?_cases {p next : Pairing κ} {event : Event} (h : p.step? = some (event, next)) :
    p.blockBytes ≤ p.captured.length
      ∧ ((0 < p.skip.source ∧ (event, next) = p.skipCaptured)
        ∨ (p.skip.source = 0 ∧ p.canCancel = true ∧ (event, next) = p.cancel)
        ∨ (p.skip.source = 0 ∧ p.canCancel = false ∧ (event, next) = p.pass)) := by
  unfold step? at h
  split at h
  · cases h
  · next hblock =>
      refine ⟨by simpa [hasBlock] using hblock, ?_⟩
      split at h
      · next hsource => exact Or.inl ⟨hsource, (Option.some.inj h).symm⟩
      · next hsource =>
          have hzero : p.skip.source = 0 := by omega
          split at h
          · next hcan => exact Or.inr (Or.inl ⟨hzero, hcan, (Option.some.inj h).symm⟩)
          · next hcan =>
              exact Or.inr (Or.inr ⟨hzero, Bool.not_eq_true _ ▸ hcan, (Option.some.inj h).symm⟩)

/-- Visits tell of captured audio and of nothing else. By induction on the
steps, with `step?_cases` for the event of each. -/
theorem isWorked_of_mem_visits {p : Pairing κ} {steps : Nat} {v : Visit κ}
    (hv : v ∈ p.visits steps) : v.event.isWorked = true := by
  induction steps generalizing p with
  | zero => exact absurd hv List.not_mem_nil
  | succ steps ih =>
      unfold visits at hv
      cases hstep : p.step? with
      | none =>
          rw [hstep] at hv
          exact absurd hv List.not_mem_nil
      | some result =>
          obtain ⟨event, next⟩ := result
          rw [hstep] at hv
          rcases List.mem_cons.mp hv with rfl | hv
          · obtain ⟨-, ⟨-, heq⟩ | ⟨-, -, heq⟩ | ⟨-, -, heq⟩⟩ := step?_cases hstep
            · exact congrArg (·.1.isWorked) heq
            · exact congrArg (·.1.isWorked) heq
            · exact congrArg (·.1.isWorked) heq
          · exact ih hv

/-- Working off all whole blocks with `drive` brings the events of its visits,
and all of them tell of captured audio. -/
theorem filter_drive (p : Pairing κ) :
    p.drive.1.filter Event.isWorked = (p.visits p.captured.length).map (·.event) := by
  unfold drive
  rw [events_visits, List.reverse_nil, List.nil_append, List.filter_eq_self]
  intro event hevent
  obtain ⟨v, hv, rfl⟩ := List.mem_map.mp hevent
  exact isWorked_of_mem_visits hv

end Pairing

/-- As many bytes as are asked for are taken off a tape, if there are as many
(`hn`), and the read head moves by them. -/
theorem Tape.Holds.take {t : Tape} {base n : Nat} {bytes : List UInt8} (h : t.Holds base bytes)
    (hn : n ≤ bytes.length) :
    (t.take n).1.size = n ∧ (t.take n).2.readHead = t.readHead + (t.take n).1.size := by
  have hsize : (t.take n).1.size = n := h.sound.size_peek (Nat.le_trans hn h.length_le)
  refine ⟨hsize, ?_⟩
  rw [hsize]
  exact (h.sound.advance (Nat.le_trans hn h.length_le)).2.1

namespace Visit

variable {κ : Type} [Canceller κ]

/-- The visit is a step of a pairing with blocks of `size` bytes, whose
tapes hold lists of bytes. -/
structure Sound (size : Nat) (v : Visit κ) : Prop where
  step : v.pairing.step? = some (v.event, v.next)
  size_eq : v.pairing.blockBytes = size
  holds : ∃ b, v.pairing.Holds b

/-- What a visit takes off the tapes (`captured_eq`, `played_eq`), and what it
leaves of the skip. -/
structure Takes (v : Visit κ) : Prop where
  captured_eq : v.next.captured.readHead = v.pairing.captured.readHead + v.event.capturedBytes
  played_eq : v.next.played.readHead = v.pairing.played.readHead + v.event.playedBytes
  source_eq : v.pairing.skip.source = v.event.sourceSkipped + v.next.skip.source
  sink_eq : v.pairing.skip.sink = v.event.sinkSkipped + v.next.skip.sink
  /-- The canceller is given two whole blocks, once nothing is to be
  dropped. -/
  call : v.event.isCall = true →
    v.event.capturedBytes = v.pairing.blockBytes ∧ v.event.playedBytes = v.pairing.blockBytes
      ∧ v.pairing.skip.source = 0 ∧ v.pairing.skip.sink = 0
  /-- A whole block is passed on, and as much playback dropped as is to be
  dropped and there is. -/
  pass : v.event.isPass = true →
    v.event.capturedBytes = v.pairing.blockBytes
      ∧ v.event.sinkSkipped = min v.pairing.skip.sink v.pairing.played.length
  /-- A block is passed on when it is not to be skipped and cannot be
  cancelled. -/
  isPass_iff : v.event.isPass = true ↔ v.pairing.skip.source = 0 ∧ v.pairing.canCancel = false

section

variable {p : Pairing κ} {b : Backlog κ} (h : p.Holds b) (hle : p.blockBytes ≤ p.captured.length)

include h hle

omit [Canceller κ] in
/-- Dropping captured audio takes off what its event tells: `Takes` holds of
`skipCaptured`. -/
theorem takes_skipCaptured (hsource : 0 < p.skip.source) :
    Takes ⟨p, p.skipCaptured.1, p.skipCaptured.2⟩ := by
  have hlen := h.captured.length_eq
  obtain ⟨hsize, hread⟩ :=
    h.captured.take (by omega : min p.skip.source p.blockBytes ≤ b.captured.length)
  have hskip : p.skip.source = p.skipCaptured.1.sourceSkipped + p.skipCaptured.2.skip.source := by
    rw [show p.skipCaptured.1.sourceSkipped = _ from hsize]
    show _ = _ + (p.skip.source - min p.skip.source p.blockBytes)
    omega
  exact ⟨hread, (Int.add_zero _).symm, hskip, (Nat.zero_add _).symm, nofun, nofun,
    ⟨nofun, fun hpass => absurd hpass.1 (Nat.ne_of_gt hsource)⟩⟩

/-- Cancelling takes off what its event tells, a block from either tape: `Takes`
holds of `cancel`. -/
theorem takes_cancel (hsource : p.skip.source = 0) (hcan : p.canCancel = true) :
    Takes ⟨p, p.cancel.1, p.cancel.2⟩ := by
  have hlen := h.captured.length_eq
  have hlen' := h.played.length_eq
  obtain ⟨hready, hsink⟩ := Pairing.ready_of_canCancel hcan
  obtain ⟨hsize, hread⟩ := h.captured.take (by omega : p.blockBytes ≤ b.captured.length)
  obtain ⟨hsize', hread'⟩ := h.played.take (by omega : p.blockBytes ≤ b.played.length)
  exact ⟨hread, hread', (Nat.zero_add _).symm, (Nat.zero_add _).symm,
    fun _ => ⟨hsize, hsize', hsource, hsink⟩, nofun,
    ⟨nofun, fun hpass => absurd (hpass.2.symm.trans hcan) nofun⟩⟩

omit [Canceller κ] in
/-- Passing on takes off what its event tells: a captured block, and the
playback that is to be dropped. `Takes` holds of `pass`. -/
theorem takes_pass (hsource : p.skip.source = 0) (hcan : p.canCancel = false) :
    Takes ⟨p, p.pass.1, p.pass.2⟩ := by
  have hlen := h.captured.length_eq
  have hlen' := h.played.length_eq
  obtain ⟨hsize, hread⟩ := h.captured.take (by omega : p.blockBytes ≤ b.captured.length)
  obtain ⟨hsize', hread'⟩ :=
    h.played.take (by omega : min p.skip.sink p.played.length ≤ b.played.length)
  have hskip : p.skip.sink = p.pass.1.sinkSkipped + p.pass.2.skip.sink := by
    rw [show p.pass.1.sinkSkipped = _ from hsize']
    show _ = _ + (p.skip.sink - min p.skip.sink p.played.length)
    omega
  exact ⟨hread, hread', (Nat.zero_add _).symm, hskip, nofun, fun _ => ⟨hsize, hsize'⟩,
    ⟨fun _ => ⟨hsource, hcan⟩, fun _ => rfl⟩⟩

end

variable {size : Nat} {v : Visit κ}

/-- Every visit to tapes in order takes off them what it should, one case for
each of `step?_cases`. -/
theorem Sound.takes (h : v.Sound size) : v.Takes := by
  obtain ⟨b, hb⟩ := h.holds
  obtain ⟨hle, ⟨hsource, heq⟩ | ⟨hsource, hcan, heq⟩ | ⟨hsource, hcan, heq⟩⟩ :=
    Pairing.step?_cases h.step
  · have hv : v = ⟨v.pairing, v.pairing.skipCaptured.1, v.pairing.skipCaptured.2⟩ := by
      rw [← heq]
    rw [hv]
    exact takes_skipCaptured hb hle hsource
  · have hv : v = ⟨v.pairing, v.pairing.cancel.1, v.pairing.cancel.2⟩ := by
      rw [← heq]
    rw [hv]
    exact takes_cancel hb hle hsource hcan
  · have hv : v = ⟨v.pairing, v.pairing.pass.1, v.pairing.pass.2⟩ := by
      rw [← heq]
    rw [hv]
    exact takes_pass hb hle hsource hcan

omit [Canceller κ] in
/-- A visit that `Takes` what its event tells moves the shift by it. -/
theorem Takes.shift_eq (h : v.Takes) : v.next.shift = v.pairing.shift + shiftOf [v.event] := by
  have hcaptured := h.captured_eq
  have hplayed := h.played_eq
  rw [shiftOf_singleton]
  unfold Pairing.shift
  omega

end Visit

/-! ### From one run of the canceller to the next -/

/-- There is enough played audio to drop what is to be dropped (`skip.sink`),
and to cancel the block. -/
def Visit.Ample {κ : Type} (v : Visit κ) : Prop :=
  v.pairing.skip.sink + v.pairing.blockBytes ≤ v.pairing.played.length

/-- The first visit finds a certain `skip`, and each other one finds the skip
that the one before it has left. No correction has come between them. -/
def Undisturbed {κ : Type} : Skip → List (Visit κ) → Prop
  | _, [] => True
  | skip, v :: rest => v.pairing.skip = skip ∧ Undisturbed v.next.skip rest

section

variable {κ : Type} [Canceller κ] {size : Nat} {v : Visit κ}

/-- Where there is enough played audio (`hample`), a captured block is passed on
just to drop playback, and all of it is dropped at once. -/
theorem Visit.Sound.isPass_iff_of_ample (h : v.Sound size) (hample : v.Ample) :
    (v.event.isPass = true ↔ v.pairing.skip.source = 0 ∧ 0 < v.pairing.skip.sink)
      ∧ (v.event.isPass = true → v.next.skip.sink = 0) := by
  unfold Ample at hample
  have hblock : v.pairing.blockBytes ≤ v.pairing.played.length := by omega
  refine ⟨?_, fun hpass => ?_⟩
  · rw [h.takes.isPass_iff]
    simp [Pairing.canCancel, hblock, Nat.pos_iff_ne_zero]
  · obtain ⟨-, hskipped⟩ := h.takes.pass hpass
    have hsink := h.takes.sink_eq
    omega

variable {between : List (Visit κ)} (hsound : ∀ v ∈ between, v.Sound size)
  (hidle : ∀ v ∈ between, v.event.isCall = false)

include hsound hidle

/-- Away from the runs of the canceller, captured audio is dropped or passed on
in whole blocks, and playback is only dropped. By induction on the visits, with
`capturedBytes_of_not_isCall` and `playedBytes_of_not_isCall` for each. -/
theorem shiftOf_idle :
    shiftOf (between.map (·.event))
      = sinkSkippedOf (between.map (·.event)) - sourceSkippedOf (between.map (·.event))
        - size * passesOf (between.map (·.event)) := by
  induction between with
  | nil => simp [shiftOf, sinkSkippedOf, sourceSkippedOf, passesOf, Event.total]
  | cons v between ih =>
      obtain ⟨hv, hsound⟩ := List.forall_mem_cons.mp hsound
      obtain ⟨hcall, hidle⟩ := List.forall_mem_cons.mp hidle
      have hrest := ih hsound hidle
      have hplayed := Event.playedBytes_of_not_isCall hcall
      have hcaptured := Event.capturedBytes_of_not_isCall hcall
      have hpass := hv.takes.pass
      rw [hv.size_eq] at hpass
      simp only [shiftOf, sinkSkippedOf, sourceSkippedOf, passesOf, List.map_cons, Event.total,
        List.countP_cons] at hrest ⊢
      cases hisPass : v.event.isPass with
      | false =>
          rw [hisPass] at hcaptured
          simp only [Bool.false_eq_true, if_false, Nat.add_zero] at hcaptured ⊢
          omega
      | true =>
          obtain ⟨hsize, -⟩ := hpass hisPass
          rw [hisPass] at hcaptured
          simp only [if_true, Int.natCast_add, Int.mul_add] at hcaptured ⊢
          omega

variable {skip : Skip} {call : Visit κ} (hcall : call.Sound size)
  (hisCall : call.event.isCall = true) (hskip : Undisturbed skip (between ++ [call]))

include hcall hisCall hskip

/-- Up to the next run of the canceller, the whole skip is dropped. By induction
on the visits: each takes its portion off (`Takes`), and the one that runs the
canceller finds nothing left. -/
theorem skipped_of_undisturbed :
    sourceSkippedOf (between.map (·.event)) = skip.source
      ∧ sinkSkippedOf (between.map (·.event)) = skip.sink := by
  induction between generalizing skip with
  | nil =>
      obtain ⟨-, -, hsource, hsink⟩ := hcall.takes.call hisCall
      rw [← hskip.1, hsource, hsink]
      exact ⟨rfl, rfl⟩
  | cons v between ih =>
      obtain ⟨hv, hsound⟩ := List.forall_mem_cons.mp hsound
      obtain ⟨-, hidle⟩ := List.forall_mem_cons.mp hidle
      obtain ⟨rfl, hskip⟩ := hskip
      obtain ⟨hsource, hsink⟩ := ih hsound hidle hskip
      simp only [sourceSkippedOf, sinkSkippedOf, List.map_cons, Event.total] at hsource hsink ⊢
      rw [hsource, hsink]
      exact ⟨hv.takes.source_eq.symm, hv.takes.sink_eq.symm⟩

/-- Where there is enough played audio (`hample`), a skip of playback costs one
captured block, and a skip of captured audio none. -/
theorem passes_of_undisturbed (hample : ∀ v ∈ between, v.Ample) :
    passesOf (between.map (·.event)) = if 0 < skip.sink then 1 else 0 := by
  induction between generalizing skip with
  | nil =>
      obtain ⟨-, -, -, hsink⟩ := hcall.takes.call hisCall
      rw [← hskip.1, hsink]
      rfl
  | cons v between ih =>
      obtain ⟨hv, hsound⟩ := List.forall_mem_cons.mp hsound
      obtain ⟨-, hidle⟩ := List.forall_mem_cons.mp hidle
      obtain ⟨hvample, hample⟩ := List.forall_mem_cons.mp hample
      obtain ⟨rfl, hskip⟩ := hskip
      have hrest := ih hsound hidle hskip hample
      obtain ⟨hiff, hused⟩ := hv.isPass_iff_of_ample hvample
      have hsink := hv.takes.sink_eq
      simp only [passesOf, List.map_cons, List.countP_cons] at hrest ⊢
      rw [hrest]
      cases hisPass : v.event.isPass with
      | true =>
          obtain ⟨-, hpos⟩ := hiff.mp hisPass
          rw [hused hisPass]
          simp [hpos]
      | false =>
          rw [Event.sinkSkipped_eq_zero hisPass, Nat.zero_add] at hsink
          rw [hsink]
          simp

end

/-- Visits follow each other: each finds the pairing with the shift that the one
before it has left, as `shiftOf` its event tells. -/
def Tracks {κ : Type} : Int → List (Visit κ) → Prop
  | _, [] => True
  | start, v :: rest => v.pairing.shift = start ∧ Tracks (start + shiftOf [v.event]) rest

/-- Visits in two parts follow each other (`Tracks`) if both parts do, the
second from where the first has left the pairing. -/
theorem tracks_append {κ : Type} {start : Int} {first rest : List (Visit κ)} :
    Tracks start (first ++ rest)
      ↔ Tracks start first ∧ Tracks (start + shiftOf (first.map (·.event))) rest := by
  induction first generalizing start with
  | nil => simp [Tracks, shiftOf, Event.total]
  | cons v first ih =>
      have hsum : start + shiftOf [v.event] + shiftOf (first.map (·.event))
          = start + shiftOf ((v :: first).map (·.event)) := by
        rw [Int.add_assoc, ← shiftOf_append]
        rfl
      simp only [List.cons_append, Tracks, ih, hsum, and_assoc]

namespace Pairing

variable {κ : Type} [Canceller κ]

/-- A `step?` leads from lists to lists, and never changes the size of a block. -/
theorem Holds.next {p p' : Pairing κ} {b : Backlog κ} {event : Event} (h : p.Holds b)
    (hstep : p.step? = some (event, p')) : p'.blockBytes = p.blockBytes ∧ ∃ b', p'.Holds b' := by
  obtain ⟨fate, b', hb, -, h'⟩ := h.step?_eq_some hstep
  refine ⟨?_, b', h'⟩
  rw [h'.blockBytes_eq, h.blockBytes_eq]
  exact (Backlog.canceller_step? hb).1

/-- The visits of a pairing follow each other, and each finds tapes in order. By
induction on the steps, with `Holds.next` and `Sound.takes` for each. -/
theorem Holds.tracks_visits {p : Pairing κ} {b : Backlog κ} (h : p.Holds b) (steps : Nat) :
    Tracks p.shift (p.visits steps) ∧ ∀ v ∈ p.visits steps, v.Sound p.blockBytes := by
  induction steps generalizing p b with
  | zero => exact ⟨trivial, fun v hv => absurd hv List.not_mem_nil⟩
  | succ steps ih =>
      unfold visits
      cases hstep : p.step? with
      | none => exact ⟨trivial, fun v hv => absurd hv List.not_mem_nil⟩
      | some result =>
          obtain ⟨event, next⟩ := result
          obtain ⟨hsize, b', h'⟩ := h.next hstep
          obtain ⟨htracks, hsound⟩ := ih h'
          have hfirst : Visit.Sound p.blockBytes ⟨p, event, next⟩ := ⟨hstep, rfl, b, h⟩
          refine ⟨⟨rfl, ?_⟩, ?_⟩
          · rw [← hfirst.takes.shift_eq]
            exact htracks
          · intro v hv
            rcases List.mem_cons.mp hv with rfl | hv
            · exact hfirst
            · exact hsize ▸ hsound v hv

end Pairing

end EchoAlign
