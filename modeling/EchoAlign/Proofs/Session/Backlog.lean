import EchoAlign.Session.Pairing
import EchoAlign.Proofs.Audio.Tape

/-!
# `EchoAlign.Proofs.Session.Backlog`: pairing on plain lists

A `Backlog` is what a `Pairing` is about once the tapes are forgotten:
two lists of bytes, the skip, and the canceller. `Backlog.step?` takes
bytes from the front of the lists, and `Backlog.drive` goes on while a
whole block of captured bytes is there.

`Pairing.Holds` says that the tapes hold the lists:

* `Holds.step?_eq_none`, `Holds.step?_eq_some`: a step of the one is a
  step of the other, and they do the same to the audio.
* `Holds.drive`: so are all steps together.
* `Backlog.played_step?`: the playback that a step uses up is what was at
  the front of the list.
-/

set_option autoImplicit false

namespace EchoAlign

/-- What becomes of captured bytes. It is an `Event` with the bytes themselves
in place of blocks. -/
inductive Fate where
  /-- They are dropped to realign. -/
  | skipped (captured : List UInt8)
  /-- They go through the canceller with the playback they are paired
  with, and the result is forwarded. -/
  | cancelled (captured played cleaned : List UInt8)
  /-- They are forwarded as they are, and playback is dropped to
  realign. -/
  | passed (captured dropped : List UInt8)
  deriving DecidableEq, Repr

namespace Fate

/-- The playback bytes that are used up, whether the canceller gets them
(`cancelled`) or they are dropped (`passed`). -/
def played : Fate → List UInt8
  | skipped _ => []
  | cancelled _ played _ => played
  | passed _ dropped => dropped

end Fate

/-- What an event tells of the fate of captured bytes, as a `Fate`. Events about
anything else tell nothing of it. -/
def Event.fate? : Event → Option Fate
  | .skipped captured => some (.skipped captured.toList)
  | .cancelled captured played cleaned =>
      some (.cancelled captured.toList played.toList cleaned.toList)
  | .passed captured dropped => some (.passed captured.toList dropped.toList)
  | _ => none

/-- Bytes as the canceller gets them, so that `Canceller.run` can be asked about
a list. -/
def bytesOfList (bytes : List UInt8) : ByteArray := ⟨bytes.toArray⟩

/-- Captured and played bytes being paired. It is a `Pairing` with two lists in
place of the tapes. -/
structure Backlog (κ : Type) where
  /-- The size of a frame. -/
  base : Nat
  /-- The size of a block. -/
  blockBytes : Nat
  pos : 0 < blockBytes
  /-- The captured bytes that wait. -/
  captured : List UInt8
  /-- The played bytes that wait. -/
  played : List UInt8
  skip : Skip
  canceller : κ

namespace Backlog

variable {κ : Type} [Canceller κ]

/-- Drops captured bytes that are to be dropped, up to a block (`Skip.source`). -/
def skipCaptured (b : Backlog κ) : Fate × Backlog κ :=
  let n := min b.skip.source b.blockBytes
  (.skipped (b.captured.take n),
    { b with
      captured := b.captured.drop n
      skip := { b.skip with source := b.skip.source - n } })

/-- Runs a block of `blockBytes` of either list through the canceller. -/
def cancel (b : Backlog κ) : Fate × Backlog κ :=
  let captured := b.captured.take b.blockBytes
  let played := b.played.take b.blockBytes
  let result := Canceller.run b.canceller (bytesOfList captured) (bytesOfList played)
  (.cancelled captured played result.1.data.toList,
    { b with
      captured := b.captured.drop b.blockBytes
      played := b.played.drop b.blockBytes
      canceller := result.2 })

/-- Passes a captured block on, and drops what playback is to be dropped
(`skip.sink`). -/
def pass (b : Backlog κ) : Fate × Backlog κ :=
  let n := min b.skip.sink b.played.length
  (.passed (b.captured.take b.blockBytes) (b.played.take n),
    { b with
      captured := b.captured.drop b.blockBytes
      played := b.played.drop n
      skip := { b.skip with sink := b.skip.sink - n } })

/-- What becomes of the next captured block, if there is one. A skip of captured
bytes comes first, then cancelling if there is playback for it and none is to be
skipped (`Skip.sink`), and otherwise the block is passed on. -/
def step? (b : Backlog κ) : Option (Fate × Backlog κ) :=
  if b.captured.length < b.blockBytes then none
  else if 0 < b.skip.source then some b.skipCaptured
  else if b.blockBytes ≤ b.played.length ∧ b.skip.sink = 0 then some b.cancel
  else some b.pass

/-- A step is one of the three, and each has its condition. These are
`skipCaptured`, `cancel` and `pass`, in the order in which `Backlog.step?` tries
them. -/
theorem step?_cases {b next : Backlog κ} {fate : Fate} (h : b.step? = some (fate, next)) :
    b.blockBytes ≤ b.captured.length
      ∧ ((0 < b.skip.source ∧ (fate, next) = b.skipCaptured)
        ∨ (b.skip.source = 0 ∧ b.blockBytes ≤ b.played.length ∧ b.skip.sink = 0
            ∧ (fate, next) = b.cancel)
        ∨ (b.skip.source = 0 ∧ ¬(b.blockBytes ≤ b.played.length ∧ b.skip.sink = 0)
            ∧ (fate, next) = b.pass)) := by
  unfold step? at h
  split at h
  · cases h
  · next hlen =>
      refine ⟨Nat.le_of_not_lt hlen, ?_⟩
      split at h
      · next hsource => exact Or.inl ⟨hsource, (Option.some.inj h).symm⟩
      · next hsource =>
          have hzero : b.skip.source = 0 := by omega
          split at h
          · next hcan => exact Or.inr (Or.inl ⟨hzero, hcan.1, hcan.2, (Option.some.inj h).symm⟩)
          · next hcan => exact Or.inr (Or.inr ⟨hzero, hcan, (Option.some.inj h).symm⟩)

/-- Every step (`Backlog.step?`) uses captured bytes up, so that `Backlog.drive`
comes to an end. -/
theorem length_captured_lt {b next : Backlog κ} {fate : Fate}
    (h : b.step? = some (fate, next)) : next.captured.length < b.captured.length := by
  -- Neither a block nor a skip is empty.
  have hpos := b.pos
  obtain ⟨hle, ⟨hsource, heq⟩ | ⟨-, -, -, heq⟩ | ⟨-, -, heq⟩⟩ := step?_cases h
  · cases heq
    show (b.captured.drop (min b.skip.source b.blockBytes)).length < _
    rw [List.length_drop]
    omega
  · cases heq
    show (b.captured.drop b.blockBytes).length < _
    rw [List.length_drop]
    omega
  · cases heq
    show (b.captured.drop b.blockBytes).length < _
    rw [List.length_drop]
    omega

/-- Works off all whole blocks of captured bytes. Unlike `Pairing.drive` it
needs no bound on the number of steps. -/
def drive (b : Backlog κ) : List Fate × Backlog κ :=
  match _h : b.step? with
  | none => ([], b)
  | some (fate, next) =>
      let (later, rest) := drive next
      (fate :: later, rest)
termination_by b.captured.length
decreasing_by exact length_captured_lt _h

/-- Where no whole block waits (`step?`), there is nothing to work off. -/
theorem drive_of_none {b : Backlog κ} (h : b.step? = none) : b.drive = ([], b) := by
  rw [drive]
  split
  · rfl
  · next hsome => cases h.symm.trans hsome

/-- Working off (`drive`) begins with the next step, and goes on behind it. -/
theorem drive_of_some {b next : Backlog κ} {fate : Fate} (h : b.step? = some (fate, next)) :
    b.drive = (fate :: next.drive.1, next.drive.2) := by
  rw [drive]
  split
  · next hnone => cases h.symm.trans hnone
  · next hsome =>
      cases h.symm.trans hsome
      rfl

/-- The playback a step uses up (`Fate.played`) was at the front of the list. -/
theorem played_step? {b next : Backlog κ} {fate : Fate} (h : b.step? = some (fate, next)) :
    fate.played ++ next.played = b.played := by
  obtain ⟨-, ⟨-, heq⟩ | ⟨-, -, -, heq⟩ | ⟨-, -, heq⟩⟩ := step?_cases h
  · cases heq
    rfl
  · cases heq
    exact List.take_append_drop ..
  · cases heq
    exact List.take_append_drop ..

/-- The canceller runs on two whole blocks, and only there. In a
`Fate.cancelled` both have `blockBytes` bytes, and the canceller behind it is
the one that `Canceller.run` gives; otherwise it is as before. -/
theorem canceller_step? {b next : Backlog κ} {fate : Fate} (h : b.step? = some (fate, next)) :
    next.blockBytes = b.blockBytes
      ∧ match fate with
        | .cancelled captured played cleaned =>
            captured.length = b.blockBytes ∧ played.length = b.blockBytes
              ∧ (cleaned, next.canceller)
                = (Canceller.run b.canceller (bytesOfList captured) (bytesOfList played)).map
                    (·.data.toList) id
        | _ => next.canceller = b.canceller := by
  obtain ⟨hle, ⟨-, heq⟩ | ⟨-, hready, -, heq⟩ | ⟨-, -, heq⟩⟩ := step?_cases h
  · cases heq
    exact ⟨rfl, rfl⟩
  · cases heq
    refine ⟨rfl, ?_, ?_, rfl⟩
    · rw [List.length_take]
      omega
    · rw [List.length_take]
      omega
  · cases heq
    exact ⟨rfl, rfl⟩

end Backlog

/-! ### The tapes hold the lists -/

/-- The bytes of a block, as the canceller gets them, are those of its window
(`bytesOfList`). -/
theorem bytesOfList_toList (b : Block) : bytesOfList b.toList = b.bytes :=
  ByteArray.ext (Array.toArray_toList ..)

namespace Pairing

variable {κ : Type} [Canceller κ]

/-- The tapes of a pairing hold the lists of a backlog (`Tape.Holds`), and all
else agrees. What the one does, the other does. -/
structure Holds (p : Pairing κ) (b : Backlog κ) : Prop where
  blockBytes_eq : p.blockBytes = b.blockBytes
  captured : p.captured.Holds b.base b.captured
  played : p.played.Holds b.base b.played
  skip_eq : p.skip = b.skip
  canceller_eq : p.canceller = b.canceller

variable {p : Pairing κ} {b : Backlog κ}

omit [Canceller κ] in
/-- A block waits on the tape (`hasBlock`) exactly if it waits in the list. -/
theorem Holds.hasBlock_eq (h : p.Holds b) :
    p.hasBlock = decide (b.blockBytes ≤ b.captured.length) := by
  unfold hasBlock
  rw [h.blockBytes_eq, h.captured.length_eq]

omit [Canceller κ] in
/-- There is playback for the next block on the tape (`canCancel`) exactly if
there is in the list. -/
theorem Holds.canCancel_iff (h : p.Holds b) :
    p.canCancel = true ↔ b.blockBytes ≤ b.played.length ∧ b.skip.sink = 0 := by
  unfold canCancel
  rw [h.blockBytes_eq, h.skip_eq, h.played.length_eq, Bool.and_eq_true, decide_eq_true_iff,
    beq_iff_eq]

omit [Canceller κ] in
/-- Dropping captured audio comes to the same on the tapes and on the lists:
`skipCaptured` on both sides. -/
theorem Holds.skipCaptured (h : p.Holds b) (hle : b.blockBytes ≤ b.captured.length) :
    p.skipCaptured.1.fate? = some b.skipCaptured.1 ∧ p.skipCaptured.2.Holds b.skipCaptured.2 := by
  have hn : min b.skip.source b.blockBytes ≤ b.captured.length := by omega
  unfold Pairing.skipCaptured Backlog.skipCaptured
  simp only [Tape.take, Skip.takeSource, h.skip_eq, h.blockBytes_eq, Event.fate?,
    h.captured.toList_peek hn]
  exact ⟨trivial, rfl, h.captured.advance hn, h.played, rfl, h.canceller_eq⟩

/-- A run of the canceller comes to the same on the tapes and on the lists, for
it goes by the bytes. `hle` and `hready` say that both blocks are there. -/
theorem Holds.cancel (h : p.Holds b) (hle : b.blockBytes ≤ b.captured.length)
    (hready : b.blockBytes ≤ b.played.length) :
    p.cancel.1.fate? = some b.cancel.1 ∧ p.cancel.2.Holds b.cancel.2 := by
  have hx := h.captured.toList_peek hle
  have hy := h.played.toList_peek hready
  -- Both blocks have the size of a block, so that the canceller does run.
  have hsize : (p.captured.peek b.blockBytes).size = (p.played.peek b.blockBytes).size := by
    rw [← Block.length_toList, ← Block.length_toList, hx, hy, List.length_take, List.length_take]
    omega
  unfold Pairing.cancel Backlog.cancel
  simp only [Tape.take, h.blockBytes_eq, cancelBlock, if_pos hsize, Event.fate?, hx, hy,
    Block.toList_ofBytes, ← bytesOfList_toList, h.canceller_eq]
  exact ⟨trivial, rfl, h.captured.advance hle, h.played.advance hready, h.skip_eq, rfl⟩

omit [Canceller κ] in
/-- Passing a block on comes to the same on the tapes and on the lists: `pass`
on both sides. -/
theorem Holds.pass (h : p.Holds b) (hle : b.blockBytes ≤ b.captured.length) :
    p.pass.1.fate? = some b.pass.1 ∧ p.pass.2.Holds b.pass.2 := by
  have hn : min b.skip.sink b.played.length ≤ b.played.length := Nat.min_le_right ..
  unfold Pairing.pass Backlog.pass
  simp only [Tape.take, Skip.takeSink, h.skip_eq, h.blockBytes_eq, h.played.length_eq, Event.fate?,
    h.captured.toList_peek hle, h.played.toList_peek hn]
  exact ⟨trivial, rfl, h.captured.advance hle, h.played.advance hn, rfl, h.canceller_eq⟩

/-- Without a block on the tape there is none in the list, so that `step?` ends
on both sides. -/
theorem Holds.step?_eq_none (h : p.Holds b) (hstep : p.step? = none) : b.step? = none := by
  unfold step? at hstep
  rw [h.hasBlock_eq] at hstep
  by_cases hle : b.blockBytes ≤ b.captured.length
  · rw [if_neg (by simpa using hle)] at hstep
    split at hstep
    · cases hstep
    · split at hstep <;> cases hstep
  · exact if_pos (Nat.lt_of_not_le hle)

/-- A step on the tapes is the step on the lists: it has the same `Fate`, and
the tapes hold the lists behind it. -/
theorem Holds.step?_eq_some (h : p.Holds b) {event : Event} {p' : Pairing κ}
    (hstep : p.step? = some (event, p')) :
    ∃ fate b', b.step? = some (fate, b') ∧ event.fate? = some fate ∧ p'.Holds b' := by
  unfold step? at hstep
  rw [h.hasBlock_eq, h.skip_eq] at hstep
  by_cases hle : b.blockBytes ≤ b.captured.length
  · rw [if_neg (by simpa using hle)] at hstep
    unfold Backlog.step?
    rw [if_neg (Nat.not_lt_of_le hle)]
    by_cases hsource : 0 < b.skip.source
    · rw [if_pos hsource] at hstep ⊢
      cases Option.some.inj hstep
      exact ⟨_, _, rfl, h.skipCaptured hle⟩
    · rw [if_neg hsource] at hstep ⊢
      by_cases hready : b.blockBytes ≤ b.played.length ∧ b.skip.sink = 0
      · rw [if_pos (h.canCancel_iff.mpr hready)] at hstep
        rw [if_pos hready]
        cases Option.some.inj hstep
        exact ⟨_, _, rfl, h.cancel hle hready.1⟩
      · rw [if_neg fun hcan => hready (h.canCancel_iff.mp hcan)] at hstep
        rw [if_neg hready]
        cases Option.some.inj hstep
        exact ⟨_, _, rfl, h.pass hle⟩
  · rw [if_pos (by simpa using hle)] at hstep
    cases hstep

/-- Enough steps on the tapes are all steps on the lists. As many as there are
captured bytes are enough, since every one uses some up. The induction is on the
steps, with one step of `Pairing.step?` against one of `Backlog.step?`. -/
theorem Holds.driveFrom (h : p.Holds b) {steps : Nat} (hsteps : b.captured.length ≤ steps)
    (events : List Event) :
    (p.driveFrom steps events).1.map Event.fate?
        = events.reverse.map Event.fate? ++ b.drive.1.map some
      ∧ (p.driveFrom steps events).2.Holds b.drive.2 := by
  -- There are enough steps, since each uses captured bytes up.
  induction steps generalizing p b events with
  | zero =>
      have hnone : b.step? = none := by
        have := b.pos
        exact if_pos (by omega)
      rw [Backlog.drive_of_none hnone]
      exact ⟨(List.append_nil _).symm, h⟩
  | succ steps ih =>
      unfold Pairing.driveFrom
      cases hstep : p.step? with
      | none =>
          rw [Backlog.drive_of_none (h.step?_eq_none hstep)]
          exact ⟨(List.append_nil _).symm, h⟩
      | some result =>
          obtain ⟨event, p'⟩ := result
          obtain ⟨fate, b', hb, hfate, h'⟩ := h.step?_eq_some hstep
          have hshorter := Backlog.length_captured_lt hb
          obtain ⟨hevents, hrest⟩ := ih h' (by omega) (event :: events)
          rw [Backlog.drive_of_some hb]
          refine ⟨?_, hrest⟩
          rw [hevents, List.reverse_cons, List.map_append, List.append_assoc]
          simp [hfate]

/-- Working off the tapes is working off the lists, from one state that `Holds`
to another. -/
theorem Holds.drive (h : p.Holds b) :
    p.drive.1.map Event.fate? = b.drive.1.map some ∧ p.drive.2.Holds b.drive.2 :=
  h.driveFrom (Nat.le_of_eq h.captured.length_eq.symm) []

end Pairing

end EchoAlign
