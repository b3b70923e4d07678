import EchoAlign.Align.Skip
import EchoAlign.Proofs.Align.Conversions

/-!
# `EchoAlign.Proofs.Align.Corrections`: what becomes of a correction

A correction asks for bytes to be dropped from one of the two sides, and the
sides take what they drop a little at a time. `Skip.run` does any of this in
any order.

* `Exclusive`: at no time is there something to be dropped from both sides.
* `correct_of_short`, `correct_of_long`: an offset of less than a frame
  changes nothing, and any other replaces what was left of the one before.
* `Booked`: from one correction to the next, what was taken from its side and
  what is left come to what it asked for, and the other side gives nothing.
* `correction_booked`: all of this, after any run.

The side that captured audio comes in by is `Direction.input`, and
`Direction.output` is that of playback.
-/

set_option autoImplicit false

namespace EchoAlign

/-- The side that the audio of the other one goes through: `input` and `output`
change places. -/
def Direction.other : Direction → Direction
  | input => output
  | output => input

/-- One thing that can be done to a `Skip`: an offset is corrected, or a side
takes bytes. -/
inductive SkipOperation where
  /-- An offset is to be made up for. -/
  | correct (usec : Int)
  /-- A side drops up to so many bytes. -/
  | take (side : Direction) (available : Nat)
  deriving DecidableEq, Repr

/-- What a skip answers to a `SkipOperation`. -/
inductive SkipAnswer where
  /-- Whether the offset asks for anything. -/
  | corrected (changed : Bool)
  /-- This many bytes are to be dropped. -/
  | took (side : Direction) (bytes : Nat)
  deriving DecidableEq, Repr

namespace Skip

/-- The bytes still to be dropped from a side, `source` or `sink`. -/
def pending (s : Skip) : Direction → Nat
  | .input => s.source
  | .output => s.sink

/-- Uses up to `available` bytes of the skip of a side. -/
def take (s : Skip) (available : Nat) : Direction → Nat × Skip
  | .input => s.takeSource available
  | .output => s.takeSink available

/-- Does one thing, with `Skip.correct` or `Skip.take`. -/
def perform (spec : StreamSpec) (s : Skip) : SkipOperation → SkipAnswer × Skip
  | .correct usec => (.corrected (s.correct spec usec).1, (s.correct spec usec).2)
  | .take side available => (.took side (s.take available side).1, (s.take available side).2)

/-- Does things one after another with `perform`, and collects the answers in
order. -/
def run (spec : StreamSpec) (s : Skip) : List SkipOperation → List SkipAnswer × Skip
  | [] => ([], s)
  | operation :: rest =>
      let (answer, s) := s.perform spec operation
      let (later, s) := run spec s rest
      (answer :: later, s)

/-- The bytes that a side was told to drop, in all answers `took` for this side. -/
def takenFrom (side : Direction) (answers : List SkipAnswer) : Nat :=
  (answers.map fun
    | .took other bytes => if other = side then bytes else 0
    | .corrected _ => 0).sum

variable {spec : StreamSpec} {s : Skip} {side : Direction}

/-! ### One operation -/

/-- What is taken is taken off what is left, and there is no more of it: the two
add up to what was `pending`. -/
theorem take_self (s : Skip) (available : Nat) (side : Direction) :
    (s.take available side).1 + (s.take available side).2.pending side = s.pending side := by
  cases side <;> simp only [take, takeSource, takeSink, pending] <;> omega

/-- What one side takes is nothing to the `other`. -/
theorem take_other (s : Skip) (available : Nat) (side : Direction) :
    (s.take available side).2.pending side.other = s.pending side.other := by
  cases side <;> rfl

/-- Nothing comes of a side that has nothing left (`pending`). -/
theorem take_of_idle (h : s.pending side = 0) (available : Nat) :
    (s.take available side).1 = 0 := by
  have htaken := s.take_self available side
  omega

/-- The side from which an offset has bytes dropped: playback that is late drops
playback (`output`), and playback that is ahead drops captured audio (`input`). -/
def sideOf (usec : Int) : Direction := if usec < 0 then .output else .input

/-- The bytes that an offset has dropped, in frames, with those that absorb
jitter where playback is late (`safetyFrames`). -/
def framesFor (spec : StreamSpec) (usec : Int) : Nat :=
  spec.framesOfUsec usec.natAbs + if usec < 0 then safetyFrames else 0

/-- The bytes that an offset has dropped are a word, those that absorb jitter
among them, so that `Skip.ofOffset?` does not overflow. -/
def BytesFit (spec : StreamSpec) (usec : Int) : Prop :=
  spec.bytesOfFrames (framesFor spec usec) ≤ Word.maxUnsigned

/-- Whether the bytes of an offset fit (`BytesFit`) can be found by counting
them. -/
instance (spec : StreamSpec) (usec : Int) : Decidable (BytesFit spec usec) :=
  inferInstanceAs (Decidable (_ ≤ _))

/-- The bytes of the offset alone are no more, so that they fit in the sense of
`StreamSpec.BytesFit`. -/
theorem BytesFit.of_natAbs {usec : Int} (h : BytesFit spec usec) : spec.BytesFit usec.natAbs :=
  Nat.le_trans (Nat.mul_le_mul_right _ (Nat.le_add_right _ _)) h

/-- The skip of so many `bytes` of one side, and none of the other. -/
def ofSide (bytes : Nat) : Direction → Skip
  | .input => ⟨bytes, 0⟩
  | .output => ⟨0, bytes⟩

/-- What is to be dropped from the side of such a skip (`ofSide`). -/
@[simp] theorem pending_ofSide (bytes : Nat) (side : Direction) :
    (ofSide bytes side).pending side = bytes := by
  cases side <;> rfl

/-- Nothing is to be dropped from the other side of such a skip (`ofSide`). -/
@[simp] theorem pending_other_ofSide (bytes : Nat) (side : Direction) :
    (ofSide bytes side).pending side.other = 0 := by
  cases side <;> rfl

/-- An offset that is shorter than a frame (`hshort`) changes nothing. -/
theorem correct_of_short (s : Skip) {usec : Int}
    (hshort : usec.natAbs * spec.rate < usecPerSecond) : s.correct spec usec = (false, s) := by
  have hnone : spec.bytesOfUsec usec.natAbs = 0 := by
    unfold StreamSpec.bytesOfUsec
    rw [Nat.div_eq_of_lt hshort, Word.unsigned_of_le (Nat.zero_le _), Nat.zero_mul]
  simp [correct, (ofOffset?_eq_none_iff spec usec).mpr hnone]

/-- An offset that lasts a frame or longer (`hlong`) has its frames dropped,
whatever was still to be dropped before. -/
theorem correct_of_long (hframe : 0 < spec.frameSize) (s : Skip) {usec : Int}
    (hfits : BytesFit spec usec) (hlong : usecPerSecond ≤ usec.natAbs * spec.rate) :
    s.correct spec usec
      = (true, ofSide (spec.bytesOfFrames (framesFor spec usec)) (sideOf usec)) := by
  have hbytes := hfits.of_natAbs.bytesOfUsec_eq hframe
  have hsome : spec.bytesOfFrames (spec.framesOfUsec usec.natAbs) ≠ 0 := by
    have hframes : 0 < spec.framesOfUsec usec.natAbs := Nat.div_pos hlong (by decide)
    exact Nat.ne_of_gt (Nat.mul_pos hframes hframe)
  unfold correct ofOffset?
  simp only [hbytes, if_neg hsome, framesFor, sideOf]
  by_cases hneg : usec < 0
  · -- Only where playback is late are there frames beyond those of the offset.
    simp only [if_pos hneg, ofSide, StreamSpec.bytesOfFrames, Nat.add_mul]
  · simp only [if_neg hneg, ofSide, Nat.add_zero]

/-! ### One side at a time -/

/-- There is a side from which nothing is to be dropped. Every skip in a run is
`Exclusive`. -/
def Exclusive (s : Skip) : Prop := s.source = 0 ∨ s.sink = 0

/-- Whatever is done to a skip, there is a side from which nothing is to be
dropped. `Skip.take` makes neither of the two numbers larger, and `Skip.correct`
leaves the skip alone or replaces it by that of `Skip.ofOffset?`. -/
theorem Exclusive.perform (h : s.Exclusive) (operation : SkipOperation) :
    (s.perform spec operation).2.Exclusive := by
  cases operation with
  | correct usec =>
      show (s.correct spec usec).2.Exclusive
      -- What an offset asks for replaces what is left, and is for one side.
      unfold correct ofOffset?
      by_cases hnone : spec.bytesOfUsec usec.natAbs = 0
      · simpa only [if_pos hnone] using h
      · by_cases hneg : usec < 0
        · simp only [if_neg hnone, if_pos hneg]
          exact Or.inl rfl
        · simp only [if_neg hnone, if_neg hneg]
          exact Or.inr rfl
  | take side available =>
      cases side with
      | input =>
          show s.source - _ = 0 ∨ s.sink = 0
          have := h
          unfold Exclusive at this
          omega
      | output =>
          show s.source = 0 ∨ s.sink - _ = 0
          have := h
          unfold Exclusive at this
          omega

/-- Any number of operations leaves a side from which nothing is to be dropped
(`Exclusive`). -/
theorem Exclusive.run (h : s.Exclusive) (operations : List SkipOperation) :
    (s.run spec operations).2.Exclusive := by
  induction operations generalizing s with
  | nil => exact h
  | cons operation rest ih => exact ih (h.perform operation)

/-! ### From one correction to the next -/

/-- Of `bytes` that were to be dropped from a side, those that were not taken
are left, and nothing is to be dropped from the other side. -/
structure Booked (side : Direction) (bytes taken : Nat) (s : Skip) : Prop where
  balance : taken + s.pending side = bytes
  other : s.pending side.other = 0

/-- Nothing is taken where there are no answers: `takenFrom` is a sum. -/
@[simp] theorem takenFrom_nil (side : Direction) : takenFrom side [] = 0 := rfl

/-- What is taken in the first answer is taken beside the rest, as `takenFrom`
is a sum. -/
theorem takenFrom_cons (side : Direction) (answer : SkipAnswer) (answers : List SkipAnswer) :
    takenFrom side (answer :: answers) = takenFrom side [answer] + takenFrom side answers := by
  simp [takenFrom]

/-- Anything but a correction that asks for something (`hkept`) leaves the books
in balance, and nothing is taken from the other side. -/
theorem Booked.perform {bytes taken : Nat} (h : s.Booked side bytes taken)
    {operation : SkipOperation} (hkept : (s.perform spec operation).1 ≠ .corrected true) :
    (s.perform spec operation).2.Booked side bytes
        (taken + takenFrom side [(s.perform spec operation).1])
      ∧ ∀ n, (s.perform spec operation).1 = .took side.other n → n = 0 := by
  have hbalance := h.balance
  have hother := h.other
  cases operation with
  | correct usec =>
      -- The offset asks for nothing, so that the skip stays as it is.
      have hsame : s.correct spec usec = (false, s) := by
        revert hkept
        simp only [Skip.perform, correct]
        cases ofOffset? spec usec <;> simp
      simp only [Skip.perform, hsame]
      exact ⟨⟨by simpa [takenFrom] using hbalance, hother⟩, nofun⟩
  | take from_ available =>
      have hself := s.take_self available from_
      have hbeside := s.take_other available from_
      by_cases hside : from_ = side
      · subst hside
        refine ⟨⟨?_, hbeside.trans hother⟩, fun n hn => ?_⟩
        · simp only [Skip.perform, takenFrom, List.map_cons, List.map_nil, List.sum_cons,
            List.sum_nil, if_true]
          omega
        · cases from_ <;> simp [Skip.perform, Direction.other] at hn
      · have hfrom : from_ = side.other := by
          cases from_ <;> cases side <;> simp_all [Direction.other]
        subst hfrom
        have hnone := take_of_idle hother available
        have hback : side.other.other = side := by cases side <;> rfl
        rw [hback] at hbeside
        refine ⟨⟨?_, ?_⟩, fun n hn => ?_⟩
        · simp only [Skip.perform, takenFrom, List.map_cons, List.map_nil, List.sum_cons,
            List.sum_nil, if_neg hside]
          omega
        · show (s.take available side.other).2.pending side.other = 0
          omega
        · simp only [Skip.perform, SkipAnswer.took.injEq, true_and] at hn
          omega

/-- Up to the next correction that asks for something, the books are in balance,
by induction on the operations. `hkept` is what "up to" means: no correction of
the run answers that it took effect. For the `other` side, nothing is taken at
all. -/
theorem Booked.run {bytes taken : Nat} (h : s.Booked side bytes taken)
    {operations : List SkipOperation}
    (hkept : ∀ answer ∈ (s.run spec operations).1, answer ≠ .corrected true) :
    (s.run spec operations).2.Booked side bytes
        (taken + takenFrom side (s.run spec operations).1)
      ∧ ∀ n, .took side.other n ∈ (s.run spec operations).1 → n = 0 := by
  induction operations generalizing s taken with
  | nil => exact ⟨h, nofun⟩
  | cons operation rest ih =>
      have hkept : ∀ answer ∈ (s.perform spec operation).1
          :: ((s.perform spec operation).2.run spec rest).1, answer ≠ .corrected true := hkept
      obtain ⟨hfirst, hrest⟩ := List.forall_mem_cons.mp hkept
      obtain ⟨hnext, hnone⟩ := h.perform hfirst
      obtain ⟨hend, hlater⟩ := ih hnext hrest
      show ((s.perform spec operation).2.run spec rest).2.Booked side bytes
          (taken + takenFrom side ((s.perform spec operation).1
            :: ((s.perform spec operation).2.run spec rest).1)) ∧ _
      rw [takenFrom_cons, ← Nat.add_assoc]
      refine ⟨hend, fun n hn => ?_⟩
      rcases List.mem_cons.mp hn with heq | hn
      · exact hnone n heq.symm
      · exact hlater n hn

/-! ### The amount of a correction -/

/-- The frames of an offset are no longer than the offset, and those that absorb
jitter, told in bytes and without a division. `framesOfUsec_bounds` bounds the
first part, and `safetyFrames` are added only to what is dropped from playback. -/
theorem bytesOfFrames_framesFor_le (spec : StreamSpec) (usec : Int) :
    spec.bytesOfFrames (framesFor spec usec) * usecPerSecond
      ≤ usec.natAbs * spec.bytesPerSecond
        + if usec < 0 then spec.bytesOfFrames safetyFrames * usecPerSecond else 0 := by
  have hframes := (spec.framesOfUsec_bounds usec.natAbs).1
  have hoffset : spec.bytesOfFrames (spec.framesOfUsec usec.natAbs) * usecPerSecond
      ≤ usec.natAbs * spec.bytesPerSecond := by
    calc spec.framesOfUsec usec.natAbs * spec.frameSize * usecPerSecond
        = spec.framesOfUsec usec.natAbs * usecPerSecond * spec.frameSize := Nat.mul_right_comm ..
      _ ≤ usec.natAbs * spec.rate * spec.frameSize := Nat.mul_le_mul_right _ hframes
      _ = usec.natAbs * spec.bytesPerSecond := by
          rw [StreamSpec.bytesPerSecond, Nat.mul_assoc, Nat.mul_comm spec.rate]
  unfold framesFor
  by_cases hneg : usec < 0
  · rw [if_pos hneg, if_pos hneg, StreamSpec.bytesOfFrames, Nat.add_mul, Nat.add_mul]
    exact Nat.add_le_add_right hoffset _
  · rw [if_neg hneg, if_neg hneg]
    exact hoffset

/-- After any run (`Skip.run`) that starts with nothing to be dropped, nothing is
to be dropped from one of the sides. An offset of less than a frame then changes
nothing. Any other, whose bytes fit into a word (`BytesFit`, which counts the
`safetyFrames` as well), asks for whole frames of one side (`sideOf`), no longer
than the offset itself and ten frames more where playback is late. Until the next
one that asks for something, what was taken from this side (`takenFrom`) and what
is left of it come to what was asked for, and all that is taken from the other
side is nothing. -/
theorem correction_booked (hspec : spec.validate = .ok ()) (operations : List SkipOperation) :
    let s := (idle.run spec operations).2
    (s.source = 0 ∨ s.sink = 0)
      ∧ (∀ usec, usec.natAbs * spec.rate < usecPerSecond → s.correct spec usec = (false, s))
      ∧ ∀ usec, BytesFit spec usec → usecPerSecond ≤ usec.natAbs * spec.rate →
          ∃ bytes corrected, s.correct spec usec = (true, corrected)
            ∧ 0 < bytes ∧ spec.frameSize ∣ bytes
            ∧ bytes * usecPerSecond ≤ usec.natAbs * spec.bytesPerSecond
                + (if usec < 0 then spec.bytesOfFrames 10 * usecPerSecond else 0)
            ∧ ∀ between, (∀ answer ∈ (corrected.run spec between).1, answer ≠ .corrected true) →
                let (answers, later) := corrected.run spec between
                takenFrom (sideOf usec) answers + later.pending (sideOf usec) = bytes
                  ∧ later.pending (sideOf usec).other = 0
                  ∧ ∀ n, .took (sideOf usec).other n ∈ answers → n = 0 := by
  intro s
  obtain ⟨-, hchannels, -⟩ := StreamSpec.pos_of_validate hspec
  have hframe := StreamSpec.frameSize_pos_of_channels hchannels
  have hexclusive : s.Exclusive := Exclusive.run (Or.inl rfl) operations
  refine ⟨hexclusive, fun usec hshort => s.correct_of_short hshort, fun usec hfits hlong => ?_⟩
  have hframes : 0 < framesFor spec usec :=
    Nat.add_pos_left (Nat.div_pos hlong (by decide)) _
  refine ⟨_, _, s.correct_of_long hframe hfits hlong, Nat.mul_pos hframes hframe,
    Nat.dvd_mul_left _ _, bytesOfFrames_framesFor_le spec usec, fun between hkept => ?_⟩
  -- The books are opened with all of the correction still to be dropped.
  have hstart : (ofSide (spec.bytesOfFrames (framesFor spec usec)) (sideOf usec)).Booked
      (sideOf usec) (spec.bytesOfFrames (framesFor spec usec)) 0 :=
    ⟨by simp, by simp⟩
  obtain ⟨hbooked, hnone⟩ := hstart.run hkept
  have hbalance := hbooked.balance
  rw [Nat.zero_add] at hbalance
  exact ⟨hbalance, hbooked.other, hnone⟩

/-- A correction of a millisecond, of which six bytes are taken, gives way to
one of half a millisecond the other way. Of its twenty-eight bytes a first take
of playback gets twenty and a second one the rest, while captured audio gives
nothing and an offset of less than a frame changes nothing. The hypotheses of
`correction_booked` are met. -/
theorem correction_booked_trial :
    let spec : StreamSpec := ⟨.s16le, 8000, 1⟩
    let s := (idle.run spec [.correct 1000, .take .input 6]).2
    let corrected : Skip := ⟨0, 28⟩
    let between : List SkipOperation :=
      [.take .input 5, .take .output 20, .correct 60, .take .output 100]
    s = ⟨10, 0⟩ ∧ (s.source = 0 ∨ s.sink = 0) ∧ s.correct spec 60 = (false, s)
      ∧ s.correct spec (-500) = (true, corrected)
      ∧ (corrected.run spec between).1
          = [.took .input 0, .took .output 20, .corrected false, .took .output 8]
      ∧ takenFrom .output (corrected.run spec between).1
          + (corrected.run spec between).2.pending .output = 28 := by
  intro spec s corrected between
  obtain ⟨hexclusive, hshort, hlong⟩ :=
    @correction_booked spec (by decide) [.correct 1000, .take .input 6]
  obtain ⟨bytes, _, heffect, -, -, -, hbooks⟩ := hlong (-500) (by decide) (by decide)
  have hcorrected : s.correct spec (-500) = (true, corrected) := by decide
  obtain rfl : corrected = _ := congrArg Prod.snd (hcorrected.symm.trans heffect)
  obtain ⟨hbalance, -, -⟩ := hbooks between (by decide)
  have hall : bytes = 28 := hbalance.symm.trans (by decide)
  exact ⟨by decide, hexclusive, hshort 60 (by decide), hcorrected, by decide,
    hbalance.trans hall⟩

end Skip

end EchoAlign
