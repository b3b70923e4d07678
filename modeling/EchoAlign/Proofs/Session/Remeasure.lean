import EchoAlign.Proofs.Session.Start
import EchoAlign.Proofs.Align.Durations

/-!
# `EchoAlign.Proofs.Session.Remeasure`: measuring while a skip is pending

Timing of the capture side counts the bytes that are still to be dropped
as if they waited on the other tape. The thought is that a skip which is
pending takes away the offset it makes up for, so that a second
measurement finds nothing left to correct.

* `realign_twice`: what a second measurement really finds. A pending skip
  of captured audio takes the offset away to within a frame and a
  microsecond, as long as no more captured audio waits than played audio.
  A pending skip of playback audio goes beyond the offset by the safety
  margin, and the second measurement sees the margin as an offset of its
  own: it replaces the skip by one of captured audio.
* `realign_gives_up_skip`: a skip of 26 frames that is replaced in this
  way.
-/

set_option autoImplicit false

namespace EchoAlign

/-! ### What an offset asks for -/

/-- The skip that an offset asks for, in frames: those of the offset on the one
side or the other, with `safetyFrames` on the side of playback. A skip of no
frames changes nothing. -/
theorem Skip.snd_correct {spec : StreamSpec} (hframe : 0 < spec.frameSize) (s : Skip) {usec : Int}
    (hfits : spec.framesOfUsec usec.natAbs ≤ Word.maxUnsigned) :
    (s.correct spec usec).2
      = if spec.framesOfUsec usec.natAbs = 0 then s
        else if usec < 0 then
          ⟨0, spec.bytesOfFrames (spec.framesOfUsec usec.natAbs + safetyFrames)⟩
        else ⟨spec.bytesOfFrames (spec.framesOfUsec usec.natAbs), 0⟩ := by
  have hbytes := StreamSpec.bytesOfUsec_eq hfits
  unfold correct ofOffset?
  simp only [hbytes]
  by_cases hzero : spec.framesOfUsec usec.natAbs = 0
  · rw [if_pos hzero, if_pos (by rw [hzero, StreamSpec.bytesOfFrames, Nat.zero_mul])]
  · have hpos : spec.bytesOfFrames (spec.framesOfUsec usec.natAbs) ≠ 0 :=
      Nat.ne_of_gt (Nat.mul_pos (Nat.pos_of_ne_zero hzero) hframe)
    rw [if_neg hzero, if_neg hpos]
    by_cases hneg : usec < 0
    · rw [if_pos hneg, if_pos hneg]
      exact congrArg (Skip.mk 0) (Nat.add_mul ..).symm
    · rw [if_neg hneg, if_neg hneg]

/-- Correcting the same offset again changes nothing, as `Skip.correct` only
depends on the skip before where the offset has no frames. -/
theorem Skip.correct_correct (s : Skip) (spec : StreamSpec) (usec : Int) :
    ((s.correct spec usec).2.correct spec usec).2 = (s.correct spec usec).2 := by
  unfold correct
  cases ofOffset? spec usec with
  | none => rfl
  | some skip => rfl

/-! ### A skip and the offset that is left -/

namespace Capture

variable {κ : Type} (c : Capture κ) (link : Link) (playback : PlaybackTiming)

/-- How far playback is ahead (`offset`), by timing of the playback side and the
timing that the capture side takes now. -/
def offsetTo : Int := offset c.spec playback (c.timing link).1

/-- The side after the offset was measured and corrected, which is what
`Capture.resync` does behind its guards. -/
def realign : Capture κ := (c.correct link (c.offsetTo link playback)).1

/-- The side with another `skip`, and all else as it is. -/
def withSkip (skip : Skip) : Capture κ := { c with pairing := { c.pairing with skip } }

/-- The time by which the played audio is ahead of the captured audio, the bytes
that are to be dropped among them. It counts as nothing below 0, as in
`bufferedUsec`. -/
def lead : Int :=
  max (c.spec.usecOfBalance (Word.signed (c.pairing.played.length + c.pairing.skip.source))
    - c.spec.usecOfBalance (Word.signed (c.pairing.captured.length + c.pairing.skip.sink))) 0

/-- Realigning changes the skip with `Skip.correct`, and nothing else. -/
theorem realign_eq :
    c.realign link playback
      = c.withSkip (c.pairing.skip.correct c.spec (c.offsetTo link playback)).2 := rfl

/-- Of all that an offset is measured by, a skip changes the `lead`. -/
theorem offsetTo_withSkip (skip : Skip) :
    (c.withSkip skip).offsetTo link playback
      = c.offsetTo link playback + c.lead - (c.withSkip skip).lead := by
  have hsplit : ∀ skip, (c.withSkip skip).offsetTo link playback
      = (Word.signed playback.now + Word.signed playback.latency
          - ((c.withSkip skip).lead + c.spec.usecOfBalance (Word.signed (c.timing link).1.delay)
            + c.spec.usecOfBalance (Word.signed playback.delay)
            + c.spec.usecOfBalance (Word.signed (playback.sent - c.received))))
        - (Word.signed (c.timing link).1.now - Word.signed (c.timing link).1.latency) :=
    fun _ => rfl
  have hself := hsplit c.pairing.skip
  rw [show c.withSkip c.pairing.skip = c from rfl] at hself
  rw [hsplit, hself]
  omega

/-- Whole frames wait on both tapes, nothing is to be dropped, and all
numbers are far from what a word can hold, as is the offset `usec`. -/
structure AtRest (usec : Int) (played captured : Nat) : Prop where
  valid : c.spec.validate = .ok ()
  rate_le : c.spec.rate ≤ Settings.maxRate
  idle : c.pairing.skip = .idle
  played_eq : c.pairing.played.length = c.spec.bytesOfFrames played
  captured_eq : c.pairing.captured.length = c.spec.bytesOfFrames captured
  played_le : played ≤ 0x100_0000_0000
  captured_le : captured ≤ 0x100_0000_0000
  usec_le : usec.natAbs ≤ 0x100_0000_0000

namespace AtRest

variable {c link playback} {usec : Int} {played captured : Nat}

/-- A side at rest (`AtRest`) has a stream of at least one frame per second. -/
theorem rate_pos (h : c.AtRest usec played captured) : 0 < c.spec.rate :=
  (StreamSpec.pos_of_validate h.valid).1

/-- No skip for the offset has more frames than a word can hold, by `usec_le`
and the highest rate there is. -/
theorem framesOfUsec_le (h : c.AtRest usec played captured) :
    c.spec.framesOfUsec usec.natAbs ≤ 0x100_0000_0000_0000 := by
  have hmul := Nat.mul_le_mul h.usec_le h.rate_le
  exact Nat.le_trans (Nat.div_le_div_right hmul) (by decide)

/-- Nor do the frames on a tape together with such a skip, so that `Word.signed`
gives their number itself. -/
theorem usecOfBalance_eq (h : c.AtRest usec played captured) {waiting skipped : Nat}
    (hwaiting : waiting ≤ 0x100_0000_0000)
    (hskipped : skipped ≤ c.spec.framesOfUsec usec.natAbs + safetyFrames) :
    c.spec.usecOfBalance
        (Word.signed (c.spec.bytesOfFrames waiting + c.spec.bytesOfFrames skipped : Nat))
      = c.spec.usecOfFrames (waiting + skipped) := by
  have hframes := h.framesOfUsec_le
  have hmargin : safetyFrames = 10 := rfl
  have hsum : c.spec.bytesOfFrames waiting + c.spec.bytesOfFrames skipped
      = c.spec.bytesOfFrames (waiting + skipped) := (Nat.add_mul ..).symm
  rw [hsum]
  refine StreamSpec.usecOfBalance_bytesOfFrames (StreamSpec.frameSize_pos h.valid) ?_ ?_
  · have hle : waiting + skipped ≤ 0x200_0000_0000_0000 := by omega
    exact Nat.le_trans (Nat.mul_le_mul hle (StreamSpec.frameSize_le h.valid)) (by decide)
  · -- The frames of the skip take no longer than the offset did.
    have hsplit := (StreamSpec.usecOfFrames_add h.rate_pos (waiting + safetyFrames)
      (c.spec.framesOfUsec usec.natAbs)).2
    have hskip := c.spec.usecOfFrames_framesOfUsec_le usec.natAbs
    have hrest : c.spec.usecOfFrames (waiting + safetyFrames) ≤ 0x2000_0000_0000_0000 :=
      Nat.le_trans (Nat.div_le_self _ _)
        (Nat.le_trans (Nat.mul_le_mul_right _ (Nat.add_le_add_right hwaiting _)) (by decide))
    have hmono : c.spec.usecOfFrames (waiting + skipped)
        ≤ c.spec.usecOfFrames (waiting + safetyFrames + c.spec.framesOfUsec usec.natAbs) :=
      c.spec.usecOfFrames_mono (by omega)
    have husec := h.usec_le
    have hword : Word.maxSigned = 0x7FFF_FFFF_FFFF_FFFF := rfl
    omega

/-- The lead under a skip, in frames: those that wait on either tape, less those
to be dropped from the `captured` ones and with those to be dropped from the
`played` ones. -/
theorem lead_eq (h : c.AtRest usec played captured) {source sink : Nat}
    (hsource : source ≤ c.spec.framesOfUsec usec.natAbs + safetyFrames)
    (hsink : sink ≤ c.spec.framesOfUsec usec.natAbs + safetyFrames) :
    (c.withSkip ⟨c.spec.bytesOfFrames source, c.spec.bytesOfFrames sink⟩).lead
      = max ((c.spec.usecOfFrames (played + source) : Int)
          - c.spec.usecOfFrames (captured + sink)) 0 := by
  unfold lead
  show max (c.spec.usecOfBalance (Word.signed (c.pairing.played.length
      + c.spec.bytesOfFrames source : Nat))
    - c.spec.usecOfBalance (Word.signed (c.pairing.captured.length
      + c.spec.bytesOfFrames sink : Nat))) 0 = _
  rw [h.played_eq, h.captured_eq, h.usecOfBalance_eq h.played_le hsource,
    h.usecOfBalance_eq h.captured_le hsink]

/-- What a skip changes about the offset: the time of its frames, as far as the
lead counts at all. With `offsetTo_withSkip` and `lead_eq`, all of it is told by
`usecOfFrames`. -/
theorem offsetTo_withSkip_eq (h : c.AtRest usec played captured) {source sink : Nat}
    (hsource : source ≤ c.spec.framesOfUsec usec.natAbs + safetyFrames)
    (hsink : sink ≤ c.spec.framesOfUsec usec.natAbs + safetyFrames) :
    (c.withSkip ⟨c.spec.bytesOfFrames source, c.spec.bytesOfFrames sink⟩).offsetTo link playback
      = c.offsetTo link playback
        + max ((c.spec.usecOfFrames played : Int) - c.spec.usecOfFrames captured) 0
        - max ((c.spec.usecOfFrames (played + source) : Int)
          - c.spec.usecOfFrames (captured + sink)) 0 := by
  have hidle : c.lead = max ((c.spec.usecOfFrames played : Int)
      - c.spec.usecOfFrames captured) 0 := by
    have hzero := h.lead_eq (Nat.zero_le _) (Nat.zero_le _)
    have hskip : (⟨c.spec.bytesOfFrames 0, c.spec.bytesOfFrames 0⟩ : Skip) = c.pairing.skip := by
      rw [h.idle, StreamSpec.bytesOfFrames, Nat.zero_mul]
      rfl
    rw [hskip] at hzero
    exact hzero
  rw [offsetTo_withSkip, hidle, h.lead_eq hsource hsink]

/-- The side after the offset was corrected, with the skip in frames by
`Skip.snd_correct`. -/
theorem realign_eq (h : c.AtRest (c.offsetTo link playback) played captured) :
    c.realign link playback
      = c.withSkip
        (if c.spec.framesOfUsec (c.offsetTo link playback).natAbs = 0 then
          ⟨c.spec.bytesOfFrames 0, c.spec.bytesOfFrames 0⟩
        else if c.offsetTo link playback < 0 then
          ⟨c.spec.bytesOfFrames 0, c.spec.bytesOfFrames
            (c.spec.framesOfUsec (c.offsetTo link playback).natAbs + safetyFrames)⟩
        else ⟨c.spec.bytesOfFrames (c.spec.framesOfUsec (c.offsetTo link playback).natAbs),
          c.spec.bytesOfFrames 0⟩) := by
  have hfits := Nat.le_trans h.framesOfUsec_le (show 0x100_0000_0000_0000 ≤ Word.maxUnsigned by decide)
  have hzero : c.spec.bytesOfFrames 0 = 0 := Nat.zero_mul _
  show c.withSkip (c.pairing.skip.correct c.spec (c.offsetTo link playback)).2 = _
  rw [Skip.snd_correct (StreamSpec.frameSize_pos h.valid) _ hfits, h.idle, hzero]
  rfl

/-- Captured audio that is to be dropped takes its own time off the offset, if
no more of it waits than of played audio (`hle`). -/
theorem offsetTo_realign_of_nonneg (h : c.AtRest (c.offsetTo link playback) played captured)
    (hoffset : 0 ≤ c.offsetTo link playback) (hle : captured ≤ played) :
    (c.realign link playback).offsetTo link playback
      = c.offsetTo link playback
        - (c.spec.usecOfFrames
            (played + c.spec.framesOfUsec (c.offsetTo link playback).natAbs)
          - c.spec.usecOfFrames played) := by
  obtain ⟨k, hk⟩ : ∃ k, k = c.spec.framesOfUsec (c.offsetTo link playback).natAbs := ⟨_, rfl⟩
  have hskip : c.realign link playback
      = c.withSkip ⟨c.spec.bytesOfFrames k, c.spec.bytesOfFrames 0⟩ := by
    rw [h.realign_eq, ← hk]
    by_cases hzero : k = 0
    · rw [if_pos hzero, hzero]
    · rw [if_neg hzero, if_neg (Int.not_lt.mpr hoffset)]
  have hlead := c.spec.usecOfFrames_mono hle
  have hlead' := c.spec.usecOfFrames_mono (Nat.le_add_right played k)
  rw [hskip, h.offsetTo_withSkip_eq (by omega) (Nat.zero_le _), ← hk, Nat.add_zero]
  omega

/-- Played audio that is to be dropped adds its own time to the offset, if
enough of it waits. `hle` asks for as much audio behind the captured audio as
the skip and its margin take. -/
theorem offsetTo_realign_of_neg (h : c.AtRest (c.offsetTo link playback) played captured)
    (hoffset : c.offsetTo link playback < 0)
    (hpos : 0 < c.spec.framesOfUsec (c.offsetTo link playback).natAbs)
    (hle : captured + (c.spec.framesOfUsec (c.offsetTo link playback).natAbs + safetyFrames)
      ≤ played) :
    (c.realign link playback).offsetTo link playback
      = c.offsetTo link playback
        + (c.spec.usecOfFrames (captured
            + (c.spec.framesOfUsec (c.offsetTo link playback).natAbs + safetyFrames))
          - c.spec.usecOfFrames captured) := by
  have hlead := c.spec.usecOfFrames_mono hle
  have hlead' := c.spec.usecOfFrames_mono (Nat.le_add_right captured
    (c.spec.framesOfUsec (c.offsetTo link playback).natAbs + safetyFrames))
  rw [h.realign_eq, if_neg (Nat.ne_of_gt hpos), if_pos hoffset,
    h.offsetTo_withSkip_eq (Nat.zero_le _) (Nat.le_refl _), Nat.add_zero]
  omega

/-- A skip does nothing about the offset where the lead counts as nothing with
it and without. The three cases of `hcovered` say when that is so. -/
theorem offsetTo_realign_of_covered (h : c.AtRest (c.offsetTo link playback) played captured)
    (hcovered : c.spec.framesOfUsec (c.offsetTo link playback).natAbs = 0
      ∨ (0 ≤ c.offsetTo link playback
        ∧ played + c.spec.framesOfUsec (c.offsetTo link playback).natAbs ≤ captured)
      ∨ (c.offsetTo link playback < 0 ∧ played ≤ captured)) :
    (c.realign link playback).offsetTo link playback = c.offsetTo link playback := by
  obtain ⟨k, hk⟩ : ∃ k, k = c.spec.framesOfUsec (c.offsetTo link playback).natAbs := ⟨_, rfl⟩
  rw [← hk] at hcovered
  rw [h.realign_eq, ← hk]
  by_cases hzero : k = 0
  · rw [if_pos hzero, h.offsetTo_withSkip_eq (Nat.zero_le _) (Nat.zero_le _), Nat.add_zero,
      Nat.add_zero]
    omega
  · rw [if_neg hzero]
    rcases hcovered with hzero' | ⟨hoffset, hle⟩ | ⟨hoffset, hle⟩
    · exact absurd hzero' hzero
    · have hlead := c.spec.usecOfFrames_mono hle
      have hlead' := c.spec.usecOfFrames_mono (Nat.le_add_right played k)
      rw [if_neg (Int.not_lt.mpr hoffset), h.offsetTo_withSkip_eq (by omega) (Nat.zero_le _),
        Nat.add_zero]
      omega
    · have hlead := c.spec.usecOfFrames_mono hle
      have hlead' := c.spec.usecOfFrames_mono
        (Nat.le_add_right captured (k + safetyFrames))
      rw [if_pos hoffset, h.offsetTo_withSkip_eq (Nat.zero_le _) (by omega), Nat.add_zero]
      omega

/-- Under a skip of captured audio, less than a frame and a microsecond of the
offset is left, by the rounding of `framesOfUsec`. -/
theorem left_of_nonneg (h : c.AtRest (c.offsetTo link playback) played captured)
    (hoffset : 0 ≤ c.offsetTo link playback) (hle : captured ≤ played) :
    0 ≤ (c.realign link playback).offsetTo link playback
      ∧ (c.realign link playback).offsetTo link playback * c.spec.rate
        < usecPerSecond + c.spec.rate := by
  have hleft := h.offsetTo_realign_of_nonneg hoffset hle
  obtain ⟨d, hd⟩ := Int.eq_ofNat_of_zero_le hoffset
  rw [hd, Int.natAbs_natCast] at hleft
  obtain ⟨k, hk⟩ : ∃ k, k = c.spec.framesOfUsec d := ⟨_, rfl⟩
  rw [← hk] at hleft
  have hskip := c.spec.framesOfUsec_bounds d
  rw [← hk] at hskip
  -- The skip covers the time of its frames, to within a microsecond.
  have hbefore := StreamSpec.usecOfFrames_bounds h.rate_pos played
  have hafter := StreamSpec.usecOfFrames_bounds h.rate_pos (played + k)
  rw [Nat.add_mul] at hafter
  have hscaled : (c.realign link playback).offsetTo link playback * c.spec.rate
      = (d * c.spec.rate : Nat) - ((c.spec.usecOfFrames (played + k) * c.spec.rate : Nat)
        - (c.spec.usecOfFrames played * c.spec.rate : Nat)) := by
    rw [hleft, Int.sub_mul, Int.sub_mul]
    push_cast
    rfl
  refine ⟨?_, by omega⟩
  have habove : -1 * (c.spec.rate : Int)
      < (c.realign link playback).offsetTo link playback * c.spec.rate := by omega
  have hrate : (0 : Int) ≤ c.spec.rate := Int.natCast_nonneg _
  have := Int.lt_of_mul_lt_mul_right habove hrate
  omega

/-- Under a skip of played audio, the safety margin of `safetyFrames` is left,
to within a frame and a microsecond. -/
theorem left_of_neg (h : c.AtRest (c.offsetTo link playback) played captured)
    (hoffset : c.offsetTo link playback < 0)
    (hpos : 0 < c.spec.framesOfUsec (c.offsetTo link playback).natAbs)
    (hle : captured + (c.spec.framesOfUsec (c.offsetTo link playback).natAbs + safetyFrames)
      ≤ played) :
    (safetyFrames - 1 : Int) * usecPerSecond - c.spec.rate
        < (c.realign link playback).offsetTo link playback * c.spec.rate
      ∧ (c.realign link playback).offsetTo link playback * c.spec.rate
        < safetyFrames * usecPerSecond + c.spec.rate := by
  have hleft := h.offsetTo_realign_of_neg hoffset hpos hle
  obtain ⟨d, hd⟩ : ∃ d : Nat, c.offsetTo link playback = -(d : Int) :=
    ⟨_, Int.eq_neg_natAbs_of_nonpos (Int.le_of_lt hoffset)⟩
  rw [hd, Int.natAbs_neg, Int.natAbs_natCast] at hleft
  obtain ⟨k, hk⟩ : ∃ k, k = c.spec.framesOfUsec d := ⟨_, rfl⟩
  rw [← hk] at hleft
  have hskip := c.spec.framesOfUsec_bounds d
  rw [← hk] at hskip
  have hbefore := StreamSpec.usecOfFrames_bounds h.rate_pos captured
  have hafter := StreamSpec.usecOfFrames_bounds h.rate_pos (captured + (k + safetyFrames))
  obtain ⟨after, heq⟩ : ∃ after, after = c.spec.usecOfFrames (captured + (k + safetyFrames)) :=
    ⟨_, rfl⟩
  rw [← heq] at hleft hafter
  rw [Nat.add_mul, Nat.add_mul] at hafter
  -- All is scaled by the rate, so that no division is left.
  have hscaled : (c.realign link playback).offsetTo link playback * c.spec.rate
      = (after * c.spec.rate : Nat) - (c.spec.usecOfFrames captured * c.spec.rate : Nat)
        - (d * c.spec.rate : Nat) := by
    rw [hleft, Int.add_mul, Int.sub_mul, Int.neg_mul]
    push_cast
    omega
  simp only [show safetyFrames = 10 from rfl, show usecPerSecond = 1000000 from rfl]
    at hskip hbefore hafter ⊢
  omega

/-- The skip after a second correction of an offset of which not too much is
left (`hfits`). -/
theorem skip_realign_realign (h : c.AtRest (c.offsetTo link playback) played captured) {left : Nat}
    (hleft : (c.realign link playback).offsetTo link playback = left)
    (hfits : c.spec.framesOfUsec left ≤ Word.maxUnsigned) :
    ((c.realign link playback).realign link playback).pairing.skip
      = if c.spec.framesOfUsec left = 0 then (c.realign link playback).pairing.skip
        else ⟨c.spec.bytesOfFrames (c.spec.framesOfUsec left), 0⟩ := by
  show ((c.realign link playback).pairing.skip.correct c.spec
    ((c.realign link playback).offsetTo link playback)).2 = _
  rw [hleft, Skip.snd_correct (StreamSpec.frameSize_pos h.valid), Int.natAbs_natCast]
  · rw [if_neg (Int.not_lt.mpr (Int.natCast_nonneg left))]
  · rw [Int.natAbs_natCast]
    exact hfits

/-- A skip of captured audio is kept, or replaced by one of a frame or so: by
less than a microsecond and a frame, told in frames. It depends on whether what
is left of the offset comes to a frame (`left_of_nonneg`). -/
theorem skip_of_nonneg (h : c.AtRest (c.offsetTo link playback) played captured)
    (hoffset : 0 ≤ c.offsetTo link playback) (hle : captured ≤ played) :
    ((c.realign link playback).realign link playback).pairing.skip
        = (c.realign link playback).pairing.skip
      ∨ ∃ n, 0 < n ∧ n * usecPerSecond < usecPerSecond + c.spec.rate
          ∧ ((c.realign link playback).realign link playback).pairing.skip
            = ⟨c.spec.bytesOfFrames n, 0⟩ := by
  obtain ⟨hnonneg, hlt⟩ := h.left_of_nonneg hoffset hle
  obtain ⟨left, hleft⟩ := Int.eq_ofNat_of_zero_le hnonneg
  rw [hleft] at hlt
  have hframes := (c.spec.framesOfUsec_bounds left).1
  have hrate := h.rate_le
  have hfits : c.spec.framesOfUsec left * usecPerSecond < usecPerSecond + c.spec.rate := by
    norm_cast at hlt
    exact Nat.lt_of_le_of_lt hframes hlt
  rw [h.skip_realign_realign hleft]
  · by_cases hzero : c.spec.framesOfUsec left = 0
    · rw [if_pos hzero]
      exact Or.inl rfl
    · rw [if_neg hzero]
      exact Or.inr ⟨_, Nat.pos_of_ne_zero hzero, hfits, rfl⟩
  · simp only [show usecPerSecond = 1000000 from rfl, Settings.maxRate, Word.max32,
      Word.maxUnsigned] at hfits hrate ⊢
    omega

/-- Where a frame takes whole microseconds (`hdvd`), a skip of captured audio is
kept. -/
theorem skip_of_dvd (h : c.AtRest (c.offsetTo link playback) played captured)
    (hoffset : 0 ≤ c.offsetTo link playback) (hle : captured ≤ played)
    (hdvd : c.spec.rate ∣ usecPerSecond) :
    ((c.realign link playback).realign link playback).pairing.skip
      = (c.realign link playback).pairing.skip := by
  have heq := h.offsetTo_realign_of_nonneg hoffset hle
  obtain ⟨hnonneg, -⟩ := h.left_of_nonneg hoffset hle
  obtain ⟨d, hd⟩ := Int.eq_ofNat_of_zero_le hoffset
  obtain ⟨left, hleft⟩ := Int.eq_ofNat_of_zero_le hnonneg
  rw [hleft, hd, Int.natAbs_natCast, StreamSpec.usecOfFrames_add_of_dvd hdvd] at heq
  obtain ⟨k, hk⟩ : ∃ k, k = c.spec.framesOfUsec d := ⟨_, rfl⟩
  have hskip := (c.spec.framesOfUsec_bounds d).2
  have hexact : c.spec.usecOfFrames k * c.spec.rate = k * usecPerSecond :=
    Nat.div_mul_cancel (Nat.dvd_mul_left_of_dvd hdvd k)
  rw [← hk] at heq hskip
  have hsum : d = left + c.spec.usecOfFrames k := by omega
  have hzero : c.spec.framesOfUsec left = 0 := by
    rw [hsum, Nat.add_mul, hexact] at hskip
    exact Nat.div_eq_of_lt (by omega)
  rw [h.skip_realign_realign hleft (by rw [hzero]; exact Nat.zero_le _), if_pos hzero]

/-- A skip of played audio is replaced by one of captured audio, since the
margin of `safetyFrames` is found as an offset. -/
theorem skip_of_neg (h : c.AtRest (c.offsetTo link playback) played captured)
    (hoffset : c.offsetTo link playback < 0)
    (hpos : 0 < c.spec.framesOfUsec (c.offsetTo link playback).natAbs)
    (hle : captured + (c.spec.framesOfUsec (c.offsetTo link playback).natAbs + safetyFrames)
      ≤ played)
    (hrate : c.spec.rate ≤ usecPerSecond) :
    ∃ n, safetyFrames ≤ n + 2 ∧ n ≤ safetyFrames
      ∧ ((c.realign link playback).realign link playback).pairing.skip
        = ⟨c.spec.bytesOfFrames n, 0⟩ := by
  obtain ⟨habove, hbelow⟩ := h.left_of_neg hoffset hpos hle
  have hnonneg : 0 ≤ (c.realign link playback).offsetTo link playback := by
    have hscaled : 0 * (c.spec.rate : Int)
        < (c.realign link playback).offsetTo link playback * c.spec.rate := by
      simp only [show safetyFrames = 10 from rfl, show usecPerSecond = 1000000 from rfl]
        at habove hrate
      omega
    exact Int.le_of_lt (Int.lt_of_mul_lt_mul_right hscaled (Int.natCast_nonneg _))
  obtain ⟨left, hleft⟩ := Int.eq_ofNat_of_zero_le hnonneg
  obtain ⟨n, hn⟩ : ∃ n, n = c.spec.framesOfUsec left := ⟨_, rfl⟩
  have hframes := c.spec.framesOfUsec_bounds left
  rw [← hn] at hframes
  rw [hleft] at habove hbelow
  obtain ⟨hmin, hmax, hsome⟩ : safetyFrames ≤ n + 2 ∧ n ≤ safetyFrames ∧ n ≠ 0 := by
    simp only [show safetyFrames = 10 from rfl, show usecPerSecond = 1000000 from rfl]
      at hframes habove hbelow hrate ⊢
    omega
  refine ⟨n, hmin, hmax, ?_⟩
  rw [h.skip_realign_realign hleft (hn ▸ Nat.le_trans hmax (by decide)), ← hn, if_neg hsome]

end AtRest

/-- What a second measurement finds while a skip is pending, and what its
correction makes of the skip, for a side `AtRest`. Where playback is ahead and
the played audio that waits covers the captured audio, less than a frame and a
microsecond is `left`, and the skip is kept, or replaced by one of a frame.
Where playback is late and there is enough audio to drop, the margin of
`safetyFrames` is left, and the skip is replaced by one of captured audio. Where
the lead counts as nothing, the same offset is found again. -/
theorem realign_twice {c : Capture κ} {link : Link} {playback : PlaybackTiming}
    {played captured : Nat} (h : c.AtRest (c.offsetTo link playback) played captured) :
    let found := c.offsetTo link playback
    let frames := c.spec.framesOfUsec found.natAbs
    let once := c.realign link playback
    let left := once.offsetTo link playback
    let twice := once.realign link playback
    (0 ≤ found → captured ≤ played →
        (0 ≤ left ∧ left * c.spec.rate < usecPerSecond + c.spec.rate)
          ∧ (twice.pairing.skip = once.pairing.skip
            ∨ ∃ n, 0 < n ∧ n * usecPerSecond < usecPerSecond + c.spec.rate
              ∧ twice.pairing.skip = ⟨c.spec.bytesOfFrames n, 0⟩)
          ∧ (c.spec.rate ∣ usecPerSecond → twice.pairing.skip = once.pairing.skip))
      ∧ (found < 0 → 0 < frames → captured + (frames + safetyFrames) ≤ played →
        ((safetyFrames - 1 : Int) * usecPerSecond - c.spec.rate < left * c.spec.rate
            ∧ left * c.spec.rate < safetyFrames * usecPerSecond + c.spec.rate)
          ∧ (c.spec.rate ≤ usecPerSecond → ∃ n, safetyFrames ≤ n + 2 ∧ n ≤ safetyFrames
            ∧ twice.pairing.skip = ⟨c.spec.bytesOfFrames n, 0⟩))
      ∧ (frames = 0 ∨ (0 ≤ found ∧ played + frames ≤ captured) ∨ (found < 0 ∧ played ≤ captured) →
        left = found ∧ twice.pairing.skip = once.pairing.skip) := by
  intro found frames once left twice
  refine ⟨fun hoffset hle => ?_, fun hoffset hpos hle => ?_, fun hcovered => ?_⟩
  · exact ⟨h.left_of_nonneg hoffset hle, h.skip_of_nonneg hoffset hle, h.skip_of_dvd hoffset hle⟩
  · exact ⟨h.left_of_neg hoffset hpos hle, h.skip_of_neg hoffset hpos hle⟩
  · have hleft := h.offsetTo_realign_of_covered hcovered
    refine ⟨hleft, ?_⟩
    show (once.pairing.skip.correct c.spec (once.offsetTo link playback)).2 = once.pairing.skip
    rw [show once.offsetTo link playback = found from hleft]
    exact c.pairing.skip.correct_correct c.spec found

/-- The hypotheses of `realign_twice` are met by a side that has 80 frames to
play, of which the first 16 come too late. -/
theorem realign_twice_trial :
    let c := (create ⟨.s16le, 8000, 1⟩ (⟨2⟩ : NullCanceller)).receive (.silence 160)
    let link := Link.create (.showing 0) ⟨0, 0⟩ ⟨0, 0⟩
    let playback : PlaybackTiming := ⟨0, 8000, 0, 160⟩
    c.offsetTo link playback = -2000
      ∧ c.spec.framesOfUsec 2000 = 16
      ∧ (c.realign link playback).pairing.skip = ⟨0, c.spec.bytesOfFrames 26⟩
      ∧ (c.realign link playback).offsetTo link playback = 1250
      ∧ ∃ n, safetyFrames ≤ n + 2 ∧ n ≤ safetyFrames
        ∧ ((c.realign link playback).realign link playback).pairing.skip
          = ⟨c.spec.bytesOfFrames n, 0⟩ := by
  intro c link playback
  have hoffset : c.offsetTo link playback = -2000 := by decide +kernel
  have hrest : c.AtRest (c.offsetTo link playback) 80 0 := by
    rw [hoffset]
    exact ⟨rfl, by decide, by decide, by decide +kernel, by decide +kernel, by decide, by decide,
      by decide⟩
  refine ⟨hoffset, by decide, by decide +kernel, by decide +kernel, ?_⟩
  refine ((realign_twice hrest).2.1 ?_ ?_ ?_).2 (by decide)
  · rw [hoffset]
    decide
  · rw [hoffset]
    decide
  · rw [hoffset]
    decide

end Capture

namespace Session

/-- In a session that has 80 frames to play, of which the first 16 come too
late, a first correction drops those 16 and the safety margin of 10. A second
one on the same timing of the playback side drops none of them, but 10 captured
frames. So a skip of playback that is pending is not told from an offset, and
`Capture.realign` gives it up. -/
theorem realign_gives_up_skip :
    let s := (trial.run [.setLatency .output ⟨8000, 0⟩, .render 160, .push (.silence 0)]).2
    (s.capture?.bind fun c => s.playback?.map fun p =>
        let playback := (p.timing s.link).1
        let once := c.realign s.link playback
        (c.pairing.skip, once.pairing.skip, (once.realign s.link playback).pairing.skip))
      = some (⟨0, 0⟩, ⟨0, 52⟩, ⟨20, 0⟩) := by
  decide +kernel

end Session

end EchoAlign
