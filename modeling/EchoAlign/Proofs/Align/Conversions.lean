import Mathlib.Algebra.Order.Floor.Div
import EchoAlign.Proofs.Align.Durations

/-!
# `EchoAlign.Proofs.Align.Conversions`: there and back between bytes and time

A byte count is turned into a duration and a duration into bytes, and each
conversion rounds down, so that neither undoes the other. The lemmas say
how far a value that goes there and back ends up below itself.

* `framesOfUsec_usecOfFrames`: frames lose at most a frame, as long as a
  frame takes at least a microsecond.
* `le_usecOfFrames_framesOfUsec`: a duration loses at most the time of a
  frame, rounded up.
* `conversions_near_inverse`: the same for the bytes and words that are
  really converted, and that both conversions keep the order.
-/

set_option autoImplicit false

namespace EchoAlign.StreamSpec

variable {spec : StreamSpec}

/-! ### Frames -/

/-- Frames that are turned into time and back are the same or one less: at rates
up to `usecPerSecond` a frame takes a microsecond at least, so the fraction of a
microsecond that is lost is no more than a frame. -/
theorem framesOfUsec_usecOfFrames (hrate : 0 < spec.rate) (hfast : spec.rate ≤ usecPerSecond)
    (n : Nat) :
    spec.framesOfUsec (spec.usecOfFrames n) ≤ n
      ∧ n ≤ spec.framesOfUsec (spec.usecOfFrames n) + 1 := by
  have hthere := spec.usecOfFrames_bounds hrate n
  have hback := spec.framesOfUsec_bounds (spec.usecOfFrames n)
  simp only [usecPerSecond] at hfast hthere hback
  omega

/-- A duration that is turned into frames and back is short of itself by a frame
at most, in whole microseconds: by `usecPerSecond` over the rate, rounded up. -/
theorem le_usecOfFrames_framesOfUsec (hrate : 0 < spec.rate) (usec : Nat) :
    usec ≤ spec.usecOfFrames (spec.framesOfUsec usec) + usecPerSecond ⌈/⌉ spec.rate := by
  have hthere := spec.framesOfUsec_bounds usec
  have hback := spec.usecOfFrames_bounds hrate (spec.framesOfUsec usec)
  have hperiod : usecPerSecond ≤ usecPerSecond ⌈/⌉ spec.rate * spec.rate := by
    rw [Nat.mul_comm]
    exact le_smul_ceilDiv hrate
  -- Both roundings together lose less than a frame and a microsecond.
  have hloss : usec * spec.rate
      < (spec.usecOfFrames (spec.framesOfUsec usec) + usecPerSecond ⌈/⌉ spec.rate + 1)
        * spec.rate := by
    rw [Nat.add_mul, Nat.add_mul, Nat.one_mul]
    omega
  exact Nat.le_of_lt_succ (Nat.lt_of_mul_lt_mul_right hloss)

/-! ### Bytes -/

/-- The bytes of a duration fit into a word, so that `bytesOfUsec` is not cut
back. -/
def BytesFit (spec : StreamSpec) (usec : Nat) : Prop :=
  spec.bytesOfFrames (spec.framesOfUsec usec) ≤ Word.maxUnsigned

/-- The duration of a byte count fits into a word, so that `usecOfBytes` is not
cut back. -/
def UsecFits (spec : StreamSpec) (bytes : Nat) : Prop :=
  spec.durationOf bytes ≤ Word.maxUnsigned

/-- Whether the bytes of a duration fit (`BytesFit`) can be found by counting
them. -/
instance (spec : StreamSpec) (usec : Nat) : Decidable (spec.BytesFit usec) :=
  inferInstanceAs (Decidable (_ ≤ _))

/-- Whether the duration of a byte count fits (`UsecFits`) can be found by
computing it. -/
instance (spec : StreamSpec) (bytes : Nat) : Decidable (spec.UsecFits bytes) :=
  inferInstanceAs (Decidable (_ ≤ _))

/-- Where the bytes fit, the frames do, as each has some bytes (`hframe`). -/
theorem BytesFit.frames_le (hframe : 0 < spec.frameSize) {usec : Nat} (h : spec.BytesFit usec) :
    spec.framesOfUsec usec ≤ Word.maxUnsigned :=
  Nat.le_trans (Nat.le_mul_of_pos_right _ hframe) h

/-- Where the bytes of a duration fit, those of a shorter one do: `BytesFit`
goes down. -/
theorem BytesFit.mono {t u : Nat} (hle : t ≤ u) (h : spec.BytesFit u) : spec.BytesFit t :=
  Nat.le_trans (Nat.mul_le_mul_right _ (spec.framesOfUsec_mono hle)) h

/-- Where the duration of a byte count fits, that of a smaller one does:
`UsecFits` goes down. -/
theorem UsecFits.mono {n k : Nat} (hle : n ≤ k) (h : spec.UsecFits k) : spec.UsecFits n :=
  Nat.le_trans (spec.durationOf_mono hle) h

/-- The bytes of a duration are those of its whole frames (`framesOfUsec`), if
they fit. -/
theorem BytesFit.bytesOfUsec_eq (hframe : 0 < spec.frameSize) {usec : Nat}
    (h : spec.BytesFit usec) :
    spec.bytesOfUsec usec = spec.bytesOfFrames (spec.framesOfUsec usec) :=
  StreamSpec.bytesOfUsec_eq (h.frames_le hframe)

/-- The longer a duration, the more bytes (`bytesOfUsec`), up to one whose bytes
still fit. -/
theorem BytesFit.bytesOfUsec_mono (hframe : 0 < spec.frameSize) {t u : Nat} (hle : t ≤ u)
    (h : spec.BytesFit u) : spec.bytesOfUsec t ≤ spec.bytesOfUsec u := by
  rw [h.bytesOfUsec_eq hframe, (h.mono hle).bytesOfUsec_eq hframe]
  exact Nat.mul_le_mul_right _ (spec.framesOfUsec_mono hle)

/-- The more bytes, the longer they last (`usecOfBytes`), up to a count whose
duration still fits. -/
theorem UsecFits.usecOfBytes_mono {n k : Nat} (hle : n ≤ k) (h : spec.UsecFits k) :
    spec.usecOfBytes n ≤ spec.usecOfBytes k := by
  rw [usecOfBytes_eq h, usecOfBytes_eq (h.mono hle)]
  exact spec.durationOf_mono hle

/-- A byte count that is turned into time and back loses its partial frame and
one frame at most, by `framesOfUsec_usecOfFrames` on its whole frames. -/
theorem UsecFits.bytesOfUsec_usecOfBytes (hrate : 0 < spec.rate)
    (hfast : spec.rate ≤ usecPerSecond) (hframe : 0 < spec.frameSize) {n : Nat}
    (h : spec.UsecFits n) :
    spec.bytesOfUsec (spec.usecOfBytes n) ≤ n
      ∧ n < spec.bytesOfUsec (spec.usecOfBytes n) + 2 * spec.frameSize := by
  -- At this rate there are no more frames than microseconds.
  have hframes : spec.framesOfUsec (spec.durationOf n) ≤ Word.maxUnsigned := by
    have hfew : spec.framesOfUsec (spec.durationOf n) ≤ spec.durationOf n :=
      Nat.div_le_of_le_mul (Nat.mul_comm _ usecPerSecond ▸ Nat.mul_le_mul_left _ hfast)
    exact Nat.le_trans hfew h
  rw [usecOfBytes_eq h, StreamSpec.bytesOfUsec_eq hframes]
  obtain ⟨hlow, hhigh⟩ := framesOfUsec_usecOfFrames hrate hfast (n / spec.frameSize)
  have hwhole := Nat.div_mul_le_self n spec.frameSize
  have hpart := Nat.lt_div_mul_add (a := n) hframe
  constructor
  · exact Nat.le_trans (Nat.mul_le_mul_right _ hlow) hwhole
  · have hframes := Nat.mul_le_mul_right spec.frameSize hhigh
    rw [Nat.add_mul, Nat.one_mul] at hframes
    rw [bytesOfFrames, durationOf]
    omega

/-- A duration that is turned into bytes and back loses the time of a frame at
most, rounded up to a microsecond, by `le_usecOfFrames_framesOfUsec`. -/
theorem BytesFit.usecOfBytes_bytesOfUsec (hrate : 0 < spec.rate) (hframe : 0 < spec.frameSize)
    {usec : Nat} (hword : usec ≤ Word.maxUnsigned) (h : spec.BytesFit usec) :
    spec.usecOfBytes (spec.bytesOfUsec usec) ≤ usec
      ∧ usec ≤ spec.usecOfBytes (spec.bytesOfUsec usec) + usecPerSecond ⌈/⌉ spec.rate := by
  have hle := spec.usecOfFrames_framesOfUsec_le usec
  have hfits : spec.durationOf (spec.bytesOfFrames (spec.framesOfUsec usec)) ≤ Word.maxUnsigned := by
    rw [durationOf_bytesOfFrames hframe]
    exact Nat.le_trans hle hword
  rw [h.bytesOfUsec_eq hframe, usecOfBytes_eq hfits, durationOf_bytesOfFrames hframe]
  exact ⟨hle, le_usecOfFrames_framesOfUsec hrate usec⟩

/-! ### Both conversions -/

/-- Bytes and time can be turned into each other by `bytesOfUsec` and
`usecOfBytes` with little loss, at every rate of up to a frame a microsecond
(`hfast`) and for all values whose results fit a word (`BytesFit`, `UsecFits`):
a duration stands for whole frames, both conversions keep the order, and there
and back no value grows, bytes lose less than two frames, and a duration loses
the time of one frame at most. -/
theorem conversions_near_inverse (hrate : 0 < spec.rate) (hfast : spec.rate ≤ usecPerSecond)
    (hchannels : 0 < spec.channels) :
    (∀ t, spec.BytesFit t → spec.frameSize ∣ spec.bytesOfUsec t)
      ∧ (∀ t u, t ≤ u → spec.BytesFit u → spec.bytesOfUsec t ≤ spec.bytesOfUsec u)
      ∧ (∀ n k, n ≤ k → spec.UsecFits k → spec.usecOfBytes n ≤ spec.usecOfBytes k)
      ∧ (∀ n, spec.UsecFits n →
          spec.bytesOfUsec (spec.usecOfBytes n) ≤ n
            ∧ n < spec.bytesOfUsec (spec.usecOfBytes n) + 2 * spec.frameSize)
      ∧ ∀ t ≤ Word.maxUnsigned, spec.BytesFit t →
          spec.usecOfBytes (spec.bytesOfUsec t) ≤ t
            ∧ t ≤ spec.usecOfBytes (spec.bytesOfUsec t) + usecPerSecond ⌈/⌉ spec.rate := by
  have hframe := frameSize_pos_of_channels hchannels
  refine ⟨?_, ?_, ?_, ?_, ?_⟩
  · intro t _
    exact Nat.dvd_mul_left _ _
  · intro t u hle h
    exact h.bytesOfUsec_mono hframe hle
  · intro n k hle h
    exact h.usecOfBytes_mono hle
  · intro n h
    exact h.bytesOfUsec_usecOfBytes hrate hfast hframe
  · intro t hword h
    exact h.usecOfBytes_bytesOfUsec hrate hframe hword

/-- At 44.1 kHz a frame takes 22.7 microseconds, and the bounds are met: a frame
and all but a byte of the next come to 22 microseconds, which are no frame at
all, and 45 microseconds come back as 22. The hypotheses of
`conversions_near_inverse` are met. -/
theorem conversions_near_inverse_trial :
    let spec : StreamSpec := ⟨.f32le, 44100, 2⟩
    spec.UsecFits 15 ∧ spec.usecOfBytes 15 = 22 ∧ spec.bytesOfUsec 22 = 0
      ∧ (spec.bytesOfUsec 22 ≤ 15 ∧ 15 < spec.bytesOfUsec 22 + 2 * spec.frameSize)
      ∧ spec.BytesFit 45 ∧ spec.bytesOfUsec 45 = 8 ∧ spec.usecOfBytes 8 = 22
      ∧ (spec.usecOfBytes 8 ≤ 45 ∧ 45 ≤ spec.usecOfBytes 8 + usecPerSecond ⌈/⌉ spec.rate)
      ∧ usecPerSecond ⌈/⌉ spec.rate = 23 := by
  intro spec
  obtain ⟨-, -, -, hbytes, husec⟩ :=
    @conversions_near_inverse spec (by decide) (by decide) (by decide)
  have h15 : spec.UsecFits 15 := by decide
  have h45 : spec.BytesFit 45 := by decide
  have husec15 : spec.usecOfBytes 15 = 22 := by decide +kernel
  have hbytes45 : spec.bytesOfUsec 45 = 8 := by decide +kernel
  refine ⟨h15, husec15, by decide +kernel, ?_, h45, hbytes45, by decide +kernel, ?_, by decide⟩
  · have hback := hbytes 15 h15
    rwa [husec15] at hback
  · have hback := husec 45 (by decide) h45
    rwa [hbytes45] at hback

end EchoAlign.StreamSpec
