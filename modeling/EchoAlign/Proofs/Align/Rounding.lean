import EchoAlign.Proofs.Align.Durations

/-!
# `EchoAlign.Proofs.Align.Rounding`: the offset as one conversion

The offset between the two sides is specified with one sum of bytes that
is turned into time at its end. `offset` turns five byte counts into time
one by one, takes the captured duration off the played one and cuts the
difference at zero. Each conversion rounds down.

* `offset_near_nominal`: the offset is at most a microsecond below and
  three microseconds above the nominal one.
* `ofOffset_near_nominal`: what that leaves of the policy.
* `offset_eq_nominal`: nothing is lost where a frame takes whole
  microseconds.
* `offset_forgets_word`: a byte count past the signed words is read as one
  below zero, and counts as nothing. `offset_forgets_difference`: so it is with
  the difference of the counters.
-/

set_option autoImplicit false

namespace EchoAlign

variable {spec : StreamSpec} {playback : PlaybackTiming} {capture : CaptureTiming}

/-! ### The nominal offset -/

/-- The bytes of playback audio between the device and the pairing: what waits
there beyond the captured audio, what either device holds (`delay`), and what is
on its way from one side to the other. Natural subtraction cuts at zero, as the
code does. -/
def bufferedBytes (playback : PlaybackTiming) (capture : CaptureTiming) : Nat :=
  (capture.playbackLength - capture.captureLength) + capture.delay + playback.delay
    + (playback.sent - capture.received).toNat

/-- The offset between the two sides, with all `bufferedBytes` turned into time
at once and with no word in the way. -/
def nominalOffset (spec : StreamSpec) (playback : PlaybackTiming) (capture : CaptureTiming) : Int :=
  (playback.now + playback.latency
      - (bufferedBytes playback capture * usecPerSecond / spec.bytesPerSecond : Nat))
    - (capture.now - capture.latency)

/-- A byte count of `whole` frames that is a signed word, with a duration below
a bound that leaves room to add a few of them. -/
structure StreamSpec.Measures (spec : StreamSpec) (bytes : Nat) : Prop where
  whole : spec.frameSize ∣ bytes
  word : bytes ≤ Word.maxSigned
  short : bytes * usecPerSecond / spec.bytesPerSecond < 2 ^ 60

/-- Timing of both sides whose byte counts and times can be measured. The
`difference` of the counters is a signed word, whichever of them is ahead. -/
structure Measurable (spec : StreamSpec) (playback : PlaybackTiming) (capture : CaptureTiming) :
    Prop where
  rate_pos : 0 < spec.rate
  channels_pos : 0 < spec.channels
  playbackLength : spec.Measures capture.playbackLength
  captureLength : spec.Measures capture.captureLength
  captureDelay : spec.Measures capture.delay
  playbackDelay : spec.Measures playback.delay
  inFlight : spec.Measures (playback.sent - capture.received).toNat
  difference : Word.IsSigned (playback.sent - capture.received)
  playbackNow : playback.now < 2 ^ 60
  playbackLatency : playback.latency < 2 ^ 60
  captureNow : capture.now < 2 ^ 60
  captureLatency : capture.latency < 2 ^ 60

/-! ### Counts in frames -/

namespace StreamSpec

/-- The duration of whole frames, by their bytes (`bytesPerSecond`) or by their
number. -/
theorem usec_bytesOfFrames (hframe : 0 < spec.frameSize) (n : Nat) :
    spec.bytesOfFrames n * usecPerSecond / spec.bytesPerSecond = spec.usecOfFrames n := by
  unfold bytesOfFrames bytesPerSecond usecOfFrames
  rw [Nat.mul_right_comm, Nat.mul_comm, Nat.mul_div_mul_left _ _ hframe]

/-- What the conversion makes of a byte count that can be measured: the time of
its frames. `short` of `Measures` keeps that time within a word. -/
theorem Measures.exists_frames (hframe : 0 < spec.frameSize) {bytes : Nat}
    (h : spec.Measures bytes) :
    ∃ n, bytes = spec.bytesOfFrames n
      ∧ spec.usecOfBalance (Word.signed bytes) = spec.usecOfFrames n := by
  obtain ⟨n, hn⟩ := h.whole
  have hbytes : bytes = spec.bytesOfFrames n := by rw [hn, bytesOfFrames, Nat.mul_comm]
  have hshort := h.short
  rw [hbytes, usec_bytesOfFrames hframe] at hshort
  have hfits : spec.usecOfFrames n ≤ Word.maxSigned := by
    have hword : (2 : Nat) ^ 60 ≤ Word.maxSigned := by decide
    omega
  refine ⟨n, hbytes, ?_⟩
  rw [hbytes]
  exact usecOfBalance_bytesOfFrames hframe (hbytes ▸ h.word) hfits

/-- The balance of two counters (`hword`) is measured like any other count, and
one below 0 counts as nothing. -/
theorem usecOfBalance_toNat {bytes : Int} (hword : Word.IsSigned bytes)
    (hcount : bytes.toNat ≤ Word.maxSigned) :
    spec.usecOfBalance (Word.signed (bytes.toNat : Int))
      = spec.usecOfBalance (Word.signed bytes) := by
  unfold usecOfBalance
  rw [Word.signed_natCast hcount, Word.signed_of_isSigned hword, Int.toNat_natCast]

/-- A difference of durations, cut at zero, is the duration of the difference or
a microsecond more. The first bound is `usecOfFrames_add`, which loses a
microsecond at most when two durations are added. -/
theorem usecOfFrames_sub (h : 0 < spec.rate) (n k : Nat) :
    (spec.usecOfFrames (n - k) : Int) ≤ max ((spec.usecOfFrames n : Int) - spec.usecOfFrames k) 0
      ∧ max ((spec.usecOfFrames n : Int) - spec.usecOfFrames k) 0
        ≤ spec.usecOfFrames (n - k) + 1 := by
  rcases Nat.le_total k n with hle | hle
  · have hadd := spec.usecOfFrames_add h (n - k) k
    rw [Nat.sub_add_cancel hle] at hadd
    omega
  · have hmono := spec.usecOfFrames_mono hle
    have hzero : spec.usecOfFrames (n - k) = 0 := by
      rw [Nat.sub_eq_zero_of_le hle, usecOfFrames, Nat.zero_mul, Nat.zero_div]
    omega

/-- What `usecOfFrames_sub` says, without loss, where a frame takes whole
microseconds. -/
theorem usecOfFrames_sub_of_dvd (h : spec.rate ∣ usecPerSecond) (n k : Nat) :
    max ((spec.usecOfFrames n : Int) - spec.usecOfFrames k) 0 = spec.usecOfFrames (n - k) := by
  rcases Nat.le_total k n with hle | hle
  · have hadd := spec.usecOfFrames_add_of_dvd h (n - k) k
    rw [Nat.sub_add_cancel hle] at hadd
    omega
  · have hmono := spec.usecOfFrames_mono hle
    have hzero : spec.usecOfFrames (n - k) = 0 := by
      rw [Nat.sub_eq_zero_of_le hle, usecOfFrames, Nat.zero_mul, Nat.zero_div]
    omega

end StreamSpec

/-! ### Both offsets in frames -/

namespace Measurable

/-- Timing in frames: the two ways to turn them into time, and what either
offset makes of it. All five byte counts are whole frames by
`Measures.exists_frames`. -/
theorem exists_frames (h : Measurable spec playback capture) :
    ∃ played captured held queued flying : Nat,
      bufferedUsec spec playback capture
        = max ((spec.usecOfFrames played : Int) - spec.usecOfFrames captured) 0
          + spec.usecOfFrames held + spec.usecOfFrames queued + spec.usecOfFrames flying
      ∧ bufferedBytes playback capture * usecPerSecond / spec.bytesPerSecond
        = spec.usecOfFrames ((played - captured) + held + queued + flying) := by
  have hframe := StreamSpec.frameSize_pos_of_channels h.channels_pos
  obtain ⟨played, hplayed, hplayedUsec⟩ := h.playbackLength.exists_frames hframe
  obtain ⟨captured, hcaptured, hcapturedUsec⟩ := h.captureLength.exists_frames hframe
  obtain ⟨held, hheld, hheldUsec⟩ := h.captureDelay.exists_frames hframe
  obtain ⟨queued, hqueued, hqueuedUsec⟩ := h.playbackDelay.exists_frames hframe
  obtain ⟨flying, hflying, hflyingUsec⟩ := h.inFlight.exists_frames hframe
  refine ⟨played, captured, held, queued, flying, ?_, ?_⟩
  · rw [StreamSpec.usecOfBalance_toNat h.difference h.inFlight.word] at hflyingUsec
    unfold bufferedUsec
    rw [hplayedUsec, hcapturedUsec, hheldUsec, hqueuedUsec, hflyingUsec]
  · have htotal : bufferedBytes playback capture
        = spec.bytesOfFrames ((played - captured) + held + queued + flying) := by
      unfold bufferedBytes
      rw [hplayed, hcaptured, hheld, hqueued, hflying]
      unfold StreamSpec.bytesOfFrames
      rw [Nat.add_mul, Nat.add_mul, Nat.add_mul, Nat.sub_mul]
    rw [htotal, StreamSpec.usec_bytesOfFrames hframe]

/-- The offset, with the words of the machine out of the way, by
`offset_of_times`. -/
theorem offset_eq (h : Measurable spec playback capture) :
    offset spec playback capture
      = (playback.now + playback.latency - bufferedUsec spec playback capture)
        - (capture.now - capture.latency) :=
  offset_of_times spec h.playbackNow h.playbackLatency h.captureNow h.captureLatency

end Measurable

/-! ### What rounding does to the offset -/

/-- The `offset` of timing that is `Measurable` is the `nominalOffset` up to
rounding: at most a microsecond below it and at most three above. Adding up four
durations loses three microseconds at most, and taking the captured one off
gains one at most. -/
theorem offset_near_nominal (h : Measurable spec playback capture) :
    -1 ≤ offset spec playback capture - nominalOffset spec playback capture
      ∧ offset spec playback capture - nominalOffset spec playback capture ≤ 3 := by
  obtain ⟨played, captured, held, queued, flying, hsplit, htotal⟩ := h.exists_frames
  -- Cutting the difference at zero gains up to a microsecond, and each of
  -- the three sums that follow loses up to one.
  have hlead := StreamSpec.usecOfFrames_sub h.rate_pos played captured
  have hheld := StreamSpec.usecOfFrames_add h.rate_pos (played - captured) held
  have hqueued := StreamSpec.usecOfFrames_add h.rate_pos (played - captured + held) queued
  have hflying := StreamSpec.usecOfFrames_add h.rate_pos (played - captured + held + queued) flying
  rw [h.offset_eq, hsplit, nominalOffset, htotal]
  omega

/-- At 3 MHz a frame takes a third of a microsecond. Four terms of two frames
each come to nothing one by one, and to two microseconds at once. So the upper
bound of `offset_near_nominal` is off by one here, and the hypotheses are met. -/
theorem offset_near_nominal_thirds :
    let spec : StreamSpec := ⟨.s16le, 3000000, 1⟩
    let playback : PlaybackTiming := ⟨5000, 40, 4, 4⟩
    let capture : CaptureTiming := ⟨5000, 0, 4, 0, 0, 4⟩
    Measurable spec playback capture
      ∧ offset spec playback capture = 40
      ∧ nominalOffset spec playback capture = 38
      ∧ (-1 ≤ offset spec playback capture - nominalOffset spec playback capture
        ∧ offset spec playback capture - nominalOffset spec playback capture ≤ 3) := by
  intro spec playback capture
  have h : Measurable spec playback capture :=
    ⟨by decide, by decide, ⟨by decide, by decide, by decide⟩, ⟨by decide, by decide, by decide⟩,
      ⟨by decide, by decide, by decide⟩, ⟨by decide, by decide, by decide⟩,
      ⟨by decide, by decide, by decide⟩, by decide, by decide, by decide, by decide, by decide⟩
  exact ⟨h, by decide +kernel, by decide, offset_near_nominal h⟩

/-- Rounding decides about a `Correction` only where the `nominalOffset` is
within three microseconds of a bound: one that is further below zero is urgent,
one above zero is not, and one inside the tolerance needs none. -/
theorem ofOffset_near_nominal (h : Measurable spec playback capture) :
    (nominalOffset spec playback capture < -3 →
        Correction.ofOffset (offset spec playback capture) = .urgent)
      ∧ (1 ≤ nominalOffset spec playback capture
          → nominalOffset spec playback capture ≤ maxAlignedUsec - 3 →
        Correction.ofOffset (offset spec playback capture) = .none)
      ∧ (maxAlignedUsec + 1 < nominalOffset spec playback capture →
        Correction.ofOffset (offset spec playback capture) = .nonUrgent) := by
  have hnear := offset_near_nominal h
  have hbound : maxAlignedUsec = 1000 := rfl
  refine ⟨?_, ?_, ?_⟩
  · intro hlow
    rw [Correction.ofOffset, if_pos (by omega)]
  · intro hlow hhigh
    rw [Correction.ofOffset, if_neg (by omega), if_neg (by omega)]
  · intro hhigh
    rw [Correction.ofOffset, if_neg (by omega), if_pos (by omega)]

/-- Where a frame takes whole microseconds (`hrate`), the offset is the nominal
one. -/
theorem offset_eq_nominal (h : Measurable spec playback capture)
    (hrate : spec.rate ∣ usecPerSecond) :
    offset spec playback capture = nominalOffset spec playback capture := by
  obtain ⟨played, captured, held, queued, flying, hsplit, htotal⟩ := h.exists_frames
  rw [h.offset_eq, hsplit, nominalOffset, htotal, StreamSpec.usecOfFrames_sub_of_dvd hrate,
    StreamSpec.usecOfFrames_add_of_dvd hrate, StreamSpec.usecOfFrames_add_of_dvd hrate,
    StreamSpec.usecOfFrames_add_of_dvd hrate]
  omega

/-- Byte counts are read as signed words. When `2 ^ 63` bytes of playback
audio wait at 16 bytes a microsecond, their duration is far from what a
word can hold, and yet they count as nothing. -/
theorem offset_forgets_word :
    let spec : StreamSpec := ⟨.s16le, 1000000, 8⟩
    let playback : PlaybackTiming := ⟨0, 0, 0, 0⟩
    let capture : CaptureTiming := ⟨0, 0, 0, 0, 0, 2 ^ 63⟩
    spec.frameSize ∣ capture.playbackLength
      ∧ capture.playbackLength * usecPerSecond / spec.bytesPerSecond < 2 ^ 60
      ∧ offset spec playback capture = 0
      ∧ nominalOffset spec playback capture = -2 ^ 59 := by
  decide +kernel

/-- So is the difference of the two counters. When the playback side is
`2 ^ 63` bytes ahead, the difference comes out as far below zero, and none of
those bytes counts as being on its way. -/
theorem offset_forgets_difference :
    let spec : StreamSpec := ⟨.s16le, 1000000, 8⟩
    let playback : PlaybackTiming := ⟨0, 0, 0, 2 ^ 62⟩
    let capture : CaptureTiming := ⟨0, 0, 0, -2 ^ 62, 0, 0⟩
    spec.frameSize ∣ (playback.sent - capture.received).toNat
      ∧ (playback.sent - capture.received).toNat * usecPerSecond / spec.bytesPerSecond < 2 ^ 60
      ∧ offset spec playback capture = 0
      ∧ nominalOffset spec playback capture = -2 ^ 59 := by
  decide +kernel

end EchoAlign
