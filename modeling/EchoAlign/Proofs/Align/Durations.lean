import Mathlib.Algebra.Group.Nat.Defs
import Mathlib.Algebra.Group.Int.Defs
import EchoAlign.Align.Timing

/-!
# `EchoAlign.Proofs.Align.Durations`: frames and microseconds

Byte counts are turned into time and back by way of whole frames, and
each way rounds down. The lemmas say how much is lost.

* `usecOfFrames_add`: durations that are rounded one by one lose a
  microsecond against the duration of the sum.
* `usecOfFrames_bounds`, `framesOfUsec_bounds`: less than a microsecond is
  lost one way, less than a frame the other.
* `usecOfBytes_eq`, `bytesOfUsec_eq`, `usecOfBalance_eq`: what the words of a
  machine leave of a duration that fits.
* `offset_of_times`: the same for the times of an offset.
-/

set_option autoImplicit false

namespace EchoAlign

namespace StreamSpec

variable {spec : StreamSpec}

/-- The whole microseconds in a number of `frames`, as a number without a bound. -/
def usecOfFrames (spec : StreamSpec) (frames : Nat) : Nat := frames * usecPerSecond / spec.rate

/-- The whole frames in a duration of `usec` microseconds, as a number without a
bound. -/
def framesOfUsec (spec : StreamSpec) (usec : Nat) : Nat := usec * spec.rate / usecPerSecond

/-- The duration of a byte count, however long it is; a frame that is not whole
does not count. In words, it is `usecOfBytes`. -/
def durationOf (spec : StreamSpec) (bytes : Nat) : Nat :=
  spec.usecOfFrames (bytes / spec.frameSize)

/-- Rounding down two durations separately loses a microsecond at most, since
`usecOfFrames` rounds down once for each. -/
theorem usecOfFrames_add (h : 0 < spec.rate) (n k : Nat) :
    spec.usecOfFrames n + spec.usecOfFrames k ≤ spec.usecOfFrames (n + k)
      ∧ spec.usecOfFrames (n + k) ≤ spec.usecOfFrames n + spec.usecOfFrames k + 1 := by
  unfold usecOfFrames
  rw [Nat.add_mul, Nat.add_div h]
  split <;> omega

/-- The more frames, the longer they take: `usecOfFrames` is monotone. -/
theorem usecOfFrames_mono (spec : StreamSpec) {n k : Nat} (h : n ≤ k) :
    spec.usecOfFrames n ≤ spec.usecOfFrames k :=
  Nat.div_le_div_right (Nat.mul_le_mul_right _ h)

/-- Where a frame takes whole microseconds (`h`), nothing is lost by adding two
durations. -/
theorem usecOfFrames_add_of_dvd (h : spec.rate ∣ usecPerSecond) (n k : Nat) :
    spec.usecOfFrames (n + k) = spec.usecOfFrames n + spec.usecOfFrames k := by
  unfold usecOfFrames
  rw [Nat.mul_div_assoc _ h, Nat.mul_div_assoc _ h, Nat.mul_div_assoc _ h, Nat.add_mul]

/-- The time that frames take (`usecOfFrames`) is rounded down by less than a
microsecond, told without a division. -/
theorem usecOfFrames_bounds (h : 0 < spec.rate) (n : Nat) :
    spec.usecOfFrames n * spec.rate ≤ n * usecPerSecond
      ∧ n * usecPerSecond < spec.usecOfFrames n * spec.rate + spec.rate :=
  ⟨Nat.div_mul_le_self _ _, Nat.lt_div_mul_add h⟩

/-- The frames in a duration (`framesOfUsec`) are rounded down by less than a
frame, told without a division. -/
theorem framesOfUsec_bounds (usec : Nat) :
    spec.framesOfUsec usec * usecPerSecond ≤ usec * spec.rate
      ∧ usec * spec.rate < spec.framesOfUsec usec * usecPerSecond + usecPerSecond :=
  ⟨Nat.div_mul_le_self _ _, Nat.lt_div_mul_add (by decide)⟩

/-- The frames in a duration (`framesOfUsec`) take no longer than the duration. -/
theorem usecOfFrames_framesOfUsec_le (usec : Nat) :
    spec.usecOfFrames (spec.framesOfUsec usec) ≤ usec :=
  Nat.div_le_of_le_mul (Nat.mul_comm usec spec.rate ▸ (spec.framesOfUsec_bounds usec).1)

/-- The longer a duration, the more frames: `framesOfUsec` is monotone. -/
theorem framesOfUsec_mono (spec : StreamSpec) {t u : Nat} (h : t ≤ u) :
    spec.framesOfUsec t ≤ spec.framesOfUsec u :=
  Nat.div_le_div_right (Nat.mul_le_mul_right _ h)

/-- The more bytes, the longer they last: `durationOf` is monotone. -/
theorem durationOf_mono (spec : StreamSpec) {n k : Nat} (h : n ≤ k) :
    spec.durationOf n ≤ spec.durationOf k :=
  spec.usecOfFrames_mono (Nat.div_le_div_right h)

/-- A duration that fits into a word (`hfits`) is the duration of the bytes:
`usecOfBytes` is `durationOf`. -/
theorem usecOfBytes_eq {bytes : Nat} (hfits : spec.durationOf bytes ≤ Word.maxUnsigned) :
    spec.usecOfBytes bytes = spec.durationOf bytes :=
  Word.unsigned_of_le hfits

/-- Whole frames last as long by their bytes (`durationOf`) as by their number
(`usecOfFrames`). -/
theorem durationOf_bytesOfFrames (hframe : 0 < spec.frameSize) (n : Nat) :
    spec.durationOf (spec.bytesOfFrames n) = spec.usecOfFrames n := by
  rw [durationOf, bytesOfFrames, Nat.mul_div_cancel _ hframe]

/-- The bytes of a duration are those of its whole frames, if these can be
counted in a word (`hfits`). -/
theorem bytesOfUsec_eq {usec : Nat} (hfits : spec.framesOfUsec usec ≤ Word.maxUnsigned) :
    spec.bytesOfUsec usec = spec.bytesOfFrames (spec.framesOfUsec usec) := by
  unfold bytesOfUsec bytesOfFrames
  rw [show usec * spec.rate / usecPerSecond = spec.framesOfUsec usec from rfl,
    Word.unsigned_of_le hfits]

/-- A balance stands for the time of its bytes, if this time fits (`hfits`), and
a balance below 0 for none. -/
theorem usecOfBalance_eq {bytes : Int} (hfits : spec.durationOf bytes.toNat ≤ Word.maxSigned) :
    spec.usecOfBalance bytes = spec.durationOf bytes.toNat := by
  have hword : Word.maxSigned ≤ Word.maxUnsigned := by decide
  rw [usecOfBalance, usecOfBytes_eq (Nat.le_trans hfits hword), Word.signed_natCast hfits]

/-- A byte count that is a signed word (`hbytes`) stands for its time, if this
fits. `Word.signed` leaves it as it is. -/
theorem usecOfBalance_signed {bytes : Nat} (hbytes : bytes ≤ Word.maxSigned)
    (hfits : spec.durationOf bytes ≤ Word.maxSigned) :
    spec.usecOfBalance (Word.signed bytes) = spec.durationOf bytes := by
  have hbalance : spec.durationOf (bytes : Int).toNat ≤ Word.maxSigned := by
    rwa [Int.toNat_natCast]
  rw [Word.signed_natCast hbytes, usecOfBalance_eq hbalance, Int.toNat_natCast]

/-- Byte counts of whole frames that fit into words (`hbytes`, `hfits`) stand
for the time of their frames. -/
theorem usecOfBalance_bytesOfFrames (hframe : 0 < spec.frameSize) {n : Nat}
    (hbytes : spec.bytesOfFrames n ≤ Word.maxSigned)
    (hfits : spec.usecOfFrames n ≤ Word.maxSigned) :
    spec.usecOfBalance (Word.signed (spec.bytesOfFrames n)) = spec.usecOfFrames n := by
  rw [← durationOf_bytesOfFrames hframe] at hfits ⊢
  exact usecOfBalance_signed hbytes hfits

end StreamSpec

/-- The offset, with the words of the machine out of the way of its times: below
`2 ^ 60` each, they and the `bufferedUsec` add up in a signed word. -/
theorem offset_of_times {playback : PlaybackTiming} {capture : CaptureTiming} (spec : StreamSpec)
    (hplaybackNow : playback.now < 2 ^ 60) (hplaybackLatency : playback.latency < 2 ^ 60)
    (hcaptureNow : capture.now < 2 ^ 60) (hcaptureLatency : capture.latency < 2 ^ 60) :
    offset spec playback capture
      = (playback.now + playback.latency - bufferedUsec spec playback capture)
        - (capture.now - capture.latency) := by
  have hword : ∀ n : Nat, n < 2 ^ 60 → Word.signed (n : Int) = n := by
    intro n hn
    exact Word.signed_natCast (Nat.le_trans (Nat.le_of_lt hn) (by decide))
  unfold offset
  rw [hword _ hplaybackNow, hword _ hplaybackLatency, hword _ hcaptureNow, hword _ hcaptureLatency]

end EchoAlign
