import Mathlib.Order.MinMax
import EchoAlign.Proofs.Align.Durations

/-!
# `EchoAlign.Proofs.Align.Monotone`: what moves the offset, and which way

The offset is a difference of times, less the time of the playback audio
that is buffered between the device and the pairing. Byte counts need not
be whole frames here.

* `bufferedUsec_mono`: more playback audio anywhere, and less captured audio
  to set against it, is never less time.
* `offset_antitone_and_shifts`: so the offset never rises with the playback
  audio, it moves with each clock reading and latency one by one, and it does
  not see what both clocks or both counters have in common.
* `offset_rises_with_playback`: it does rise where a byte count leaves the
  signed words.
-/

set_option autoImplicit false

namespace EchoAlign

variable {spec : StreamSpec} {playback playback' : PlaybackTiming}
  {capture capture' : CaptureTiming}

/-- A byte count that is a signed word, with a duration below a bound that
leaves room to add a few of them, so that no sum in `bufferedUsec` is cut back. -/
structure StreamSpec.CanTime (spec : StreamSpec) (bytes : Nat) : Prop where
  word : bytes ≤ Word.maxSigned
  short : spec.durationOf bytes < 2 ^ 60

/-- Timing of both sides whose times and durations stay below `2 ^ 60`
microseconds, and whose counters differ by a signed word. -/
structure Timeable (spec : StreamSpec) (playback : PlaybackTiming) (capture : CaptureTiming) :
    Prop where
  playbackLength : spec.CanTime capture.playbackLength
  captureLength : spec.CanTime capture.captureLength
  captureDelay : spec.CanTime capture.delay
  playbackDelay : spec.CanTime playback.delay
  inFlight : spec.durationOf (playback.sent - capture.received).toNat < 2 ^ 60
  difference : Word.IsSigned (playback.sent - capture.received)
  playbackNow : playback.now < 2 ^ 60
  playbackLatency : playback.latency < 2 ^ 60
  captureNow : capture.now < 2 ^ 60
  captureLatency : capture.latency < 2 ^ 60

/-- The second timing is taken at the same times as the first, and holds at
least as much playback audio everywhere (on the tape, at both devices, and
`sent` but not `received`), and at most as much captured audio to set against
it. -/
structure BuffersMore (playback playback' : PlaybackTiming) (capture capture' : CaptureTiming) :
    Prop where
  playbackLength : capture.playbackLength ≤ capture'.playbackLength
  captureLength : capture'.captureLength ≤ capture.captureLength
  captureDelay : capture.delay ≤ capture'.delay
  playbackDelay : playback.delay ≤ playback'.delay
  sent : playback.sent ≤ playback'.sent
  received : capture'.received ≤ capture.received
  playbackNow : playback'.now = playback.now
  playbackLatency : playback'.latency = playback.latency
  captureNow : capture'.now = capture.now
  captureLatency : capture'.latency = capture.latency

/-! ### The buffered time -/

/-- A byte count that can be timed (`CanTime`) stands for its duration. -/
theorem StreamSpec.CanTime.usecOfBalance {bytes : Nat} (h : spec.CanTime bytes) :
    spec.usecOfBalance (Word.signed bytes) = spec.durationOf bytes :=
  StreamSpec.usecOfBalance_signed h.word (Nat.le_trans (Nat.le_of_lt h.short) (by decide))

namespace Timeable

/-- The buffered time, with the words of the machine out of the way: for timing
that is `Timeable`, every count in it is the number itself. -/
theorem bufferedUsec_eq (h : Timeable spec playback capture) :
    bufferedUsec spec playback capture
      = max ((spec.durationOf capture.playbackLength : Int)
            - spec.durationOf capture.captureLength) 0
        + spec.durationOf capture.delay + spec.durationOf playback.delay
        + spec.durationOf (playback.sent - capture.received).toNat := by
  have hflying : spec.usecOfBalance (Word.signed (playback.sent - capture.received))
      = spec.durationOf (playback.sent - capture.received).toNat := by
    rw [Word.signed_of_isSigned h.difference]
    exact StreamSpec.usecOfBalance_eq (Nat.le_trans (Nat.le_of_lt h.inFlight) (by decide))
  rw [bufferedUsec, h.playbackLength.usecOfBalance, h.captureLength.usecOfBalance,
    h.captureDelay.usecOfBalance, h.playbackDelay.usecOfBalance, hflying]

/-- The offset, with the words of the machine out of the way, by
`offset_of_times`. -/
theorem offset_eq (h : Timeable spec playback capture) :
    offset spec playback capture
      = (playback.now + playback.latency - bufferedUsec spec playback capture)
        - (capture.now - capture.latency) :=
  offset_of_times spec h.playbackNow h.playbackLatency h.captureNow h.captureLatency

end Timeable

/-- Wherever more playback audio waits, and the less captured audio is set
against it, the buffered time does not go down. All five terms are monotone by
`durationOf_mono`. -/
theorem bufferedUsec_mono (h : Timeable spec playback capture)
    (h' : Timeable spec playback' capture') (hmore : BuffersMore playback playback' capture capture') :
    bufferedUsec spec playback capture ≤ bufferedUsec spec playback' capture' := by
  have hplayed := spec.durationOf_mono hmore.playbackLength
  have hcaptured := spec.durationOf_mono hmore.captureLength
  have hheld := spec.durationOf_mono hmore.captureDelay
  have hqueued := spec.durationOf_mono hmore.playbackDelay
  have hflying : spec.durationOf (playback.sent - capture.received).toNat
      ≤ spec.durationOf (playback'.sent - capture'.received).toNat := by
    have hsent := hmore.sent
    have hreceived := hmore.received
    exact spec.durationOf_mono (by omega)
  -- What is held for pairing counts for what it is ahead of the captured audio.
  have hahead : max ((spec.durationOf capture.playbackLength : Int)
        - spec.durationOf capture.captureLength) 0
      ≤ max ((spec.durationOf capture'.playbackLength : Int)
        - spec.durationOf capture'.captureLength) 0 :=
    max_le_max_right 0 (Int.sub_le_sub (Int.ofNat_le.mpr hplayed) (Int.ofNat_le.mpr hcaptured))
  rw [h.bufferedUsec_eq, h'.bufferedUsec_eq]
  exact Int.add_le_add (Int.add_le_add (Int.add_le_add hahead (Int.ofNat_le.mpr hheld))
    (Int.ofNat_le.mpr hqueued)) (Int.ofNat_le.mpr hflying)

/-! ### The offset -/

namespace Timeable

/-- Timing that is taken at other times, with the same audio buffered: the
offset moves by what the times add up to. The four bounds are those of
`Timeable` on the times that are replaced, and nothing else of it changes. -/
theorem offset_retimed (h : Timeable spec playback capture) {playbackNow playbackLatency
    captureNow captureLatency : Nat} (hplaybackNow : playbackNow < 2 ^ 60)
    (hplaybackLatency : playbackLatency < 2 ^ 60) (hcaptureNow : captureNow < 2 ^ 60)
    (hcaptureLatency : captureLatency < 2 ^ 60) :
    offset spec { playback with now := playbackNow, latency := playbackLatency }
        { capture with now := captureNow, latency := captureLatency }
      = offset spec playback capture + (playbackNow - playback.now)
        + (playbackLatency - playback.latency) - (captureNow - capture.now)
        + (captureLatency - capture.latency) := by
  have hbuffered : bufferedUsec spec
        { playback with now := playbackNow, latency := playbackLatency }
        { capture with now := captureNow, latency := captureLatency }
      = bufferedUsec spec playback capture := rfl
  rw [h.offset_eq, offset_of_times spec hplaybackNow hplaybackLatency hcaptureNow hcaptureLatency,
    hbuffered]
  dsimp only
  omega

/-- Timing taken at the same times with more audio buffered has no greater
offset, by `bufferedUsec_mono`. -/
theorem offset_le (h : Timeable spec playback capture) (h' : Timeable spec playback' capture')
    (hmore : BuffersMore playback playback' capture capture') :
    offset spec playback' capture' ≤ offset spec playback capture := by
  have hbuffered := bufferedUsec_mono h h' hmore
  rw [h.offset_eq, h'.offset_eq, hmore.playbackNow, hmore.playbackLatency, hmore.captureNow,
    hmore.captureLatency]
  omega

end Timeable

/-- What both counters have in common is not seen, since `bufferedUsec` takes
their difference. -/
theorem offset_recounted (spec : StreamSpec) (playback : PlaybackTiming) (capture : CaptureTiming)
    (k : Int) :
    offset spec { playback with sent := playback.sent + k }
        { capture with received := capture.received + k }
      = offset spec playback capture := by
  have hcommon : playback.sent + k - (capture.received + k) = playback.sent - capture.received := by
    omega
  simp only [offset, bufferedUsec, hcommon]

/-- The `offset` never rises when more playback audio waits anywhere on its way,
or less captured audio does (`BuffersMore`), as long as both timings are
`Timeable`. A time that is added to the clock or the latency of the playback
side or to the latency of the capture side is added to the offset, and one that
is added to the clock of the capture side is taken off it. What is added to both
clocks, or to both counters, is not seen. -/
theorem offset_antitone_and_shifts (h : Timeable spec playback capture) :
    (∀ playback' capture', Timeable spec playback' capture' →
        BuffersMore playback playback' capture capture' →
        offset spec playback' capture' ≤ offset spec playback capture)
      ∧ (∀ t, playback.now + t < 2 ^ 60 →
          offset spec { playback with now := playback.now + t } capture
            = offset spec playback capture + t)
      ∧ (∀ t, playback.latency + t < 2 ^ 60 →
          offset spec { playback with latency := playback.latency + t } capture
            = offset spec playback capture + t)
      ∧ (∀ t, capture.latency + t < 2 ^ 60 →
          offset spec playback { capture with latency := capture.latency + t }
            = offset spec playback capture + t)
      ∧ (∀ t, capture.now + t < 2 ^ 60 →
          offset spec playback { capture with now := capture.now + t }
            = offset spec playback capture - t)
      ∧ (∀ t, playback.now + t < 2 ^ 60 → capture.now + t < 2 ^ 60 →
          offset spec { playback with now := playback.now + t }
              { capture with now := capture.now + t }
            = offset spec playback capture)
      ∧ ∀ k, offset spec { playback with sent := playback.sent + k }
            { capture with received := capture.received + k }
          = offset spec playback capture := by
  -- Each of the four times moves by itself, and then both clocks at once.
  refine ⟨fun _ _ h' hmore => h.offset_le h' hmore, ?_, ?_, ?_, ?_, ?_,
    offset_recounted spec playback capture⟩
  · intro t ht
    have hshift := h.offset_retimed ht h.playbackLatency h.captureNow h.captureLatency
    exact hshift.trans (by omega)
  · intro t ht
    have hshift := h.offset_retimed h.playbackNow ht h.captureNow h.captureLatency
    exact hshift.trans (by omega)
  · intro t ht
    have hshift := h.offset_retimed h.playbackNow h.playbackLatency h.captureNow ht
    exact hshift.trans (by omega)
  · intro t ht
    have hshift := h.offset_retimed h.playbackNow h.playbackLatency ht h.captureLatency
    exact hshift.trans (by omega)
  · intro t hplayback hcapture
    have hshift := h.offset_retimed hplayback h.playbackLatency hcapture h.captureLatency
    exact hshift.trans (by omega)

/-- At 8 kHz a frame has two bytes and takes 125 microseconds. Three bytes more
of playback audio, behind a frame that is not whole, are two whole frames more,
and the offset goes down by their time. Other clock readings and latencies are
seen as they are. The hypotheses of `offset_antitone_and_shifts` are met. -/
theorem offset_antitone_and_shifts_trial :
    let spec : StreamSpec := ⟨.s16le, 8000, 1⟩
    let playback : PlaybackTiming := ⟨5000, 40, 3, 100⟩
    let capture : CaptureTiming := ⟨4000, 7, 1, 97, 5, 7⟩
    Timeable spec playback capture
      ∧ offset spec playback capture = 672
      ∧ offset spec playback { capture with playbackLength := 10 } = 422
      ∧ offset spec playback { capture with playbackLength := 10 } ≤ offset spec playback capture
      ∧ offset spec { playback with now := 5000 + 9 } capture = offset spec playback capture + 9
      ∧ offset spec { playback with latency := 40 + 9 } capture = offset spec playback capture + 9
      ∧ offset spec playback { capture with latency := 7 + 9 } = offset spec playback capture + 9
      ∧ offset spec playback { capture with now := 4000 + 9 } = offset spec playback capture - 9
      ∧ offset spec { playback with now := 5000 + 9 } { capture with now := 4000 + 9 }
          = offset spec playback capture
      ∧ offset spec { playback with sent := 100 + -300 } { capture with received := 97 + -300 }
          = offset spec playback capture := by
  intro spec playback capture
  have h : Timeable spec playback capture :=
    ⟨⟨by decide, by decide⟩, ⟨by decide, by decide⟩, ⟨by decide, by decide⟩,
      ⟨by decide, by decide⟩, by decide, by decide, by decide, by decide, by decide, by decide⟩
  have h' : Timeable spec playback { capture with playbackLength := 10 } :=
    { h with playbackLength := ⟨by decide, by decide⟩ }
  have hmore : BuffersMore playback playback capture { capture with playbackLength := 10 } :=
    ⟨by decide, by decide, by decide, by decide, by decide, by decide, rfl, rfl, rfl, rfl⟩
  obtain ⟨hantitone, hnow, hlatency, hcaptureLatency, hcaptureNow, hclocks, hcounters⟩ :=
    offset_antitone_and_shifts h
  exact ⟨h, by decide +kernel, by decide +kernel, hantitone _ _ h' hmore, hnow 9 (by decide),
    hlatency 9 (by decide), hcaptureLatency 9 (by decide), hcaptureNow 9 (by decide),
    hclocks 9 (by decide) (by decide), hcounters (-300)⟩

/-- Byte counts are read as signed words. At 16 bytes a microsecond,
`2 ^ 63` bytes of playback audio last `2 ^ 59` microseconds, and count as
nothing; with a frame less they count in full. So the offset rises with
them, in a stream that a session can run on. -/
theorem offset_rises_with_playback :
    let spec : StreamSpec := ⟨.s16le, 1000000, 8⟩
    let playback : PlaybackTiming := ⟨0, 0, 0, 0⟩
    let capture : CaptureTiming := ⟨0, 0, 0, 0, 0, 2 ^ 63 - 16⟩
    spec.validate = .ok ()
      ∧ spec.durationOf (2 ^ 63) < 2 ^ 60
      ∧ offset spec playback capture = -(2 ^ 59 - 1)
      ∧ offset spec playback { capture with playbackLength := 2 ^ 63 } = 0 := by
  intro spec playback capture
  exact ⟨rfl, by decide +kernel, by decide +kernel, by decide +kernel⟩

end EchoAlign
