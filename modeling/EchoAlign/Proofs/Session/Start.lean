import EchoAlign.Endpoint.RawSource
import EchoAlign.Session.Build
import EchoAlign.Session.Run

/-!
# `EchoAlign.Proofs.Session.Start`: sessions in which nothing has happened

`Session.IsNew` says of a session that it was just set up from settings,
around any canceller and with any producer. Only the rate is bounded, by
the largest one that settings can give.

* `isNew_of_build`: a session with the canceller that the settings name
  is one of them.
* `IsNew.opened`: what a new session consists of.
-/

set_option autoImplicit false

namespace EchoAlign

variable {κ υ : Type} [Canceller κ]

/-- The link of a session about to be set up, as `Link.create` makes it. Only
the world outside can differ: the clock, the two latencies and the latency that
is assumed. -/
def Link.IsNew (l : Link) : Prop :=
  ∃ clock captureLatency playbackLatency assumedLatency?,
    l = { create clock captureLatency playbackLatency with assumedLatency? }

namespace Session

/-- The session was just set up, by `buildWith` from settings of a rate up to
`Settings.maxRate`. Statements about runs start from here. -/
def IsNew (s : Session κ υ) : Prop :=
  ∃ settings canceller producer link dumps, settings.rate ≤ Settings.maxRate ∧ link.IsNew
    ∧ buildWith settings canceller producer link dumps = .ok s

/-- What can be done with a result can be done with what it was made from. This
takes a chain of `>>=` apart. -/
theorem bind_eq_ok {ε α β : Type} {x : Except ε α} {f : α → Except ε β} {b : β}
    (h : x >>= f = .ok b) : ∃ a, x = .ok a ∧ f a = .ok b := by
  cases x with
  | error e => cases h
  | ok a => exact ⟨a, rfl, h⟩

/-- A result is not an error to be renamed by `mapError`. -/
theorem mapError_eq_ok {ε ε' α : Type} {x : Except ε α} {f : ε → ε'} {a : α}
    (h : x.mapError f = .ok a) : x = .ok a := by
  cases x with
  | error e => cases h
  | ok b =>
      cases h
      rfl

/-- A canceller is set up for the stream it was asked for, with 16-bit samples
(`asS16`). -/
theorem source_init {method : CancellerMethod} {source : StreamSpec} {tuning : CancellerTuning}
    {setup : CancellerSetup} (h : CancellerSetup.init method source tuning = .ok setup) :
    setup.source = source.asS16 := by
  unfold CancellerSetup.init at h
  split at h
  · cases h
  · obtain ⟨_, _, h⟩ := bind_eq_ok h
    obtain ⟨frames, -, h⟩ := bind_eq_ok h
    cases h
    rfl

/-- A session with the canceller that the settings name is new, too:
`Session.build` is `buildWith` behind the set-up of the canceller. -/
theorem isNew_of_build {settings : Settings} {producer : υ} {link : Link} {dumps : Dumps}
    {s : Session ConfiguredCanceller υ} (hrate : settings.rate ≤ Settings.maxRate)
    (hlink : link.IsNew) (h : build settings producer link dumps = .ok s) : s.IsNew := by
  obtain ⟨_, hvalid, h⟩ := bind_eq_ok h
  obtain ⟨setup, hinit, h⟩ := bind_eq_ok h
  rw [source_init (mapError_eq_ok hinit)] at h
  refine ⟨settings, setup.canceller, producer, link, dumps, hrate, hlink, ?_⟩
  unfold buildWith
  rw [hvalid]
  exact h

/-- Settings that are accepted by `validate` name a stream that can be
processed, and room for a message in each mailbox. -/
theorem of_validate {settings : Settings} (h : settings.validate = .ok ()) :
    settings.spec.validate = .ok () ∧ 0 < settings.messageCapacity := by
  obtain ⟨_, hspec, h⟩ := bind_eq_ok h
  obtain ⟨_, _, h⟩ := bind_eq_ok h
  obtain ⟨_, hcapacity, _⟩ := bind_eq_ok h
  unfold Settings.checkNonzero at hcapacity
  refine ⟨mapError_eq_ok hspec, ?_⟩
  split at hcapacity
  · cases hcapacity
  · omega

/-- A range that is accepted by `checkRange` holds the value. -/
theorem checkRange_eq_ok {name : String} {value low high : Nat}
    (h : CancellerTuning.checkRange name value low high = .ok ()) :
    low ≤ value ∧ value ≤ high := by
  unfold CancellerTuning.checkRange at h
  split at h
  · cases h
  · omega

/-- Blocks that are accepted have 200 ms at most, filters 2000 ms, by the ranges
in `CancellerTuning.validate`. -/
theorem sizes_of_validate {tuning : CancellerTuning} (h : tuning.validate = .ok ()) :
    tuning.frameMs ≤ 200 ∧ tuning.filterMs ≤ 2000 := by
  obtain ⟨_, hframe, hfilter⟩ := bind_eq_ok h
  exact ⟨(checkRange_eq_ok hframe).2, (checkRange_eq_ok hfilter).2⟩

/-- A new session is one that was created around a block of at least one frame,
for a valid stream of a rate that fits. What the checks of `Session.buildWith`
have found out is said here once, so that nothing else has to take them apart. -/
theorem IsNew.opened {s : Session κ υ} (h : s.IsNew) :
    ∃ spec capacity canceller producer link dumps?,
      s = create spec capacity canceller producer link dumps? ∧ link.IsNew
        ∧ spec.validate = .ok () ∧ spec.rate ≤ Settings.maxRate ∧ 0 < capacity
        ∧ 0 < Canceller.blockFrames canceller := by
  obtain ⟨settings, canceller, producer, link, dumps, hrate, hlink, h⟩ := h
  obtain ⟨_, hvalid, h⟩ := bind_eq_ok h
  obtain ⟨hspec, hcapacity⟩ := of_validate (mapError_eq_ok hvalid)
  unfold assemble at h
  split at h
  · cases h
  · next hframes =>
      cases h
      exact ⟨_, _, _, _, _, _, rfl, hlink, hspec, hrate, hcapacity, by omega⟩

/-- A small session to try things on: blocks of two frames, four messages to a
mailbox, and a loop of eight bytes to be played. The canceller is a
`NullCanceller`. -/
def trial : Session NullCanceller RawSource :=
  create ⟨.s16le, 8000, 1⟩ 4 ⟨2⟩ (.ofBlock (.ofBytes ⟨#[1, 2, 3, 4, 5, 6, 7, 8]⟩) true)
    (Link.create (.showing 0) ⟨0, 0⟩ ⟨0, 0⟩) none

/-- The trial session is new, as `buildWith` gives it for its settings. -/
theorem isNew_trial : trial.IsNew :=
  ⟨{ Settings.standard with rate := 8000, messageCapacity := 4 }, ⟨2⟩, _, _, .fresh, by decide,
    ⟨_, _, _, _, rfl⟩, rfl⟩

/-- The same session as `trial` with room for one message in each mailbox. -/
def narrow : Session NullCanceller RawSource :=
  create trial.spec 1 ⟨2⟩ (.ofBlock (.ofBytes ⟨#[1, 2, 3, 4, 5, 6, 7, 8]⟩) true)
    (Link.create (.showing 0) ⟨0, 0⟩ ⟨0, 0⟩) none

/-- The narrow session is new, as `buildWith` gives it for its settings. -/
theorem isNew_narrow : narrow.IsNew :=
  ⟨{ Settings.standard with rate := 8000, messageCapacity := 1 }, ⟨2⟩, _, _, .fresh, by decide,
    ⟨_, _, _, _, rfl⟩, rfl⟩

end Session

/-! ### The sizes in a session -/

namespace StreamSpec

variable {spec : StreamSpec}

/-- A frame of a valid stream (`validate`) has some bytes. -/
theorem frameSize_pos (h : spec.validate = .ok ()) : 0 < spec.frameSize :=
  frameSize_pos_of_channels (pos_of_validate h).2.1

/-- A frame of a valid stream has at most four bytes for each of `maxChannels`
channels. -/
theorem frameSize_le (h : spec.validate = .ok ()) : spec.frameSize ≤ 4 * maxChannels := by
  obtain ⟨-, -, hchannels⟩ := pos_of_validate h
  unfold frameSize
  cases spec.format with
  | s16le => exact Nat.mul_le_mul (by decide) hchannels
  | f32le => exact Nat.mul_le_mul (by decide) hchannels

/-- A second of audio is never more than a word can count (`maxSigned`). -/
theorem bytesPerSecond_le (h : spec.validate = .ok ()) (hrate : spec.rate ≤ Settings.maxRate) :
    spec.bytesPerSecond ≤ Word.maxSigned :=
  Nat.le_trans (Nat.mul_le_mul (frameSize_le h) hrate) (by decide)

/-- A block of some `frames` has some bytes. -/
theorem bytesOfFrames_pos (h : spec.validate = .ok ()) {frames : Nat} (hframes : 0 < frames) :
    0 < spec.bytesOfFrames frames :=
  Nat.mul_pos hframes (frameSize_pos h)

end StreamSpec

end EchoAlign
