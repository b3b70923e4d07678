import Mathlib.Algebra.Group.Nat.Defs
import EchoAlign.Session.Setup
import EchoAlign.Proofs.Session.Start

/-!
# `EchoAlign.Proofs.Session.Setup`: a session is set up as a whole or not at all

The conditions for a session are spread over the checks of the stream,
the sizes, the numbers and the block. `Settings.requirements` lists them
in the order in which they are checked, and `Settings.fault?` is what the
first one that fails is reported as.

* `StreamPair.settle_run`: a canceller that cannot be made leaves both
  streams alone.
* `Session.build_eq`: settings without a fault lead to a session around
  the largest block that its duration holds.
* `Session.setUp_run`: setting up does what building answers; if that is
  an error, nothing is started or created and the endpoints are let go.
* `Session.setUp_or_nothing`: all of it in one statement.
-/

set_option autoImplicit false

namespace EchoAlign

variable {υ : Type}

/-! ### Running a setup -/

section Runs

variable {ε σ α β : Type}

/-- An error ends a run, and what was done until then stays done: how `>>=`
works on states. -/
theorem run_bind (x : ExceptT ε (StateM σ) α) (f : α → ExceptT ε (StateM σ) β) (s : σ) :
    (x >>= f).run.run s
      = match x.run.run s with
        | (.ok a, s) => (f a).run.run s
        | (.error e, s) => (.error e, s) := by
  show (x.run.run s >>= fun p => (ExceptT.bindCont f p.1).run p.2) = _
  rcases x.run.run s with ⟨_ | _, _⟩ <;> rfl

/-- What a handler finds is what was done until the error: how `tryCatch` works
on states. -/
theorem run_tryCatch (x : ExceptT ε (StateM σ) α) (f : ε → ExceptT ε (StateM σ) α) (s : σ) :
    (tryCatch x f).run.run s
      = match x.run.run s with
        | (.ok a, s) => (.ok a, s)
        | (.error e, s) => (f e).run.run s := by
  show (x.run.run s >>= fun p =>
    (match p.1 with
      | .ok a => pure (.ok a)
      | .error e => f e : StateM σ (Except ε α)).run p.2) = _
  rcases x.run.run s with ⟨_ | _, _⟩ <;> rfl

/-- To `throw` an error changes no state. -/
theorem run_throw (e : ε) (s : σ) :
    (throw e : ExceptT ε (StateM σ) α).run.run s = (.error e, s) := rfl

/-- A result from outside (`liftM`) changes no state. -/
theorem run_liftM (x : Except ε α) (s : σ) :
    (liftM x : ExceptT ε (StateM σ) α).run.run s = (x, s) := rfl

/-- To look at the state (`get`) changes nothing. -/
theorem run_get (s : σ) : (get : ExceptT ε (StateM σ) σ).run.run s = (.ok s, s) := rfl

end Runs

/-! ### The streams of a canceller -/

/-- Settling two streams in place comes to what `init` makes of the
source. If it fails, no stream has changed. -/
theorem StreamPair.settle_run (method : CancellerMethod) (tuning : CancellerTuning)
    (streams : StreamPair) :
    (settle method tuning).run.run streams
      = match CancellerSetup.init method streams.source tuning with
        | .ok setup => (.ok setup.canceller, ⟨setup.source, setup.sink⟩)
        | .error e => (.error e, streams) := by
  unfold settle CancellerSetup.init
  simp only [run_bind, run_get]
  by_cases hchannels : streams.source.channels = 0 ∨ maxChannels < streams.source.channels
  · rw [if_pos hchannels, if_pos hchannels]
    simp only [run_bind, run_throw]
  · rw [if_neg hchannels, if_neg hchannels]
    simp only [run_bind, run_liftM]
    cases tuning.validate with
    | error e => rfl
    | ok _ =>
        cases blockFrames streams.source.rate tuning.frameMs with
        | error e => rfl
        | ok frames => rfl

/-- The playback stream of a canceller is its capture stream, as
`CancellerSetup.init` settles on one for both. -/
theorem CancellerSetup.sink_eq_source {method : CancellerMethod} {source : StreamSpec}
    {tuning : CancellerTuning} {setup : CancellerSetup}
    (h : init method source tuning = .ok setup) : setup.sink = setup.source := by
  unfold init at h
  split at h
  · cases h
  · obtain ⟨_, _, h⟩ := Session.bind_eq_ok h
    obtain ⟨frames, -, h⟩ := Session.bind_eq_ok h
    cases h
    rfl

/-! ### What is asked of settings -/

namespace Settings

/-- Settings that a session can run on. `fault?_eq_none_iff` says that these are
the settings without a fault. -/
structure Usable (s : Settings) : Prop where
  rate : 1 ≤ s.rate
  channels : 1 ≤ s.channels ∧ s.channels ≤ 8
  frameMs : 1 ≤ s.tuning.frameMs ∧ s.tuning.frameMs ≤ 200
  filterMs : 1 ≤ s.tuning.filterMs ∧ s.tuning.filterMs ≤ 2000
  messageCapacity : 1 ≤ s.messageCapacity
  timingTimeoutMs : 1 ≤ s.timingTimeoutMs
  block : 1000 ≤ s.rate * s.tuning.frameMs

/-- What settings have to meet by themselves, in order, each with the error for
those that do not. The order is that of `Settings.validate`. -/
def requirements (s : Settings) : List (Bool × SessionError) :=
  [(1 ≤ s.rate, .settings (.audio .zeroRate)),
   (1 ≤ s.channels ∧ s.channels ≤ 8, .settings (.audio (.channelCount s.channels 8))),
   (1 ≤ s.tuning.frameMs ∧ s.tuning.frameMs ≤ 200,
    .settings (.canceller (.outOfRange "frame_size_ms" s.tuning.frameMs 1 200))),
   (1 ≤ s.tuning.filterMs ∧ s.tuning.filterMs ≤ 2000,
    .settings (.canceller (.outOfRange "filter_size_ms" s.tuning.filterMs 1 2000))),
   (1 ≤ s.messageCapacity, .settings (.argument (.invalidValue "message_capacity" "0"))),
   (1 ≤ s.timingTimeoutMs, .settings (.argument (.invalidValue "snapshot_timeout_ms" "0")))]

/-- What is asked of them last: a block holds a frame, so that `blockFrames`
does not fail. -/
def blockRequirement (s : Settings) : Bool × SessionError :=
  (1000 ≤ s.rate * s.tuning.frameMs, .canceller (.emptyBlock s.tuning.frameMs s.rate))

/-- The error of the first requirement that settings do not meet, in
`requirements` and then `blockRequirement`. -/
def fault? (s : Settings) : Option SessionError :=
  ((s.requirements ++ [s.blockRequirement]).find? (!·.1)).map (·.2)

/-- Settings meet all `requirements` but the last exactly if their numbers are
within these bounds. -/
theorem requirements_met_iff (s : Settings) :
    s.requirements.find? (!·.1) = none ↔
      1 ≤ s.rate ∧ (1 ≤ s.channels ∧ s.channels ≤ 8)
        ∧ (1 ≤ s.tuning.frameMs ∧ s.tuning.frameMs ≤ 200)
        ∧ (1 ≤ s.tuning.filterMs ∧ s.tuning.filterMs ≤ 2000)
        ∧ 1 ≤ s.messageCapacity ∧ 1 ≤ s.timingTimeoutMs := by
  simp [requirements]

/-- Settings without a `fault?` are those that are `Usable`. -/
theorem fault?_eq_none_iff (s : Settings) : s.fault? = none ↔ s.Usable := by
  unfold fault?
  rw [Option.map_eq_none_iff, List.find?_append, Option.or_eq_none_iff, requirements_met_iff]
  constructor
  · rintro ⟨⟨hrate, hchannels, hframe, hfilter, hcapacity, htimeout⟩, hblock⟩
    exact ⟨hrate, hchannels, hframe, hfilter, hcapacity, htimeout,
      by simpa [blockRequirement] using hblock⟩
  · intro h
    exact ⟨⟨h.rate, h.channels, h.frameMs, h.filterMs, h.messageCapacity, h.timingTimeoutMs⟩,
      by simpa [blockRequirement] using h.block⟩

/-- Three faults, of which the first is reported; and a block of 20 ms
that would hold less than a frame. -/
example :
    ({ standard with rate := 0, channels := 9, timingTimeoutMs := 0 } : Settings).fault?
        = some (.settings (.audio .zeroRate))
      ∧ ({ standard with rate := 49 } : Settings).fault? = some (.canceller (.emptyBlock 20 49)) := by
  decide

/-! ### How the checks are made -/

/-- Goes on if a `requirement` is met, and otherwise gives its error. -/
def demand (requirement : Bool × SessionError) : Except SessionError Unit :=
  if requirement.1 then .ok () else .error requirement.2

/-- Where the requirement is met, `demand` goes on. -/
theorem demand_of {p : Prop} [Decidable p] (h : p) (e : SessionError) :
    demand (p, e) = .ok () := if_pos (decide_eq_true h)

/-- Where the requirement is not met, `demand` gives the error. -/
theorem demand_of_not {p : Prop} [Decidable p] (h : ¬p) (e : SessionError) :
    demand (p, e) = .error e := if_neg (by simpa using h)

/-- Requirements that are checked in order fail with the first one that is not
met (`find?`), by induction on the list. -/
theorem forM_demand (l : List (Bool × SessionError)) :
    l.forM demand = match (l.find? (!·.1)).map (·.2) with
      | some e => .error e
      | none => .ok () := by
  induction l with
  | nil => rfl
  | cons requirement l ih =>
      obtain ⟨holds, e⟩ := requirement
      cases holds with
      | false => rfl
      | true => exact ih

/-- A result is not an error to be renamed by `mapError`. -/
theorem mapError_ok {ε ε' α : Type} (f : ε → ε') (a : α) :
    (Except.ok a : Except ε α).mapError f = .ok a := rfl

/-- Errors of two steps in a row are renamed step by step: `mapError` goes
through `>>=`. -/
theorem mapError_bind {ε ε' α β : Type} (f : ε → ε') (x : Except ε α) (g : α → Except ε β) :
    (x >>= g).mapError f = x.mapError f >>= fun a => (g a).mapError f := by
  cases x with
  | error e => rfl
  | ok a => rfl

/-- Renaming an error twice with `mapError` is renaming it once. -/
theorem mapError_mapError {ε ε' ε'' α : Type} (f : ε → ε') (g : ε' → ε'') (x : Except ε α) :
    (x.mapError f).mapError g = x.mapError (g ∘ f) := by
  cases x with
  | error e => rfl
  | ok a => rfl

/-- A range that is checked by `checkRange` is a `demand` on the value. -/
theorem mapError_checkRange {name : String} {value low high : Nat}
    (f : CancellerError → SessionError) :
    (CancellerTuning.checkRange name value low high).mapError f
      = demand (low ≤ value ∧ value ≤ high, f (.outOfRange name value low high)) := by
  unfold CancellerTuning.checkRange
  by_cases h : low ≤ value ∧ value ≤ high
  · rw [if_neg (by omega), demand_of h]
    rfl
  · rw [if_pos (by omega), demand_of_not h]
    rfl

/-- A number that must not be 0 (`checkNonzero`) is a `demand` to be at least 1. -/
theorem mapError_checkNonzero {key : String} {n : Nat} :
    (checkNonzero key n).mapError SessionError.settings
      = demand (1 ≤ n, .settings (.argument (.invalidValue key "0"))) := by
  unfold checkNonzero
  by_cases h : 1 ≤ n
  · rw [if_neg (by omega), demand_of h]
    rfl
  · rw [if_pos (by omega), demand_of_not h]
    rfl

/-- A stream that is checked is two demands, first on its rate and then on its
channels. In this order the first fault of `StreamSpec.validate` is the first
demand that is not met. -/
theorem mapError_validate_spec (spec : StreamSpec) (f : AudioError → SessionError) :
    spec.validate.mapError f
      = demand (1 ≤ spec.rate, f .zeroRate) >>= fun _ =>
        demand (1 ≤ spec.channels ∧ spec.channels ≤ 8, f (.channelCount spec.channels 8)) := by
  unfold StreamSpec.validate
  have hmax : maxChannels = 8 := rfl
  by_cases hrate : 1 ≤ spec.rate
  · rw [if_neg (by omega), demand_of hrate]
    by_cases h : 1 ≤ spec.channels ∧ spec.channels ≤ 8
    · rw [if_neg (by omega), demand_of h]
      rfl
    · rw [if_pos (by omega), demand_of_not h]
      rfl
  · rw [if_pos (by omega), demand_of_not hrate]
    rfl

/-- The checks that settings are put through are the `requirements`, in order. -/
theorem mapError_validate (s : Settings) :
    s.validate.mapError SessionError.settings = s.requirements.forM demand := by
  unfold validate CancellerTuning.validate
  simp only [mapError_bind, mapError_mapError, mapError_validate_spec, mapError_checkRange,
    mapError_checkNonzero, bind_assoc]
  show _ = _ >>= fun _ => _ >>= fun _ => _ >>= fun _ => _ >>= fun _ => _ >>= fun _ =>
    demand _ >>= fun _ => pure ()
  rw [bind_pure]
  rfl

end Settings

/-! ### What building answers -/

/-- A block of whole frames has the largest power of two of them that its
duration holds, and there is none in less than a frame (`emptyBlock`). -/
theorem blockFrames_eq (rate frameMs : Nat) :
    blockFrames rate frameMs
      = if 1000 ≤ rate * frameMs then .ok (2 ^ (rate * frameMs / 1000).log2)
        else .error (.emptyBlock frameMs rate) := by
  unfold blockFrames
  by_cases h : 1000 ≤ rate * frameMs
  · rw [if_pos h, if_neg (by omega), Nat.one_shiftLeft]
  · rw [if_neg h, if_pos (by omega)]

namespace Session

/-- The session that `settings` lead to, without any of the checks. -/
def ofSettings (settings : Settings) (producer : υ) (link : Link) (dumps? : Option Dumps) :
    Session ConfiguredCanceller υ :=
  let frames := 2 ^ (settings.rate * settings.tuning.frameMs / 1000).log2
  create settings.spec.asS16 settings.messageCapacity
    (.create settings.method settings.spec frames settings.tuning) producer link dumps?

/-- Of settings that meet their own `requirements`, a canceller can only miss
the block. -/
theorem init_eq (settings : Settings) (h : settings.requirements.find? (!·.1) = none) :
    CancellerSetup.init settings.method settings.spec settings.tuning
      = (blockFrames settings.rate settings.tuning.frameMs).map fun frames =>
          ⟨.create settings.method settings.spec frames settings.tuning, settings.spec.asS16,
            settings.spec.asS16⟩ := by
  obtain ⟨-, hchannels, hframe, hfilter, -, -⟩ := settings.requirements_met_iff.mp h
  have hmax : maxChannels = 8 := rfl
  have hspec : ¬(settings.spec.channels = 0 ∨ maxChannels < settings.spec.channels) := by
    show ¬(settings.channels = 0 ∨ maxChannels < settings.channels)
    omega
  have htuning : settings.tuning.validate = .ok () := by
    unfold CancellerTuning.validate CancellerTuning.checkRange
    rw [if_neg (by omega), if_neg (by omega)]
    rfl
  unfold CancellerSetup.init
  rw [if_neg hspec, htuning]
  show (blockFrames settings.rate settings.tuning.frameMs >>= fun frames => _) = _
  cases blockFrames settings.rate settings.tuning.frameMs with
  | error e => rfl
  | ok frames => rfl

/-- Building fails with the first fault (`Settings.fault?`), and otherwise gives
the session that the settings lead to (`ofSettings`). -/
theorem build_eq (settings : Settings) (producer : υ) (link : Link) (dumps : Dumps) :
    build settings producer link dumps
      = match settings.fault? with
        | some e => .error e
        | none => .ok (ofSettings settings producer link
            (if settings.saveDumps then some dumps else none)) := by
  unfold build
  rw [settings.mapError_validate, Settings.forM_demand]
  unfold Settings.fault?
  rw [List.find?_append]
  cases hfind : settings.requirements.find? (!·.1) with
  | some requirement => rfl
  | none =>
      rw [init_eq settings hfind, blockFrames_eq]
      -- All but the length of a block is settled before a canceller is made.
      by_cases hblock : 1000 ≤ settings.rate * settings.tuning.frameMs
      · rw [if_pos hblock]
        have hmet : [settings.blockRequirement].find? (!·.1) = none := by
          simpa [Settings.blockRequirement] using hblock
        rw [hmet]
        show assemble settings _ _ producer link dumps = _
        unfold assemble
        have hframes : Canceller.blockFrames (ConfiguredCanceller.create settings.method settings.spec
            (2 ^ (settings.rate * settings.tuning.frameMs / 1000).log2) settings.tuning) ≠ 0 := by
          cases settings.method <;> exact Nat.ne_of_gt (Nat.two_pow_pos _)
        rw [if_neg hframes]
        rfl
      · rw [if_neg hblock]
        have hmissed : [settings.blockRequirement].find? (!·.1)
            = some settings.blockRequirement := by
          simpa [Settings.blockRequirement] using hblock
        rw [hmissed]
        rfl

end Session

/-! ### What setting up does -/

/-- A site where a session was set up from `settings`: its timer runs, and its
dump files are there, each only if the settings ask for it. -/
def Site.prepared (site : Site) (settings : Settings) : Site :=
  { site with
    timers := site.timers ++ settings.checkInterval?.toList
    files := if settings.saveDumps then (Dumps.create site.files settings.dumpDir).2
      else site.files }

/-- What owns the endpoints lets them go when it fails, by the field `released`. -/
theorem Setup.owning_run {α : Type} (setup : Setup α) (site : Site) :
    (owning setup).run.run site
      = match setup.run.run site with
        | (.ok a, site) => (.ok a, site)
        | (.error e, site) => (.error e, site.release) := by
  unfold owning
  rw [run_tryCatch]
  rcases setup.run.run site with ⟨_ | _, _⟩ <;> rfl

namespace Session

variable {κ : Type} [Canceller κ]

/-- A session is put together as `assemble` says, and only then is
something started or created. -/
theorem install_run (settings : Settings) (spec : StreamSpec) (canceller : κ) (producer : υ)
    (link : Link) (site : Site) :
    (install settings spec canceller producer link).run.run site
      = match assemble settings spec canceller producer link
          (Dumps.create site.files settings.dumpDir).1 with
        | .ok s => (.ok s, site.prepared settings)
        | .error e => (.error e, site) := by
  unfold install assemble
  by_cases hframes : Canceller.blockFrames canceller = 0
  · rw [if_pos hframes, if_pos hframes]
    simp only [run_bind, run_throw]
  · rw [if_neg hframes, if_neg hframes]
    have htimer : (Setup.startTimer settings).run.run site
        = (.ok (), { site with timers := site.timers ++ settings.checkInterval?.toList }) := by
      unfold Setup.startTimer
      cases settings.checkInterval? with
      | none =>
          rw [Option.toList_none, List.append_nil]
          rfl
      | some seconds => rfl
    simp only [run_bind, htimer]
    unfold Setup.openDumps Site.prepared
    cases settings.saveDumps <;> rfl

/-- Setting up answers what `Session.build` answers. When that is an error, the
endpoints are let go and the site is as it was. -/
theorem setUp_run (settings : Settings) (producer : υ) (link : Link) (site : Site) :
    (setUp settings producer link).run.run site
      = match build settings producer link (Dumps.create site.files settings.dumpDir).1 with
        | .ok s => (.ok s, site.prepared settings)
        | .error e => (.error e, site.release) := by
  unfold setUp build
  rw [Setup.owning_run, StreamPair.settle_run]
  cases settings.validate.mapError SessionError.settings with
  | error e => rfl
  | ok _ =>
      cases CancellerSetup.init settings.method settings.spec settings.tuning with
      | error e => rfl
      | ok setup =>
          simp only [run_bind, run_liftM, Settings.mapError_ok, install_run]
          show _ = match assemble settings setup.source setup.canceller producer link _ with
            | .ok s => _
            | .error e => _
          cases assemble settings setup.source setup.canceller producer link
              (Dumps.create site.files settings.dumpDir).1 with
          | error e => rfl
          | ok s => rfl

/-- The same for a given canceller, with `Session.buildWith`. -/
theorem setUpWith_run (settings : Settings) (canceller : κ) (producer : υ) (link : Link)
    (site : Site) :
    (setUpWith settings canceller producer link).run.run site
      = match buildWith settings canceller producer link
          (Dumps.create site.files settings.dumpDir).1 with
        | .ok s => (.ok s, site.prepared settings)
        | .error e => (.error e, site.release) := by
  unfold setUpWith buildWith
  rw [Setup.owning_run]
  cases settings.validate.mapError SessionError.settings with
  | error e => rfl
  | ok _ =>
      simp only [run_bind, run_liftM, install_run]
      show _ = match assemble settings settings.spec.asS16 canceller producer link _ with
        | .ok s => _
        | .error e => _
      cases assemble settings settings.spec.asS16 canceller producer link
          (Dumps.create site.files settings.dumpDir).1 with
      | error e => rfl
      | ok s => rfl

/-- A session that was set up is new, in the sense of `IsNew` that all runs
start from. -/
theorem isNew_of_setUp {settings : Settings} {producer : υ} {link : Link} {site : Site}
    {s : Session ConfiguredCanceller υ} (hrate : settings.rate ≤ Settings.maxRate)
    (hlink : link.IsNew) (h : ((setUp settings producer link).run.run site).1 = .ok s) :
    s.IsNew := by
  rw [setUp_run] at h
  cases hbuild : build settings producer link (Dumps.create site.files settings.dumpDir).1 with
  | error e =>
      rw [hbuild] at h
      cases h
  | ok built =>
      rw [hbuild] at h
      cases h
      exact isNew_of_build hrate hlink hbuild

/-- Setting up in terms of the first fault of the settings: an error and the
endpoints let go, or the session of `ofSettings` and the site prepared for it. -/
theorem setUp_eq (settings : Settings) (producer : υ) (link : Link) (site : Site) :
    (setUp settings producer link).run.run site
      = match settings.fault? with
        | some e => (.error e, site.release)
        | none => (.ok (ofSettings settings producer link
            (if settings.saveDumps then some (Dumps.create site.files settings.dumpDir).1
              else none)), site.prepared settings) := by
  rw [setUp_run, build_eq]
  cases settings.fault? with
  | some e => rfl
  | none => rfl

/-- The stream and the block of the session that settings lead to: 16-bit
samples, and a power of two of frames. The power of two is the one of
`blockFrames_eq`, with the bounds on it that the settings give. -/
theorem ofSettings_block {settings : Settings} (h : settings.Usable) (producer : υ) (link : Link)
    (dumps? : Option Dumps) :
    let s := ofSettings settings producer link dumps?
    s.spec = ⟨.s16le, settings.rate, settings.channels⟩
      ∧ (∃ c, s.capture? = some c ∧ c.spec = s.spec ∧ c.pairing.blockBytes = s.blockBytes)
      ∧ ∃ k, s.blockBytes = 2 * settings.channels * 2 ^ k
        ∧ 2 ^ k ≤ settings.rate * settings.tuning.frameMs / 1000
        ∧ settings.rate * settings.tuning.frameMs / 1000 < 2 ^ (k + 1) := by
  intro s
  obtain ⟨frames, hframes⟩ : ∃ n, n = settings.rate * settings.tuning.frameMs / 1000 := ⟨_, rfl⟩
  have hpos : frames ≠ 0 := by
    have hblock := h.block
    omega
  refine ⟨rfl, ⟨_, rfl, rfl, rfl⟩, frames.log2, ?_, ?_, ?_⟩
  · have hsame : ∀ k, Canceller.blockFrames
        (ConfiguredCanceller.create settings.method settings.spec k settings.tuning) = k := by
      intro k
      cases settings.method <;> rfl
    show Canceller.blockFrames (ConfiguredCanceller.create ..) * (2 * settings.channels) = _
    rw [hsame, ← hframes, Nat.mul_comm]
  · rw [← hframes]
    exact Nat.log2_self_le hpos
  · rw [← hframes]
    exact Nat.lt_log2_self

/-- A session is set up exactly from `Usable` settings, and otherwise the first
fault is reported (`fault?`), nothing is started or created, and the endpoints
are let go (`released`). The session has the stream that the settings name, and
blocks of the largest power of two of frames that their duration holds. The
canceller by itself (`StreamPair.settle`) changes both streams or neither. -/
theorem setUp_or_nothing (settings : Settings) (producer : υ) (link : Link) (site : Site) :
    ((∃ s, ((setUp settings producer link).run.run site).1 = .ok s) ↔ settings.Usable)
      ∧ (∀ e, ((setUp settings producer link).run.run site).1 = .error e
          ↔ settings.fault? = some e)
      ∧ (∀ e, ((setUp settings producer link).run.run site).1 = .error e →
          ((setUp settings producer link).run.run site).2 = { site with released := true })
      ∧ (∀ s, ((setUp settings producer link).run.run site).1 = .ok s →
          s.spec = ⟨.s16le, settings.rate, settings.channels⟩
            ∧ (∃ c, s.capture? = some c ∧ c.spec = s.spec ∧ c.pairing.blockBytes = s.blockBytes)
            ∧ ∃ k, s.blockBytes = 2 * settings.channels * 2 ^ k
              ∧ 2 ^ k ≤ settings.rate * settings.tuning.frameMs / 1000
              ∧ settings.rate * settings.tuning.frameMs / 1000 < 2 ^ (k + 1))
      ∧ ∀ method tuning streams,
          (∀ e, ((StreamPair.settle method tuning).run.run streams).1 = .error e →
            ((StreamPair.settle method tuning).run.run streams).2 = streams)
          ∧ ∀ canceller, ((StreamPair.settle method tuning).run.run streams).1 = .ok canceller →
            ((StreamPair.settle method tuning).run.run streams).2.sink
                = ((StreamPair.settle method tuning).run.run streams).2.source
              ∧ ((StreamPair.settle method tuning).run.run streams).2.source
                = ⟨.s16le, streams.source.rate, streams.source.channels⟩ := by
  rw [setUp_eq, ← settings.fault?_eq_none_iff]
  refine ⟨?_, ?_, ?_, ?_, ?_⟩
  · cases settings.fault? <;> simp
  · cases settings.fault? <;> simp
  · cases settings.fault? with
    | some _ => exact fun _ _ => rfl
    | none => exact fun _ h => nomatch h
  · intro s h
    cases hfault : settings.fault? with
    | some e =>
        rw [hfault] at h
        cases h
    | none =>
        rw [hfault] at h
        cases h
        exact ofSettings_block (settings.fault?_eq_none_iff.mp hfault) producer link _
  · intro method tuning streams
    rw [StreamPair.settle_run]
    cases hinit : CancellerSetup.init method streams.source tuning with
    | error e =>
        constructor
        · intro _ _
          rfl
        · intro canceller h
          cases h
    | ok setup =>
        constructor
        · intro e h
          cases h
        · intro canceller _
          exact ⟨CancellerSetup.sink_eq_source hinit, source_init hinit⟩

end Session

end EchoAlign
