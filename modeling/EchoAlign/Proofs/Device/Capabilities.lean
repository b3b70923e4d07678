import EchoAlign.Device.Catalog
import Mathlib.Data.List.Nodup
import Mathlib.Order.MinMax

/-!
# `EchoAlign.Proofs.Device.Capabilities`: what is told of a device

A device runs the streams that one of its ranges runs. What is told of it are
two things taken from all ranges apart: the candidate rates, and the largest
channel count.

* `mem_ratesOf`, `pairwise_lt_ratesOf`: the rates are those in some range, in
  rising order, whatever the order of the ranges and however they overlap.
* `capabilities_told`: a stream counts as supported when its rate lies in one
  range and its channels fit into one, which need not be the same. The two come
  to one range for all streams of a rate exactly when the ranges of this rate
  have the largest channel count.
-/

set_option autoImplicit false

namespace EchoAlign

/-- Whether a stream of this spec is in the range: the range `covers` the rate
and has the channels. -/
def DeviceRange.runs (r : DeviceRange) (spec : StreamSpec) : Bool :=
  r.covers spec.rate && spec.channels ≤ r.channels

/-- A range runs a stream if it `covers` the rate and has the channels. -/
theorem DeviceRange.runs_iff (r : DeviceRange) (spec : StreamSpec) :
    r.runs spec = true ↔ r.covers spec.rate = true ∧ spec.channels ≤ r.channels := by
  rw [runs, Bool.and_eq_true, decide_eq_true_eq]

namespace DeviceInfo

/-! ### The rates -/

section Rates

variable {range : DeviceRange} {ranges : List DeviceRange} {found : List Nat} {rate : Nat}

/-- A candidate rate is added if the range `covers` it, and nothing else is. -/
theorem mem_addRate (candidate : Nat) :
    rate ∈ addRate range found candidate
      ↔ rate ∈ found ∨ (rate = candidate ∧ range.covers rate = true) := by
  unfold addRate
  by_cases hadded : (range.covers candidate && !found.contains candidate) = true
  · have hcovers := (Bool.and_eq_true_iff.mp hadded).1
    rw [if_pos hadded, List.mem_append, List.mem_singleton]
    exact or_congr_right ⟨fun h => ⟨h, h ▸ hcovers⟩, And.left⟩
  · -- A rate that is not added is not in the range, or was found before.
    rw [if_neg hadded]
    refine ⟨Or.inl, fun h => h.elim id fun ⟨hsame, hcovers⟩ => ?_⟩
    rw [← hsame, hcovers, Bool.true_and, Bool.not_eq_true', Bool.not_eq_false,
      List.contains_iff_mem] at hadded
    exact hadded

/-- A rate is added once only, as `addRate` looks for it first. -/
theorem nodup_addRate (h : found.Nodup) (candidate : Nat) :
    (addRate range found candidate).Nodup := by
  unfold addRate
  split
  · next hadded =>
      have hnew : candidate ∉ found := by
        simpa using (Bool.and_eq_true_iff.mp hadded).2
      exact List.nodup_append.mpr ⟨h, List.nodup_singleton _, fun a ha b hb hab =>
        hnew (List.mem_singleton.mp hb ▸ hab ▸ ha)⟩
  · exact h

/-- A range adds the `candidateRates` that it covers. -/
theorem mem_addRates :
    rate ∈ addRates found range
      ↔ rate ∈ found ∨ (rate ∈ candidateRates ∧ range.covers rate = true) := by
  unfold addRates
  induction candidateRates generalizing found with
  | nil => simp only [List.foldl_nil, List.not_mem_nil, false_and, or_false]
  | cons candidate candidates ih =>
      rw [List.foldl_cons, ih, mem_addRate, List.mem_cons, or_and_right, or_assoc]

/-- The rates of a range are added once only, by `nodup_addRate` for each
candidate. -/
theorem nodup_addRates (h : found.Nodup) (range : DeviceRange) : (addRates found range).Nodup :=
  List.foldlRecOn candidateRates (addRate range) h fun _ hfound rate _ => nodup_addRate hfound rate

/-- All ranges together add the `candidateRates` that some range covers. -/
theorem mem_foldl_addRates :
    rate ∈ ranges.foldl addRates found
      ↔ rate ∈ found ∨ (rate ∈ candidateRates ∧ ∃ r ∈ ranges, r.covers rate = true) := by
  induction ranges generalizing found with
  | nil =>
      simp only [List.foldl_nil, List.not_mem_nil, false_and, exists_false, and_false, or_false]
  | cons range ranges ih =>
      rw [List.foldl_cons, ih, mem_addRates, List.exists_mem_cons_iff, and_or_left, or_assoc]

/-- The rates are the `candidateRates` that lie in some range, by induction on
the ranges. -/
theorem mem_ratesOf :
    rate ∈ ratesOf ranges ↔ rate ∈ candidateRates ∧ ∃ r ∈ ranges, r.covers rate = true := by
  rw [ratesOf, List.mem_mergeSort, mem_foldl_addRates]
  simp only [List.not_mem_nil, false_or]

/-- The rates (`ratesOf`) are in rising order, and each of them is told once. -/
theorem pairwise_lt_ratesOf (ranges : List DeviceRange) : (ratesOf ranges).Pairwise (· < ·) := by
  have hsorted : (ratesOf ranges).Pairwise fun a b => decide (a ≤ b) = true :=
    List.pairwise_mergeSort (fun a b c => by simpa using Nat.le_trans)
      (fun a b => by simpa using Nat.le_total a b) _
  -- No rate was found twice, and sorting adds none.
  have hnodup : (ratesOf ranges).Nodup := by
    refine (List.mergeSort_perm _ _).nodup_iff.mpr ?_
    exact List.foldlRecOn ranges addRates List.nodup_nil fun _ hfound range _ =>
      nodup_addRates hfound range
  exact (hsorted.and hnodup).imp fun ⟨hle, hne⟩ => Nat.lt_of_le_of_ne (of_decide_eq_true hle) hne

end Rates

/-! ### The channels -/

/-- The largest number of channels is at least `n` if that of some range is. -/
theorem le_foldl_channels (n most : Nat) (ranges : List DeviceRange) :
    n ≤ ranges.foldl (fun most r => max most r.channels) most
      ↔ n ≤ most ∨ ∃ r ∈ ranges, n ≤ r.channels := by
  induction ranges generalizing most with
  | nil => simp only [List.foldl_nil, List.not_mem_nil, false_and, exists_false, or_false]
  | cons range ranges ih =>
      rw [List.foldl_cons, ih, le_max_iff, List.exists_mem_cons_iff, or_assoc]

/-- Where there are ranges (`hranges`), as many channels fit into the largest as
into one of them. -/
theorem le_maxChannelsOf {ranges : List DeviceRange} (hranges : ranges ≠ []) (n : Nat) :
    n ≤ maxChannelsOf ranges ↔ ∃ r ∈ ranges, n ≤ r.channels := by
  rw [maxChannelsOf, le_foldl_channels]
  -- No channels at all fit into any range.
  refine ⟨fun h => h.elim (fun hzero => ?_) id, Or.inr⟩
  obtain ⟨r, rest, rfl⟩ := List.exists_cons_of_ne_nil hranges
  exact ⟨r, List.mem_cons_self, by omega⟩

/-! ### The streams -/

section Streams

variable (name : String) (direction : Direction) (ranges : List DeviceRange) (isDefault : Bool)

/-- A stream counts as supported (`supports`) when its rate lies in one range
and its channels fit into one. -/
theorem supports_ofRanges {spec : StreamSpec} (hrate : spec.rate ∈ candidateRates) :
    (ofRanges name direction ranges isDefault).supports spec = true
      ↔ (∃ r ∈ ranges, r.covers spec.rate = true) ∧ ∃ r ∈ ranges, spec.channels ≤ r.channels := by
  have hcontains : (ratesOf ranges).contains spec.rate = true
      ↔ ∃ r ∈ ranges, r.covers spec.rate = true := by
    rw [List.contains_iff_mem, mem_ratesOf, and_iff_right hrate]
  rw [supports, Bool.and_eq_true, decide_eq_true_eq, ofRanges, hcontains]
  refine and_congr_right fun ⟨r, hmem, _⟩ => ?_
  exact le_maxChannelsOf (List.ne_nil_of_mem hmem) spec.channels

/-- A stream that a range `runs` counts as supported. -/
theorem supports_of_runs {spec : StreamSpec} (hrate : spec.rate ∈ candidateRates)
    (h : ∃ r ∈ ranges, r.runs spec = true) :
    (ofRanges name direction ranges isDefault).supports spec = true := by
  obtain ⟨r, hmem, hruns⟩ := h
  obtain ⟨hcovers, hchannels⟩ := (r.runs_iff spec).mp hruns
  exact (supports_ofRanges name direction ranges isDefault hrate).mpr
    ⟨⟨r, hmem, hcovers⟩, r, hmem, hchannels⟩

/-- At a rate that is covered (`hcovered`), the streams that count as supported
are those that a range `runs` exactly when the ranges of the rate have as many
channels as any. -/
theorem supports_iff_runs_at {rate : Nat} (hrate : rate ∈ candidateRates)
    (hcovered : ∃ r ∈ ranges, r.covers rate = true) :
    (∀ spec : StreamSpec, spec.rate = rate →
        ((ofRanges name direction ranges isDefault).supports spec = true
          ↔ ∃ r ∈ ranges, r.runs spec = true))
      ↔ ∀ r ∈ ranges, ∃ widest ∈ ranges,
          widest.covers rate = true ∧ r.channels ≤ widest.channels := by
  constructor
  · -- The range's own channels, at this rate, count as supported.
    intro h r hmem
    let spec : StreamSpec := ⟨.s16le, rate, r.channels⟩
    have hsupports : (ofRanges name direction ranges isDefault).supports spec = true :=
      (supports_ofRanges name direction ranges isDefault hrate).mpr
        ⟨hcovered, r, hmem, Nat.le_refl _⟩
    obtain ⟨widest, hwidest, hruns⟩ := (h spec rfl).mp hsupports
    exact ⟨widest, hwidest, (widest.runs_iff _).mp hruns⟩
  · rintro h spec rfl
    refine ⟨fun hsupports => ?_, supports_of_runs name direction ranges isDefault hrate⟩
    obtain ⟨-, r, hmem, hchannels⟩ :=
      (supports_ofRanges name direction ranges isDefault hrate).mp hsupports
    obtain ⟨widest, hwidest, hcovers, hle⟩ := h r hmem
    exact ⟨widest, hwidest, (widest.runs_iff spec).mpr ⟨hcovers, Nat.le_trans hchannels hle⟩⟩

end Streams

/-- What is told of a device with any ranges, by `DeviceInfo.ofRanges`. The
`rates` are the candidates in some range, in rising order. A stream at a
candidate rate counts as supported when some range `covers` the rate and some
range, maybe another one, has the channels; this is the case for every stream
that a single range `runs`. At a covered rate the two agree exactly when the
ranges that cover it have as many channels as any. -/
theorem capabilities_told (name : String) (direction : Direction) (ranges : List DeviceRange)
    (isDefault : Bool) :
    let told := ofRanges name direction ranges isDefault
    told.rates.Pairwise (· < ·)
      ∧ (∀ rate, rate ∈ told.rates
          ↔ rate ∈ candidateRates ∧ ∃ r ∈ ranges, r.covers rate = true)
      ∧ (∀ spec : StreamSpec, spec.rate ∈ candidateRates →
          (told.supports spec = true
            ↔ (∃ r ∈ ranges, r.covers spec.rate = true)
              ∧ ∃ r ∈ ranges, spec.channels ≤ r.channels))
      ∧ (∀ spec : StreamSpec, spec.rate ∈ candidateRates →
          (∃ r ∈ ranges, r.runs spec = true) → told.supports spec = true)
      ∧ ∀ rate ∈ candidateRates, (∃ r ∈ ranges, r.covers rate = true) →
          ((∀ spec : StreamSpec, spec.rate = rate →
              (told.supports spec = true ↔ ∃ r ∈ ranges, r.runs spec = true))
            ↔ ∀ r ∈ ranges, ∃ widest ∈ ranges,
                widest.covers rate = true ∧ r.channels ≤ widest.channels) := by
  intro told
  exact ⟨pairwise_lt_ratesOf ranges, fun _ => mem_ratesOf,
    fun _ => supports_ofRanges name direction ranges isDefault,
    fun _ => supports_of_runs name direction ranges isDefault,
    fun _ => supports_iff_runs_at name direction ranges isDefault⟩

/-- A device that records one channel at low rates and two at a high one counts
as one that records two at a low rate, which no range of it `runs`. -/
theorem supports_what_no_range_runs :
    let ranges : List DeviceRange := [⟨8000, 16000, 1⟩, ⟨48000, 48000, 2⟩]
    let spec : StreamSpec := ⟨.s16le, 16000, 2⟩
    spec.rate ∈ candidateRates
      ∧ (ofRanges "mic" .input ranges true).supports spec = true
      ∧ ¬ ∃ r ∈ ranges, r.runs spec = true := by
  intro ranges spec
  have hrate : spec.rate ∈ candidateRates := by decide
  have hsupports := (supports_ofRanges "mic" .input ranges true hrate).mpr (by decide)
  exact ⟨hrate, hsupports, by decide⟩

end DeviceInfo

end EchoAlign
