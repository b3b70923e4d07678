import EchoAlign.Canceller.Nlms
import EchoAlign.Proofs.Audio.Samples

/-!
# `EchoAlign.Proofs.Canceller.Pieces`: a stream that is filtered in pieces

The adaptive canceller gets its stream in blocks, and counts the samples of
each block from zero. Where one block ends and the next begins must not be
heard.

* `filterSamples_append`: the filters go through samples one after another,
  wherever these are cut.
* `filterSamples_of_mod_eq`: only the channel of the first sample matters, and
  not its number. Behind whole frames the next sample is one of channel 0
  again.
* `run_in_pieces`: whole frames and then some more audio is the audio filtered
  at once, and the canceller is then in the same state.
-/

set_option autoImplicit false

namespace EchoAlign

namespace Nlms

variable {α : Type} [Signal α] {channels taps : Nat}

/-! ### Sample pairs -/

/-- The sample pairs of two byte strings, those of the `captured` and those of
the `played` audio. -/
def pairsOf (captured played : ByteArray) : List (Int16 × Int16) :=
  (samplesOfBytes captured.data.toList).zip (samplesOfBytes played.data.toList)

/-- Every two bytes of both sides are a pair, if these are of one size
(`hsize`). -/
theorem length_pairsOf {captured played : ByteArray} (hsize : captured.size = played.size) :
    (pairsOf captured played).length = captured.size / 2 := by
  rw [pairsOf, List.length_zip, length_samplesOfBytes_data, length_samplesOfBytes_data, ← hsize,
    Nat.min_self]

/-- Behind an even number of bytes on both sides (`heven`), the pairs go on. -/
theorem pairsOf_append {a p : ByteArray} (hsize : a.size = p.size) (heven : 2 ∣ a.size)
    (b q : ByteArray) : pairsOf (a ++ b) (p ++ q) = pairsOf a p ++ pairsOf b q := by
  have hlength : (samplesOfBytes a.data.toList).length = (samplesOfBytes p.data.toList).length := by
    rw [length_samplesOfBytes_data, length_samplesOfBytes_data, hsize]
  rw [pairsOf, samplesOfBytes_append_data heven, samplesOfBytes_append_data (hsize ▸ heven),
    List.zip_append hlength]
  rfl

/-! ### The filters -/

/-- The filters go through the samples in order, and the number of the sample
goes on behind the `first` ones. -/
theorem filterSamples_append (h : 0 < channels) (i : Nat) (first rest : List (Int16 × Int16))
    (filters : Vector (ChannelFilter α taps) channels) :
    filterSamples h i (first ++ rest) filters
      = let heard := filterSamples h i first filters
        let later := filterSamples h (i + first.length) rest heard.2
        (heard.1 ++ later.1, later.2) := by
  induction first generalizing i filters with
  | nil => rfl
  | cons pair first ih =>
      simp only [List.cons_append, filterSamples, ih, List.length_cons,
        Nat.add_right_comm i 1, Nat.add_assoc]

/-- Which filter hears a sample depends on the number of the sample only as far
as on its channel (`hmod`). -/
theorem filterSamples_of_mod_eq (h : 0 < channels) {i j : Nat}
    (hmod : i % channels = j % channels) (pairs : List (Int16 × Int16))
    (filters : Vector (ChannelFilter α taps) channels) :
    filterSamples h i pairs filters = filterSamples h j pairs filters := by
  induction pairs generalizing i j filters with
  | nil => rfl
  | cons pair pairs ih =>
      have hnext : (i + 1) % channels = (j + 1) % channels := by
        rw [Nat.add_mod, hmod, ← Nat.add_mod]
      simp only [filterSamples, hmod, ih hnext]

/-! ### The bytes that come out -/

/-- Nothing is filled up behind whole samples (`outputBytes`). -/
theorem outputBytes_whole (samples : List Int16) :
    outputBytes samples (2 * samples.length) = bytesOfSamples samples := by
  rw [outputBytes, Nat.sub_self]
  exact ByteArray.append_empty

/-- The output of two pieces is that of the first and then of the second, as
`outputBytes` fills up at the end only. -/
theorem outputBytes_append (first rest : List Int16) (size : Nat) :
    outputBytes (first ++ rest) (2 * first.length + size)
      = outputBytes first (2 * first.length) ++ outputBytes rest size := by
  rw [outputBytes_whole, outputBytes, outputBytes, bytesOfSamples_append, ByteArray.append_assoc]
  -- What is left to fill up is left by the second piece alone.
  congr 3
  rw [List.length_append]
  omega

/-! ### The canceller -/

/-- A canceller at work lets its filters go through the sample pairs with
`filterSamples`. -/
theorem run_of_filters (h : 0 < channels) (blockFrames : Nat)
    (filters : Vector (ChannelFilter α taps) channels) (captured played : ByteArray) :
    run ⟨channels, blockFrames, taps, some filters⟩ captured played
      = (outputBytes (filterSamples h 0 (pairsOf captured played) filters).1 captured.size,
          ⟨channels, blockFrames, taps,
            some (filterSamples h 0 (pairsOf captured played) filters).2⟩) := by
  simp only [run, dif_pos h]
  rfl

/-- A canceller that is finished (`filters?`), or has no channels, changes
nothing, and gives the captured audio back. -/
theorem run_of_idle {s : Nlms α} (h : s.filters? = none ∨ s.channels = 0)
    (captured played : ByteArray) : s.run captured played = (captured, s) := by
  unfold run
  split
  · rfl
  · next filters hfilters =>
      rcases h with hnone | hzero
      · exact nomatch hnone.symm.trans hfilters
      · rw [dif_neg (by omega)]

/-- For a canceller in any state, finished or at work: to run it on whole frames
(`hframes`), and then on whatever audio comes behind them, is to run it on all
of it at once. The bytes are the same, and so is the canceller. -/
theorem run_in_pieces (s : Nlms α) {a p : ByteArray} (hsize : a.size = p.size)
    (hframes : 2 * s.channels ∣ a.size) (b q : ByteArray) :
    let first := s.run a p
    let rest := first.2.run b q
    s.run (a ++ b) (p ++ q) = (first.1 ++ rest.1, rest.2) := by
  intro first rest
  by_cases hidle : s.filters? = none ∨ s.channels = 0
  · simp only [first, rest, run_of_idle hidle]
  · obtain ⟨hsome, hchannels⟩ := not_or.mp hidle
    obtain ⟨channels, blockFrames, taps, none | filters⟩ := s
    · exact absurd rfl hsome
    have h : 0 < channels := Nat.pos_of_ne_zero hchannels
    have heven : 2 ∣ a.size := Nat.dvd_trans (Nat.dvd_mul_right 2 channels) hframes
    have hlength : 2 * (pairsOf a p).length = a.size := by
      rw [length_pairsOf hsize, Nat.mul_div_cancel' heven]
    -- The sample behind whole frames belongs to channel 0, like the first one.
    have hchannel : (0 + (pairsOf a p).length) % channels = 0 % channels := by
      rw [Nat.zero_add, Nat.zero_mod, length_pairsOf hsize]
      obtain ⟨frames, hframes⟩ := hframes
      rw [hframes, Nat.mul_assoc, Nat.mul_div_cancel_left _ (by decide), Nat.mul_mod_right]
    have hheard := length_filterSamples h 0 (pairsOf a p) filters
    simp only [first, rest, run_of_filters h, pairsOf_append hsize heven, filterSamples_append,
      filterSamples_of_mod_eq h hchannel, ByteArray.size_append]
    rw [← hlength, ← hheard, outputBytes_append]

/-- A stereo canceller that hears two frames, and then a frame and a byte. The
hypotheses of `run_in_pieces` are met, and the trailing odd byte is in the
second piece. -/
theorem run_in_pieces_trial :
    let s : Nlms Float32 := create 2 2 3
    let a : ByteArray := ⟨#[1, 0, 2, 0, 3, 0, 4, 0]⟩
    let p : ByteArray := ⟨#[9, 0, 8, 0, 7, 0, 6, 0]⟩
    let b : ByteArray := ⟨#[5, 0, 6, 0, 7]⟩
    let q : ByteArray := ⟨#[4, 0, 3, 0, 2]⟩
    let first := s.run a p
    let rest := first.2.run b q
    a.size = p.size ∧ 2 * s.channels ∣ a.size
      ∧ s.run (a ++ b) (p ++ q) = (first.1 ++ rest.1, rest.2) := by
  intro s a p b q first rest
  have hsize : a.size = p.size := rfl
  have hframes : 2 * s.channels ∣ a.size := by decide
  exact ⟨hsize, hframes, run_in_pieces s hsize hframes b q⟩

end Nlms

end EchoAlign
