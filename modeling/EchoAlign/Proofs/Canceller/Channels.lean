import EchoAlign.Proofs.Canceller.Pieces
import Mathlib.Data.List.Forall2
import Mathlib.Data.Nat.ModEq

/-!
# `EchoAlign.Proofs.Canceller.Channels`: channels that do not leak

The samples of all channels stand interleaved in a block, and one loop goes
through them. Each channel still has a filter of its own.

* `channelOf`: the samples of one channel. `channelOf_eq_iff`: they are the
  samples at the places of the channel.
* `filterSamples_channelOf`: one channel of what the canceller gives is what a
  single filter makes of that channel.
* `outputs_agree`: two runs whose blocks agree on a channel give blocks that
  agree on it, whatever the other channels hold.
-/

set_option autoImplicit false

namespace EchoAlign

/-! ### One channel of interleaved samples -/

section Interleaved

variable {β γ : Type} {channels k : Nat}

/-- The samples of channel `k`, of interleaved samples of which the first one
is sample `i`. -/
def channelOf (channels k : Nat) : Nat → List β → List β
  | _, [] => []
  | i, sample :: rest =>
      if i % channels = k then sample :: channelOf channels k (i + 1) rest
      else channelOf channels k (i + 1) rest

/-- A sample whose place is of the channel (`h`) comes first among its samples. -/
theorem channelOf_cons_own {i : Nat} (h : i % channels = k) (sample : β) (rest : List β) :
    channelOf channels k i (sample :: rest) = sample :: channelOf channels k (i + 1) rest := by
  rw [channelOf, if_pos h]

/-- A sample whose place is of another channel (`h`) is not among its samples. -/
theorem channelOf_cons_other {i : Nat} (h : i % channels ≠ k) (sample : β) (rest : List β) :
    channelOf channels k i (sample :: rest) = channelOf channels k (i + 1) rest := by
  rw [channelOf, if_neg h]

/-- The samples of a channel in two streams are paired as the streams are. The
longer of the two is cut off by `zip`, before or after `channelOf`. -/
theorem channelOf_zip (i : Nat) (left : List β) (right : List γ) :
    channelOf channels k i (left.zip right)
      = (channelOf channels k i left).zip (channelOf channels k i right) := by
  induction left generalizing i right with
  | nil => simp only [List.zip_nil_left, channelOf]
  | cons x left ih =>
      cases right with
      -- The longer list has a channel of its own, and is cut off.
      | nil => simp only [List.zip_nil_right, channelOf]
      | cons y right =>
          rw [List.zip_cons_cons]
          by_cases h : i % channels = k
          · rw [channelOf_cons_own h, channelOf_cons_own h, channelOf_cons_own h, ih,
              List.zip_cons_cons]
          · rw [channelOf_cons_other h, channelOf_cons_other h, channelOf_cons_other h, ih]

/-- In front of a sample of the channel, every `channels`-th sample is one of
the channel. -/
theorem getElem?_channelOf {i j : Nat} (h : (i + j) % channels = k) (samples : List β) :
    (channelOf channels k i samples)[j / channels]? = samples[j]? := by
  induction samples generalizing i j with
  | nil => simp only [channelOf, List.getElem?_nil]
  | cons sample samples ih =>
      cases j with
      | zero =>
          rw [Nat.zero_div, channelOf_cons_own (i := i) h, List.getElem?_cons_zero,
            List.getElem?_cons_zero]
      | succ j =>
          have hrest := ih (i := i + 1) (j := j) (by rwa [Nat.add_right_comm])
          -- Sample `i` is of the channel where whole frames lie in between.
          have hown : i % channels = k ↔ channels ∣ j + 1 := by
            rw [← h]
            exact Nat.left_modEq_add_iff
          rw [List.getElem?_cons_succ, ← hrest]
          by_cases hi : i % channels = k
          · rw [channelOf_cons_own hi, Nat.succ_div_of_dvd (hown.mp hi), List.getElem?_cons_succ]
          · rw [channelOf_cons_other hi, Nat.succ_div_of_not_dvd (mt hown.mpr hi)]

/-- The samples of a channel are those whose place is the channel's, modulo the
number of channels. So two streams agree on a channel if they agree at these
places. For the other direction, the sample `n` of channel `k` stands at the
place `k + channels * n`. -/
theorem channelOf_eq_iff (hk : k < channels) (first second : List β) :
    channelOf channels k 0 first = channelOf channels k 0 second
      ↔ ∀ j, j % channels = k → first[j]? = second[j]? := by
  constructor
  · intro h j hj
    have hplace : (0 + j) % channels = k := by rwa [Nat.zero_add]
    rw [← getElem?_channelOf hplace first, h, getElem?_channelOf hplace second]
  · intro h
    refine List.ext_getElem? fun n => ?_
    have hplace : (0 + (k + channels * n)) % channels = k := by
      rw [Nat.zero_add, Nat.add_mul_mod_self_left, Nat.mod_eq_of_lt hk]
    have hdiv : (k + channels * n) / channels = n := by
      rw [Nat.add_mul_div_left _ _ (Nat.zero_lt_of_lt hk), Nat.div_eq_of_lt hk, Nat.zero_add]
    have hfirst := getElem?_channelOf hplace first
    have hsecond := getElem?_channelOf hplace second
    rw [hdiv] at hfirst hsecond
    rw [hfirst, hsecond]
    exact h _ (by rwa [Nat.zero_add] at hplace)

end Interleaved

/-! ### One filter -/

/-- The samples that a single filter gives for the sample pairs of its channel,
and the filter behind them. For all channels at once this is `filterSamples`. -/
def ChannelFilter.listen {α : Type} [Signal α] {taps : Nat} (f : ChannelFilter α taps) :
    List (Int16 × Int16) → List Int16 × ChannelFilter α taps
  | [] => ([], f)
  | (microphone, reference) :: rest =>
      let heard := f.process (Signal.ofSample microphone) (Signal.ofSample reference)
      let later := heard.2.listen rest
      (Signal.toSample heard.1 :: later.1, later.2)

namespace Nlms

variable {α : Type} [Signal α] {channels taps k : Nat}

/-- The first pair goes to the filter of its channel, `i % channels`, and the
rest to the filters as they are then. -/
theorem filterSamples_cons (h : 0 < channels) (i : Nat) (microphone reference : Int16)
    (rest : List (Int16 × Int16)) (filters : Vector (ChannelFilter α taps) channels) :
    have hplace := Nat.mod_lt i h
    let heard := filters[i % channels].process (Signal.ofSample microphone)
      (Signal.ofSample reference)
    let later := filterSamples h (i + 1) rest (filters.set (i % channels) heard.2)
    filterSamples h i ((microphone, reference) :: rest) filters
      = (Signal.toSample heard.1 :: later.1, later.2) := rfl

/-- A channel of the samples that the canceller gives, and the filter of that
channel behind them, are those of a filter that hears this channel alone
(`ChannelFilter.listen`). By induction on the pairs. -/
theorem filterSamples_channelOf (hk : k < channels) (i : Nat) (pairs : List (Int16 × Int16))
    (filters : Vector (ChannelFilter α taps) channels) :
    let given := filterSamples (Nat.zero_lt_of_lt hk) i pairs filters
    (channelOf channels k i given.1, given.2[k])
      = filters[k].listen (channelOf channels k i pairs) := by
  induction pairs generalizing i filters with
  | nil => rfl
  | cons pair pairs ih =>
      obtain ⟨microphone, reference⟩ := pair
      have hplace := Nat.mod_lt i (Nat.zero_lt_of_lt hk)
      let heard := filters[i % channels].process (Signal.ofSample microphone)
        (Signal.ofSample reference)
      have hrest := ih (i + 1) (filters.set (i % channels) heard.2)
      simp only [filterSamples_cons]
      by_cases hown : i % channels = k
      · -- The filter of the channel hears the pair.
        subst hown
        rw [Vector.getElem_set_self] at hrest
        rw [channelOf_cons_own rfl, channelOf_cons_own rfl, ChannelFilter.listen, ← hrest]
      · -- Another filter hears it, and this one stays as it is.
        rw [Vector.getElem_set_ne hplace hk hown] at hrest
        rw [channelOf_cons_other hown, channelOf_cons_other hown, ← hrest]

/-! ### Blocks that agree on a channel -/

/-- Two byte strings have the same samples at the places of channel `k`. -/
def AgreeOn (channels k : Nat) (a b : ByteArray) : Prop :=
  ∀ j, j % channels = k →
    (samplesOfBytes a.data.toList)[j]? = (samplesOfBytes b.data.toList)[j]?

/-- Two blocks agree on a channel (`AgreeOn`) if their samples do, by
`channelOf_eq_iff`. -/
theorem agreeOn_iff (hk : k < channels) (a b : ByteArray) :
    AgreeOn channels k a b
      ↔ channelOf channels k 0 (samplesOfBytes a.data.toList)
          = channelOf channels k 0 (samplesOfBytes b.data.toList) :=
  (channelOf_eq_iff hk _ _).symm

/-- Two pairs of a captured and a played block that agree on channel `k`. The
two blocks of a pair are equally long. -/
structure AgreeingPair (channels k : Nat) (first second : ByteArray × ByteArray) : Prop where
  size_first : first.1.size = first.2.size
  size_second : second.1.size = second.2.size
  captured : AgreeOn channels k first.1 second.1
  played : AgreeOn channels k first.2 second.2

/-- The pairs of a channel are the same for two pairs of blocks that agree on it
(`AgreeingPair`). -/
theorem AgreeingPair.pairs {first second : ByteArray × ByteArray}
    (h : AgreeingPair channels k first second) (hk : k < channels) :
    channelOf channels k 0 (pairsOf first.1 first.2)
      = channelOf channels k 0 (pairsOf second.1 second.2) := by
  rw [pairsOf, pairsOf, channelOf_zip, channelOf_zip, (agreeOn_iff hk _ _).mp h.captured,
    (agreeOn_iff hk _ _).mp h.played]

/-- The samples of the output (`outputBytes`) are read again as they were
written. -/
theorem samples_outputBytes {samples : List Int16} {size : Nat}
    (h : size ≤ 2 * samples.length + 1) :
    samplesOfBytes (outputBytes samples size).data.toList = samples := by
  rw [outputBytes, toList_append_bytes, toList_bytesOfSamples]
  refine samplesOfBytes_flatMap samples ?_
  rw [Array.length_toList, ByteArray.size_data, size_silentBytes]
  omega

/-- What a canceller at work gives for two equally long blocks (`hsize`), as
samples. -/
theorem samples_output (h : 0 < channels) (filters : Vector (ChannelFilter α taps) channels)
    {captured played : ByteArray} (hsize : captured.size = played.size) :
    let given := filterSamples h 0 (pairsOf captured played) filters
    samplesOfBytes (outputBytes given.1 captured.size).data.toList = given.1 := by
  refine samples_outputBytes ?_
  rw [length_filterSamples, length_pairsOf hsize]
  omega

/-! ### Two runs -/

/-- Two states of a canceller that go on alike with channel `k`: the channel's
filter is the same in both, or both are finished. -/
inductive AlikeOn (k : Nat) : Nlms α → Nlms α → Prop
  | atWork {channels blockFrames taps : Nat}
      {filters filters' : Vector (ChannelFilter α taps) channels} (hk : k < channels)
      (hfilter : filters[k] = filters'[k]) :
      AlikeOn k ⟨channels, blockFrames, taps, some filters⟩
        ⟨channels, blockFrames, taps, some filters'⟩
  | finished (channels blockFrames taps : Nat) :
      AlikeOn k ⟨channels, blockFrames, taps, none⟩ ⟨channels, blockFrames, taps, none⟩

omit [Signal α] in
/-- A canceller is like itself on every channel: `AlikeOn` is reflexive. -/
theorem AlikeOn.refl {s : Nlms α} (hk : k < s.channels) : s.AlikeOn k s := by
  obtain ⟨channels, blockFrames, taps, none | filters⟩ := s
  · exact .finished channels blockFrames taps
  · exact .atWork hk rfl

/-- A run changes nothing about the `channels`. -/
theorem channels_run (s : Nlms α) (captured played : ByteArray) :
    (s.run captured played).2.channels = s.channels := by
  unfold run
  split
  · rfl
  · split <;> rfl

/-- One block pair: the outputs agree on the channel, and the states are alike
again. In a canceller that is `finished` both give back what was captured, and
`AgreeingPair` says that this agrees. At work, the filter of channel `k` is the
same in both and hears the same pairs, by `filterSamples_channelOf`. -/
theorem AlikeOn.run {s t : Nlms α} (h : s.AlikeOn k t) {first second : ByteArray × ByteArray}
    (hpair : AgreeingPair s.channels k first second) :
    AgreeOn s.channels k (s.run first.1 first.2).1 (t.run second.1 second.2).1
      ∧ (s.run first.1 first.2).2.AlikeOn k (t.run second.1 second.2).2 := by
  cases h with
  | finished channels blockFrames taps =>
      rw [run_of_idle (.inl rfl), run_of_idle (.inl rfl)]
      exact ⟨hpair.captured, .finished channels blockFrames taps⟩
  | @atWork channels blockFrames taps filters filters' hk hfilter =>
      have hpos : 0 < channels := Nat.zero_lt_of_lt hk
      have hfirst := filterSamples_channelOf hk 0 (pairsOf first.1 first.2) filters
      have hsecond := filterSamples_channelOf hk 0 (pairsOf second.1 second.2) filters'
      -- The filter of the channel is the same, and it hears the same pairs.
      rw [hpair.pairs hk, hfilter, ← hsecond] at hfirst
      obtain ⟨hsamples, hfilters⟩ := Prod.mk.inj hfirst
      rw [run_of_filters hpos, run_of_filters hpos]
      refine ⟨(agreeOn_iff hk _ _).mpr ?_, .atWork hk hfilters⟩
      rw [samples_output hpos _ hpair.size_first, samples_output hpos _ hpair.size_second]
      exact hsamples

/-- The outputs for a sequence of block pairs, with a `run` for each, and the
canceller behind them. -/
def runBlocks (s : Nlms α) : List (ByteArray × ByteArray) → List ByteArray × Nlms α
  | [] => ([], s)
  | pair :: rest =>
      let given := s.run pair.1 pair.2
      let later := given.2.runBlocks rest
      (given.1 :: later.1, later.2)

/-- A sequence of block pairs: the outputs agree on the channel one by one, by
induction on the pairs with `AlikeOn.run`. -/
theorem AlikeOn.runBlocks {s t : Nlms α} (h : s.AlikeOn k t)
    {first second : List (ByteArray × ByteArray)}
    (hpairs : List.Forall₂ (AgreeingPair s.channels k) first second) :
    List.Forall₂ (AgreeOn s.channels k) (s.runBlocks first).1 (t.runBlocks second).1
      ∧ (s.runBlocks first).2.AlikeOn k (t.runBlocks second).2 := by
  induction first generalizing s t second with
  | nil =>
      cases hpairs
      exact ⟨.nil, h⟩
  | cons pair first ih =>
      cases hpairs with
      | cons hpair hrest =>
          obtain ⟨hagree, halike⟩ := h.run hpair
          -- The rest agrees on a channel of what is left of the canceller.
          have hchannels := channels_run s pair.1 pair.2
          obtain ⟨hagrees, halike⟩ := ih halike (by rwa [hchannels])
          rw [hchannels] at hagrees
          exact ⟨.cons hagree hagrees, halike⟩

/-- A canceller in any state runs over two sequences of block pairs
(`runBlocks`), each pair of equally long blocks. Where the captured and the
played samples of one channel are the same in both sequences (`AgreeingPair`),
the cleaned samples of this channel are the same (`AgreeOn`), whatever is on the
other channels and however the arithmetic rounds. -/
theorem outputs_agree (s : Nlms α) (hk : k < s.channels)
    {first second : List (ByteArray × ByteArray)}
    (hpairs : List.Forall₂ (AgreeingPair s.channels k) first second) :
    List.Forall₂ (AgreeOn s.channels k) (s.runBlocks first).1 (s.runBlocks second).1 :=
  ((AlikeOn.refl hk).runBlocks hpairs).1

/-- Two stereo runs over a block of two frames and one of a single frame. The
left channel is the same in both, and the right one is not. The hypotheses of
`outputs_agree` are met, and the two runs differ. -/
theorem outputs_agree_trial :
    let s : Nlms Float32 := create 2 2 3
    let played : ByteArray := ⟨#[9, 0, 8, 0, 7, 0, 6, 0]⟩
    let later : ByteArray := ⟨#[5, 0, 4, 0]⟩
    let first : List (ByteArray × ByteArray) :=
      [(⟨#[1, 0, 2, 0, 3, 0, 4, 0]⟩, played), (later, ⟨#[3, 0, 2, 0]⟩)]
    let second : List (ByteArray × ByteArray) :=
      [(⟨#[1, 0, 7, 1, 3, 0, 5, 2]⟩, played), (later, ⟨#[3, 0, 9, 1]⟩)]
    0 < s.channels ∧ List.Forall₂ (AgreeingPair s.channels 0) first second ∧ first ≠ second
      ∧ List.Forall₂ (AgreeOn s.channels 0) (s.runBlocks first).1 (s.runBlocks second).1 := by
  intro s played later first second
  have hk : 0 < s.channels := by decide
  have hblock : AgreeingPair s.channels 0 (⟨#[1, 0, 2, 0, 3, 0, 4, 0]⟩, played)
      (⟨#[1, 0, 7, 1, 3, 0, 5, 2]⟩, played) :=
    ⟨rfl, rfl, (agreeOn_iff hk _ _).mpr (by decide +kernel), fun _ _ => rfl⟩
  have hlater : AgreeingPair s.channels 0 (later, ⟨#[3, 0, 2, 0]⟩) (later, ⟨#[3, 0, 9, 1]⟩) :=
    ⟨rfl, rfl, fun _ _ => rfl, (agreeOn_iff hk _ _).mpr (by decide +kernel)⟩
  have hpairs : List.Forall₂ (AgreeingPair s.channels 0) first second :=
    .cons hblock (.cons hlater .nil)
  exact ⟨hk, hpairs, by decide +kernel, outputs_agree s hk hpairs⟩

end Nlms

end EchoAlign
