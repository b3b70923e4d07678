import EchoAlign.Endpoint.RawSource
import EchoAlign.Endpoint.Tone
import EchoAlign.Proofs.Align.Durations

/-!
# `EchoAlign.Proofs.Endpoint.Pieces`: audio that is made in pieces

A producer is asked for audio as the playback device needs it. How much it
is asked for at a time must not be heard.

* `RawSource.ahead` plays a recording byte by byte, and `RawSource.render_eq`
  says that rendering is just that, with silence for what is missing.
  `RawSource.ahead_add` is then an induction on single bytes, wherever a loop
  begins again.
* The samples of a tone depend on the numbers of their frames alone
  (`Tone.samples_add`).
* `rendered_in_pieces`: for both, audio in two pieces is the audio made at
  once, and the producer is then in the same state.
-/

set_option autoImplicit false

namespace EchoAlign

/-- A rendered block is as long as was asked for, and ends in as much silence as
its `underrun` says. -/
structure Rendered.Fills (r : Rendered) (n : Nat) : Prop where
  size_eq : r.block.size = n
  underrun_le : r.underrun ≤ n
  silent : r.block.toList.drop (n - r.underrun) = List.replicate r.underrun 0

/-- To make `a` bytes and then `b` bytes is to make all of them at once. -/
structure Producer.InPieces {υ : Type} [Producer υ] (producer : υ) (a b : Nat) : Prop where
  bytes_eq : (Producer.render producer (a + b)).1.block.toList
    = (Producer.render producer a).1.block.toList
      ++ (Producer.render (Producer.render producer a).2 b).1.block.toList
  underrun_eq : (Producer.render producer (a + b)).1.underrun
    = (Producer.render producer a).1.underrun
      + (Producer.render (Producer.render producer a).2 b).1.underrun
  state_eq : (Producer.render producer (a + b)).2
    = (Producer.render (Producer.render producer a).2 b).2

/-! ### Recordings -/

namespace RawSource

variable {s : RawSource}

/-- The next byte, if there is one, and the recording behind it. `ahead` takes
such bytes as long as there are any. -/
def next? (s : RawSource) : Option (UInt8 × RawSource) :=
  let first := start s.data s.looping s.position
  s.data.toList[first]?.map fun byte => (byte, { s with position := first + 1 })

/-- The next `n` bytes, as far as there are any, and the recording behind
them. -/
def ahead (s : RawSource) : Nat → List UInt8 × RawSource
  | 0 => ([], s)
  | n + 1 =>
      match s.next? with
      | none => ([], s)
      | some (byte, next) => (byte :: (next.ahead n).1, (next.ahead n).2)

/-- Where there is no next byte (`next?`), nothing is ahead. -/
theorem ahead_of_none (h : s.next? = none) (n : Nat) : s.ahead n = ([], s) := by
  cases n with
  | zero => rfl
  | succ n => simp only [ahead, h]

/-- The bytes ahead are the next one (`next?`) and those behind it. -/
theorem ahead_of_some {byte : UInt8} {next : RawSource} (h : s.next? = some (byte, next)) (n : Nat) :
    s.ahead (n + 1) = (byte :: (next.ahead n).1, (next.ahead n).2) := by
  simp only [ahead, h]

/-- There is a next byte where a loop or the data goes on, that is, where
`start` lies within the data. -/
theorem next?_of_lt (h : start s.data s.looping s.position < s.data.size) :
    ∃ byte, s.data.toList[start s.data s.looping s.position]? = some byte
      ∧ s.next?
        = some (byte, { s with position := start s.data s.looping s.position + 1 }) := by
  have hlt : start s.data s.looping s.position < s.data.toList.length := by
    rwa [Block.length_toList]
  refine ⟨_, List.getElem?_eq_getElem hlt, ?_⟩
  simp only [next?, List.getElem?_eq_getElem hlt, Option.map_some]

/-- There is no next byte exactly at the end of the data, as `start` tells where
one is looked for. -/
theorem next?_eq_none_iff :
    s.next? = none ↔ s.data.size ≤ start s.data s.looping s.position := by
  unfold next?
  rw [Option.map_eq_none_iff, List.getElem?_eq_none_iff, Block.length_toList]

/-- A loop goes on as long as it has audio (`hdata`), since `start` is 0 at its
end. -/
theorem start_lt (hlooping : s.looping = true) (hdata : 0 < s.data.size) :
    start s.data s.looping s.position < s.data.size := by
  unfold start
  split
  · exact hdata
  · next h => exact Nat.lt_of_not_le fun hle => h ⟨hle, hlooping⟩

/-- Only the `position` changes. -/
theorem snd_ahead (s : RawSource) (n : Nat) :
    (s.ahead n).2 = { s with position := (s.ahead n).2.position } := by
  induction n generalizing s with
  | zero => rfl
  | succ n ih =>
      by_cases h : start s.data s.looping s.position < s.data.size
      · obtain ⟨byte, -, hnext⟩ := next?_of_lt h
        rw [ahead_of_some hnext]
        exact ih _
      · rw [ahead_of_none (next?_eq_none_iff.mpr (Nat.le_of_not_lt h))]

/-- First some bytes, and then those behind them. By induction on the first
ones. `ahead_of_none` and `ahead_of_some` are the two cases of `next?`. -/
theorem ahead_add (s : RawSource) (a b : Nat) :
    s.ahead (a + b)
      = ((s.ahead a).1 ++ ((s.ahead a).2.ahead b).1, ((s.ahead a).2.ahead b).2) := by
  induction a generalizing s with
  | zero => rw [Nat.zero_add, ahead, List.nil_append]
  | succ a ih =>
      rw [Nat.add_right_comm]
      cases hnext : s.next? with
      | none =>
          simp only [ahead_of_none hnext, List.nil_append]
      | some step =>
          obtain ⟨byte, next⟩ := step
          rw [ahead_of_some hnext, ahead_of_some hnext, ih next, List.cons_append]

/-- No more bytes are ahead than are asked for. They are fewer where `next?`
gives none. -/
theorem length_ahead_le (s : RawSource) (n : Nat) : (s.ahead n).1.length ≤ n := by
  induction n generalizing s with
  | zero => exact Nat.le_refl 0
  | succ n ih =>
      cases hnext : s.next? with
      | none =>
          rw [ahead_of_none hnext]
          exact Nat.zero_le _
      | some step =>
          obtain ⟨byte, next⟩ := step
          rw [ahead_of_some hnext]
          exact Nat.succ_le_succ (ih next)

/-- Where audio is missing, there is none left. The source stops at the state in
which `next?` gave none. -/
theorem next?_ahead_of_short {n : Nat} (h : (s.ahead n).1.length < n) :
    (s.ahead n).2.next? = none := by
  induction n generalizing s with
  | zero => exact absurd h (Nat.not_lt_zero _)
  | succ n ih =>
      cases hnext : s.next? with
      | none =>
          rw [ahead_of_none hnext]
          exact hnext
      | some step =>
          obtain ⟨byte, next⟩ := step
          rw [ahead_of_some hnext] at h ⊢
          exact ih (Nat.lt_of_succ_lt_succ h)

/-- A loop with audio (`hlooping`, `hdata`) has as much as is asked for. -/
theorem length_ahead_of_looping (hlooping : s.looping = true) (hdata : 0 < s.data.size) (n : Nat) :
    (s.ahead n).1.length = n := by
  refine Nat.le_antisymm (s.length_ahead_le n) (Nat.le_of_not_lt fun hshort => ?_)
  have hnone := next?_ahead_of_short hshort
  rw [s.snd_ahead n, next?_eq_none_iff] at hnone
  exact absurd (start_lt (s := { s with position := (s.ahead n).2.position }) hlooping hdata)
    (Nat.not_lt_of_le hnone)

/-- Before the end of the data, the bytes ahead are those of the data. `start`
is the position itself there, and no loop begins again. -/
theorem ahead_of_le {n : Nat} (hn : s.position + n ≤ s.data.size) :
    s.ahead n
      = ((s.data.toList.drop s.position).take n, { s with position := s.position + n }) := by
  induction n generalizing s with
  | zero => rw [ahead, List.take_zero, Nat.add_zero]
  | succ n ih =>
      have hstart : start s.data s.looping s.position = s.position := if_neg (by omega)
      obtain ⟨byte, hbyte, hnext⟩ := next?_of_lt (s := s) (by omega)
      rw [hstart] at hbyte hnext
      obtain ⟨hlt, rfl⟩ := List.getElem?_eq_some_iff.mp hbyte
      have hrest := ih (s := { s with position := s.position + 1 })
        (show s.position + 1 + n ≤ s.data.size by omega)
      rw [ahead_of_some hnext, hrest, List.drop_eq_getElem_cons hlt, List.take_succ_cons]
      simp only [Nat.add_assoc, Nat.add_comm 1]

/-- A pending start of the loop is made up for with the first byte, wherever
`start` is. -/
theorem ahead_of_start (h : start s.data s.looping s.position < s.data.size) {n : Nat}
    (hn : 0 < n) :
    s.ahead n = { s with position := start s.data s.looping s.position }.ahead n := by
  obtain ⟨n, rfl⟩ := Nat.exists_eq_succ_of_ne_zero (Nat.ne_of_gt hn)
  have hstart : start s.data s.looping (start s.data s.looping s.position)
      = start s.data s.looping s.position := if_neg (by omega)
  have hnext : { s with position := start s.data s.looping s.position }.next? = s.next? := by
    simp only [next?, hstart]
  obtain ⟨byte, -, hsome⟩ := next?_of_lt h
  rw [Nat.succ_eq_add_one, ahead_of_some hsome, ahead_of_some (hnext.trans hsome)]

/-- The bytes of a stretch of the data, which is a `slice`. -/
theorem toList_stretch (data : Block) (first n : Nat) :
    (data.slice first (first + n)).toList = (data.toList.drop first).take n := by
  rw [Block.toList_slice, List.drop_take, Nat.add_sub_cancel_left]

/-- What is played in stretches by `RawSource.play` are the bytes ahead, one
after another. -/
theorem play_eq (s : RawSource) (acc : ByteArray) (n : Nat) :
    (play s.data s.looping acc s.position n).1.data.toList = acc.data.toList ++ (s.ahead n).1
      ∧ (play s.data s.looping acc s.position n).2 = (s.ahead n).2.position := by
  induction n using Nat.strongRecOn generalizing s acc with
  | ind n ih =>
      unfold play
      by_cases h : 0 < n ∧ start s.data s.looping s.position < s.data.size
      · obtain ⟨hn, hlt⟩ := h
        simp only [dif_pos (And.intro hn hlt)]
        have hahead := ahead_of_start hlt hn
        generalize start s.data s.looping s.position = first at *
        -- A stretch is followed by the rest.
        have hcount : min n (s.data.size - first) + (n - min n (s.data.size - first)) = n := by
          omega
        have hstretch := ahead_of_le (s := { s with position := first })
          (n := min n (s.data.size - first)) (show first + _ ≤ s.data.size by omega)
        have hslice := toList_stretch s.data first (min n (s.data.size - first))
        obtain ⟨hbytes, hposition⟩ := ih (n - min n (s.data.size - first)) (by omega)
          { s with position := first + min n (s.data.size - first) }
          (acc ++ (s.data.slice first (first + min n (s.data.size - first))).bytes)
        have hall := { s with position := first }.ahead_add (min n (s.data.size - first))
          (n - min n (s.data.size - first))
        rw [hcount, hstretch] at hall
        rw [hahead, hall]
        refine ⟨?_, hposition⟩
        rw [hbytes, toList_append_bytes, List.append_assoc, ← hslice]
        rfl
      · rw [dif_neg h]
        have hnone : s.ahead n = ([], s) := by
          by_cases hn : 0 < n
          · exact ahead_of_none (next?_eq_none_iff.mpr
              (Nat.le_of_not_lt fun hlt => h ⟨hn, hlt⟩)) n
          · rw [Nat.eq_zero_of_not_pos hn, ahead]
        rw [hnone, List.append_nil]
        exact ⟨rfl, rfl⟩

/-- Rendering makes the bytes ahead, and silence for what is missing, which is
the `underrun`. -/
theorem render_eq (s : RawSource) (n : Nat) :
    (s.render n).1.block.toList
        = (s.ahead n).1 ++ List.replicate (n - (s.ahead n).1.length) 0
      ∧ (s.render n).1.underrun = n - (s.ahead n).1.length
      ∧ (s.render n).2 = (s.ahead n).2 := by
  obtain ⟨hbytes, hposition⟩ := s.play_eq ByteArray.empty n
  have hbytes : (play s.data s.looping ByteArray.empty s.position n).1.data.toList
      = (s.ahead n).1 := hbytes
  have hsize : (play s.data s.looping ByteArray.empty s.position n).1.size
      = (s.ahead n).1.length := by
    rw [← hbytes, Array.length_toList, ByteArray.size_data]
  refine ⟨?_, ?_, ?_⟩
  · show (Block.ofBytes _).toList = _
    rw [Block.toList_ofBytes, toList_append_bytes, toList_silentBytes, hbytes, hsize]
  · show n - ByteArray.size _ = _
    rw [hsize]
  · rw [s.snd_ahead n, ← hposition]
    rfl

/-- A recording fills what it is asked for (`Fills`), if need be with silence. -/
theorem fills_render (s : RawSource) (n : Nat) : (s.render n).1.Fills n := by
  obtain ⟨hbytes, hunderrun, -⟩ := s.render_eq n
  have hle := s.length_ahead_le n
  refine ⟨?_, by omega, ?_⟩
  · rw [← Block.length_toList, hbytes, List.length_append, List.length_replicate]
    omega
  · rw [hbytes, hunderrun, List.drop_left' (by omega)]

/-- A loop with audio (`hlooping`, `hdata`) has no underrun. -/
theorem underrun_of_looping (hlooping : s.looping = true) (hdata : 0 < s.data.size) (n : Nat) :
    (s.render n).1.underrun = 0 := by
  rw [(s.render_eq n).2.1, length_ahead_of_looping hlooping hdata, Nat.sub_self]

/-- Where there is as much audio as is asked for, it is played in one go. It is
`ahead_of_le` with the block that `play` cuts from the data, and no underrun. -/
theorem render_of_le {n : Nat} (hn : s.position + n ≤ s.data.size) :
    s.render n
      = (⟨.ofBytes (s.data.slice s.position (s.position + n)).bytes, 0⟩,
        { s with position := s.position + n }) := by
  have hsize : (s.data.slice s.position (s.position + n)).bytes.size = n := by
    rw [size_bytes, Block.size_slice]
    omega
  obtain ⟨hbytes, hposition⟩ := s.play_eq ByteArray.empty n
  rw [ahead_of_le hn] at hbytes hposition
  have hslice := toList_stretch s.data s.position n
  have hplay : play s.data s.looping ByteArray.empty s.position n
      = ((s.data.slice s.position (s.position + n)).bytes, s.position + n) :=
    Prod.ext (ByteArray.ext (Array.ext' (hbytes.trans hslice.symm))) hposition
  have hsilence : silentBytes 0 = ByteArray.empty := rfl
  simp only [render, hplay, hsize, Nat.sub_self, hsilence, ByteArray.append_empty]

/-- A recording makes the same in two pieces as at once, by `ahead_add` on the
bytes. -/
theorem inPieces (s : RawSource) (a b : Nat) : Producer.InPieces s a b := by
  obtain ⟨hfirst, hshort, hstate⟩ := s.render_eq a
  obtain ⟨hsecond, hshort', hstate'⟩ := (s.ahead a).2.render_eq b
  obtain ⟨hwhole, hshort'', hstate''⟩ := s.render_eq (a + b)
  rw [s.ahead_add a b] at hwhole hshort'' hstate''
  rw [List.length_append] at hwhole hshort''
  have hle := s.length_ahead_le a
  have hle' := (s.ahead a).2.length_ahead_le b
  -- Either nothing is missing in the first piece, or there is no second.
  have hends : (s.ahead a).1.length = a ∨ ((s.ahead a).2.ahead b).1 = [] := by
    rcases Nat.lt_or_eq_of_le hle with hshort | hfull
    · exact .inr (congrArg Prod.fst (ahead_of_none (next?_ahead_of_short hshort) b))
    · exact .inl hfull
  refine ⟨?_, ?_, ?_⟩
  · show (s.render (a + b)).1.block.toList
      = (s.render a).1.block.toList ++ ((s.render a).2.render b).1.block.toList
    rw [hstate, hwhole, hfirst, hsecond]
    rcases hends with hfull | hnone
    · rw [hfull, Nat.sub_self, List.replicate_zero, List.append_nil, List.append_assoc,
        Nat.add_sub_add_left]
    · rw [hnone, List.append_nil, List.nil_append, List.length_nil, Nat.add_zero, Nat.sub_zero,
        List.append_assoc, List.replicate_append_replicate, Nat.sub_add_comm hle]
  · show (s.render (a + b)).1.underrun
      = (s.render a).1.underrun + ((s.render a).2.render b).1.underrun
    rw [hstate, hshort'', hshort, hshort']
    omega
  · show (s.render (a + b)).2 = ((s.render a).2.render b).2
    rw [hstate, hstate'', hstate']

end RawSource

/-! ### Tones -/

namespace Tone

/-- A tone has a sample for each of its `channels` in each frame. -/
theorem length_samples (t : Tone) (frames : Nat) :
    (t.samples frames).length = frames * t.spec.channels := by
  unfold samples
  simp only [List.length_flatMap, List.length_replicate, List.map_const', List.length_range,
    List.sum_replicate_nat]

/-- The frames follow one another, so that the first ones and then those behind
them, from the later `position`, make up all. -/
theorem samples_add (t : Tone) (a b : Nat) :
    t.samples (a + b) = t.samples a ++ { t with position := t.position + a }.samples b := by
  simp only [samples, List.range_add, List.flatMap_append, List.flatMap_map, Nat.add_assoc]
  rfl

/-- Whole frames (`hn`) of 16-bit samples fill what was asked for. -/
theorem fills_render {t : Tone} (hformat : t.spec.format = .s16le) {n : Nat}
    (hn : t.spec.frameSize ∣ n) : (t.render n).1.Fills n := by
  have hsize : (Block.ofSamples (t.samples (n / t.spec.frameSize))).size = n := by
    have hframe : t.spec.frameSize = 2 * t.spec.channels := by
      rw [StreamSpec.frameSize, hformat, SampleFormat.sampleBytes]
    rw [Block.ofSamples, Block.size_ofBytes, size_bytesOfSamples, length_samples,
      Nat.mul_left_comm, ← hframe, Nat.div_mul_cancel hn]
  exact ⟨hsize, Nat.zero_le n,
    List.drop_of_length_le (Nat.le_of_eq ((Block.length_toList _).trans hsize))⟩

/-- A tone makes the same in two pieces as at once, if the first piece is whole
frames. `ha` makes the frames of the two pieces add up to those of the whole,
and `samples_add` does the rest. -/
theorem inPieces (t : Tone) (hframe : 0 < t.spec.frameSize) {a : Nat} (ha : t.spec.frameSize ∣ a)
    (b : Nat) : Producer.InPieces t a b := by
  have hframes : (a + b) / t.spec.frameSize = a / t.spec.frameSize + b / t.spec.frameSize := by
    obtain ⟨frames, rfl⟩ := ha
    rw [Nat.mul_add_div hframe, Nat.mul_div_cancel_left _ hframe]
  refine ⟨?_, rfl, ?_⟩
  · show (Block.ofSamples (t.samples ((a + b) / t.spec.frameSize))).toList = _
    rw [hframes, samples_add, Block.toList_ofSamples, List.flatMap_append,
      ← Block.toList_ofSamples, ← Block.toList_ofSamples]
    rfl
  · show { t with position := t.position + (a + b) / t.spec.frameSize } = _
    rw [hframes, ← Nat.add_assoc]
    rfl

end Tone

/-! ### Both -/

/-- Audio that is made in two pieces is the audio made at once, and the producer
is then in the same state (`Producer.InPieces`): for a recording always, and for
a tone where the pieces are whole frames. Every piece is as long as was asked
for and ends in as much silence as it says (`Rendered.Fills`). A loop with data
never runs out, and before the end of the data a recording plays the data. -/
theorem rendered_in_pieces :
    (∀ (s : RawSource) (a b : Nat), Producer.InPieces s a b)
      ∧ (∀ (s : RawSource) (n : Nat),
          (s.render n).1.Fills n
            ∧ (s.looping = true → 0 < s.data.size → (s.render n).1.underrun = 0)
            ∧ (s.position + n ≤ s.data.size →
                (s.render n).1.block.toList = (s.data.toList.drop s.position).take n))
      ∧ ∀ t : Tone, t.spec.format = .s16le → 0 < t.spec.channels →
          (∀ a b, t.spec.frameSize ∣ a → t.spec.frameSize ∣ b → Producer.InPieces t a b)
            ∧ ∀ n, t.spec.frameSize ∣ n → (t.render n).1.Fills n := by
  refine ⟨RawSource.inPieces, ?_, ?_⟩
  · intro s n
    refine ⟨s.fills_render n, fun hlooping hdata => RawSource.underrun_of_looping hlooping hdata n,
      fun hn => ?_⟩
    rw [RawSource.render_of_le hn]
    exact (Block.toList_ofBytes _).trans (RawSource.toList_stretch ..)
  · intro t hformat hchannels
    exact ⟨fun a b ha _ => t.inPieces (StreamSpec.frameSize_pos_of_channels hchannels) ha b,
      fun n hn => Tone.fills_render hformat hn⟩

/-- A loop of three bytes that is stopped exactly at its end, data that runs out
in the first piece, a loop without data, and a tone on two channels. The
hypotheses of `rendered_in_pieces` are met by all of them. -/
theorem rendered_in_pieces_trial :
    let loop : RawSource := ⟨.ofBytes ⟨#[1, 2, 3]⟩, 1, true⟩
    let once : RawSource := ⟨.ofBytes ⟨#[1, 2, 3]⟩, 1, false⟩
    let empty : RawSource := .ofBlock (.silence 0) true
    let tone := Tone.create ⟨.s16le, 8000, 2⟩ 440.0 0.5
    (Producer.InPieces loop 2 5
        ∧ (loop.render 2).1.block.toList = [2, 3] ∧ (loop.render 2).2.position = 3
        ∧ (loop.render 7).1.block.toList = [2, 3, 1, 2, 3, 1, 2])
      ∧ (loop.looping = true ∧ 0 < loop.data.size ∧ (loop.render 7).1.underrun = 0)
      ∧ (once.position + 2 ≤ once.data.size ∧ (once.render 2).1.block.toList = [2, 3])
      ∧ (Producer.InPieces once 4 3 ∧ (once.render 4).1.Fills 4
        ∧ (once.render 4).1.block.toList = [2, 3, 0, 0] ∧ (once.render 4).1.underrun = 2)
      ∧ (Producer.InPieces empty 1 1 ∧ (empty.render 1).1.underrun = 1)
      ∧ (tone.spec.format = .s16le ∧ 0 < tone.spec.channels ∧ tone.spec.frameSize ∣ 8
        ∧ tone.spec.frameSize ∣ 12 ∧ Producer.InPieces tone 8 12 ∧ (tone.render 8).1.Fills 8) := by
  intro loop once empty tone
  obtain ⟨hpieces, hmade, htone⟩ := rendered_in_pieces
  obtain ⟨htones, hfills⟩ := htone tone rfl (by decide)
  refine ⟨⟨hpieces loop 2 5, ?_, ?_, ?_⟩, ⟨rfl, by decide, (hmade loop 7).2.1 rfl (by decide)⟩,
    ⟨by decide, (hmade once 2).2.2 (by decide)⟩, ⟨hpieces once 4 3, (hmade once 4).1, ?_, ?_⟩,
    ⟨hpieces empty 1 1, ?_⟩, rfl, by decide, by decide, by decide, ?_, hfills 8 (by decide)⟩
  · decide +kernel
  · decide +kernel
  · decide +kernel
  · decide +kernel
  · decide +kernel
  · decide +kernel
  · exact htones 8 12 (by decide) (by decide)

end EchoAlign
