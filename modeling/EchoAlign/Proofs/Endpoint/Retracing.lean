import EchoAlign.Proofs.Endpoint.Pieces

/-!
# `EchoAlign.Proofs.Endpoint.Retracing`: audio that is made again

When the playback device gives audio back, its producer goes back as far, and
is to make the same audio again. A `Making` is a producer with the stream it
has made so far, less what was given back, and `Making.Retraces` says that the
end of the stream would be made again.

* A tone always does (`Tone.Traces.retraces`): its stream is told by the number
  of frames in it.
* A recording does as far as the end of its stream was played straight ahead
  (`RawSource.straight`). It keeps a position in its data and nothing else, so
  what lies before a loop began again, and silence for want of audio, are not
  made again (`rewind_stops_short`).
-/

set_option autoImplicit false

namespace EchoAlign

/-- So many bytes are made (`render`) or given back (`rewind`) in a call. -/
def DeviceCall.bytes : DeviceCall → Nat
  | render n => n
  | rewind n => n

/-- A `producer`, and the `stream` it has made, less what was given back. -/
structure Making (υ : Type) where
  producer : υ
  stream : List UInt8

namespace Making

variable {υ : Type} [Producer υ]

/-- Before anything is made the `stream` is empty. -/
def new (producer : υ) : Making υ := ⟨producer, []⟩

/-- Answers a call: what is rendered goes behind the `stream`, and what is given
back is taken off its end. -/
def call (m : Making υ) : DeviceCall → Making υ
  | .render n =>
      { producer := (Producer.render m.producer n).2
        stream := m.stream ++ (Producer.render m.producer n).1.block.toList }
  | .rewind n =>
      { producer := Producer.rewind m.producer n
        stream := m.stream.take (m.stream.length - n) }

/-- Answers one call after another, with `call`. -/
def run (m : Making υ) (calls : List DeviceCall) : Making υ := calls.foldl call m

/-- If the last `n` bytes were given back, they would be made again. -/
def Retraces (m : Making υ) (n : Nat) : Prop :=
  (Producer.render (Producer.rewind m.producer n) n).1.block.toList
    = m.stream.drop (m.stream.length - n)

/-- Whether the last bytes are made again (`Retraces`) can be found by making
them. -/
instance (m : Making υ) (n : Nat) : Decidable (m.Retraces n) :=
  inferInstanceAs (Decidable (_ = _))

end Making

/-! ### Tones -/

namespace Tone

/-- The bytes of the next `frames` frames. -/
def audio (t : Tone) (frames : Nat) : List UInt8 := (t.samples frames).flatMap bytesOfSample

/-- The audio of a tone in two parts is that of the first frames and then of
those behind them, by `samples_add`. -/
theorem audio_add (t : Tone) (a b : Nat) :
    t.audio (a + b) = t.audio a ++ { t with position := t.position + a }.audio b := by
  unfold audio
  rw [samples_add, List.flatMap_append]

/-- A tone renders the `audio` of as many whole frames as fit. -/
theorem toList_render (t : Tone) (n : Nat) :
    (Producer.render t n).1.block.toList = t.audio (n / t.spec.frameSize) :=
  Block.toList_ofSamples _

/-- The stream is the `audio` of the tone from its first frame to the next one. -/
def Traces (t : Tone) (m : Making Tone) : Prop :=
  ∃ frames, m = ⟨{ t with position := frames }, { t with position := 0 }.audio frames⟩

variable {t : Tone} {m : Making Tone}

/-- The `audio` of a tone has whole frames of 16-bit samples. -/
theorem length_audio (hformat : t.spec.format = .s16le) (frames : Nat) :
    (t.audio frames).length = frames * t.spec.frameSize := by
  have hframe : t.spec.frameSize = 2 * t.spec.channels := by
    rw [StreamSpec.frameSize, hformat, SampleFormat.sampleBytes]
  rw [audio, ← toList_bytesOfSamples, Array.length_toList, ByteArray.size_data,
    size_bytesOfSamples, length_samples, hframe, Nat.mul_left_comm]

/-- Without its `last` whole frames, the audio is that much shorter. -/
theorem take_audio (hformat : t.spec.format = .s16le) (frames last : Nat) :
    (t.audio frames).take ((t.audio frames).length - last * t.spec.frameSize)
      = t.audio (frames - last) := by
  rw [length_audio hformat, ← Nat.sub_mul]
  have hparts : t.audio frames
      = t.audio (frames - last) ++ { t with position := t.position + (frames - last) }.audio
        (frames - (frames - last)) := by
    rw [← audio_add, Nat.add_sub_cancel' (Nat.sub_le frames last)]
  rw [hparts, List.take_left' (length_audio hformat _)]

/-- The `last` frames of the audio are made from there on. -/
theorem drop_audio (hformat : t.spec.format = .s16le) {frames last : Nat} (hle : last ≤ frames) :
    (t.audio frames).drop ((t.audio frames).length - last * t.spec.frameSize)
      = { t with position := t.position + (frames - last) }.audio last := by
  rw [length_audio hformat, ← Nat.sub_mul]
  have hparts : t.audio frames
      = t.audio (frames - last) ++ { t with position := t.position + (frames - last) }.audio last := by
    rw [← audio_add, Nat.sub_add_cancel hle]
  rw [hparts, List.drop_left' (length_audio hformat _)]

namespace Traces

/-- A call of whole frames keeps the stream a tone from its first frame. A
`render` adds frames at the end, and a `rewind` takes whole frames off
(`hwhole`). -/
theorem call (h : t.Traces m) (hformat : t.spec.format = .s16le) (hframe : 0 < t.spec.frameSize)
    {call : DeviceCall} (hwhole : t.spec.frameSize ∣ call.bytes) : t.Traces (m.call call) := by
  obtain ⟨frames, rfl⟩ := h
  cases call with
  | render n =>
      refine ⟨frames + n / t.spec.frameSize, ?_⟩
      rw [audio_add, Nat.zero_add]
      exact congrArg (Making.mk { t with position := frames + n / t.spec.frameSize } <| _ ++ ·)
        (toList_render { t with position := frames } n)
  | rewind n =>
      obtain ⟨last, rfl⟩ := hwhole
      refine ⟨frames - last, ?_⟩
      show Making.mk (Producer.rewind _ (t.spec.frameSize * last))
        (List.take (_ - t.spec.frameSize * last) _) = _
      rw [Nat.mul_comm, take_audio (t := { t with position := 0 }) hformat]
      show Making.mk { t with position := frames - last * t.spec.frameSize / t.spec.frameSize } _ = _
      rw [Nat.mul_div_cancel _ hframe]

/-- Any number of such calls keeps the stream a tone from its first frame
(`Traces`). -/
theorem run (h : t.Traces m) (hformat : t.spec.format = .s16le) (hframe : 0 < t.spec.frameSize)
    {calls : List DeviceCall} (hwhole : ∀ call ∈ calls, t.spec.frameSize ∣ call.bytes) :
    t.Traces (m.run calls) := by
  induction calls generalizing m with
  | nil => exact h
  | cons first rest ih =>
      have hfirst := h.call hformat hframe (hwhole first List.mem_cons_self)
      exact ih hfirst fun call hcall => hwhole call (List.mem_cons_of_mem _ hcall)

/-- What was made of a tone is made again, as far as the stream goes back. `hn`
says that the stream goes back that far, and `length_audio` how many frames that
is. -/
theorem retraces (h : t.Traces m) (hformat : t.spec.format = .s16le)
    (hframe : 0 < t.spec.frameSize) {n : Nat} (hwhole : t.spec.frameSize ∣ n)
    (hn : n ≤ m.stream.length) : m.Retraces n := by
  obtain ⟨frames, rfl⟩ := h
  obtain ⟨last, rfl⟩ := hwhole
  have hlength := length_audio (t := { t with position := 0 }) hformat frames
  have hle : last ≤ frames := by
    have hn : t.spec.frameSize * last ≤ frames * t.spec.frameSize := hlength ▸ hn
    rw [Nat.mul_comm] at hn
    exact Nat.le_of_mul_le_mul_right hn hframe
  have hdrop := drop_audio (t := { t with position := 0 }) hformat hle
  rw [Nat.zero_add] at hdrop
  unfold Making.Retraces
  rw [Nat.mul_comm]
  refine Eq.trans ?_ hdrop.symm
  rw [toList_render]
  show Tone.audio { t with position := frames - last * t.spec.frameSize / t.spec.frameSize }
    (last * t.spec.frameSize / t.spec.frameSize) = _
  rw [Nat.mul_div_cancel _ hframe]

end Traces

end Tone

/-! ### Recordings -/

/-- A common end (`<:+`) goes on being one without its last elements. -/
theorem take_of_suffix {α : Type} {last l : List α} (h : last <:+ l) {n : Nat}
    (hn : n ≤ last.length) : last.take (last.length - n) <:+ l.take (l.length - n) := by
  obtain ⟨before, rfl⟩ := h
  have hlength : (before ++ last).length - n = before.length + (last.length - n) := by
    rw [List.length_append]
    omega
  rw [hlength, List.take_length_add_append]
  exact List.suffix_append _ _

/-- The last elements of a list are those of a common end (`<:+`), if it has as
many. -/
theorem drop_of_suffix {α : Type} {last l : List α} (h : last <:+ l) {n : Nat}
    (hn : n ≤ last.length) : l.drop (l.length - n) = last.drop (last.length - n) := by
  obtain ⟨before, rfl⟩ := h
  have hlength : (before ++ last).length - n = before.length + (last.length - n) := by
    rw [List.length_append]
    omega
  rw [hlength, List.drop_length_add_append]

namespace RawSource

/-- How many bytes at the end of the stream were played straight ahead, behind
a call, when there were `straight` in front of it. -/
def straightAfter (s : RawSource) (straight : Nat) : DeviceCall → Nat
  | .render n =>
      if (s.render n).1.underrun = 0 then min (straight + n) (s.render n).2.position else 0
  | .rewind n => straight - n

/-- How much of the stream was played straight ahead behind a sequence of calls,
each judged by `straightAfter` in the state it meets. -/
def straightFrom (m : Making RawSource) (straight : Nat) : List DeviceCall → Nat
  | [] => straight
  | call :: rest => straightFrom (m.call call) (m.producer.straightAfter straight call) rest

/-- How many bytes at the end of what `calls` make of a recording were played
straight ahead: no loop began again among them, and none is silence for want of
audio. -/
def straight (s : RawSource) (calls : List DeviceCall) : Nat := straightFrom (.new s) 0 calls

/-- The last `n` bytes of the stream are those in front of the position. -/
structure Recalls (s : RawSource) (stream : List UInt8) (n : Nat) : Prop where
  position_le : s.position ≤ s.data.size
  last : ∃ audio, audio.length = n ∧ audio <:+ stream ∧ audio <:+ s.data.toList.take s.position

variable {s : RawSource} {stream : List UInt8} {n : Nat}

/-- The next byte moves the position on from where a loop may have begun again
(`start`). -/
theorem position_of_next? {byte : UInt8} {next : RawSource} (h : s.next? = some (byte, next)) :
    next = { s with position := start s.data s.looping s.position + 1 }
      ∧ s.data.toList[start s.data s.looping s.position]? = some byte := by
  obtain ⟨found, hfound, heq⟩ := Option.map_eq_some_iff.mp h
  cases heq
  exact ⟨rfl, hfound⟩

/-- The position moves on by no more than what is played. Each byte moves it by
one, from the place that `start` gives. -/
theorem position_ahead_le (s : RawSource) (n : Nat) :
    (s.ahead n).2.position ≤ s.position + (s.ahead n).1.length := by
  induction n generalizing s with
  | zero => exact Nat.le_refl _
  | succ n ih =>
      cases hnext : s.next? with
      | none =>
          rw [ahead_of_none hnext]
          exact Nat.le_refl _
      | some step =>
          obtain ⟨byte, next⟩ := step
          have hrest := ih next
          have hfirst : next.position ≤ s.position + 1 := by
            rw [(position_of_next? hnext).1]
            show start _ _ _ + 1 ≤ _
            unfold start
            split <;> omega
          rw [ahead_of_some hnext, List.length_cons]
          show (next.ahead n).2.position ≤ _
          omega

namespace Recalls

/-- A new recording `Recalls` nothing. -/
theorem new (data : Block) (looping : Bool) : (ofBlock data looping).Recalls [] 0 :=
  ⟨Nat.zero_le _, [], rfl, List.suffix_rfl, List.nil_suffix⟩

/-- No more was played straight ahead than lies in front of the `position`. -/
theorem le_position (h : s.Recalls stream n) : n ≤ s.position := by
  obtain ⟨audio, rfl, -, hdata⟩ := h.last
  exact Nat.le_trans hdata.length_le (List.length_take_le _ _)

/-- Every recording that `Recalls` something recalls nothing at all, of whatever
stream. -/
theorem zero (h : s.Recalls stream n) (other : List UInt8) : s.Recalls other 0 :=
  ⟨h.position_le, [], rfl, List.nil_suffix, List.nil_suffix⟩

/-- One byte more is recalled, unless with it a loop begins again. `min` is
there for the loop: at its beginning the position is one again. -/
theorem next (h : s.Recalls stream n) {byte : UInt8} {next : RawSource}
    (hnext : s.next? = some (byte, next)) :
    next.Recalls (stream ++ [byte]) (min (n + 1) next.position) := by
  have hle := h.le_position
  obtain ⟨audio, hlength, hstream, hdata⟩ := h.last
  obtain ⟨rfl, hfound⟩ := position_of_next? hnext
  have hlt : start s.data s.looping s.position < s.data.size := by
    rw [← Block.length_toList]
    exact (List.getElem?_eq_some_iff.mp hfound).1
  have htake : s.data.toList.take (start s.data s.looping s.position + 1)
      = s.data.toList.take (start s.data s.looping s.position) ++ [byte] := by
    rw [List.take_add_one, hfound, Option.toList_some]
  refine ⟨hlt, ?_⟩
  by_cases hagain : s.data.size ≤ s.position ∧ s.looping = true
  -- In front of the position, there is this byte and no other.
  · have hstart : start s.data s.looping s.position = 0 := if_pos hagain
    rw [hstart, List.take_zero] at htake
    refine ⟨[byte], ?_, List.suffix_append _ _, ?_⟩
    · rw [hstart]
      exact (Nat.min_eq_right (Nat.succ_le_succ (Nat.zero_le n))).symm
    · rw [hstart]
      exact htake ▸ List.suffix_rfl
  -- It follows what was in front of the position.
  · have hstart : start s.data s.looping s.position = s.position := if_neg hagain
    rw [hstart] at htake
    refine ⟨audio ++ [byte], ?_, ?_, ?_⟩
    · rw [hstart, List.length_append, hlength]
      exact (Nat.min_eq_left (Nat.succ_le_succ hle)).symm
    · exact List.suffix_append_self_iff.mpr hstream
    · rw [hstart]
      exact htake ▸ List.suffix_append_self_iff.mpr hdata

/-- Any number of bytes more is recalled, by induction on them with `next`. -/
theorem ahead (h : s.Recalls stream n) (count : Nat) :
    (s.ahead count).2.Recalls (stream ++ (s.ahead count).1)
      (min (n + (s.ahead count).1.length) (s.ahead count).2.position) := by
  induction count generalizing s stream n with
  | zero =>
      show s.Recalls (stream ++ []) (min n s.position)
      rwa [List.append_nil, Nat.min_eq_left h.le_position]
  | succ count ih =>
      cases hnext : s.next? with
      | none =>
          rw [ahead_of_none hnext]
          show s.Recalls (stream ++ []) (min n s.position)
          rwa [List.append_nil, Nat.min_eq_left h.le_position]
      | some step =>
          obtain ⟨byte, following⟩ := step
          have hrest := ih (h.next hnext)
          have hle := following.position_ahead_le count
          rw [ahead_of_some hnext, List.length_cons]
          rw [List.append_assoc, List.singleton_append,
            show min (min (n + 1) following.position + (following.ahead count).1.length)
                (following.ahead count).2.position
              = min (n + ((following.ahead count).1.length + 1)) (following.ahead count).2.position by
              omega] at hrest
          exact hrest

/-- Going back, less was made, and less is recalled. The position stops at the
beginning of the data, and so does what is recalled. -/
theorem rewind (h : s.Recalls stream n) (count : Nat) :
    (s.rewind count).Recalls (stream.take (stream.length - count)) (n - count) := by
  have hposition : (s.rewind count).position ≤ s.data.size :=
    Nat.le_trans (Nat.sub_le _ _) h.position_le
  have hlength : (s.data.toList.take s.position).length = s.position := by
    rw [List.length_take, Block.length_toList, Nat.min_eq_left h.position_le]
  obtain ⟨audio, rfl, hstream, hdata⟩ := h.last
  rcases Nat.le_total count audio.length with hle | hle
  · refine ⟨hposition, audio.take (audio.length - count),
      List.length_take_of_le (Nat.sub_le _ _), take_of_suffix hstream hle, ?_⟩
    have htake := take_of_suffix hdata hle
    rwa [hlength, List.take_take, Nat.min_eq_left (Nat.sub_le _ _)] at htake
  · rw [Nat.sub_eq_zero_of_le hle]
    exact ⟨hposition, [], rfl, List.nil_suffix, List.nil_suffix⟩

/-- What is in front of the position is played again after going back. It lies
in the data in front of `position`, by `le_position` and `last` of `Recalls`. -/
theorem retraces (h : s.Recalls stream n) {count : Nat} (hcount : count ≤ n) :
    (Producer.render (Producer.rewind s count) count).1.block.toList
      = stream.drop (stream.length - count) := by
  have hle := Nat.le_trans hcount h.le_position
  have hback : (s.rewind count).position + count = s.position := Nat.sub_add_cancel hle
  have hlength : (s.data.toList.take s.position).length = s.position := by
    rw [List.length_take, Block.length_toList, Nat.min_eq_left h.position_le]
  obtain ⟨audio, rfl, hstream, hdata⟩ := h.last
  show ((s.rewind count).render count).1.block.toList = _
  rw [render_of_le (hback.symm ▸ h.position_le), drop_of_suffix hstream hcount,
    ← drop_of_suffix hdata hcount, hlength, hback]
  show (Block.ofBytes (s.data.slice (s.position - count) s.position).bytes).toList = _
  rw [Block.toList_ofBytes]
  exact Block.toList_slice ..

/-- What a call leaves of what is recalled, as `straightAfter` says. -/
theorem call {m : Making RawSource} (h : m.producer.Recalls m.stream n) (call : DeviceCall) :
    (m.call call).producer.Recalls (m.call call).stream (m.producer.straightAfter n call) := by
  cases call with
  | render count =>
      obtain ⟨hbytes, hunderrun, hstate⟩ := m.producer.render_eq count
      have hahead := h.ahead count
      show (m.producer.render count).2.Recalls
        (m.stream ++ (m.producer.render count).1.block.toList)
        (if (m.producer.render count).1.underrun = 0 then
          min (n + count) (m.producer.render count).2.position else 0)
      rw [hstate]
      by_cases hfull : (m.producer.render count).1.underrun = 0
      · rw [if_pos hfull]
        rw [hunderrun] at hfull
        have hlength : (m.producer.ahead count).1.length = count :=
          Nat.le_antisymm (m.producer.length_ahead_le count) (Nat.le_of_sub_eq_zero hfull)
        rw [hlength] at hahead
        rwa [hbytes, hfull, List.replicate_zero, List.append_nil]
      -- The stream ends in silence, which is not in the data.
      · rw [if_neg hfull]
        exact hahead.zero _
  | rewind count => exact h.rewind count

/-- What a sequence of calls leaves of it, as `straightFrom` says. -/
theorem run {m : Making RawSource} (h : m.producer.Recalls m.stream n) (calls : List DeviceCall) :
    (m.run calls).producer.Recalls (m.run calls).stream (straightFrom m n calls) := by
  induction calls generalizing m n with
  | nil => exact h
  | cons first rest ih => exact ih (h.call first)

end Recalls

/-- A call that finds as much as it asks for leaves the position at the end of
the stream, all of which was then played straight ahead. `hfits` holds for a
`rewind` of any length, and for a `render` that the data is long enough for. -/
theorem straightAfter_of_le {m : Making RawSource} {call : DeviceCall}
    (hposition : m.producer.position = m.stream.length)
    (hfits : (m.call call).stream.length ≤ m.producer.data.size) :
    (m.call call).producer.position = (m.call call).stream.length
      ∧ m.producer.straightAfter m.stream.length call = (m.call call).stream.length := by
  cases call with
  | render n =>
      have hlength : (m.call (.render n)).stream.length = m.stream.length + n := by
        show (m.stream ++ (m.producer.render n).1.block.toList).length = _
        rw [List.length_append, Block.length_toList, (m.producer.fills_render n).size_eq]
      rw [hlength, ← hposition] at hfits
      have hrender := render_of_le hfits
      have hafter : (m.producer.render n).2.position = m.producer.position + n :=
        congrArg (·.2.position) hrender
      refine ⟨?_, ?_⟩
      · rw [hlength, ← hposition]
        exact hafter
      · rw [hlength]
        show (if (m.producer.render n).1.underrun = 0 then
          min (m.stream.length + n) (m.producer.render n).2.position else 0) = _
        rw [if_pos (congrArg (·.1.underrun) hrender), hafter, hposition, Nat.min_self]
  | rewind n =>
      have hlength : (m.call (.rewind n)).stream.length = m.stream.length - n :=
        List.length_take_of_le (Nat.sub_le _ _)
      rw [hlength, ← hposition]
      exact ⟨rfl, rfl⟩

/-- As long as no more was made than there is, all of it was played straight
ahead. `hfits` is asked for after every part of the run, since in between the
stream may have been longer. The step is `straightAfter_of_le`. -/
theorem straightFrom_of_le {m : Making RawSource} {calls : List DeviceCall}
    (hposition : m.producer.position = m.stream.length)
    (hfits : ∀ first, first <+: calls → (m.run first).stream.length ≤ m.producer.data.size) :
    straightFrom m m.stream.length calls = (m.run calls).stream.length := by
  induction calls generalizing m with
  | nil => rfl
  | cons call rest ih =>
      obtain ⟨hposition', hstraight⟩ :=
        straightAfter_of_le hposition (hfits [call] (List.prefix_append [call] rest))
      have hdata : (m.call call).producer.data = m.producer.data := by
        cases call <;> rfl
      show straightFrom (m.call call) (m.producer.straightAfter m.stream.length call) rest = _
      rw [hstraight]
      exact ih hposition' fun first hfirst => by
        rw [hdata]
        exact hfits (call :: first) (List.cons_prefix_cons.mpr ⟨rfl, hfirst⟩)

/-- Without audio (`h`) there is nothing but silence. -/
theorem toList_render_of_empty (h : s.data.size = 0) (n : Nat) :
    (s.render n).1.block.toList = List.replicate n 0 := by
  have hnone : s.next? = none :=
    next?_eq_none_iff.mpr (h ▸ Nat.zero_le (start s.data s.looping s.position))
  rw [(s.render_eq n).1, ahead_of_none hnone, List.nil_append, List.length_nil, Nat.sub_zero]

/-- A recording without audio makes a stream of silence. For a loop, too, as
`render` has nothing to begin again with. -/
theorem silent_run {m : Making RawSource} (hdata : m.producer.data.size = 0)
    (hsilent : ∀ byte ∈ m.stream, byte = 0) (calls : List DeviceCall) :
    (m.run calls).producer.data.size = 0 ∧ ∀ byte ∈ (m.run calls).stream, byte = 0 := by
  induction calls generalizing m with
  | nil => exact ⟨hdata, hsilent⟩
  | cons call rest ih =>
      cases call with
      | render n =>
          refine ih (m := m.call (.render n)) hdata fun byte hbyte => ?_
          rcases List.mem_append.mp hbyte with hbefore | hmade
          · exact hsilent byte hbefore
          · exact List.eq_of_mem_replicate ((toList_render_of_empty hdata n) ▸ hmade)
      | rewind n =>
          exact ih (m := m.call (.rewind n)) hdata fun byte hbyte =>
            hsilent byte (List.mem_of_mem_take hbyte)

/-- What was made of a recording without audio (`hdata`) is made again. -/
theorem retraces_of_empty {m : Making RawSource} (hdata : m.producer.data.size = 0)
    (hsilent : ∀ byte ∈ m.stream, byte = 0) {n : Nat} (hn : n ≤ m.stream.length) :
    m.Retraces n := by
  have hend : m.stream.drop (m.stream.length - n) = List.replicate n 0 :=
    List.eq_replicate_iff.mpr ⟨by rw [List.length_drop, Nat.sub_sub_self hn],
      fun byte hbyte => hsilent byte (List.mem_of_mem_drop hbyte)⟩
  exact (toList_render_of_empty (s := m.producer.rewind n) hdata n).trans hend.symm

end RawSource

/-! ### Both -/

/-- What was given back is made again (`Making.Retraces`): of a tone always, if
all calls are of whole frames, and of a recording as far as it was played
straight ahead (`RawSource.straight`). Of a recording that is all that was made,
when it is empty and as long as no more was made than there is. -/
theorem made_again (tone : Tone) (data : Block) (looping : Bool) (calls : List DeviceCall)
    (n : Nat) :
    (tone.position = 0 → tone.spec.format = .s16le → 0 < tone.spec.channels →
        (∀ call ∈ calls, tone.spec.frameSize ∣ call.bytes) → tone.spec.frameSize ∣ n →
        n ≤ ((Making.new tone).run calls).stream.length → ((Making.new tone).run calls).Retraces n)
      ∧ let recording := RawSource.ofBlock data looping
        let made := (Making.new recording).run calls
        (n ≤ recording.straight calls → made.Retraces n)
          ∧ (data.size = 0 → n ≤ made.stream.length → made.Retraces n)
          ∧ ((∀ first, first <+: calls →
                ((Making.new recording).run first).stream.length ≤ data.size) →
              n ≤ made.stream.length → made.Retraces n) := by
  refine ⟨?_, ?_⟩
  · intro hposition hformat hchannels hwhole hframes hn
    have hframe := StreamSpec.frameSize_pos_of_channels hchannels
    have hnew : tone.Traces (.new tone) := ⟨0, congrArg (Making.mk · []) (by rw [← hposition])⟩
    exact (hnew.run hformat hframe hwhole).retraces hformat hframe hframes hn
  · intro recording made
    have hrecalls := (RawSource.Recalls.new data looping).run (m := .new recording) calls
    refine ⟨hrecalls.retraces, fun hdata hn => ?_, fun hfits hn => ?_⟩
    · obtain ⟨hdata', hsilent⟩ := RawSource.silent_run (m := .new recording) hdata nofun calls
      exact RawSource.retraces_of_empty hdata' hsilent hn
    · have hall := RawSource.straightFrom_of_le (m := .new recording) rfl hfits
      exact hrecalls.retraces (Nat.le_trans hn (Nat.le_of_eq hall.symm))

/-- A tone on two channels that goes back twice. A loop that has begun again,
and a recording that has not been played to its end. Each of the three meets
hypotheses of `made_again`. -/
theorem made_again_trial :
    let tone := Tone.create ⟨.s16le, 8000, 2⟩ 440.0 0.5
    let toneCalls : List DeviceCall := [.render 12, .rewind 4, .render 8, .rewind 8]
    let loop := RawSource.ofBlock (.ofBytes ⟨#[1, 2, 3, 4]⟩) true
    let loopCalls : List DeviceCall := [.render 6, .render 5]
    let once := RawSource.ofBlock (.ofBytes ⟨#[1, 2, 3, 4, 5, 6]⟩) false
    let onceCalls : List DeviceCall := [.render 4, .rewind 2, .render 3]
    ((∀ call ∈ toneCalls, tone.spec.frameSize ∣ call.bytes) ∧ tone.spec.frameSize ∣ 8
        ∧ ((Making.new tone).run toneCalls).stream.length = 8
        ∧ ((Making.new tone).run toneCalls).Retraces 8)
      ∧ (loop.straight loopCalls = 3
        ∧ ((Making.new loop).run loopCalls).stream = [1, 2, 3, 4, 1, 2, 3, 4, 1, 2, 3]
        ∧ ((Making.new loop).run loopCalls).Retraces 3)
      ∧ (((Making.new once).run onceCalls).stream = [1, 2, 3, 4, 5]
        ∧ ((Making.new once).run onceCalls).Retraces 5) := by
  intro tone toneCalls loop loopCalls once onceCalls
  have hwhole : ∀ call ∈ toneCalls, tone.spec.frameSize ∣ call.bytes := by
    decide
  have hlength : ((Making.new tone).run toneCalls).stream.length = 8 := by decide +kernel
  have hstraight : loop.straight loopCalls = 3 := by decide +kernel
  have hfits : ∀ first, first <+: onceCalls →
      ((Making.new once).run first).stream.length ≤ once.data.size := by
    intro first hfirst
    have hall : ∀ k < 4, ((Making.new once).run (onceCalls.take k)).stream.length ≤ once.data.size :=
      by decide +kernel
    rw [List.prefix_iff_eq_take.mp hfirst]
    exact hall first.length (Nat.lt_succ_of_le hfirst.length_le)
  refine ⟨⟨hwhole, by decide, hlength, ?_⟩, ⟨hstraight, by decide +kernel, ?_⟩,
    by decide +kernel, ?_⟩
  · exact (made_again tone (.ofBytes ⟨#[]⟩) false toneCalls 8).1 rfl rfl (by decide) hwhole (by decide)
      (Nat.le_of_eq hlength.symm)
  · exact (made_again tone _ true loopCalls 3).2.1 (Nat.le_of_eq hstraight.symm)
  · exact (made_again tone _ false onceCalls 5).2.2.2 hfits (by decide +kernel)

/-- Silence at the end of a recording is not made again, and neither is what
lies before a loop began again: the recording goes back in its data. The stream
is not one that `Retraces` four bytes. -/
theorem rewind_stops_short :
    let once := RawSource.ofBlock (.ofBytes ⟨#[1, 2, 3, 4]⟩) false
    let loop := RawSource.ofBlock (.ofBytes ⟨#[1, 2, 3, 4]⟩) true
    let padded := (Making.new once).run [.render 8]
    let begun := (Making.new loop).run [.render 6]
    (padded.stream = [1, 2, 3, 4, 0, 0, 0, 0] ∧ ¬ padded.Retraces 4
        ∧ (Producer.render (Producer.rewind padded.producer 4) 4).1.block.toList = [1, 2, 3, 4])
      ∧ (begun.stream = [1, 2, 3, 4, 1, 2] ∧ ¬ begun.Retraces 4
        ∧ (Producer.render (Producer.rewind begun.producer 4) 4).1.block.toList = [1, 2, 3, 4]) := by
  decide +kernel

end EchoAlign
