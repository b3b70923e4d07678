import EchoAlign.Endpoint.RawSink

/-!
# `EchoAlign.Proofs.Endpoint.Overwriting`: what a written file holds

Of a file that is written through a buffer, some bytes are in the file and
some are waiting, and some of those in the file are about to be replaced. At
any time it will hold what lies in front of its place and then what lies behind
it (`BufferedFile.Holds`), and this is all that its steps depend on.

A `Posted` is the stream that a sink is to write: what was posted, less what was
given back. `RawSink.contents_run` says that the file holds this stream and
behind it whatever was not replaced: the end of an earlier, longer stream
(`RawSink.close_keeps_given_back`).
-/

set_option autoImplicit false

namespace EchoAlign

namespace BufferedFile

/-- What lies in front of the place of a file, and what lies behind it. Bytes
that still wait in the buffer (`waiting`) are in front already. -/
structure Holds (f : BufferedFile) (front behind : List UInt8) : Prop where
  place_le : f.place ≤ f.stored.size
  front_eq : front = f.stored.data.toList.take f.place ++ f.waiting.data.toList
  behind_eq : behind = f.stored.data.toList.drop (f.place + f.waiting.size)

variable {f : BufferedFile} {front behind : List UInt8}

/-- An empty file `Holds` nothing. -/
theorem holds_empty : BufferedFile.empty.Holds [] [] := ⟨Nat.le_refl 0, rfl, rfl⟩

/-- The bytes that are `stored`, as a list, are as many as their size. -/
theorem length_stored (f : BufferedFile) : f.stored.data.toList.length = f.stored.size := by
  rw [Array.length_toList, ByteArray.size_data]

/-- Bytes that are put there by `store` replace those at the place of the file,
as many as they are. -/
theorem toList_store (f : BufferedFile) (bytes : ByteArray) :
    (f.store bytes).stored.data.toList
      = f.stored.data.toList.take f.place ++ bytes.data.toList
        ++ f.stored.data.toList.drop (f.place + bytes.size) := by
  have hrest : (f.stored.data.toList.drop (f.place + bytes.size)).length
      ≤ f.stored.size - (f.place + bytes.size) :=
    Nat.le_of_eq (by rw [List.length_drop, length_stored])
  unfold store
  simp only [toList_append_bytes, ByteArray.data_extract, Array.toList_extract,
    List.extract_eq_take_drop, List.drop_zero, Nat.sub_zero]
  rw [List.take_of_length_le hrest]

/-- Bytes that are put into the file are in front of its place. They replace
what was behind it. `hplace` keeps `place` within the file, so that no gap is
filled. -/
theorem holds_store {f : BufferedFile} (hplace : f.place ≤ f.stored.size) (bytes : ByteArray) :
    { f.store bytes with waiting := ByteArray.empty }.Holds
      (f.stored.data.toList.take f.place ++ bytes.data.toList)
      (f.stored.data.toList.drop (f.place + bytes.size)) := by
  have hfront : (f.stored.data.toList.take f.place ++ bytes.data.toList).length
      = f.place + bytes.size := by
    rw [List.length_append, List.length_take_of_le (f.length_stored ▸ hplace),
      Array.length_toList, ByteArray.size_data]
  refine ⟨?_, ?_, ?_⟩
  · show f.place + bytes.size ≤ (f.store bytes).stored.size
    rw [← length_stored, toList_store, List.length_append, hfront]
    exact Nat.le_add_right _ _
  · show _ = (f.store bytes).stored.data.toList.take (f.place + bytes.size) ++ []
    rw [toList_store, List.take_left' hfront, List.append_nil]
  · show _ = (f.store bytes).stored.data.toList.drop (f.place + bytes.size + 0)
    rw [toList_store, Nat.add_zero, List.drop_left' hfront]

namespace Holds

/-- As much is in `front` as was stored up to the place, and what waits. -/
theorem length_front (h : f.Holds front behind) : front.length = f.place + f.waiting.size := by
  rw [h.front_eq, List.length_append, List.length_take_of_le (f.length_stored ▸ h.place_le),
    Array.length_toList, ByteArray.size_data]

/-- Whatever waits is in front of the place already, so that a `flush` changes
neither part. -/
theorem flush (h : f.Holds front behind) : f.flush.Holds front behind := by
  rw [h.front_eq, h.behind_eq]
  exact holds_store h.place_le f.waiting

/-- The two parts are what the file holds when it is closed (`contents`). -/
theorem toList_contents (h : f.Holds front behind) :
    f.contents.data.toList = front ++ behind := by
  have hflushed := h.flush
  have hfront : front = f.flush.stored.data.toList.take f.flush.place ++ [] := hflushed.front_eq
  have hbehind : behind = f.flush.stored.data.toList.drop (f.flush.place + 0) := hflushed.behind_eq
  rw [hfront, hbehind, List.append_nil, Nat.add_zero]
  exact (List.take_append_drop _ _).symm

/-- Bytes that are written come behind the front, and replace what was behind.
In `write`, bytes as many as the buffer's `capacity` go to the file at once, by
`holds_store`, and fewer wait. -/
theorem write (h : f.Holds front behind) (bytes : ByteArray) :
    (f.write bytes).Holds (front ++ bytes.data.toList) (behind.drop bytes.size) := by
  -- Where there is too little room, the buffer is emptied first.
  obtain ⟨g, hg, hroom, hwrite⟩ : ∃ g : BufferedFile, g.Holds front behind
      ∧ (capacity ≤ bytes.size → g.waiting = ByteArray.empty)
      ∧ f.write bytes = if capacity ≤ bytes.size then g.store bytes
          else { g with waiting := g.waiting ++ bytes } := by
    by_cases hfull : capacity < f.waiting.size + bytes.size
    · exact ⟨f.flush, h.flush, fun _ => rfl, by rw [BufferedFile.write, if_pos hfull]⟩
    · exact ⟨f, h, fun hlarge => ByteArray.size_eq_zero_iff.mp (by omega),
        by rw [BufferedFile.write, if_neg hfull]⟩
  rw [hwrite]
  split
  · next hlarge =>
      have hnone := hroom hlarge
      have hstore := holds_store hg.place_le bytes
      have hfront : front = g.stored.data.toList.take g.place := by
        rw [hg.front_eq, hnone]
        exact List.append_nil _
      have hbehind : behind = g.stored.data.toList.drop g.place := by
        rw [hg.behind_eq, hnone]
        rfl
      rw [← hnone] at hstore
      rwa [hfront, hbehind, List.drop_drop]
  · refine ⟨hg.place_le, ?_, ?_⟩
    · rw [hg.front_eq, List.append_assoc, ← toList_append_bytes]
    · rw [hg.behind_eq, List.drop_drop, Nat.add_assoc, ByteArray.size_append]

/-- Going back moves the last bytes of the front behind the place, if there are
as many. `back` flushes first, so that `place` is where the front ends. -/
theorem back (h : f.Holds front behind) {n : Nat} (hn : n ≤ front.length) :
    (f.back n).1 = true
      ∧ (f.back n).2.Holds (front.take (front.length - n))
        (front.drop (front.length - n) ++ behind) := by
  have hflushed := h.flush
  have hlength : front.length = f.flush.place := hflushed.length_front
  -- The place is behind all of the front once nothing waits.
  have hmoved : f.back n = (true, { f.flush with place := f.flush.place - n }) :=
    if_pos (hlength ▸ hn)
  have hcontents : f.flush.stored.data.toList = front ++ behind := h.toList_contents
  rw [hmoved]
  refine ⟨rfl, Nat.le_trans (Nat.sub_le _ _) hflushed.place_le, ?_, ?_⟩
  · show _ = f.flush.stored.data.toList.take (f.flush.place - n) ++ []
    rw [hcontents, ← hlength, List.append_nil, List.take_append_of_le_length (Nat.sub_le _ _)]
  · show _ = f.flush.stored.data.toList.drop (f.flush.place - n + 0)
    rw [hcontents, ← hlength, Nat.add_zero, List.drop_append_of_le_length (Nat.sub_le _ _)]

end Holds

end BufferedFile

namespace RawSink

/-- The `stream` that a sink is to write, and what a longer stream before it has
left `behind` in the file. -/
structure Posted where
  stream : List UInt8
  behind : List UInt8

namespace Posted

/-- What is posted is appended, and what is given back removed, and then lies
`behind`. -/
def call (p : Posted) : SinkCall → Posted
  | .post block => ⟨p.stream ++ block.toList, p.behind.drop block.size⟩
  | .rewind n =>
      ⟨p.stream.take (p.stream.length - n), p.stream.drop (p.stream.length - n) ++ p.behind⟩

/-- What a `call` does, for a sequence of calls, one after another. -/
def run (p : Posted) (calls : List SinkCall) : Posted := calls.foldl call p

/-- Before anything is posted there is no `stream`. -/
def empty : Posted := ⟨[], []⟩

/-- How many bytes there are in all, in the `stream` and `behind` it. -/
def reach (p : Posted) : Nat := p.stream.length + p.behind.length

/-- A call leaves as many (`reach`), unless the stream becomes longer than that. -/
theorem reach_call (p : Posted) (call : SinkCall) :
    (p.call call).reach = max p.reach (p.call call).stream.length := by
  cases call with
  | post block =>
      simp only [Posted.call, reach, List.length_append, List.length_drop, Block.length_toList]
      omega
  | rewind n =>
      simp only [Posted.call, reach, List.length_append, List.length_drop, List.length_take]
      omega

/-- So there are as many as the longest stream had, by induction on the calls.
`reach` only grows, and after a call it is the length of the stream if that is
more. -/
theorem reach_run_le_iff (p : Posted) (calls : List SinkCall) (n : Nat) :
    (p.run calls).reach ≤ n
      ↔ p.reach ≤ n ∧ ∀ first, first <+: calls → (p.run first).stream.length ≤ n := by
  induction calls generalizing p with
  | nil =>
      have hstream : p.stream.length ≤ p.reach := Nat.le_add_right _ _
      simp only [List.prefix_nil, forall_eq]
      exact ⟨fun h => ⟨h, Nat.le_trans hstream h⟩, And.left⟩
  | cons call rest ih =>
      have hcall := p.reach_call call
      have hstream : p.stream.length ≤ p.reach := Nat.le_add_right _ _
      refine (ih (p.call call)).trans ⟨fun ⟨hle, hrest⟩ => ?_, fun ⟨hle, hall⟩ => ?_⟩
      · refine ⟨by omega, fun first hfirst => ?_⟩
        rcases List.prefix_cons_iff.mp hfirst with rfl | ⟨later, rfl, hlater⟩
        · show p.stream.length ≤ n
          omega
        · exact hrest later hlater
      · have hone : (p.call call).stream.length ≤ n :=
          hall [call] (List.cons_prefix_cons.mpr ⟨rfl, List.nil_prefix⟩)
        exact ⟨by omega, fun first hfirst =>
          hall (call :: first) (List.cons_prefix_cons.mpr ⟨rfl, hfirst⟩)⟩

end Posted

/-- What a sink holds is the stream it is to write, and what is left behind; its
`bytesWritten` is the length of the stream. -/
structure Writes (s : RawSink) (p : Posted) : Prop where
  holds : s.file.Holds p.stream p.behind
  bytesWritten_eq : s.bytesWritten = p.stream.length

namespace Writes

variable {s : RawSink} {p : Posted}

/-- A call of a sink is a call of the stream. `write` and `back` of `Holds` do
the work, and `bytesWritten` goes with the length of the stream. -/
theorem perform (h : s.Writes p) (call : SinkCall) : (s.perform call).Writes (p.call call) := by
  cases call with
  | post block =>
      refine ⟨?_, ?_⟩
      · show (s.file.write block.bytes).Holds _ (p.behind.drop block.size)
        rw [← size_bytes]
        exact h.holds.write block.bytes
      · show s.bytesWritten + block.size = (p.stream ++ block.toList).length
        rw [h.bytesWritten_eq, List.length_append, Block.length_toList]
  | rewind n =>
      have hamount : min n s.bytesWritten ≤ p.stream.length :=
        Nat.le_trans (Nat.min_le_right _ _) (Nat.le_of_eq h.bytesWritten_eq)
      obtain ⟨hmoved, hholds⟩ := h.holds.back hamount
      have hrewind : s.rewind n
          = ⟨(s.file.back (min n s.bytesWritten)).2, s.bytesWritten - min n s.bytesWritten⟩ :=
        if_pos hmoved
      have hlast : p.stream.length - min n s.bytesWritten = p.stream.length - n := by
        rw [h.bytesWritten_eq]
        omega
      rw [hlast] at hholds
      show (s.rewind n).Writes _
      rw [hrewind]
      refine ⟨hholds, ?_⟩
      show s.bytesWritten - _ = (p.stream.take _).length
      rw [h.bytesWritten_eq, List.length_take_of_le (Nat.sub_le _ _), ← hlast, h.bytesWritten_eq]

/-- Any number of calls of a sink are those of the stream (`Writes`), by
induction on the calls. -/
theorem run (h : s.Writes p) (calls : List SinkCall) : (s.run calls).Writes (p.run calls) := by
  induction calls generalizing s p with
  | nil => exact h
  | cons call rest ih => exact ih (h.perform call)

end Writes

/-- What is posted and given back is counted as it is in the stream
(`Posted.stream`), and the file holds the stream and then what a longer stream
before it has left there (`Posted.behind`). So it holds the stream alone exactly
when the stream has never been longer, that is when everything that was given
back has been written over. -/
theorem contents_run (calls : List SinkCall) :
    let sink := RawSink.empty.run calls
    let posted := Posted.empty.run calls
    sink.bytesWritten = posted.stream.length
      ∧ sink.contents.data.toList = posted.stream ++ posted.behind
      ∧ (sink.contents.data.toList = posted.stream
        ↔ ∀ first, first <+: calls →
          (Posted.empty.run first).stream.length ≤ posted.stream.length) := by
  intro sink posted
  have hwrites : sink.Writes posted :=
    Writes.run (s := RawSink.empty) (p := .empty) ⟨BufferedFile.holds_empty, rfl⟩ calls
  have hcontents := hwrites.holds.toList_contents
  have hreach := Posted.reach_run_le_iff .empty calls posted.stream.length
  refine ⟨hwrites.bytesWritten_eq, hcontents, ?_⟩
  calc sink.contents.data.toList = posted.stream
      ↔ posted.behind = [] := by
        show sink.file.contents.data.toList = posted.stream ↔ _
        rw [hcontents, List.append_right_eq_self]
    _ ↔ posted.reach ≤ posted.stream.length := by
        rw [Posted.reach, ← List.length_eq_zero_iff]
        omega
    _ ↔ _ := hreach.trans ⟨And.right, fun hall => ⟨Nat.zero_le _, hall⟩⟩

/-- The first two of four bytes are all that is left of the stream. The file has
four. So what `RawSink.contents` shows is not as long as `bytesWritten` says. -/
theorem close_keeps_given_back :
    let calls : List SinkCall := [.post (.ofBytes ⟨#[1, 2, 3, 4]⟩), .rewind 2]
    let sink := RawSink.empty.run calls
    (Posted.empty.run calls).stream = [1, 2] ∧ sink.bytesWritten = 2
      ∧ sink.contents.data.toList = [1, 2, 3, 4] := by
  decide +kernel

end RawSink

end EchoAlign
