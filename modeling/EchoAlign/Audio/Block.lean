/-!
# `EchoAlign.Audio.Block`: shared pieces of audio

A `Block` is a window into bytes that never change. Cutting a block
moves the window and copies nothing, so a block can sit in a queue, be
handed to the canceller and be forwarded, all on one storage.

`Block.toList` is the view every law is stated on:

* `length_toList`: a block of size `n` holds `n` bytes.
* `toList_slice`: a slice holds the bytes of its clamped range.
* `toList_ofBytes`, `toList_silence`: what a fresh block holds.
* `sampleOfBytes_bytesOfSample`, `bytesOfSample_sampleOfBytes`: a
  sample and its two bytes say the same.
-/

set_option autoImplicit false

namespace EchoAlign

/-- A run of zero bytes, which is silence in every sample format. -/
def silentBytes (n : Nat) : ByteArray := ByteArray.mk (Array.replicate n 0)

/-- The bytes of `silentBytes n`, as a list. -/
theorem toList_silentBytes (n : Nat) :
    (silentBytes n).data.toList = List.replicate n 0 := by
  simp [silentBytes]

/-- There are `n` bytes in `silentBytes n`. -/
theorem size_silentBytes (n : Nat) : (silentBytes n).size = n := by
  rw [← ByteArray.size_data]
  simp [silentBytes]

/-- Byte arrays that are joined hold the bytes of one behind those of the other.
It brings `ByteArray.append` to lists. -/
theorem toList_append_bytes (a b : ByteArray) :
    (a ++ b).data.toList = a.data.toList ++ b.data.toList := by
  rw [ByteArray.data_append, Array.toList_append]

/-! ### Samples -/

/-- A sample as two bytes, the low one first. `sampleOfBytes` is the way back. -/
def bytesOfSample (s : Int16) : List UInt8 :=
  [s.toUInt16.toUInt8, (s.toUInt16 >>> 8).toUInt8]

/-- The sample two bytes hold, the low one first. `bytesOfSample` is the way
back. -/
def sampleOfBytes (lo hi : UInt8) : Int16 :=
  (lo.toUInt16 ||| (hi.toUInt16 <<< 8)).toInt16

/-- The samples in a run of bytes. A trailing odd byte is no sample. -/
def samplesOfBytes : List UInt8 → List Int16
  | lo :: hi :: rest => sampleOfBytes lo hi :: samplesOfBytes rest
  | [] => []
  | [_] => []

/-- The bytes of a run of samples, two for each (`bytesOfSample`), in one byte
array. -/
def bytesOfSamples (samples : List Int16) : ByteArray :=
  samples.foldl (fun acc s => (bytesOfSample s).foldl ByteArray.push acc) ByteArray.empty

/-- Samples take two bytes each, after whatever bytes `acc` come first. This is
the fold in `bytesOfSamples`, from any point on. -/
theorem size_foldl_bytesOfSample (samples : List Int16) (acc : ByteArray) :
    (samples.foldl (fun acc s => (bytesOfSample s).foldl ByteArray.push acc) acc).size
      = acc.size + 2 * samples.length := by
  induction samples generalizing acc with
  | nil => rfl
  | cons s rest ih =>
      rw [List.foldl_cons, ih, List.length_cons]
      show ((acc.push _).push _).size + _ = _
      rw [ByteArray.size_push, ByteArray.size_push]
      omega

/-- Samples take two bytes each. -/
theorem size_bytesOfSamples (samples : List Int16) :
    (bytesOfSamples samples).size = 2 * samples.length := by
  unfold bytesOfSamples
  rw [size_foldl_bytesOfSample]
  show 0 + _ = _
  omega

/-- The bytes of samples follow one another: `bytesOfSamples` as a list is the
`flatMap` of `bytesOfSample`. -/
theorem toList_bytesOfSamples (samples : List Int16) :
    (bytesOfSamples samples).data.toList = samples.flatMap bytesOfSample := by
  have hfold : ∀ acc : ByteArray,
      (samples.foldl (fun acc s => (bytesOfSample s).foldl ByteArray.push acc) acc).data.toList
        = acc.data.toList ++ samples.flatMap bytesOfSample := by
    induction samples with
    | nil => exact fun acc => (List.append_nil _).symm
    | cons sample samples ih =>
        intro acc
        rw [List.foldl_cons, ih, List.flatMap_cons, ← List.append_assoc]
        simp [bytesOfSample]
  exact (hfold ByteArray.empty).trans (List.nil_append _)

/-- Every two bytes are a sample for `samplesOfBytes`, and a byte that is left
over is none. -/
theorem length_samplesOfBytes (bytes : List UInt8) :
    (samplesOfBytes bytes).length = bytes.length / 2 := by
  induction bytes using samplesOfBytes.induct with
  | case1 lo hi rest ih =>
      rw [samplesOfBytes, List.length_cons, ih, List.length_cons, List.length_cons]
      omega
  | case2 => simp [samplesOfBytes]
  | case3 => simp [samplesOfBytes]

/-- A sample is the one its own two bytes hold: `sampleOfBytes` undoes
`bytesOfSample`. -/
theorem sampleOfBytes_bytesOfSample (s : Int16) :
    sampleOfBytes s.toUInt16.toUInt8 (s.toUInt16 >>> 8).toUInt8 = s := by
  unfold sampleOfBytes
  apply Int16.toBitVec_inj.mp
  simp only [UInt16.toBitVec_toInt16, UInt16.toBitVec_or, UInt8.toBitVec_toUInt16,
    UInt16.toBitVec_toUInt8, UInt16.toBitVec_shiftLeft, UInt16.toBitVec_shiftRight,
    Int16.toBitVec_toUInt16]
  ext i hi
  by_cases h : i < 8
  · simp [h, BitVec.getLsbD_eq_getElem hi]
  · have h1 : i - 8 < 8 := by omega
    have h2 : 8 + (i - 8) = i := by omega
    simp [h, h1, h2, BitVec.getLsbD_eq_getElem hi]

/-- Two bytes are those of the sample they hold: `bytesOfSample` undoes
`sampleOfBytes`. -/
theorem bytesOfSample_sampleOfBytes (low high : UInt8) :
    bytesOfSample (sampleOfBytes low high) = [low, high] := by
  unfold bytesOfSample sampleOfBytes
  simp only [List.cons.injEq, and_true]
  constructor
  · apply UInt8.toBitVec_inj.mp
    simp only [UInt16.toBitVec_toInt16, UInt16.toBitVec_or, UInt8.toBitVec_toUInt16,
      UInt16.toBitVec_toUInt8, UInt16.toBitVec_shiftLeft, Int16.toBitVec_toUInt16]
    ext i hi
    simp
  · apply UInt8.toBitVec_inj.mp
    simp only [UInt16.toBitVec_toInt16, UInt16.toBitVec_or, UInt8.toBitVec_toUInt16,
      UInt16.toBitVec_toUInt8, UInt16.toBitVec_shiftLeft, UInt16.toBitVec_shiftRight,
      Int16.toBitVec_toUInt16]
    ext i hi
    have h1 : 8 + i < 16 := by omega
    have h2 : ¬ 8 + i < 8 := by omega
    have h3 : i < 16 := by omega
    simp [h1, h2, h3, BitVec.getLsbD_eq_getElem hi]

/-! ### Blocks -/

/-- A window into immutable bytes: `size` bytes of a `storage` from `offset` on.
By `inside` no window reaches beyond its storage. -/
structure Block where
  storage : ByteArray
  offset : Nat
  size : Nat
  inside : offset + size ≤ storage.size

namespace Block

/-- The block over all the given bytes, with a storage of its own. -/
def ofBytes (bytes : ByteArray) : Block := ⟨bytes, 0, bytes.size, by omega⟩

/-- A block of `n` zero bytes. -/
def silence (n : Nat) : Block := ofBytes (silentBytes n)

/-- A block of 16-bit samples, two bytes each (`bytesOfSamples`). -/
def ofSamples (samples : List Int16) : Block := ofBytes (bytesOfSamples samples)

/-- Where any block will do, the one without bytes does. -/
instance : Inhabited Block := ⟨silence 0⟩

/-- Blocks are equal when they are the same window on the same storage. -/
instance : DecidableEq Block := fun a b =>
  decidable_of_iff (a.storage.data.toList = b.storage.data.toList ∧ a.offset = b.offset
      ∧ a.size = b.size) <| by
    constructor
    · intro ⟨hstorage, hoffset, hsize⟩
      cases a
      cases b
      cases ByteArray.ext (Array.ext' hstorage)
      cases hoffset
      cases hsize
      rfl
    · intro h
      cases h
      exact ⟨rfl, rfl, rfl⟩

/-- The bytes in the window. -/
def bytes (b : Block) : ByteArray := b.storage.extract b.offset (b.offset + b.size)

/-- The bytes in the window, as the list every law speaks of. All that is proved
about audio is stated over `Block.toList`. -/
def toList (b : Block) : List UInt8 := b.bytes.data.toList

/-- Whether the window is empty. -/
def isEmpty (b : Block) : Bool := b.size == 0

/-- The part from `start` up to `stop`, both clamped to the block. The new
window lies on the same storage, and no byte is copied. -/
def slice (b : Block) (start stop : Nat) : Block :=
  let stop := min stop b.size
  let start := min start stop
  ⟨b.storage, b.offset + start, stop - start, by have := b.inside; omega⟩

/-- The 16-bit samples in the block (`samplesOfBytes`). A trailing odd byte is
no sample. -/
def samples (b : Block) : List Int16 := samplesOfBytes b.toList

/-- Whether two blocks hold the same bytes, on whatever storage. -/
def sameBytes (b c : Block) : Bool := b.bytes == c.bytes

/-- The window in words. -/
def describe (b : Block) : String :=
  "AudioBlock \x7b offset: " ++ toString b.offset ++ ", len: " ++ toString b.size ++ " \x7d"

/-! ### What a block holds -/

/-- A block of size `n` holds `n` bytes: `Block.size` is the length of
`Block.toList`. -/
@[simp] theorem length_toList (b : Block) : b.toList.length = b.size := by
  have h := b.inside
  unfold toList bytes
  rw [Array.length_toList, ByteArray.size_data, ByteArray.size_extract]
  omega

/-- The bytes of a block are those of its storage, without the first `offset`
and up to `size` of them. -/
theorem toList_eq (b : Block) :
    b.toList = (b.storage.data.toList.drop b.offset).take b.size := by
  unfold toList bytes
  rw [ByteArray.data_extract, Array.toList_extract, List.extract_eq_take_drop]
  congr 1
  omega

/-- A fresh block (`ofBytes`) holds the bytes it was made of. -/
@[simp] theorem toList_ofBytes (bytes : ByteArray) :
    (ofBytes bytes).toList = bytes.data.toList := by
  rw [toList_eq]
  show (bytes.data.toList.drop 0).take bytes.size = _
  rw [List.drop_zero]
  exact List.take_of_length_le (Nat.le_of_eq (by rw [Array.length_toList, ByteArray.size_data]))

/-- The window of a fresh block is all of its storage. -/
theorem bytes_ofBytes (bytes : ByteArray) : (ofBytes bytes).bytes = bytes := by
  show bytes.extract 0 (0 + bytes.size) = bytes
  rw [Nat.zero_add, ByteArray.extract_zero_size]

/-- Silence holds zeros only, as many as were asked for. -/
@[simp] theorem toList_silence (n : Nat) : (silence n).toList = List.replicate n 0 := by
  rw [silence, toList_ofBytes, toList_silentBytes]

/-- A block of samples holds their bytes, each sample as `bytesOfSample` gives
it. -/
@[simp] theorem toList_ofSamples (samples : List Int16) :
    (ofSamples samples).toList = samples.flatMap bytesOfSample := by
  rw [ofSamples, toList_ofBytes, toList_bytesOfSamples]

/-- A fresh block is as long as the bytes it was made of. -/
@[simp] theorem size_ofBytes (bytes : ByteArray) : (ofBytes bytes).size = bytes.size := rfl

/-- There are as many bytes in `silence n` as were asked for. -/
@[simp] theorem size_silence (n : Nat) : (silence n).size = n := size_silentBytes n

/-- A slice holds the bytes of its range. On lists, the clamping of both ends is
what `List.take` and `List.drop` do anyway. -/
theorem toList_slice (b : Block) (start stop : Nat) :
    (b.slice start stop).toList = (b.toList.take stop).drop start := by
  have h := b.inside
  rw [toList_eq, toList_eq]
  show (b.storage.data.toList.drop (b.offset + min start (min stop b.size))).take
      (min stop b.size - min start (min stop b.size)) = _
  apply List.ext_getElem?
  intro i
  rw [List.getElem?_take, List.getElem?_drop, List.getElem?_drop, List.getElem?_take,
    List.getElem?_take, List.getElem?_drop]
  by_cases h1 : start + i < stop ∧ start + i < b.size
  · rw [if_pos (by omega), if_pos (by omega), if_pos (by omega)]
    congr 1
    omega
  · rw [if_neg (by omega)]
    by_cases h2 : start + i < stop
    · rw [if_pos h2, if_neg (by omega)]
    · rw [if_neg h2]

/-- A slice is as long as its range, with both ends clamped to the block. -/
@[simp] theorem size_slice (b : Block) (start stop : Nat) :
    (b.slice start stop).size = min stop b.size - min start (min stop b.size) := rfl

end Block

/-- The byte array of a window is as long as the window. -/
theorem size_bytes (b : Block) : b.bytes.size = b.size := by
  have h := b.inside
  unfold Block.bytes
  rw [ByteArray.size_extract]
  omega

end EchoAlign
