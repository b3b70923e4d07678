import EchoAlign.Audio.ShelfRun
import EchoAlign.Proofs.Audio.Samples
import Mathlib.Algebra.GroupWithZero.Nat

/-!
# `EchoAlign.Proofs.Audio.Views`: blocks are views of what they were made of

Blocks are cut out of blocks that were cut out of others, and each of them
keeps only an offset into the one storage. Here a block is compared with the
list of bytes that its first ancestor was made of (`Origin.contents`), cut as
often as the block was (`Derivation.part`).

* `slice_slice`: a part of a part is a part of the whole. The starts add up,
  and neither end is passed. It needs no bounds, since a part that is asked for
  beyond the block lies at the end of it both times.
* `foldl_derived_eq_slice`: so a chain of any length is one slice, whose ends
  `Span.within` works out.
* `toList_foldl_derived`: the bytes of a chain are those of the list.
* `derived_views_origin`: what the block at the end of a chain is, and what
  becomes of it as samples.
* `Shelf.derives_run`: there are no blocks on a shelf but these. Two that share
  their storage come from the same one (`Shelf.shares_run`).
-/

set_option autoImplicit false

namespace EchoAlign

namespace Block

/-! ### Bytes and ranges -/

/-- The bytes that a block is made of, for each `Origin`: those given, those of
samples by `bytesOfSample`, or zeros. -/
def Origin.contents : Origin → List UInt8
  | .bytes data => data.data.toList
  | .samples values => values.flatMap bytesOfSample
  | .silence n => List.replicate n 0

/-- What is left of some bytes when a block of them is cloned or cut, with
`extract` for a slice, whose bounds may lie anywhere. -/
def Derivation.part (bytes : List UInt8) : Derivation → List UInt8
  | .clone => bytes
  | .slice start stop => bytes.extract start stop

/-- How far behind the start of a block the derived one is to start: a clone
where the block does, a slice at its first bound. -/
def Derivation.start : Derivation → Nat
  | .clone => 0
  | .slice start _ => start

/-- A range of bytes. Its ends may lie anywhere, also the wrong way round, since
the bounds of a `Derivation` may. -/
structure Span where
  start : Nat
  stop : Nat

/-- The range that a `Derivation` leaves of a `Span`, counted from the same
place: the starts add up, and the nearer stop counts. -/
def Span.within (span : Span) : Derivation → Span
  | .clone => span
  | .slice start stop => ⟨span.start + start, min span.stop (span.start + stop)⟩

/-- Where the last block of a chain ends, counted from the start of the first,
which has `size` bytes. -/
def lastStop (size : Nat) (chain : List Derivation) : Nat :=
  (chain.foldl Span.within ⟨0, size⟩).stop

/-- On the way along a chain of `within`, the starts of the derivations add up. -/
theorem start_foldl_within (chain : List Derivation) (span : Span) :
    (chain.foldl Span.within span).start = span.start + (chain.map Derivation.start).sum := by
  induction chain generalizing span with
  | nil => rfl
  | cons derivation chain ih =>
      have hstart : (span.within derivation).start = span.start + derivation.start := by
        cases derivation <;> rfl
      rw [List.foldl_cons, ih, hstart, List.map_cons, List.sum_cons, Nat.add_assoc]

/-! ### A part of a part -/

/-- A whole block, from nothing to its `size`, is a `slice` of itself. -/
theorem slice_zero_size (b : Block) : b.slice 0 b.size = b := by
  obtain ⟨storage, offset, size, inside⟩ := b
  simp [slice]

/-- A `slice` of a `slice` is one `slice`: the starts add up, and the nearer end
counts. -/
theorem slice_slice (b : Block) (start stop start' stop' : Nat) :
    (b.slice start stop).slice start' stop'
      = b.slice (start + start') (min stop (start + stop')) := by
  have hlast : min (min stop (start + stop')) b.size = min (min stop b.size) (start + stop') :=
    Nat.min_right_comm ..
  simp only [slice, Block.mk.injEq, true_and, hlast]
  -- Now both sides speak of the block only through the end of the outer part.
  generalize min stop b.size = last
  constructor <;> omega

/-- What is derived from a part is a part, with the range that `Span.within`
tells. -/
theorem derived_slice (b : Block) (span : Span) (derivation : Derivation) :
    (b.slice span.start span.stop).derived derivation
      = b.slice (span.within derivation).start (span.within derivation).stop := by
  cases derivation with
  | clone => rfl
  | slice start stop => exact slice_slice ..

/-- What a chain derives from a block is a part of it, by induction on the chain
with `derived_slice`. -/
theorem foldl_derived_eq_slice (b : Block) (chain : List Derivation) :
    chain.foldl derived b
      = b.slice (chain.map Derivation.start).sum (lastStop b.size chain) := by
  -- The induction is on the chain, with the range so far in place of the block.
  have hspan : ∀ span : Span, chain.foldl derived (b.slice span.start span.stop)
      = b.slice (chain.foldl Span.within span).start (chain.foldl Span.within span).stop := by
    induction chain with
    | nil => exact fun _ => rfl
    | cons derivation chain ih =>
        intro span
        rw [List.foldl_cons, List.foldl_cons, derived_slice, ih]
  -- At the beginning, the range is the whole block.
  have hwhole := hspan ⟨0, b.size⟩
  rwa [slice_zero_size, start_foldl_within, Nat.zero_add] at hwhole

/-! ### The bytes of a chain -/

/-- The block of an `Origin` holds its `contents`. -/
@[simp] theorem toList_block (origin : Origin) : origin.block.toList = origin.contents := by
  cases origin with
  | bytes data => exact toList_ofBytes data
  | samples values => exact toList_ofSamples values
  | silence n => exact toList_silence n

/-- The block of an `Origin` has the size of its `contents`. -/
theorem size_block (origin : Origin) : origin.block.size = origin.contents.length := by
  rw [← toList_block, length_toList]

/-- The block of an `Origin` is all of its storage, which holds the `contents`. -/
theorem storage_block (origin : Origin) :
    origin.block.storage.data.toList = origin.contents := by
  have hall : ∀ data : ByteArray, (ofBytes data).storage.data.toList = (ofBytes data).toList :=
    fun data => (toList_ofBytes data).symm
  rw [← toList_block]
  cases origin with
  | bytes data => exact hall data
  | samples values => exact hall _
  | silence n => exact hall _

/-- What is `derived` of a block holds what `Derivation.part` leaves of its
bytes. -/
theorem toList_derived (b : Block) (derivation : Derivation) :
    (b.derived derivation).toList = Derivation.part b.toList derivation := by
  cases derivation with
  | clone => rfl
  | slice start stop =>
      show (b.slice start stop).toList = b.toList.extract start stop
      rw [toList_slice, List.drop_take, List.extract_eq_take_drop]

/-- A chain of `derived` does to a block what the chain of `Derivation.part`
does to the bytes in it. -/
theorem toList_foldl_derived (b : Block) (chain : List Derivation) :
    (chain.foldl derived b).toList = chain.foldl Derivation.part b.toList :=
  (List.foldl_hom toList fun b derivation => (toList_derived b derivation).symm).symm

/-- However often a block is cut by a chain of derivations, its storage still
holds the `contents` of its `Origin`. -/
theorem storage_derived (origin : Origin) (chain : List Derivation) :
    (origin.derived chain).storage.data.toList = origin.contents := by
  rw [Origin.derived, foldl_derived_eq_slice]
  exact storage_block origin

/-! ### Samples -/

/-- The `samples` of a block that `ofSamples` makes are those that it was made
of. -/
theorem samples_ofSamples (values : List Int16) : (ofSamples values).samples = values := by
  have hread := @samplesOfBytes_flatMap values [] (Nat.zero_le 1)
  rwa [List.append_nil, ← toList_ofSamples] at hread

/-- A block that `ofSamples` makes of the `samples` of another one holds its
bytes, all but a trailing odd one. -/
theorem toList_ofSamples_samples (b : Block) :
    (ofSamples b.samples).toList = b.toList.take (b.size - b.size % 2) := by
  rw [toList_ofSamples, samples, flatMap_samplesOfBytes, length_toList]

/-! ### Views -/

/-- Whatever is cloned and cut out of a block (`Origin.derived`) is a view of
what the block was made of (`Origin.contents`). Its window lies inside of those
bytes, and holds what the same cuts leave of them (`Derivation.part`). One slice
would have made it, which starts as far behind as all of the cuts together and
ends at the nearest of their ends (`lastStop`). Cutting twice is cutting once.
Samples that are made into a block and read from it are the same, and bytes that
are read as samples and written again are the same but for a trailing odd one. -/
theorem derived_views_origin (origin : Origin) (chain : List Derivation) :
    (origin.derived chain).storage.data.toList = origin.contents
      ∧ (origin.derived chain).offset + (origin.derived chain).size ≤ origin.contents.length
      ∧ (origin.derived chain).toList = chain.foldl Derivation.part origin.contents
      ∧ origin.derived chain
        = origin.block.slice (chain.map Derivation.start).sum
          (lastStop origin.contents.length chain)
      ∧ (∀ start stop start' stop',
          ((origin.derived chain).slice start stop).slice start' stop'
            = (origin.derived chain).slice (start + start') (min stop (start + stop')))
      ∧ (∀ values : List Int16, (ofSamples values).samples = values)
      ∧ (ofSamples (origin.derived chain).samples).toList
        = (origin.derived chain).toList.take
          ((origin.derived chain).size - (origin.derived chain).size % 2) := by
  have hstorage := storage_derived origin chain
  have hinside : (origin.derived chain).offset + (origin.derived chain).size
      ≤ origin.contents.length := by
    rw [← hstorage, Array.length_toList, ByteArray.size_data]
    exact (origin.derived chain).inside
  have hbytes : (origin.derived chain).toList = chain.foldl Derivation.part origin.contents := by
    rw [Origin.derived, toList_foldl_derived, toList_block]
  have hslice := foldl_derived_eq_slice origin.block chain
  rw [size_block] at hslice
  exact ⟨hstorage, hinside, hbytes, hslice, slice_slice _, samples_ofSamples,
    toList_ofSamples_samples _⟩

end Block

/-! ### Shelves -/

namespace Shelf

/-- What blocks were made of by the `make` operations, in their order, so that a
storage number is a place in this list. -/
def origins (operations : List ShelfOperation) : List Block.Origin :=
  operations.filterMap fun
    | .make origin => some origin
    | .derive _ _ => none

/-- Storages are numbered by `nextStorage` as they are made, and each block on
the shelf is derived by some chain from the `Origin` that was made with its
storage number. -/
structure Derives (s : Shelf) (made : List Block.Origin) : Prop where
  nextStorage_eq : s.nextStorage = made.length
  derived : ∀ item ∈ s.items, ∃ origin chain,
    made[item.storage]? = some origin ∧ item.block = origin.derived chain

variable {s : Shelf} {made : List Block.Origin}

/-- On an empty shelf no block is there that would have to be derived, and so it
`Derives` from nothing. -/
theorem derives_empty : empty.Derives [] where
  nextStorage_eq := rfl
  derived item hitem := absurd hitem (Array.not_mem_empty item)

/-- A `derive` operation puts a block on the shelf that is `derived` of one that
is there and keeps its storage number; if there is none, it does nothing. -/
theorem perform_derive (s : Shelf) (i : Nat) (derivation : Block.Derivation) :
    s.perform (.derive i derivation)
      = match s.items[i]? with
        | none => s
        | some item =>
            { s with items := s.items.push ⟨item.storage, item.block.derived derivation⟩ } := by
  cases derivation <;> rfl

/-- A block that is made gets the next storage number. `nextStorage` counts the
origins made so far, and the empty chain of derivations leads from `origin` to
the block itself. -/
theorem Derives.make (h : s.Derives made) (origin : Block.Origin) :
    (s.perform (.make origin)).Derives (made ++ [origin]) where
  nextStorage_eq := by
    rw [List.length_append, ← h.nextStorage_eq]
    rfl
  derived item hitem := by
    rcases Array.mem_push.mp hitem with hold | rfl
    · obtain ⟨first, chain, hfirst, hblock⟩ := h.derived item hold
      have hlt := (List.getElem?_eq_some_iff.mp hfirst).1
      exact ⟨first, chain, (List.getElem?_append_left hlt).trans hfirst, hblock⟩
    · refine ⟨origin, [], ?_, rfl⟩
      rw [h.nextStorage_eq]
      exact List.getElem?_concat_length

/-- A block that is derived comes from what its source comes from. The chain of
the source goes on with `derivation`. If there is no item `i`, nothing changes. -/
theorem Derives.derive (h : s.Derives made) (i : Nat) (derivation : Block.Derivation) :
    (s.perform (.derive i derivation)).Derives made := by
  rw [perform_derive]
  cases hparent : s.items[i]? with
  | none => exact h
  | some parent =>
      refine ⟨h.nextStorage_eq, fun item hitem => ?_⟩
      rcases Array.mem_push.mp hitem with hold | rfl
      · exact h.derived item hold
      · obtain ⟨origin, chain, horigin, hblock⟩ :=
          h.derived parent (Array.mem_of_getElem? hparent)
        -- The chain of the parent goes on by one.
        refine ⟨origin, chain ++ [derivation], horigin, ?_⟩
        rw [Block.Origin.derived, List.foldl_append, hblock]
        rfl

/-- Whatever is done with a shelf by `run`, all blocks on it are derived from
the `origins` that were made, by induction on the operations. -/
theorem Derives.run (h : s.Derives made) (operations : List ShelfOperation) :
    (s.run operations).Derives (made ++ origins operations) := by
  induction operations generalizing s made with
  | nil => rwa [origins, List.filterMap_nil, List.append_nil]
  | cons operation operations ih =>
      cases operation with
      | make origin =>
          have hrun := ih (h.make origin)
          rwa [List.append_assoc] at hrun
      | derive i derivation => exact ih (h.derive i derivation)

/-- All blocks on a shelf that was empty are derived from the `origins` of the
operations that were done. -/
theorem derives_run (operations : List ShelfOperation) :
    (empty.run operations).Derives (origins operations) :=
  derives_empty.run operations

/-- Two blocks that share their storage are derived from the same one. The
storage numbers of `derives_run` are the places of the origins, so that equal
numbers mean the same `origin`. -/
theorem shares_run {operations : List ShelfOperation} {i j : Nat}
    (h : (empty.run operations).shares i j = true) :
    ∃ (origin : Block.Origin) (chain chain' : List Block.Derivation),
      (empty.run operations).get? i = some (origin.derived chain)
        ∧ (empty.run operations).get? j = some (origin.derived chain') := by
  obtain ⟨-, hderived⟩ := derives_run operations
  unfold shares at h
  unfold get?
  generalize (empty.run operations).items = items at h hderived ⊢
  split at h
  · next a b ha hb =>
      obtain ⟨origin, chain, horigin, hblock⟩ := hderived a (Array.mem_of_getElem? ha)
      obtain ⟨origin', chain', horigin', hblock'⟩ := hderived b (Array.mem_of_getElem? hb)
      -- A number stands for one making, whatever was made there.
      have hstorage : a.storage = b.storage := by simpa using h
      rw [hstorage, horigin'] at horigin
      cases horigin
      refine ⟨origin, chain, chain', ?_, ?_⟩
      · rw [ha, Option.map_some, hblock]
      · rw [hb, Option.map_some, hblock']
  · cases h

end Shelf

end EchoAlign
