import EchoAlign.Audio.Reel

/-!
# `EchoAlign.Proofs.Audio.Clips`: the bytes that clips hold

Clips in order are a partial map from positions to bytes: `Clip.lookup`
is that map, and `Clip.bytesFrom` reads a stretch of it with silence
where the map has nothing. Cutting, erasing and collecting clips are
stated on the map:

* `Clip.lookup_erase`: erasing a range empties it and leaves every other
  position alone.
* `Clip.ordered_erase`: what is left is in order.
* `Clip.toList_collect`: collecting answers with the bytes of a stretch.
-/

set_option autoImplicit false

namespace EchoAlign

namespace Clip

/-- The byte that a clip holds at a position, if the position is inside its
range: that of its `block` as far from the beginning as the position is from
`start`. -/
def byteAt? (c : Clip) (position : Int) : Option UInt8 :=
  if c.start ≤ position then c.block.toList[(position - c.start).toNat]? else none

/-- The byte that clips hold at a position: `byteAt?` of the first clip which
holds one there. -/
def lookup (clips : List Clip) (position : Int) : Option UInt8 :=
  clips.findSome? (·.byteAt? position)

/-- The `n` bytes from a position on, with silence where there is no
clip. -/
def bytesFrom (clips : List Clip) (first : Int) (n : Nat) : List UInt8 :=
  (List.range n).map fun k : Nat => (lookup clips (first + k)).getD 0

/-- The clips come one after another (`apart`), and none is empty. -/
structure Ordered (clips : List Clip) : Prop where
  apart : clips.Pairwise fun a b => a.stop ≤ b.start
  nonempty : ∀ c ∈ clips, c.start < c.stop

/-! ### One clip -/

/-- Before its `start`, a clip holds nothing. -/
theorem byteAt?_of_lt {c : Clip} {position : Int} (h : position < c.start) :
    c.byteAt? position = none :=
  if_neg (by omega)

/-- From its `stop` on, a clip holds nothing. -/
theorem byteAt?_of_ge {c : Clip} {position : Int} (h : c.stop ≤ position) :
    c.byteAt? position = none := by
  unfold stop at h
  unfold byteAt?
  rw [if_pos (by omega), List.getElem?_eq_none_iff, Block.length_toList]
  omega

/-- From its `start` on, a clip holds the bytes of its `block`. -/
theorem byteAt?_of_mem {c : Clip} {position : Int} (h : c.start ≤ position) :
    c.byteAt? position = c.block.toList[(position - c.start).toNat]? :=
  if_pos h

/-- The part `before` a position holds what the clip holds there, and nothing
from the position on. -/
theorem byteAt?_before (c : Clip) (first position : Int) :
    (c.before first).byteAt? position
      = if first ≤ position then none else c.byteAt? position := by
  unfold byteAt? before
  simp only [Block.toList_slice, List.drop_zero, List.getElem?_take]
  by_cases hstart : c.start ≤ position
  · rw [if_pos hstart, if_pos hstart]
    by_cases hfirst : first ≤ position
    · rw [if_pos hfirst, if_neg (by omega)]
    · rw [if_neg hfirst, if_pos (by omega)]
  · rw [if_neg hstart, if_neg hstart, ite_self]

/-- The part `after` a position that is not before the clip holds what the clip
holds from there on, and nothing below. -/
theorem byteAt?_after {c : Clip} {last : Int} (h : c.start ≤ last) (position : Int) :
    (c.after last).byteAt? position
      = if last ≤ position then c.byteAt? position else none := by
  unfold byteAt? after
  simp only [Block.toList_slice]
  by_cases hlast : last ≤ position
  · rw [if_pos hlast, if_pos hlast, if_pos (by omega), List.getElem?_drop,
      List.take_of_length_le (Nat.le_of_eq (Block.length_toList c.block))]
    congr 1
    omega
  · rw [if_neg hlast, if_neg hlast]

/-! ### Clips in a row -/

/-- Where there are no clips, `lookup` finds nothing. -/
@[simp] theorem lookup_nil (position : Int) : lookup [] position = none := rfl

/-- What `lookup` finds is what the first clip holds, or else what it finds in
the others. -/
theorem lookup_cons (c : Clip) (clips : List Clip) (position : Int) :
    lookup (c :: clips) position = (c.byteAt? position).or (lookup clips position) := by
  unfold lookup
  rw [List.findSome?_cons]
  cases c.byteAt? position <;> rfl

/-- What `lookup` finds in clips in two parts is what the front holds, or else
what the back does. -/
theorem lookup_append (front back : List Clip) (position : Int) :
    lookup (front ++ back) position = (lookup front position).or (lookup back position) :=
  List.findSome?_append

/-- Where every clip has ended or has not begun, `lookup` finds nothing. -/
theorem lookup_eq_none {clips : List Clip} {position : Int}
    (h : ∀ c ∈ clips, c.stop ≤ position ∨ position < c.start) :
    lookup clips position = none := by
  refine List.findSome?_eq_none_iff.mpr ?_
  intro c hc
  rcases h c hc with hstop | hstart
  · exact byteAt?_of_ge hstop
  · exact byteAt?_of_lt hstart

/-- No clips are `Ordered`. -/
theorem ordered_nil : Ordered [] := ⟨List.Pairwise.nil, fun _ h => nomatch h⟩

/-- Some of the clips that are `Ordered` are `Ordered`, in the same order. -/
theorem Ordered.sublist {some all : List Clip} (h : Ordered all) (hs : some.Sublist all) :
    Ordered some :=
  ⟨h.apart.sublist hs, fun c hc => h.nonempty c (hs.subset hc)⟩

/-- Clips that are `Ordered` are so without the first. -/
theorem Ordered.tail {c : Clip} {clips : List Clip} (h : Ordered (c :: clips)) : Ordered clips :=
  h.sublist (List.sublist_cons_self c clips)

/-- Every clip after the first of `Ordered` clips begins at or behind the `stop`
of the first. -/
theorem Ordered.stop_le_start {c d : Clip} {clips : List Clip} (h : Ordered (c :: clips))
    (hd : d ∈ clips) : c.stop ≤ d.start :=
  List.rel_of_pairwise_cons h.apart hd

/-- A clip in front of others is `Ordered` with them if and only if it is not
empty, every other begins at or behind its `stop`, and they are `Ordered`
themselves. -/
theorem ordered_cons {c : Clip} {clips : List Clip} :
    Ordered (c :: clips)
      ↔ c.start < c.stop ∧ (∀ d ∈ clips, c.stop ≤ d.start) ∧ Ordered clips := by
  constructor
  · intro h
    exact ⟨h.nonempty c (List.mem_cons_self ..), fun d hd => h.stop_le_start hd, h.tail⟩
  · rintro ⟨hc, hrest, h⟩
    refine ⟨List.pairwise_cons.mpr ⟨hrest, h.apart⟩, fun d hd => ?_⟩
    rcases List.mem_cons.mp hd with rfl | hd
    · exact hc
    · exact h.nonempty d hd

/-- Before the `start` of the first of `Ordered` clips, `lookup` finds nothing. -/
theorem lookup_eq_none_of_lt {c : Clip} {clips : List Clip} (h : Ordered (c :: clips))
    {position : Int} (hp : position < c.start) : lookup (c :: clips) position = none := by
  obtain ⟨hc, hrest, -⟩ := ordered_cons.mp h
  refine lookup_eq_none fun d hd => Or.inr ?_
  rcases List.mem_cons.mp hd with rfl | hd
  · exact hp
  · have := hrest d hd
    omega

/-- A clip at the front that has ended by a position does not count for `lookup`
there. -/
theorem lookup_cons_of_stop_le {c : Clip} {clips : List Clip} {position : Int}
    (hp : c.stop ≤ position) : lookup (c :: clips) position = lookup clips position := by
  rw [lookup_cons, byteAt?_of_ge hp, Option.none_or]

/-- Clips in two parts are in order if both parts are, and every clip of the
front ends before those of the back begin. An append lemma for `Ordered`, to go
with `ordered_cons`. -/
theorem ordered_append {front back : List Clip} :
    Ordered (front ++ back)
      ↔ Ordered front ∧ Ordered back ∧ ∀ c ∈ front, ∀ d ∈ back, c.stop ≤ d.start := by
  constructor
  · intro h
    exact ⟨h.sublist (List.sublist_append_left ..), h.sublist (List.sublist_append_right ..),
      (List.pairwise_append.mp h.apart).2.2⟩
  · rintro ⟨hf, hb, hfb⟩
    refine ⟨List.pairwise_append.mpr ⟨hf.apart, hb.apart, hfb⟩, fun c hc => ?_⟩
    rcases List.mem_append.mp hc with hc | hc
    · exact hf.nonempty c hc
    · exact hb.nonempty c hc

/-! ### Stretches of bytes -/

/-- A stretch of `bytesFrom` has as many bytes as are asked for, with silence in
the holes. -/
@[simp] theorem length_bytesFrom (clips : List Clip) (first : Int) (n : Nat) :
    (bytesFrom clips first n).length = n := by
  simp [bytesFrom]

/-- A byte of `bytesFrom` is what `lookup` finds at its position, and zero where
it finds nothing. -/
theorem getElem?_bytesFrom (clips : List Clip) (first : Int) (n i : Nat) :
    (bytesFrom clips first n)[i]?
      = if i < n then some ((lookup clips (first + i)).getD 0) else none := by
  unfold bytesFrom
  rw [List.getElem?_map]
  by_cases h : i < n
  · rw [List.getElem?_range h, if_pos h]
    rfl
  · rw [if_neg h, List.getElem?_eq_none_iff.mpr (by simpa using h)]
    rfl

/-- A stretch of `bytesFrom` of `m + n` bytes is its first `m` bytes and then
the `n` bytes that follow. -/
theorem bytesFrom_add (clips : List Clip) (first : Int) (m n : Nat) :
    bytesFrom clips first (m + n)
      = bytesFrom clips first m ++ bytesFrom clips (first + m) n := by
  unfold bytesFrom
  rw [List.range_add, List.map_append, List.map_map]
  congr 1
  refine List.map_congr_left ?_
  intro k _
  show (lookup clips (first + ((m + k : Nat) : Int))).getD 0 = _
  rw [Int.natCast_add, Int.add_assoc]

/-- Clips in which `lookup` finds the same all along a stretch give the same
`bytesFrom` there. -/
theorem bytesFrom_congr {clips clips' : List Clip} {first : Int} {n : Nat}
    (h : ∀ position, first ≤ position → position < first + n →
      lookup clips position = lookup clips' position) :
    bytesFrom clips first n = bytesFrom clips' first n := by
  refine List.map_congr_left ?_
  intro k hk
  have hk' := List.mem_range.mp hk
  rw [h _ (by omega) (by omega)]

/-- The front of a stretch of `bytesFrom` is a shorter one from the same place. -/
theorem take_bytesFrom (clips : List Clip) (first : Int) {m n : Nat} (h : m ≤ n) :
    (bytesFrom clips first n).take m = bytesFrom clips first m := by
  obtain ⟨k, rfl⟩ := Nat.exists_eq_add_of_le h
  rw [bytesFrom_add, List.take_left' (length_bytesFrom ..)]

/-- The rest of a stretch of `bytesFrom` is a shorter one from further on. -/
theorem drop_bytesFrom (clips : List Clip) (first : Int) {m n : Nat} (h : m ≤ n) :
    (bytesFrom clips first n).drop m = bytesFrom clips (first + m) (n - m) := by
  obtain ⟨k, rfl⟩ := Nat.exists_eq_add_of_le h
  rw [bytesFrom_add, List.drop_left' (length_bytesFrom ..), Nat.add_sub_cancel_left]

/-- A stretch in which `lookup` finds nothing is silent: `bytesFrom` gives
zeros. -/
theorem bytesFrom_of_lookup_none {clips : List Clip} {first : Int} {n : Nat}
    (h : ∀ position, first ≤ position → position < first + n →
      lookup clips position = none) :
    bytesFrom clips first n = List.replicate n 0 := by
  have hnone : bytesFrom clips first n = bytesFrom [] first n := bytesFrom_congr h
  rw [hnone]
  apply List.ext_getElem?
  intro i
  rw [getElem?_bytesFrom, List.getElem?_replicate]
  rfl

/-- A stretch inside one clip is a part of its block. `bytesFrom` does not come
to the `clips` behind it. -/
theorem bytesFrom_inside {c : Clip} {clips : List Clip} {first : Int} {n : Nat}
    (hfirst : c.start ≤ first) (hlast : first + n ≤ c.stop) :
    bytesFrom (c :: clips) first n
      = (c.block.toList.drop (first - c.start).toNat).take n := by
  unfold stop at hlast
  apply List.ext_getElem?
  intro i
  rw [getElem?_bytesFrom, List.getElem?_take, List.getElem?_drop]
  by_cases hi : i < n
  · have hlen : (first - c.start).toNat + i < c.block.toList.length := by
      rw [Block.length_toList]
      omega
    have hpos : (first + i - c.start).toNat = (first - c.start).toNat + i := by omega
    rw [if_pos hi, if_pos hi, lookup_cons, byteAt?_of_mem (by omega), hpos,
      List.getElem?_eq_getElem hlen]
    rfl
  · rw [if_neg hi, if_neg hi]

/-! ### Erasing -/

/-- What is left of a clip that reaches into a range lies inside the clip and is
not empty. It lies in front of `first` or behind `last`, whichever of the two
parts of `cut` it is. -/
theorem mem_cut {c d : Clip} {first : Int} {last? : Option Int} (hstop : first < c.stop)
    (hpast : c.isPast last? = false) (h : d ∈ c.cut first last?) :
    c.start ≤ d.start ∧ d.stop ≤ c.stop ∧ d.start < d.stop
      ∧ (d.stop ≤ first ∨ ∃ last, last? = some last ∧ last ≤ d.start) := by
  unfold stop at hstop
  rcases List.mem_append.mp h with hhead | htail
  · by_cases hstart : c.start < first
    · rw [if_pos hstart, List.mem_singleton] at hhead
      subst hhead
      refine ⟨Int.le_refl _, ?_, ?_, Or.inl ?_⟩ <;>
        simp only [stop, before, Block.size_slice] <;> omega
    · rw [if_neg hstart] at hhead
      cases hhead
  · cases last? with
    | none => cases htail
    | some last =>
        have hlast : c.start < last := by simpa [isPast] using hpast
        by_cases hend : last < c.stop
        · simp only [if_pos hend, List.mem_singleton] at htail
          subst htail
          unfold stop at hend
          refine ⟨?_, ?_, ?_, Or.inr ⟨last, rfl, Int.le_refl _⟩⟩ <;>
            simp only [stop, after, Block.size_slice] <;> omega
        · simp only [if_neg hend] at htail
          cases htail

/-- Erasing leaves parts of the clips. Each part lies inside one of them and is
not empty, by `mem_cut` for the clip that is cut. -/
theorem mem_erase {first : Int} {last? : Option Int} {clips : List Clip} {d : Clip}
    (hclips : ∀ c ∈ clips, c.start < c.stop) (h : d ∈ erase first last? clips) :
    ∃ c ∈ clips, c.start ≤ d.start ∧ d.stop ≤ c.stop ∧ d.start < d.stop := by
  induction clips with
  | nil => cases h
  | cons c clips ih =>
      have hc := hclips c (List.mem_cons_self ..)
      have ih := ih fun e he => hclips e (List.mem_cons_of_mem _ he)
      have later : d ∈ erase first last? clips →
          ∃ e ∈ c :: clips, e.start ≤ d.start ∧ d.stop ≤ e.stop ∧ d.start < d.stop := by
        intro hd
        obtain ⟨e, he, hde⟩ := ih hd
        exact ⟨e, List.mem_cons_of_mem _ he, hde⟩
      unfold erase at h
      split at h
      · rcases List.mem_cons.mp h with rfl | hd
        · exact ⟨d, List.mem_cons_self .., Int.le_refl _, Int.le_refl _, hc⟩
        · exact later hd
      · split at h
        · exact ⟨d, h, Int.le_refl _, Int.le_refl _, hclips d h⟩
        · rename_i hstop hpast
          rcases List.mem_append.mp h with hd | hd
          · -- A part of the clip lies inside it.
            obtain ⟨h1, h2, h3, -⟩ :=
              mem_cut (by omega) (Bool.eq_false_iff.mpr hpast) hd
            exact ⟨c, List.mem_cons_self .., h1, h2, h3⟩
          · exact later hd

/-- The parts that a clip is cut into are in order: the one before the range and
the one behind it. `hrange` is what keeps the two parts of `cut` from
overlapping. -/
theorem ordered_cut {c : Clip} {first : Int} {last? : Option Int} (hstop : first < c.stop)
    (hpast : c.isPast last? = false) (hrange : ∀ last, last? = some last → first ≤ last) :
    Ordered (c.cut first last?) := by
  have hmem : ∀ d ∈ c.cut first last?, d.start < d.stop :=
    fun d hd => (mem_cut hstop hpast hd).2.2.1
  refine ⟨?_, hmem⟩
  unfold cut
  refine List.pairwise_append.mpr ⟨?_, ?_, ?_⟩
  · split <;> simp
  · split
    · split <;> simp
    · simp
  · -- The part in front ends by `first`, and the part behind begins at `last`.
    intro a ha b hb
    have ha' : a.stop ≤ first := by
      split at ha
      · rw [List.mem_singleton] at ha
        subst ha
        simp only [stop, before, Block.size_slice]
        omega
      · cases ha
    cases last? with
    | none => cases hb
    | some last =>
        have hle := hrange last rfl
        by_cases hend : last < c.stop
        · simp only [if_pos hend, List.mem_singleton] at hb
          subst hb
          show a.stop ≤ last
          omega
        · simp only [if_neg hend] at hb
          cases hb

/-- Clips stay in order when a range is erased. By induction on the clips, as
`Clip.erase` goes through them. -/
theorem ordered_erase {first : Int} {last? : Option Int} {clips : List Clip}
    (h : Ordered clips) (hrange : ∀ last, last? = some last → first ≤ last) :
    Ordered (erase first last? clips) := by
  induction clips with
  | nil => exact ordered_nil
  | cons c clips ih =>
      obtain ⟨hc, hrest, htail⟩ := ordered_cons.mp h
      have ih := ih htail
      have hbehind : ∀ d ∈ erase first last? clips, c.stop ≤ d.start := by
        intro d hd
        obtain ⟨e, he, h1, -, -⟩ := mem_erase htail.nonempty hd
        exact Int.le_trans (hrest e he) h1
      -- The clip ends before the range, begins behind it, or is cut.
      unfold erase
      split
      · exact ordered_cons.mpr ⟨hc, hbehind, ih⟩
      · split
        · exact h
        · rename_i hstop hpast
          have hpast := Bool.eq_false_iff.mpr hpast
          refine ordered_append.mpr ⟨ordered_cut (by omega) hpast hrange, ih, fun a ha b hb => ?_⟩
          have ha := (mem_cut (by omega) hpast ha).2.1
          exact Int.le_trans ha (hbehind b hb)

/-- What a cut clip holds: its own bytes outside the range. No more than
`isPast` has to be known of the clip, as `cut` makes no part that is empty. -/
theorem lookup_cut {c : Clip} {first : Int} {last? : Option Int}
    (hpast : c.isPast last? = false) (position : Int) :
    lookup (c.cut first last?) position
      = if first ≤ position ∧ ∀ last, last? = some last → position < last then none
        else c.byteAt? position := by
  have hhead : lookup (if c.start < first then [c.before first] else []) position
      = if first ≤ position then none else c.byteAt? position := by
    split
    · rw [lookup_cons, lookup_nil, Option.or_none, byteAt?_before]
    · rw [lookup_nil]
      split
      · rfl
      · exact (byteAt?_of_lt (by omega)).symm
  unfold cut
  rw [lookup_append, hhead]
  cases last? with
  | none =>
      simp only [lookup_nil, Option.or_none, reduceCtorEq, false_implies, implies_true, and_true]
  | some last =>
      have hlast : c.start < last := by simpa [isPast] using hpast
      have htail : lookup (if last < c.stop then [c.after last] else []) position
          = if last ≤ position then c.byteAt? position else none := by
        split
        · rw [lookup_cons, lookup_nil, Option.or_none, byteAt?_after (by omega)]
        · rw [lookup_nil]
          split
          · exact (byteAt?_of_ge (by omega)).symm
          · rfl
      simp only [htail, Option.some.injEq, forall_eq']
      -- A position lies in one of the two parts at most.
      by_cases h1 : first ≤ position
      · by_cases h2 : position < last
        · rw [if_pos h1, if_neg (by omega), if_pos ⟨h1, h2⟩]
          rfl
        · rw [if_pos h1, if_pos (by omega), if_neg (by omega)]
          rfl
      · have hout : ¬(first ≤ position ∧ position < last) := fun h => h1 h.1
        rw [if_neg h1, if_neg hout]
        split
        · exact Option.or_self
        · exact Option.or_none

/-- Erasing empties a range and leaves every other position alone. By induction
on the clips with `lookup_cut`. -/
theorem lookup_erase {first : Int} {last? : Option Int} {clips : List Clip}
    (h : Ordered clips) (position : Int) :
    lookup (erase first last? clips) position
      = if first ≤ position ∧ ∀ last, last? = some last → position < last then none
        else lookup clips position := by
  induction clips with
  | nil => exact (ite_self _).symm
  | cons c clips ih =>
      have ih := ih h.tail
      unfold erase
      split
      · -- The clip ends before the range begins, and only the rest is erased.
        next hstop =>
          rw [lookup_cons, lookup_cons, ih]
          split
          · next hin =>
              rw [byteAt?_of_ge (by omega)]
              rfl
          · rfl
      · split
        · next hpast =>
            -- The clip and all after it begin behind the range.
            cases last? with
            | none => cases hpast
            | some last =>
                have hlast : last ≤ c.start := by simpa [isPast] using hpast
                split
                · next hin =>
                    have hbefore := hin.2 last rfl
                    exact lookup_eq_none_of_lt h (by omega)
                · rfl
        · next hpast =>
            rw [lookup_append, ih, lookup_cut (Bool.eq_false_iff.mpr hpast), lookup_cons]
            split <;> rfl

/-- Clips that end at or before `first` stay as they are under `erase`, so that
it begins behind them. -/
theorem erase_append {first : Int} {last? : Option Int} {front back : List Clip}
    (h : ∀ c ∈ front, c.stop ≤ first) :
    erase first last? (front ++ back) = front ++ erase first last? back := by
  induction front with
  | nil => rfl
  | cons c front ih =>
      rw [List.cons_append, erase, if_pos (h c (List.mem_cons_self ..)),
        ih fun d hd => h d (List.mem_cons_of_mem _ hd), List.cons_append]

/-! ### Collecting -/

/-- Taking only the `Ordered` clips that begin before `last` does not change
what `lookup` finds at a position below it, since the others begin later. -/
theorem lookup_takeWhile {clips : List Clip} (h : Ordered clips) {position last : Int}
    (hlast : position < last) :
    lookup (clips.takeWhile (·.start < last)) position = lookup clips position := by
  induction clips with
  | nil => rfl
  | cons c clips ih =>
      by_cases hstart : c.start < last
      · rw [List.takeWhile_cons_of_pos (by simpa using hstart), lookup_cons, lookup_cons, ih h.tail]
      · rw [List.takeWhile_cons_of_neg (by simpa using hstart), lookup_nil]
        exact (lookup_eq_none_of_lt h (by omega)).symm

/-- Collecting answers with the bytes of a stretch, behind those that were there
(`acc`). -/
theorem toList_collect {clips : List Clip} (h : Ordered clips) (acc : ByteArray)
    {position last : Int} (hle : position ≤ last) :
    (collect acc position last clips).data.toList
      = acc.data.toList ++ bytesFrom clips position (last - position).toNat := by
  induction clips generalizing acc position with
  | nil =>
      rw [collect, toList_append_bytes, toList_silentBytes,
        bytesFrom_of_lookup_none fun _ _ _ => rfl]
  | cons c clips ih =>
      obtain ⟨hc, -, htail⟩ := ordered_cons.mp h
      unfold collect
      split
      · -- The clip begins behind the stretch, so that all of it is silent.
        next hpast =>
          rw [toList_append_bytes, toList_silentBytes]
          congr 1
          refine (bytesFrom_of_lookup_none fun p _ hp => ?_).symm
          exact lookup_eq_none_of_lt h (by omega)
      · split
        · -- The clip has ended where the stretch begins.
          next hstop =>
            rw [ih htail acc hle]
            congr 1
            refine bytesFrom_congr ?_
            intro p hp _
            exact (lookup_cons_of_stop_le (by omega)).symm
        · next hlast hstop =>
            -- Silence up to the clip, then the clip, then what comes after it.
            obtain ⟨first, hfirst⟩ : ∃ first, first = max c.start position := ⟨_, rfl⟩
            obtain ⟨next, hnext⟩ : ∃ next, next = min c.stop last := ⟨_, rfl⟩
            have hsilent : bytesFrom (c :: clips) position (first - position).toNat
                = List.replicate (first - position).toNat 0 := by
              refine bytesFrom_of_lookup_none ?_
              intro p hp1 hp2
              exact lookup_eq_none_of_lt h (by omega)
            have hinside : bytesFrom (c :: clips) first (next - first).toNat
                = (c.block.slice (first - c.start).toNat (next - c.start).toNat).toList := by
              rw [bytesFrom_inside (by omega) (by omega), Block.toList_slice, List.drop_take]
              congr 1
              omega
            have hafter : bytesFrom (c :: clips) next (last - next).toNat
                = bytesFrom clips next (last - next).toNat := by
              refine bytesFrom_congr ?_
              intro p hp1 hp2
              exact lookup_cons_of_stop_le (by omega)
            have hsplit : (last - position).toNat
                = (first - position).toNat + (next - first).toNat + (last - next).toNat := by
              omega
            simp only [← hfirst, ← hnext]
            rw [ih htail _ (by omega), toList_append_bytes, toList_append_bytes,
              toList_silentBytes, hsplit, bytesFrom_add, bytesFrom_add, hsilent]
            have h1 : position + ((first - position).toNat : Int) = first := by omega
            have h2 : position + (((first - position).toNat + (next - first).toNat : Nat) : Int)
                = next := by omega
            rw [h1, h2, hinside, hafter, List.append_assoc, List.append_assoc, List.append_assoc]
            rfl

end Clip

end EchoAlign
