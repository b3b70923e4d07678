import EchoAlign.Proofs.Audio.Tape
import Mathlib.Data.List.TakeWhile

/-!
# `EchoAlign.Proofs.Audio.InPlace`: clips that are changed in place

A list of clips can be kept in one row and changed there: a place is found by
halving, and a clip at a place is taken out and what is left of it put in.

* `partitionPoint_eq`: halving finds the first clip of which something does not
  hold, if it holds of no clip behind that one.
* `clearRange_eq_erase`: clearing a range in place ends, and erases it.
* `fill?_eq`: writing the bytes of clips over those that are in a buffer stays
  inside the clips and the buffer.
-/

set_option autoImplicit false

namespace EchoAlign

/-! ### Finding a place -/

section Halving

variable {α : Type} {p : α → Bool} {values : List α}

/-- Looks for the first value of which `p` does not hold, from `low` up to
`high`. -/
def bisect (p : α → Bool) (values : List α) (low high : Nat) (h : high ≤ values.length) : Nat :=
  if hlow : low < high then
    let middle := low + (high - low) / 2
    have hmiddle : middle < values.length := by omega
    if p values[middle] then bisect p values (middle + 1) high h
    else bisect p values low middle (by omega)
  else low
termination_by high - low

/-- The place of the first value of which `p` does not hold. -/
def partitionPoint (p : α → Bool) (values : List α) : Nat :=
  bisect p values 0 values.length (Nat.le_refl _)

/-- If `p` holds of a value, then it holds of all before it. -/
def Partitioned (p : α → Bool) (values : List α) : Prop :=
  values.Pairwise fun a b => p b = true → p a = true

/-- In a partitioned list a value has the property exactly if it is among the
first ones, as many as `takeWhile` finds. -/
theorem Partitioned.iff_lt (h : Partitioned p values) {i : Nat} (hi : i < values.length) :
    p values[i] = true ↔ i < (values.takeWhile p).length := by
  induction values generalizing i with
  | nil => simp at hi
  | cons a values ih =>
      obtain ⟨hbefore, htail⟩ := List.pairwise_cons.mp h
      by_cases ha : p a = true
      · cases i with
        | zero => simp [ha]
        | succ i => simpa [ha] using ih htail (by simpa using hi)
      · -- Of no value behind does `p` hold either.
        cases i with
        | zero => simp [ha]
        | succ i =>
            have hnot := mt (hbefore _ (List.getElem_mem (by simpa using hi))) ha
            simpa [ha] using hnot

/-- The search of `bisect` comes out at the end of the values that have the
property, from any bounds around it, if the values are `Partitioned`. The
induction is on the distance of the bounds. -/
theorem bisect_eq (h : Partitioned p values) {low high : Nat} (hhigh : high ≤ values.length)
    (hfrom : low ≤ (values.takeWhile p).length) (hto : (values.takeWhile p).length ≤ high) :
    bisect p values low high hhigh = (values.takeWhile p).length := by
  fun_induction bisect p values low high hhigh with
  | case1 low high hhigh hlow middle hmiddle hp ih =>
      have hlt := (h.iff_lt hmiddle).mp hp
      exact ih (by omega) hto
  | case2 low high hhigh hlow middle hmiddle hp ih =>
      have hle := mt (h.iff_lt hmiddle).mpr hp
      exact ih hfrom (by omega)
  | case3 low high hhigh hlow => omega

/-- Halving finds the place where the values begin of which `p` does not hold. -/
theorem partitionPoint_eq (h : Partitioned p values) :
    partitionPoint p values = (values.takeWhile p).length :=
  bisect_eq h (Nat.le_refl _) (Nat.zero_le _) (List.takeWhile_sublist p).length_le

/-- If `p` holds of all values, the place that is found is their end. -/
theorem partitionPoint_of_forall (h : ∀ value ∈ values, p value = true) :
    partitionPoint p values = values.length := by
  have hpartitioned : Partitioned p values :=
    List.pairwise_iff_forall_sublist.mpr fun {a _} hpair _ =>
      h a (hpair.subset (List.mem_cons_self ..))
  rw [partitionPoint_eq hpartitioned, List.takeWhile_eq_self_iff.mpr h]

/-- The values behind `partitionPoint` are those that `dropWhile` leaves, from
the first on that does not have the property. -/
theorem drop_partitionPoint (h : Partitioned p values) :
    values.drop (partitionPoint p values) = values.dropWhile p := by
  have hdrop := @List.drop_left _ (values.takeWhile p) (values.dropWhile p)
  rwa [List.takeWhile_append_dropWhile, ← partitionPoint_eq h] at hdrop

end Halving

/-! ### One clip in a row -/

section Places

variable {α : Type} (front back : List α) (value : α)

/-- A value that `insertIdx` puts at the end of `front` stands between `front`
and `back`. -/
theorem insertIdx_length_append :
    (front ++ back).insertIdx front.length value = front ++ value :: back := by
  induction front with
  | nil => rfl
  | cons a front ih => simp [ih]

/-- A value that `eraseIdx` takes out at the end of `front` leaves `front` and
`back`. -/
theorem eraseIdx_length_append : (front ++ value :: back).eraseIdx front.length = front ++ back := by
  simp [List.eraseIdx_append_of_length_le]

end Places

namespace Clip

variable {c : Clip} {front rest : List Clip} {first last : Int}

/-- Takes out the clip at a place, and puts in what is left of it outside a
range. The place moves on behind the part that lies before the range, so that
`clear` goes on with the next clip. -/
def recut (first last : Int) (c : Clip) (clips : List Clip) (place : Nat) : List Clip × Nat :=
  let clips := clips.eraseIdx place
  let clips := if last < c.stop then clips.insertIdx place (c.after last) else clips
  if c.start < first then (clips.insertIdx place (c.before first), place + 1) else (clips, place)

/-- The part of a clip before the range from `first` on, if there is one:
`before first`, or nothing if the clip begins inside the range. -/
def head (c : Clip) (first : Int) : List Clip := if c.start < first then [c.before first] else []

/-- The part of a clip behind a range that ends at `last`, if there is one:
`after last`, or nothing if the clip ends inside the range. -/
def tail (c : Clip) (last : Int) : List Clip := if last < c.stop then [c.after last] else []

/-- A clip is cut into its `head` and its `tail`. -/
theorem cut_eq (c : Clip) (first last : Int) :
    c.cut first (some last) = c.head first ++ c.tail last := rfl

/-- What `recut` does with the clip at a place: its `head` and its `tail` stand
there instead, and the place it goes on from is behind the `head`. -/
theorem recut_eq (first last : Int) (c : Clip) (front rest : List Clip) :
    recut first last c (front ++ c :: rest) front.length
      = (front ++ c.head first ++ (c.tail last ++ rest), (front ++ c.head first).length) := by
  unfold recut head tail
  rw [eraseIdx_length_append]
  by_cases htail : last < c.stop <;> by_cases hhead : c.start < first <;>
    simp [htail, hhead, insertIdx_length_append]

/-- How many clips from a place on begin before the end of a range. Each round
of `clear` makes this fewer, so it ends. -/
def remaining (last : Int) (clips : List Clip) (place : Nat) : Nat :=
  (clips.drop place).countP (·.start < last)

/-- Of a clip that begins before the end of the range, no part behind the place
does. So the loop of `clear` ends, as `remaining` gets smaller with every turn. -/
theorem remaining_recut_lt {clips : List Clip} {place : Nat} (h : place < clips.length)
    (hstart : clips[place].start < last) :
    remaining last (recut first last clips[place] clips place).1
        (recut first last clips[place] clips place).2
      < remaining last clips place := by
  obtain ⟨front, c, rest, hsplit, hplace⟩ :
      ∃ front c rest, clips = front ++ c :: rest ∧ place = front.length :=
    ⟨clips.take place, clips[place], clips.drop (place + 1), by simp, by simp; omega⟩
  subst hsplit hplace
  have hc : (front ++ c :: rest)[front.length] = c := by simp
  rw [hc] at hstart ⊢
  have htail : (c.tail last).countP (·.start < last) = 0 := by
    unfold tail
    split <;> simp [after]
  rw [recut_eq, remaining, remaining, List.drop_left, List.drop_left, List.countP_append, htail,
    List.countP_cons_of_pos (by simpa using hstart)]
  omega

/-- Takes the bytes of a range out of the clips from a place on by `recut`, one
clip after another and in place, until a clip begins at or behind `last` or none
is left. -/
def clear (first last : Int) (clips : List Clip) (place : Nat) : List Clip :=
  if h : place < clips.length then
    if hpast : last ≤ clips[place].start then clips
    else
      clear first last (recut first last clips[place] clips place).1
        (recut first last clips[place] clips place).2
  else clips
termination_by remaining last clips place
decreasing_by exact remaining_recut_lt h (Int.not_le.mp hpast)

/-- Takes the bytes of a range out of clips: `partitionPoint` finds the first
clip that reaches into it. -/
def clearRange (first last : Int) (clips : List Clip) : List Clip :=
  clear first last clips (partitionPoint (endsBy first) clips)

/-- Clips that begin at or behind the end of a range stay as they are under
`erase`. -/
theorem erase_of_past {clips : List Clip} (h : ∀ c ∈ clips, last ≤ c.start) :
    erase first (some last) clips = clips := by
  induction clips with
  | nil => rfl
  | cons c clips ih =>
      obtain ⟨hc, hclips⟩ := List.forall_mem_cons.mp h
      unfold erase
      split
      · rw [ih hclips]
      · rw [if_pos (by simpa [isPast] using hc)]

/-- A place that `clear` does not go on from: the clip there begins at or behind
`last`, or there is none. -/
theorem clear_of_past (h : ∀ c ∈ rest.head?, last ≤ c.start) :
    clear first last (front ++ rest) front.length = front ++ rest := by
  unfold clear
  cases rest with
  | nil => simp
  | cons c rest => simp [h c rfl]

/-- A place whose clip begins before `last` is gone over once: its `head` and
`tail` take its place, and `clear` goes on behind the `head`. -/
theorem clear_of_reaching (h : c.start < last) :
    clear first last (front ++ c :: rest) front.length
      = clear first last (front ++ c.head first ++ (c.tail last ++ rest))
          (front ++ c.head first).length := by
  have hplace : front.length < (front ++ c :: rest).length := by simp
  have hc : (front ++ c :: rest)[front.length] = c := by simp
  rw [clear, dif_pos hplace, dif_neg (by rw [hc]; omega)]
  simp only [hc, recut_eq]

/-- Behind clips that are left alone, clearing erases the range. The induction
is on the clips that the loop has still to look at. `hreach` holds at the place
that the search of `clear` starts from. -/
theorem clear_eq_erase (h : Ordered rest) (hreach : ∀ c ∈ rest, first < c.stop) :
    clear first last (front ++ rest) front.length = front ++ erase first (some last) rest := by
  induction rest generalizing front with
  | nil => exact @clear_of_past front [] first last nofun
  | cons c rest ih =>
      obtain ⟨-, hbehind, hrest⟩ := ordered_cons.mp h
      obtain ⟨hc, hreach⟩ := List.forall_mem_cons.mp hreach
      by_cases hpast : last ≤ c.start
      · rw [clear_of_past (by simpa using hpast), erase, if_neg (by omega),
          if_pos (by simpa [isPast] using hpast)]
      · rw [clear_of_reaching (by omega), erase, if_neg (by omega),
          if_neg (by simpa [isPast] using hpast), cut_eq]
        by_cases hend : last < c.stop
        · -- The part that was put in behind the range ends the loop.
          have htail : c.tail last = [c.after last] := if_pos hend
          have hlater : ∀ d ∈ rest, last ≤ d.start := fun d hd =>
            Int.le_trans (Int.le_of_lt hend) (hbehind d hd)
          rw [erase_of_past hlater, htail, clear_of_past (by simp [after])]
          simp
        · have htail : c.tail last = [] := if_neg hend
          rw [htail, List.nil_append, ih hrest hreach]
          simp

/-! ### Clips in order -/

/-- Of clips in order, those that end by a position come first, as
`partitionPoint` needs it. -/
theorem Ordered.partitioned_endsBy {clips : List Clip} (h : Ordered clips) (position : Int) :
    Partitioned (endsBy position) clips := by
  refine h.apart.imp_of_mem fun {a b} _ hb hab hends => ?_
  have hstop := h.nonempty b hb
  simp only [endsBy, decide_eq_true_eq] at hends ⊢
  omega

/-- Whether the clip begins before a position. This is the property by which
`ClipRow` finds the place of a block. -/
def startsBefore (position : Int) (c : Clip) : Bool := c.start < position

/-- In clips in order, clearing a range in place erases it: `clearRange` is the
`Clip.erase` of the tape. -/
theorem clearRange_eq_erase {clips : List Clip} (h : Ordered clips) (first last : Int) :
    clearRange first last clips = erase first (some last) clips := by
  have hends := h.partitioned_endsBy first
  have hsplit := @List.takeWhile_append_dropWhile _ (endsBy first) clips
  have hbehind : Ordered (clips.dropWhile (endsBy first)) :=
    h.sublist (List.dropWhile_sublist _)
  have hcleared := @clear_eq_erase (clips.takeWhile (endsBy first)) _ first last hbehind
    fun c hc => Reel.lt_stop_of_mem_dropWhile h hc
  -- The clips that the loop does not look at end before the range.
  rw [← erase_append fun c hc => Reel.stop_le_of_mem_takeWhile hc, hsplit] at hcleared
  rw [clearRange, partitionPoint_eq hends, hcleared]

/-- Where no clip ends beyond `last`, `erase` up to there takes out as much as
`erase` without an end. -/
theorem erase_of_stop_le {clips : List Clip} (h : Ordered clips)
    (hstop : ∀ c ∈ clips, c.stop ≤ last) :
    erase first (some last) clips = erase first none clips := by
  induction clips with
  | nil => rfl
  | cons c clips ih =>
      obtain ⟨hc, -, htail⟩ := ordered_cons.mp h
      obtain ⟨hle, hstop⟩ := List.forall_mem_cons.mp hstop
      have hreached : ¬last ≤ c.start := by omega
      have hnotail : ¬last < c.stop := by omega
      simp [erase, isPast, cut, ih htail hstop, hreached, hnotail]

/-! ### Writing over a buffer -/

/-- The values from the place `first` to before `last`, if all of them are
there; none otherwise, where slicing stops at a bound that is not. -/
def stretch? {α : Type} (values : List α) (first last : Int) : Option (List α) :=
  if 0 ≤ first ∧ first ≤ last ∧ last ≤ values.length then
    some ((values.take last.toNat).drop first.toNat)
  else none

/-- Writes `source` over the values from `first` to before `last`, if there are
as many and all of them are there; none otherwise, where copying into a slice
stops. -/
def overwrite? {α : Type} (values : List α) (first last : Int) (source : List α) :
    Option (List α) :=
  if 0 ≤ first ∧ first ≤ last ∧ last ≤ values.length ∧ source.length = (last - first).toNat then
    some (values.take first.toNat ++ source ++ values.drop last.toNat)
  else none

/-- Writes the bytes that clips hold from `first` up to `last` over those in a
buffer, which is `last - first` bytes long. -/
def fill? (first last : Int) (buffer : List UInt8) : List Clip → Option (List UInt8)
  | [] => some buffer
  | c :: clips =>
      if last ≤ c.start then some buffer
      else do
        let start := max c.start first
        let stop := min c.stop last
        let source ← stretch? c.block.toList (start - c.start) (stop - c.start)
        let buffer ← overwrite? buffer (start - first) (stop - first) source
        fill? first last buffer clips

/-- Within the bounds, `stretch?` gives the values between them. -/
theorem stretch?_eq {α : Type} {values : List α} {first last : Int} (hfirst : 0 ≤ first)
    (hle : first ≤ last) (hlast : last ≤ values.length) :
    stretch? values first last = some ((values.take last.toNat).drop first.toNat) :=
  if_pos ⟨hfirst, hle, hlast⟩

/-- What is in a buffer that was written over within its bounds. The length
stays the same, the stretch from `first` to `last` is that of `source`, and all
else is that of `values`. -/
theorem overwrite?_eq {α : Type} {values source : List α} {first last : Int} (hfirst : 0 ≤ first)
    (hle : first ≤ last) (hlast : last ≤ values.length)
    (hsource : source.length = (last - first).toNat) :
    ∃ written, overwrite? values first last source = some written
      ∧ written.length = values.length
      ∧ ∀ i : Nat, written[i]?
          = if first ≤ i ∧ i < last then source[i - first.toNat]? else values[i]? := by
  refine ⟨_, if_pos ⟨hfirst, hle, hlast, hsource⟩, ?_, fun i => ?_⟩
  · simp
    omega
  · by_cases hbefore : (i : Int) < first
    · rw [if_neg (by omega), List.append_assoc, List.getElem?_append_left (by simp; omega),
        List.getElem?_take_of_lt (by omega)]
    · have htake : (values.take first.toNat).length = first.toNat := by
        rw [List.length_take]
        omega
      by_cases hinside : (i : Int) < last
      · rw [if_pos ⟨by omega, hinside⟩, List.append_assoc,
          List.getElem?_append_right (by omega), htake, List.getElem?_append_left (by omega)]
      · have hfront : (values.take first.toNat ++ source).length = last.toNat := by
          rw [List.length_append, htake]
          omega
        rw [if_neg (by omega), List.getElem?_append_right (by omega), hfront, List.getElem?_drop]
        congr 1
        omega

/-- Writing the bytes of one clip into a buffer stays inside the clip and inside
the buffer, so that `fill?` goes on with the next one. -/
theorem fill?_cons {c : Clip} (clips : List Clip) {first last : Int} (hc : c.start < c.stop)
    (hfirst : first < c.stop) (hlast : c.start < last) {buffer : List UInt8}
    (hlength : first + buffer.length = last) :
    ∃ written, fill? first last buffer (c :: clips) = fill? first last written clips
      ∧ written.length = buffer.length
      ∧ ∀ i < buffer.length, written[i]? = (c.byteAt? (first + i)).or buffer[i]? := by
  obtain ⟨start, hstart⟩ : ∃ start, start = max c.start first := ⟨_, rfl⟩
  obtain ⟨stop, hstop⟩ : ∃ stop, stop = min c.stop last := ⟨_, rfl⟩
  have hblock : (c.block.toList.length : Int) = c.stop - c.start := by
    rw [Block.length_toList, Clip.stop]
    omega
  -- From `start` to `stop` the clip and the range have bytes in common, so that
  -- both copies stay within their bounds.
  have hread := @stretch?_eq _ c.block.toList (start - c.start) (stop - c.start)
    (by omega) (by omega) (by omega)
  obtain ⟨written, hwrite, hsame, hbytes⟩ := @overwrite?_eq _ buffer
    ((c.block.toList.take (stop - c.start).toNat).drop (start - c.start).toNat)
    (start - first) (stop - first) (by omega) (by omega) (by omega)
    (by rw [List.length_drop, List.length_take]; omega)
  refine ⟨written, ?_, hsame, fun i hi => ?_⟩
  · rw [fill?, if_neg (Int.not_le.mpr hlast), ← hstart, ← hstop]
    simp only [hread, Option.bind_eq_bind, Option.bind_some, hwrite]
  · rw [hbytes]
    by_cases hin : start - first ≤ i ∧ i < stop - first
    · have hplace : (start - c.start).toNat + (i - (start - first).toNat)
          = (first + i - c.start).toNat := by omega
      have hsome : (first + i - c.start).toNat < c.block.toList.length := by omega
      rw [if_pos hin, byteAt?_of_mem (by omega), List.getElem?_drop, hplace,
        List.getElem?_take_of_lt (by omega), List.getElem?_eq_getElem hsome, Option.some_or]
    · have hnone : c.byteAt? (first + i) = none := by
        by_cases hbefore : first + i < c.start
        · exact byteAt?_of_lt hbefore
        · exact byteAt?_of_ge (by omega)
      rw [if_neg hin, hnone, Option.none_or]

/-- Writing the bytes of clips into a buffer stays inside the clips and inside
the buffer. Where the clips hold nothing, the buffer stays as it is. By
induction on the clips with `fill?_cons`. -/
theorem fill?_eq {clips : List Clip} (h : Ordered clips) (hreach : ∀ c ∈ clips, first < c.stop)
    {buffer : List UInt8} (hlength : first + buffer.length = last) :
    ∃ filled, fill? first last buffer clips = some filled ∧ filled.length = buffer.length
      ∧ ∀ i < buffer.length, filled[i]? = (lookup clips (first + i)).or buffer[i]? := by
  induction clips generalizing buffer with
  | nil => exact ⟨buffer, rfl, rfl, fun i _ => rfl⟩
  | cons c clips ih =>
      obtain ⟨hc, hbehind, hclips⟩ := ordered_cons.mp h
      obtain ⟨hfirst, hreach⟩ := List.forall_mem_cons.mp hreach
      by_cases hpast : last ≤ c.start
      · -- The clip and all after it begin behind the buffer.
        refine ⟨buffer, by rw [fill?, if_pos hpast], rfl, fun i hi => ?_⟩
        rw [lookup_eq_none_of_lt h (by omega), Option.none_or]
      · obtain ⟨written, hwrite, hsame, hbytes⟩ :=
          fill?_cons clips hc hfirst (Int.not_le.mp hpast) hlength
        obtain ⟨filled, hfill, hlen, hfilled⟩ := ih hclips hreach (hsame ▸ hlength)
        refine ⟨filled, hwrite.trans hfill, hlen.trans hsame, fun i hi => ?_⟩
        rw [hfilled i (by omega), hbytes i hi, lookup_cons]
        -- No later clip holds a byte where this one does.
        by_cases hin : first + i < c.stop
        · have hlater : lookup clips (first + i) = none :=
            lookup_eq_none fun d hd => Or.inr (Int.lt_of_lt_of_le hin (hbehind d hd))
          rw [hlater, Option.none_or, Option.or_none]
        · rw [byteAt?_of_ge (Int.not_lt.mp hin), Option.none_or, Option.none_or]

/-- Writing the bytes of clips into silence gives the bytes of the stretch, as
`Clip.bytesFrom` tells them. -/
theorem fill?_silence {clips : List Clip} (h : Ordered clips) {first : Int}
    (hreach : ∀ c ∈ clips, first < c.stop) (n : Nat) :
    fill? first (first + n) (List.replicate n 0) clips = some (bytesFrom clips first n) := by
  obtain ⟨filled, hfill, hlength, hbytes⟩ :=
    @fill?_eq _ (first + n) _ h hreach (List.replicate n 0) (by simp)
  rw [hfill, Option.some_inj]
  rw [List.length_replicate] at hlength hbytes
  apply List.ext_getElem?
  intro i
  rw [getElem?_bytesFrom]
  by_cases hi : i < n
  · rw [hbytes i hi, if_pos hi, List.getElem?_replicate, if_pos hi]
    cases lookup clips (first + i) <;> rfl
  · rw [if_neg hi, List.getElem?_eq_none (by omega)]

end Clip

end EchoAlign
