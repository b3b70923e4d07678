import EchoAlign.Proofs.Audio.InPlace
import EchoAlign.Proofs.Audio.Limit

/-!
# `EchoAlign.Proofs.Audio.Row`: a tape whose clips are one row

A tape parts its clips at the read head, so that no operation goes through all
of them. `ClipRow` does without: its clips are one list, in which places are
found by halving and which is changed in place. It stops (`none`) where an index
lies outside of what it is an index of, and where a sum leaves its word.

* `Tape.row`: the row that a tape stands for.
* `Steady`: the state of a tape whose counts stay in their words.
  `Steady.perform`: each operation keeps it, and does the same to the row.
* `clips_in_place`: after any run, the clips are in order, and the row has not
  stopped. Nor does it when it is looked at or when a range is cleared.
-/

set_option autoImplicit false

namespace EchoAlign

/-- A whole number, if it `IsSigned`; none otherwise, where arithmetic on words
stops. -/
def Word.checked? (n : Int) : Option Int := if IsSigned n then some n else none

/-- Half of what a signed word reaches. Two numbers below it have a sum that is
a word, as `isSigned_add` says. -/
def Word.half : Nat := 0x4000_0000_0000_0000

/-- Audio in one row of clips, with a read head and a write head. The clips are
not parted as in a `Reel`, and every place in them is found by bisection. -/
structure ClipRow where
  base : Nat
  limit : Nat
  history : Nat
  clips : List Clip
  readHead : Int
  writeHead : Int
  floor : Int

namespace ClipRow

/-- An empty row, with the same bounds as in `Tape.create`. -/
def create (base limit : Nat) : ClipRow :=
  { base := max base 1
    limit := min limit maxTapeLength
    history := 0
    clips := []
    readHead := 0
    writeHead := 0
    floor := 0 }

/-- Puts a value at a place, if there is such a place or the values end there;
none otherwise, where an insertion stops. -/
def insert? {α : Type} (values : List α) (place : Nat) (value : α) : Option (List α) :=
  if place ≤ values.length then some (values.insertIdx place value) else none

/-- The lowest position whose audio is kept: `floor`, or as far behind
`readHead` as `history` says, if the difference is a word. -/
def historyFloor? (r : ClipRow) : Option Int := do
  let oldest ← Word.checked? (r.readHead - Word.signed r.history)
  return max r.floor oldest

/-- Lets go of the clips that end by `historyFloor?`, if that is there. -/
def releaseHistory? (r : ClipRow) : Option ClipRow := do
  let floor ← r.historyFloor?
  return { r with clips := r.clips.dropWhile (Clip.endsBy floor) }

/-- Puts a block into the row at the write head, over what lies there: the range
is cleared, and the place of the block is found with `startsBefore`. -/
def append? (r : ClipRow) (block : Block) : Option (TapeAnswer × ClipRow) :=
  if block.size % r.base ≠ 0 then some (.refused (.unaligned block.size r.base), r)
  else if block.size = 0 then some (.done, r)
  else do
    let last ← Word.checked? (r.writeHead + Word.signed block.size)
    let requested ← Word.checked? (last - r.readHead)
    if r.limit < requested.toNat then
      return (.refused (.overflow requested.toNat r.limit), r)
    else
      let cleared := Clip.clearRange r.writeHead last r.clips
      let place := partitionPoint (Clip.startsBefore r.writeHead) cleared
      let clips ← insert? cleared place ⟨r.writeHead, block⟩
      return (.done, { r with clips, writeHead := last })

/-- The next `n` bytes at the read head. -/
def peek? (r : ClipRow) (n : Nat) : Option (List UInt8) :=
  if n = 0 then some []
  else do
    let first := r.readHead
    let last ← Word.checked? (first + Word.signed n)
    let place := partitionPoint (Clip.endsBy first) r.clips
    match r.clips[place]?.filter fun c => c.start ≤ first ∧ last ≤ c.stop with
    | some c => Clip.stretch? c.block.toList (first - c.start) (first - c.start + n)
    | none => Clip.fill? first last (List.replicate n 0) (r.clips.drop place)

/-- Moves `readHead` forward, and `writeHead` if it is passed, and then lets go
of history by `releaseHistory?`, if the words hold. -/
def advance? (r : ClipRow) (n : Nat) : Option ClipRow := do
  let readHead ← Word.checked? (r.readHead + Word.signed n)
  { r with readHead, writeHead := max r.writeHead readHead }.releaseHistory?

/-- Moves the read head back by up to `n` bytes of kept history. -/
def rewind? (r : ClipRow) (n : Nat) : Option (TapeAnswer × ClipRow) := do
  let floor ← r.historyFloor?
  let available ← Word.checked? (r.readHead - floor)
  let amount := min n available.toNat
  let readHead ← Word.checked? (r.readHead - amount)
  return (.rewound amount, { r with readHead })

/-- Moves `writeHead` as `Tape.seek` does, and clears what lies beyond it by
`Clip.clearRange` if it goes back, if the words hold. -/
def seek? (r : ClipRow) (offset : Int) (clamp : Bool) : Option ClipRow := do
  let wanted ← Word.checked? (r.writeHead + offset)
  let wanted := if clamp then max wanted r.readHead else wanted
  let farthest ← Word.checked? (r.readHead + Word.signed r.limit)
  let target := min wanted farthest
  let clips :=
    if target < r.writeHead then Clip.clearRange target Word.maxSigned r.clips else r.clips
  return { r with clips, writeHead := target }

/-- Clears what lies unread by `Clip.clearRange`, up to `Word.maxSigned`, and
then everything and the history too unless it is kept. -/
def flush (r : ClipRow) (keepHistory : Bool) : ClipRow :=
  let clips := Clip.clearRange r.readHead Word.maxSigned r.clips
  let r := { r with clips, writeHead := r.readHead }
  if keepHistory then r else { r with clips := [], floor := r.readHead }

/-- Does one thing, with one function for each `TapeOperation`, and stops where
a word overflows or a bound is missed. -/
def perform? (r : ClipRow) : TapeOperation → Option (TapeAnswer × ClipRow)
  | .append block => r.append? block
  | .advance bytes => do return (.done, ← r.advance? bytes)
  | .rewind bytes => r.rewind? bytes
  | .seek offset clamp => do return (.done, ← r.seek? offset clamp)
  | .flush keepHistory => some (.done, r.flush keepHistory)
  | .setHistory bytes => do return (.done, ← { r with history := bytes }.releaseHistory?)

/-- Does operations one after another by `perform?`, and stops where one of them
does. -/
def run? (r : ClipRow) : List TapeOperation → Option (List TapeAnswer × ClipRow)
  | [] => some ([], r)
  | operation :: rest => do
      let (answer, r) ← r.perform? operation
      let (later, r) ← r.run? rest
      return (answer :: later, r)

end ClipRow

/-- The counts of an operation are below `Word.half`. A block, a distance and an
amount of history are all counted so; a `flush` has no count. -/
def TapeOperation.WithinHalf : TapeOperation → Prop
  | append block => block.size < Word.half
  | advance n => n < Word.half
  | rewind n => n < Word.half
  | seek offset _ => offset.natAbs < Word.half
  | flush _ => True
  | setHistory n => n < Word.half

/-- A number that `IsSigned` passes `checked?` unchanged. -/
theorem Word.checked?_eq {n : Int} (h : IsSigned n) : checked? n = some n := if_pos h

namespace Tape

/-- The row that a tape stands for: the same heads and bounds, and its clips in
one list, where `Tape.reel` has them parted. -/
def row (t : Tape) : ClipRow :=
  { base := t.base
    limit := t.limit
    history := t.history
    clips := t.clips
    readHead := t.readHead
    writeHead := t.writeHead
    floor := t.floor }

/-- Both heads of a tape are within `Word.half`, so that a count below it may be
added to either. -/
structure WithinHalf (t : Tape) : Prop where
  readHead : t.readHead.natAbs < Word.half
  writeHead : t.writeHead.natAbs < Word.half

/-- A `Sound` tape whose limit is at most `maxTapeLength`, whose history is
below `Word.half` and whose floor is not negative. -/
structure Steady (t : Tape) : Prop where
  sound : t.Sound
  limit_le : t.limit ≤ maxTapeLength
  history_lt : t.history < Word.half
  floor_nonneg : 0 ≤ t.floor

/-- Whether a tape is `WithinHalf` is found by comparing both heads. -/
instance (t : Tape) : Decidable t.WithinHalf :=
  decidable_of_iff (t.readHead.natAbs < Word.half ∧ t.writeHead.natAbs < Word.half)
    ⟨fun h => ⟨h.1, h.2⟩, fun h => ⟨h.readHead, h.writeHead⟩⟩

variable {t : Tape}

/-- What is below `Word.half` is at most `Word.maxSigned`. -/
theorem le_maxSigned_of_lt_half {n : Nat} (h : n < Word.half) : n ≤ Word.maxSigned :=
  Nat.le_trans (Nat.le_of_lt h) (by decide)

/-- The sum of two numbers within `Word.half` is a word, `Word.IsSigned`. -/
theorem isSigned_add {m n : Int} (hm : m.natAbs < Word.half) (hn : n.natAbs < Word.half) :
    Word.IsSigned (m + n) := by
  simp only [Word.IsSigned, Word.half, Word.maxSigned] at *
  omega

/-! ### Looking at the row -/

/-- Looking at the row stops nowhere, and shows what the tape shows. `hlast`
says that the end of the stretch fits a word, and `lt_stop_of_mem_dropWhile`
that the search stops at the first clip to be read. -/
theorem Sound.peek?_row (h : t.Sound) {n : Nat} (hn : n ≤ Word.maxSigned)
    (hlast : Word.IsSigned (t.readHead + n)) : t.row.peek? n = some (t.peek n).toList := by
  have hends := h.ordered.partitioned_endsBy t.readHead
  have hahead : Clip.Ordered (t.clips.dropWhile (Clip.endsBy t.readHead)) :=
    h.ordered.sublist (List.dropWhile_sublist _)
  have hreach : ∀ c ∈ t.clips.dropWhile (Clip.endsBy t.readHead), t.readHead < c.stop :=
    fun c hc => Reel.lt_stop_of_mem_dropWhile h.ordered hc
  have hbytes : Clip.bytesFrom t.clips t.readHead n
      = Clip.bytesFrom (t.clips.dropWhile (Clip.endsBy t.readHead)) t.readHead n :=
    Clip.bytesFrom_congr fun p hp _ => (Reel.lookup_dropWhile hp).symm
  rw [h.toList_peek hn, hbytes]
  unfold ClipRow.peek?
  by_cases hzero : n = 0
  · subst hzero
    rfl
  · rw [if_neg hzero]
    simp only [row, Word.signed_natCast hn, Word.checked?_eq hlast, Option.bind_eq_bind,
      Option.bind_some, ← List.head?_drop, drop_partitionPoint hends]
    split
    · next c hcover =>
        -- The clip at the read head covers the stretch.
        obtain ⟨hhead, hinside⟩ := Option.filter_eq_some_iff.mp hcover
        obtain ⟨rest, hclips⟩ := List.head?_eq_some_iff.mp hhead
        obtain ⟨hfirst, hstop⟩ := of_decide_eq_true hinside
        have hlength : (c.block.toList.length : Int) = c.stop - c.start := by
          rw [Block.length_toList, Clip.stop]
          omega
        rw [hclips, Clip.bytesFrom_inside hfirst hstop,
          Clip.stretch?_eq (by omega) (by omega) (by omega), List.drop_take]
        congr 2
        omega
    · exact Clip.fill?_silence hahead hreach n

/-! ### One operation -/

/-- Letting go of history by `releaseHistory?` in the row of a tape is
`Tape.releaseHistory`, if the place from which history is asked for is a word. -/
theorem releaseHistory?_row (t : Tape)
    (h : Word.IsSigned (t.readHead - Word.signed t.history)) :
    t.row.releaseHistory? = some t.releaseHistory.row := by
  have hclips : t.releaseHistory.clips = t.clips.dropWhile (Clip.endsBy t.historyFloor) :=
    Reel.clips_release ..
  unfold ClipRow.releaseHistory? ClipRow.historyFloor?
  simp only [row, Word.checked?_eq h, Option.bind_eq_bind, Option.bind_some, Option.pure_def,
    hclips]
  rfl

/-- Moving the read head by `moveReadHead` parts the clips anew, and changes
none of them. -/
theorem clips_moveReadHead (t : Tape) (position : Int) :
    (t.moveReadHead position).clips = t.clips := by
  unfold moveReadHead clips
  simp only
  split
  · exact Reel.clips_forward ..
  · exact Reel.clips_backward ..

/-- The place from which history is kept is a word: the position is above minus
`Word.half`, and the history is below it. -/
theorem isSigned_historyFloor {position : Int} {history : Nat}
    (hposition : -(Word.half : Int) < position ∧ position ≤ Word.maxSigned)
    (hhistory : history < Word.half) : Word.IsSigned (position - Word.signed history) := by
  rw [Word.signed_natCast (le_maxSigned_of_lt_half hhistory)]
  simp only [Word.IsSigned, Word.half, Word.maxSigned] at *
  omega

/-- Going forward in the row is going forward on the tape. `WithinHalf` leaves
room for the sum of a head and a count, so that nothing wraps. -/
theorem advance?_row (hheads : t.WithinHalf) (hhistory : t.history < Word.half) {n : Nat}
    (hn : n < Word.half) : t.row.advance? n = some (t.advance n).row := by
  have hread := hheads.readHead
  have hword := Word.signed_natCast (le_maxSigned_of_lt_half hn)
  have hsum : Word.IsSigned (t.readHead + Word.signed n) := by
    rw [hword]
    exact isSigned_add hread (by omega)
  have hfloor : Word.IsSigned (t.readHead + Word.signed n - Word.signed t.history) :=
    isSigned_historyFloor ⟨by omega, hsum.2⟩ hhistory
  -- The tape goes on from the same clips, with both heads moved.
  let moved := t.moveReadHead (t.readHead + Word.signed n)
  have hrow : { moved with writeHead := max moved.writeHead moved.readHead : Tape }.row
      = { t.row with
          readHead := t.readHead + Word.signed n
          writeHead := max t.writeHead (t.readHead + Word.signed n) } := by
    rw [row, row, ← t.clips_moveReadHead (t.readHead + Word.signed n)]
    rfl
  unfold ClipRow.advance?
  rw [show t.row.readHead = t.readHead from rfl, Word.checked?_eq hsum, Option.bind_eq_bind,
    Option.bind_some]
  exact hrow ▸ releaseHistory?_row _ hfloor

/-- Going back in the row is going back on the tape, by the same number of
bytes. The row stops at the same `historyFloor`, which it works out in words. -/
theorem Sound.rewind?_row (h : t.Sound) (hheads : t.WithinHalf) (hhistory : t.history < Word.half)
    (n : Nat) : t.row.rewind? n = some (.rewound (t.rewind n).1, (t.rewind n).2.row) := by
  have hread := hheads.readHead
  have habove := h.historyFloor_le
  have holdest : Word.IsSigned (t.readHead - Word.signed t.history) :=
    isSigned_historyFloor ⟨by omega, by simp only [Word.half, Word.maxSigned] at *; omega⟩ hhistory
  have hbelow : t.readHead - t.history ≤ t.historyFloor := by
    rw [historyFloor, Word.signed_natCast (le_maxSigned_of_lt_half hhistory)]
    exact Int.le_max_right ..
  have hfloor : t.row.historyFloor? = some t.historyFloor := by
    unfold ClipRow.historyFloor?
    simp only [row, Word.checked?_eq holdest, Option.bind_eq_bind, Option.bind_some,
      Option.pure_def]
    rfl
  have havailable : Word.IsSigned (t.readHead - t.historyFloor) := by
    simp only [Word.IsSigned, Word.half, Word.maxSigned] at *
    omega
  have hamount : Word.IsSigned
      (t.readHead - (min n (t.readHead - t.historyFloor).toNat : Nat)) := by
    simp only [Word.IsSigned, Word.half, Word.maxSigned] at *
    omega
  unfold ClipRow.rewind?
  rw [hfloor, show t.row.readHead = t.readHead from rfl]
  simp only [Option.bind_eq_bind, Option.bind_some, Word.checked?_eq havailable,
    Word.checked?_eq hamount, Option.pure_def, row, Tape.rewind, clips_moveReadHead]
  rfl

/-- All that lies beyond a position is cleared from there to the end of words,
since no clip of a sound tape reaches beyond its write head. By
`clearRange_eq_erase` and `erase_of_stop_le`, in which the end of the range does
not matter. -/
theorem Sound.clearRange_end (h : t.Sound) (hheads : t.WithinHalf) (position : Int) :
    Clip.clearRange position Word.maxSigned t.clips
      = (t.reel.eraseFrom t.readHead position).clips := by
  have hwrite := hheads.writeHead
  have hstop : ∀ c ∈ t.clips, c.stop ≤ Word.maxSigned := by
    intro c hc
    have := h.written c hc
    simp only [Word.half, Word.maxSigned] at *
    omega
  rw [Clip.clearRange_eq_erase h.ordered, Clip.erase_of_stop_le h.ordered hstop,
    Reel.clips_eraseFrom h.parted]
  rfl

/-- Moving the write head of the row is moving that of the tape. `hlimit` and
`hoffset` keep the place that is asked for, and the farthest one that `limit`
allows, within a word. -/
theorem Sound.seek?_row (h : t.Sound) (hheads : t.WithinHalf) (hlimit : t.limit ≤ maxTapeLength)
    {offset : Int} (hoffset : offset.natAbs < Word.half) (clamp : Bool) :
    t.row.seek? offset clamp = some (t.seek offset clamp).row := by
  have hword : t.limit < Word.half := Nat.lt_of_le_of_lt hlimit (by decide)
  have hlimit := Word.signed_natCast (le_maxSigned_of_lt_half hword)
  have hwanted := isSigned_add hheads.writeHead hoffset
  have hfarthest : Word.IsSigned (t.readHead + t.limit) :=
    isSigned_add hheads.readHead (by omega)
  have hclips : ∀ target, (if target < t.writeHead then
        Clip.clearRange target Word.maxSigned t.clips else t.clips)
      = (if target < t.writeHead then t.reel.eraseFrom t.readHead target else t.reel).clips := by
    intro target
    rw [h.clearRange_end hheads]
    split <;> rfl
  unfold ClipRow.seek?
  simp only [row, hlimit, Word.checked?_eq hwanted, Word.checked?_eq hfarthest,
    Option.bind_eq_bind, Option.bind_some, Option.pure_def]
  let target := (t.seek offset clamp).writeHead
  exact congrArg (fun clips => some { t.row with clips, writeHead := target }) (hclips target)

/-- A `flush` of the row is a `flush` of a `Sound` tape: clearing up to
`Word.maxSigned` erases all that lies from the read head on, since no clip ends
beyond the write head. -/
theorem Sound.flush_row (h : t.Sound) (hheads : t.WithinHalf) (keepHistory : Bool) :
    t.row.flush keepHistory = (t.flush keepHistory).row := by
  cases keepHistory with
  | true =>
      unfold ClipRow.flush
      simp only [row, h.clearRange_end hheads]
      rfl
  | false => rfl

/-- A block is written behind all clips, so that nothing is cleared for it, and
its place is the end of the row. All three answers of `append_cases` come up: a
block that is `unaligned`, an `overflow`, and one that is put on. -/
theorem Steady.append?_row (h : t.Steady) (hheads : t.WithinHalf) {block : Block}
    (hblock : block.size < Word.half) :
    t.row.append? block
      = some ((t.perform (.append block)).1, (t.perform (.append block)).2.row) := by
  have hread := h.floor_nonneg
  have hfloor := h.sound.floor_le
  have hwrite := hheads.writeHead
  have hhead := hheads.readHead
  have hsize := Word.signed_natCast (le_maxSigned_of_lt_half hblock)
  have hlast : Word.IsSigned (t.writeHead + block.size) := isSigned_add hwrite (by omega)
  have hrequested : Word.IsSigned (t.writeHead + block.size - t.readHead) := by
    simp only [Word.IsSigned, Word.half, Word.maxSigned] at *
    omega
  -- All clips end where the block begins, and so come before it.
  have hcleared : Clip.clearRange t.writeHead (t.writeHead + block.size) t.clips = t.clips := by
    have herased := @Clip.erase_append t.writeHead (some (t.writeHead + block.size)) t.clips []
      h.sound.written
    rw [Clip.clearRange_eq_erase h.sound.ordered, ← List.append_nil t.clips, herased]
    rfl
  have hplace : partitionPoint (Clip.startsBefore t.writeHead) t.clips = t.clips.length := by
    refine partitionPoint_of_forall fun c hc => ?_
    have hstop := h.sound.written c hc
    have hnonempty := h.sound.ordered.nonempty c hc
    exact decide_eq_true (by omega)
  have hinsert : ClipRow.insert? t.clips t.clips.length ⟨t.writeHead, block⟩
      = some (t.clips ++ [⟨t.writeHead, block⟩]) := by
    rw [ClipRow.insert?, if_pos (Nat.le_refl _), List.insertIdx_length_self]
  unfold ClipRow.append?
  simp only [perform, Tape.append]
  rw [show t.row.base = t.base from rfl]
  by_cases hframes : block.size % t.base ≠ 0
  · rw [if_pos hframes, if_pos hframes]
  · rw [if_neg hframes, if_neg hframes]
    by_cases hzero : block.size = 0
    · rw [if_pos hzero, if_pos hzero]
    · rw [if_neg hzero, if_neg hzero]
      simp only [row, hsize, Word.checked?_eq hlast, Word.checked?_eq hrequested,
        Option.bind_eq_bind, Option.bind_some, Option.pure_def, hcleared, hplace, hinsert]
      by_cases hover : t.limit < (t.writeHead + block.size - t.readHead).toNat
      · rw [if_pos hover, if_pos hover]
      · have hclips : (t.reel.add t.readHead ⟨t.writeHead, block⟩).clips
            = t.clips ++ [⟨t.writeHead, block⟩] :=
          Reel.clips_add h.sound.parted h.sound.written (by simp only [Clip.stop]; omega)
        rw [if_neg hover, if_neg hover]
        simp only [clips, hclips]

/-! ### Runs -/

/-- Whatever is done to a sound tape whose counts fit a word, it stays sound.
One case for each operation, from the lemmas of `Sound` on it. -/
theorem Sound.perform (h : t.Sound) {operation : TapeOperation} (hfits : operation.FitsWord) :
    (t.perform operation).2.Sound := by
  cases operation with
  | append block =>
      simp only [Tape.perform]
      cases happend : t.append block with
      | ok t' => exact (h.clips_append happend).1
      | error error => exact h
  | advance n => exact (h.advance hfits).1
  | rewind n => exact (h.rewind n).1
  | seek offset clamp => exact (h.seek offset clamp).1
  | flush keepHistory =>
      cases keepHistory with
      | true => exact h.flush
      | false => exact h.discard.1
  | setHistory n => exact (h.setHistory hfits).1

/-- An operation whose counts are `WithinHalf` also `FitsWord`. -/
theorem fitsWord_of_withinHalf {operation : TapeOperation} (h : operation.WithinHalf) :
    operation.FitsWord := by
  cases operation with
  | advance n => exact le_maxSigned_of_lt_half h
  | setHistory n => exact le_maxSigned_of_lt_half h
  | _ => trivial

/-- A new tape is `Steady`, whatever base and limit it is made with. -/
theorem steady_create (base limit : Nat) : (create base limit).Steady where
  sound := (shows_create base limit).sound
  limit_le := Nat.min_le_right ..
  history_lt := (by decide : 0 < Word.half)
  floor_nonneg := Int.le_refl _

/-- Whatever is done to a steady tape with counts below half of a word, it stays
steady. Beside `Sound.perform`, the `history` has to stay below half of a word,
and the `floor` from becoming negative. -/
theorem Steady.perform (h : t.Steady) {operation : TapeOperation} (hcount : operation.WithinHalf) :
    (t.perform operation).2.Steady := by
  have hsound := h.sound.perform (fitsWord_of_withinHalf hcount)
  have hlimit : (t.perform operation).2.limit ≤ maxTapeLength := by
    rw [limit_perform]
    exact h.limit_le
  have hkept : (t.perform operation).2.history < Word.half ∧ 0 ≤ (t.perform operation).2.floor := by
    cases operation with
    | append block =>
        simp only [Tape.perform]
        obtain ⟨-, happend⟩ | ⟨-, -, happend⟩ | ⟨-, -, t', happend, -, -, hhistory, hfloor⟩ :=
          t.append_cases block
        · simpa only [happend] using ⟨h.history_lt, h.floor_nonneg⟩
        · simpa only [happend] using ⟨h.history_lt, h.floor_nonneg⟩
        · simpa only [happend, hhistory, hfloor] using ⟨h.history_lt, h.floor_nonneg⟩
    | flush keepHistory =>
        -- The floor is raised to the read head, where history is given up.
        cases keepHistory with
        | true => exact ⟨h.history_lt, h.floor_nonneg⟩
        | false => exact ⟨h.history_lt, Int.le_trans h.floor_nonneg h.sound.floor_le⟩
    | setHistory n => exact ⟨hcount, h.floor_nonneg⟩
    | _ => exact ⟨h.history_lt, h.floor_nonneg⟩
  exact ⟨hsound, hlimit, hkept.1, hkept.2⟩

/-- Each operation does the same to a tape and to its row, and stops nowhere,
one case for each `TapeOperation`. -/
theorem Steady.perform?_row (h : t.Steady) (hheads : t.WithinHalf) {operation : TapeOperation}
    (hcount : operation.WithinHalf) :
    t.row.perform? operation = some ((t.perform operation).1, (t.perform operation).2.row) := by
  cases operation with
  | append block => exact h.append?_row hheads hcount
  | advance n =>
      simp only [ClipRow.perform?, advance?_row hheads h.history_lt hcount]
      rfl
  | rewind n => exact h.sound.rewind?_row hheads h.history_lt n
  | seek offset clamp =>
      simp only [ClipRow.perform?, h.sound.seek?_row hheads h.limit_le hcount clamp]
      rfl
  | flush keepHistory =>
      simp only [ClipRow.perform?, h.sound.flush_row hheads keepHistory]
      rfl
  | setHistory n =>
      have hread := hheads.readHead
      have hfloor : Word.IsSigned (t.readHead - Word.signed n) :=
        isSigned_historyFloor ⟨by omega, by simp only [Word.half, Word.maxSigned] at *; omega⟩
          hcount
      have hrelease := releaseHistory?_row { t with history := n } hfloor
      simp only [ClipRow.perform?]
      exact congrArg (fun r? : Option ClipRow => do return (TapeAnswer.done, ← r?)) hrelease

/-- A run does the same to a tape and to its row, by induction on the
operations. `hheads` asks for heads within half of a word before each of them. -/
theorem Steady.run (h : t.Steady) {operations : List TapeOperation}
    (hcounts : ∀ operation ∈ operations, operation.WithinHalf)
    (hheads : ∀ k, (t.run (operations.take k)).2.WithinHalf) :
    (t.run operations).2.Steady
      ∧ t.row.run? operations = some ((t.run operations).1, (t.run operations).2.row) := by
  induction operations generalizing t with
  | nil => exact ⟨h, rfl⟩
  | cons operation rest ih =>
      obtain ⟨hcount, hcounts⟩ := List.forall_mem_cons.mp hcounts
      have hfirst := h.perform?_row (hheads 0) hcount
      obtain ⟨hend, hrest⟩ := ih (h.perform hcount) hcounts fun k => hheads (k + 1)
      refine ⟨hend, ?_⟩
      simp only [ClipRow.run?, hfirst, hrest, Option.bind_eq_bind, Option.bind_some]
      rfl

/-- A new tape goes through any run, in which all counts (`hcounts`) and both
heads (`hheads`) stay below half of what a word reaches. Then no clip is empty,
each begins behind the end of the one before, all end at the write head or
before, and the floor is not above the read head. The `ClipRow` that keeps its
clips in one list, finds its places by bisection and checks every word and bound
goes through the same run, gives the same answers and ends as the row of the
tape (`Tape.row`). Looking at it shows the same bytes, and clearing a range in
it (`Clip.clearRange`) empties that range and no more. -/
theorem clips_in_place (base limit : Nat) {operations : List TapeOperation}
    (hcounts : ∀ operation ∈ operations, operation.WithinHalf)
    (hheads : ∀ k, ((create base limit).run (operations.take k)).2.WithinHalf) :
    let (answers, t) := (create base limit).run operations
    (∀ c ∈ t.clips, c.start < c.stop ∧ c.stop ≤ t.writeHead)
      ∧ t.clips.Pairwise (fun a b => a.start < b.start ∧ a.stop ≤ b.start)
      ∧ t.floor ≤ t.readHead
      ∧ (ClipRow.create base limit).run? operations = some (answers, t.row)
      ∧ (∀ n < Word.half, t.row.peek? n = some (t.peek n).toList ∧ (t.peek n).size = n)
      ∧ ∀ first last,
          let cleared := Clip.clearRange first last t.row.clips
          (first ≤ last → Clip.Ordered cleared)
            ∧ ∀ position, Clip.lookup cleared position
                = if first ≤ position ∧ position < last then none
                  else Clip.lookup t.clips position := by
  obtain ⟨hsteady, hrun⟩ := (steady_create base limit).run hcounts hheads
  have hsound := hsteady.sound
  -- All operations are a beginning of the operations, too.
  have hlast : ((create base limit).run operations).2.WithinHalf := by
    simpa using hheads operations.length
  refine ⟨fun c hc => ⟨hsound.ordered.nonempty c hc, hsound.written c hc⟩, ?_, hsound.floor_le,
    hrun, fun n hn => ?_, fun first last => ?_⟩
  · refine hsound.ordered.apart.imp_of_mem fun {a b} ha _ hab => ⟨?_, hab⟩
    exact Int.lt_of_lt_of_le (hsound.ordered.nonempty a ha) hab
  · have hword := le_maxSigned_of_lt_half hn
    exact ⟨hsound.peek?_row hword (isSigned_add hlast.readHead (by omega)), hsound.size_peek hword⟩
  · have hcleared := Clip.clearRange_eq_erase hsound.ordered first last
    refine ⟨fun hle => ?_, fun position => ?_⟩
    · show Clip.Ordered (Clip.clearRange _ _ (clips _))
      rw [hcleared]
      exact Clip.ordered_erase hsound.ordered (by simpa using hle)
    · show Clip.lookup (Clip.clearRange _ _ (clips _)) position = _
      rw [hcleared, Clip.lookup_erase hsound.ordered]
      simp

/-- The write head goes back behind the read head, and what is put on from there
begins in the middle of a clip and ends beyond the read head. Of the six bytes
of one clip, the two in the middle are then cleared. The hypotheses of
`clips_in_place` are met. -/
theorem clips_in_place_trial :
    let operations : List TapeOperation :=
      [.setHistory 4, .append (.ofBytes ⟨#[1, 2, 3, 4, 5, 6]⟩), .advance 4, .seek (-4) false,
        .append (.ofBytes ⟨#[7, 8, 9, 10, 11, 12]⟩), .seek 2 false, .append (.ofBytes ⟨#[13, 14]⟩)]
    let t := ((create 2 8).run operations).2
    t.clips.map (fun c => (c.start, c.block.toList))
        = [(0, [1, 2]), (2, [7, 8, 9, 10, 11, 12]), (10, [13, 14])]
      ∧ t.row.peek? 8 = some [9, 10, 11, 12, 0, 0, 13, 14]
      ∧ Clip.Ordered (Clip.clearRange 4 6 t.row.clips)
      ∧ Clip.lookup (Clip.clearRange 4 6 t.row.clips) 5 = none
      ∧ Clip.lookup (Clip.clearRange 4 6 t.row.clips) 6 = some 11 := by
  intro operations t
  have hcounts : ∀ operation ∈ operations, operation.WithinHalf := by
    intro operation hmem
    simp only [operations, List.mem_cons, List.not_mem_nil, or_false] at hmem
    rcases hmem with rfl | rfl | rfl | rfl | rfl | rfl | rfl
    all_goals exact @Nat.lt_of_lt_of_le _ 8 _ (by decide) (by decide)
  have hheads : ∀ k, ((create 2 8).run (operations.take k)).2.WithinHalf := by
    have hfew : ∀ k < 8, ((create 2 8).run (operations.take k)).2.WithinHalf := by decide +kernel
    intro k
    by_cases hk : k < 8
    · exact hfew k hk
    · have hall : operations.length ≤ k := Nat.le_trans (by decide) (Nat.le_of_not_lt hk)
      rw [List.take_of_length_le hall]
      exact hfew 7 (by decide)
  obtain ⟨-, -, -, -, hpeek, hclear⟩ := clips_in_place 2 8 hcounts hheads
  obtain ⟨hordered, hlookup⟩ := hclear 4 6
  exact ⟨by decide +kernel, (hpeek 8 (by decide)).1.trans (by decide +kernel),
    hordered (by decide), (hlookup 5).trans (if_pos (by decide)),
    (hlookup 6).trans (by decide +kernel)⟩

end Tape

end EchoAlign
