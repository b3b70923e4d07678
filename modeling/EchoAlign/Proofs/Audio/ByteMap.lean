import EchoAlign.Audio.TapeRun
import EchoAlign.Proofs.Audio.Tape

/-!
# `EchoAlign.Proofs.Audio.ByteMap`: a tape is a map of bytes and two heads

A `ByteMap` is what a tape stands for: a byte, or none, at every position,
and two heads. Putting a block on writes at the write head, a write head
that goes back erases what lies beyond it, and throwing audio away erases
it. There are no clips, no reel, and nothing is ever let go of. Instead,
the map remembers the `horizon?`, the highest position up to which the
tape may have let go of history.

* `peek_eq_bytes`: after any run, a tape shows the bytes of the map that
  went through the same run, with silence where the map has none. Only
  below the horizon nothing is said.
* `Shows.perform`: one operation keeps both side by side.
-/

set_option autoImplicit false

namespace EchoAlign

/-- A byte at some positions, a read head and a write head. It has no clips:
this is what a `Tape` is measured by. -/
structure ByteMap where
  /-- Bytes per frame. -/
  base : Nat
  /-- The most bytes that may lie between the heads. -/
  limit : Nat
  /-- How many bytes behind the read head are asked for. -/
  history : Nat
  bytes : Int → Option UInt8
  readHead : Int
  writeHead : Int
  /-- The read head never goes back below this position. -/
  floor : Int
  /-- Below this position, history was given up. -/
  horizon? : Option Int

namespace ByteMap

/-- No bytes, and both heads at the beginning, with the same bounds as in
`Tape.create`. -/
def create (base limit : Nat) : ByteMap :=
  { base := max base 1
    limit := min limit maxTapeLength
    history := 0
    bytes := fun _ => none
    readHead := 0
    writeHead := 0
    floor := 0
    horizon? := none }

/-- The lowest position the read head may go back to, as the floor and the
`history` that is asked for allow it. -/
def historyFloor (m : ByteMap) : Int := max m.floor (m.readHead - m.history)

/-- Whether the history at a position was never given up: the `horizon?` is not
above it. -/
def Keeps (m : ByteMap) (position : Int) : Prop :=
  ∀ horizon, m.horizon? = some horizon → horizon ≤ position

/-- Gives up the history below a position, for good: `horizon?` only rises. -/
def giveUp (m : ByteMap) (position : Int) : ByteMap :=
  { m with
    horizon? := match m.horizon? with
      | none => some position
      | some horizon => some (max horizon position) }

/-- The `bytes` of a map without those from the position `first` on, as
`Tape.seek` and `Tape.flush` erase them. -/
def erasedFrom (m : ByteMap) (first position : Int) : Option UInt8 :=
  if first ≤ position then none else m.bytes position

/-- The `bytes` of a map with a block written from `writeHead` on, over what was
there. -/
def written (m : ByteMap) (block : List UInt8) (position : Int) : Option UInt8 :=
  if m.writeHead ≤ position ∧ position < m.writeHead + block.length then
    block[(position - m.writeHead).toNat]?
  else m.bytes position

/-- Writes a block of whole frames at the write head, if there is room for it.
The two errors are those of `Tape.append`. -/
def append (m : ByteMap) (block : Block) : TapeAnswer × ByteMap :=
  let last := m.writeHead + block.size
  let requested := (last - m.readHead).toNat
  if block.size % m.base ≠ 0 then (.refused (.unaligned block.size m.base), m)
  else if 0 < block.size ∧ m.limit < requested then (.refused (.overflow requested m.limit), m)
  else (.done, { m with bytes := m.written block.toList, writeHead := last })

/-- Moves `readHead` forward, and `writeHead` if it is passed, and gives up the
history below `historyFloor`, as `Tape.advance` does with its clips. -/
def advance (m : ByteMap) (n : Nat) : ByteMap :=
  let m := { m with readHead := m.readHead + n, writeHead := max m.writeHead (m.readHead + n) }
  m.giveUp m.historyFloor

/-- Moves `readHead` back, but not below `historyFloor`, and answers by how many
bytes it went. -/
def rewind (m : ByteMap) (n : Nat) : TapeAnswer × ByteMap :=
  let amount := min n (m.readHead - m.historyFloor).toNat
  (.rewound amount, { m with readHead := m.readHead - amount })

/-- Moves `writeHead` by an offset, not below `readHead` if `clamp` says so and
never beyond the `limit`, and erases from its new place on if it went back. -/
def seek (m : ByteMap) (offset : Int) (clamp : Bool) : ByteMap :=
  let wanted := if clamp then max (m.writeHead + offset) m.readHead else m.writeHead + offset
  let target := min wanted (m.readHead + m.limit)
  { m with
    bytes := if target < m.writeHead then m.erasedFrom target else m.bytes
    writeHead := target }

/-- Erases from `readHead` on if the history is kept. Otherwise it erases
everything, raises the `floor` to `readHead` and gives up all history. -/
def flush (m : ByteMap) (keepHistory : Bool) : ByteMap :=
  if keepHistory then { m with bytes := m.erasedFrom m.readHead, writeHead := m.readHead }
  else
    { m with
      bytes := fun _ => none
      writeHead := m.readHead
      floor := m.readHead }.giveUp m.readHead

/-- Asks for another amount of `history`, and gives up what lies below the new
`historyFloor`. -/
def setHistory (m : ByteMap) (n : Nat) : ByteMap :=
  let m := { m with history := n }
  m.giveUp m.historyFloor

/-- Does one thing, with one function for each `TapeOperation`. -/
def perform (m : ByteMap) : TapeOperation → TapeAnswer × ByteMap
  | .append block => m.append block
  | .advance bytes => (.done, m.advance bytes)
  | .rewind bytes => m.rewind bytes
  | .seek offset clamp => (.done, m.seek offset clamp)
  | .flush keepHistory => (.done, m.flush keepHistory)
  | .setHistory bytes => (.done, m.setHistory bytes)

/-- Does operations one after another by `perform`, and collects the answers in
order. -/
def run (m : ByteMap) : List TapeOperation → List TapeAnswer × ByteMap
  | [] => ([], m)
  | operation :: rest =>
      let (answer, m) := m.perform operation
      let (later, m) := run m rest
      (answer :: later, m)

/-! ### What the operations do to the map -/

/-- History that was not given up now was not given up before. A position that
the map `Keeps` after `giveUp` was kept before it, and does not lie below
`first`. -/
theorem Keeps.of_giveUp {m : ByteMap} {first position : Int}
    (h : (m.giveUp first).Keeps position) : first ≤ position ∧ m.Keeps position := by
  unfold Keeps giveUp at h
  cases hm : m.horizon? with
  | none =>
      rw [hm] at h
      exact ⟨h first rfl, fun horizon heq => by rw [hm] at heq; cases heq⟩
  | some horizon =>
      rw [hm] at h
      have hmax := h (max horizon first) rfl
      refine ⟨by omega, fun horizon' heq => ?_⟩
      rw [hm] at heq
      cases heq
      omega

/-- A write head that goes back erases, and one that goes forward changes
nothing. The `writeHead` that stands here is the one after `seek`, cut to
`limit` as it is in `Tape.seek`. -/
theorem bytes_seek (m : ByteMap) (offset : Int) (clamp : Bool) (position : Int) :
    (m.seek offset clamp).bytes position
      = if (m.seek offset clamp).writeHead < m.writeHead
          ∧ (m.seek offset clamp).writeHead ≤ position then none
        else m.bytes position := by
  obtain ⟨target, htarget⟩ : ∃ target, target = (m.seek offset clamp).writeHead := ⟨_, rfl⟩
  have herased : (m.seek offset clamp).bytes
      = if target < m.writeHead then m.erasedFrom target else m.bytes := by
    rw [htarget]
    rfl
  rw [← htarget, herased]
  by_cases hback : target < m.writeHead
  · rw [if_pos hback]
    simp only [erasedFrom, hback, true_and]
  · rw [if_neg hback, if_neg fun hin => hback hin.1]

end ByteMap

/-- A tape counts in words how much history to keep, and how far to go forward.
These are the counts that `Word.signed` would otherwise read as negative. -/
def TapeOperation.FitsWord : TapeOperation → Prop
  | advance n => n ≤ Word.maxSigned
  | setHistory n => n ≤ Word.maxSigned
  | _ => True

namespace Tape

/-- A tape stands for a map: it is `Sound`, has the same counts and heads, and
`Clip.lookup` finds the bytes of the map at every position where the map `Keeps`
its history. -/
structure Shows (t : Tape) (m : ByteMap) : Prop where
  sound : t.Sound
  base_eq : t.base = m.base
  limit_eq : t.limit = m.limit
  history_eq : t.history = m.history
  readHead_eq : t.readHead = m.readHead
  writeHead_eq : t.writeHead = m.writeHead
  floor_eq : t.floor = m.floor
  bytes_eq : ∀ position, m.Keeps position → Clip.lookup t.clips position = m.bytes position

variable {t : Tape} {m : ByteMap}

/-- A tape that `Shows` a map keeps history from the same position as the map
does. -/
theorem Shows.historyFloor_eq (h : t.Shows m) : t.historyFloor = m.historyFloor := by
  unfold historyFloor ByteMap.historyFloor
  rw [Word.signed_natCast h.sound.history_le, h.history_eq, h.readHead_eq, h.floor_eq]

/-- A new tape `Shows` the empty map of the same base and limit. -/
theorem shows_create (base limit : Nat) :
    (create base limit).Shows (ByteMap.create base limit) where
  sound := sound_create base limit (Nat.zero_le _)
  base_eq := rfl
  limit_eq := rfl
  history_eq := rfl
  readHead_eq := rfl
  writeHead_eq := rfl
  floor_eq := rfl
  bytes_eq _ _ := rfl

/-- A clip that is put behind all others is written over nothing, and beside it
the tape holds what it held. No clip of a `Sound` tape reaches beyond its
`writeHead`, so that `Clip.lookup` finds nothing from there on. -/
theorem Sound.lookup_written (h : t.Sound) (block : Block) (position : Int) :
    (Clip.lookup t.clips position).or ((⟨t.writeHead, block⟩ : Clip).byteAt? position)
      = if t.writeHead ≤ position ∧ position < t.writeHead + block.toList.length then
          block.toList[(position - t.writeHead).toNat]?
        else Clip.lookup t.clips position := by
  rw [Block.length_toList]
  by_cases hstart : t.writeHead ≤ position
  · -- No clip reaches beyond the write head.
    have hnone : Clip.lookup t.clips position = none :=
      Clip.lookup_eq_none fun c hc => Or.inl (Int.le_trans (h.written c hc) hstart)
    by_cases hstop : position < t.writeHead + block.size
    · rw [hnone, Option.none_or, if_pos ⟨hstart, hstop⟩, Clip.byteAt?_of_mem hstart]
    · rw [if_neg fun hin => hstop hin.2, Clip.byteAt?_of_ge (Int.not_lt.mp hstop), Option.or_none]
  · rw [if_neg fun hin => hstart hin.1, Clip.byteAt?_of_lt (Int.not_le.mp hstart), Option.or_none]

/-- Putting a block on a tape is writing it on the map: the same answer, and the
tape stands for the map again. The three cases are those of `append_cases`. -/
theorem Shows.append (h : t.Shows m) (block : Block) :
    (t.perform (.append block)).1 = (m.append block).1
      ∧ (t.perform (.append block)).2.Shows (m.append block).2 := by
  unfold perform ByteMap.append
  rw [← h.base_eq, ← h.limit_eq, ← h.readHead_eq, ← h.writeHead_eq]
  simp only
  obtain ⟨hframes, happend⟩ | ⟨hframes, hover, happend⟩
    | ⟨hframes, hroom, t', happend, hbase, hlimit, hhistory, hfloor⟩ := t.append_cases block
  · rw [if_pos hframes, happend]
    exact ⟨rfl, h⟩
  · rw [if_neg (Decidable.not_not.mpr hframes), if_pos hover, happend]
    exact ⟨rfl, h⟩
  · obtain ⟨hsound, hread, hwrite, hlookup⟩ := h.sound.clips_append happend
    rw [if_neg (Decidable.not_not.mpr hframes), if_neg hroom, happend]
    refine ⟨rfl, hsound, hbase, hlimit, hhistory.trans h.history_eq, hread, hwrite,
      hfloor.trans h.floor_eq, ?_⟩
    intro position hkeeps
    rw [hlookup position, h.sound.lookup_written, h.bytes_eq position hkeeps, h.writeHead_eq]
    rfl

/-- Going forward on a tape is going forward on the map. Clips below
`historyFloor` are let go of by the tape, and given up by the map with `giveUp`,
so that `Shows` says nothing of them. -/
theorem Shows.advance (h : t.Shows m) {n : Nat} (hn : n ≤ Word.maxSigned) :
    (t.advance n).Shows (m.advance n) := by
  obtain ⟨hsound, hread, hwrite, hlookup⟩ := h.sound.advance hn
  have hread' : (t.advance n).readHead = m.readHead + n := by
    rw [hread, h.readHead_eq]
  have hfloor : (t.advance n).historyFloor
      = ({ m with
          readHead := m.readHead + n
          writeHead := max m.writeHead (m.readHead + n) } : ByteMap).historyFloor := by
    unfold historyFloor ByteMap.historyFloor
    rw [Word.signed_natCast hsound.history_le, hread']
    show max t.floor (_ - (t.history : Int)) = _
    rw [h.floor_eq, h.history_eq]
  refine ⟨hsound, h.base_eq, h.limit_eq, h.history_eq, hread', ?_, h.floor_eq, ?_⟩
  · rw [hwrite, h.writeHead_eq, h.readHead_eq]
    rfl
  · intro position hkeeps
    -- What the tape lets go of lies below the new horizon.
    obtain ⟨hle, hbefore⟩ := hkeeps.of_giveUp
    rw [hlookup position (hfloor ▸ hle)]
    exact h.bytes_eq position hbefore

/-- Going back on a tape is going back on the map, by the same number of bytes.
Neither changes what it holds, and `historyFloor` is the same in both. -/
theorem Shows.rewind (h : t.Shows m) (n : Nat) :
    TapeAnswer.rewound (t.rewind n).1 = (m.rewind n).1
      ∧ (t.rewind n).2.Shows (m.rewind n).2 := by
  obtain ⟨hsound, hclips, hread⟩ := h.sound.rewind n
  have hamount : (t.rewind n).1 = min n (m.readHead - m.historyFloor).toNat := by
    show min n (t.readHead - t.historyFloor).toNat = _
    rw [h.readHead_eq, h.historyFloor_eq]
  refine ⟨congrArg TapeAnswer.rewound hamount, hsound, h.base_eq, h.limit_eq, h.history_eq, ?_,
    h.writeHead_eq, h.floor_eq, ?_⟩
  · rw [hread, hamount, h.readHead_eq]
    rfl
  · intro position hkeeps
    rw [hclips]
    exact h.bytes_eq position hkeeps

/-- A `seek` of the tape `Shows` what a `seek` of the map leaves: both erase
from the new place on if the write head went back. -/
theorem Shows.seek (h : t.Shows m) (offset : Int) (clamp : Bool) :
    (t.seek offset clamp).Shows (m.seek offset clamp) := by
  obtain ⟨hsound, hread, hlookup⟩ := h.sound.seek offset clamp
  have hwrite : (t.seek offset clamp).writeHead = (m.seek offset clamp).writeHead := by
    unfold Tape.seek ByteMap.seek
    rw [h.writeHead_eq, h.readHead_eq, h.limit_eq]
  refine ⟨hsound, h.base_eq, h.limit_eq, h.history_eq, hread.trans h.readHead_eq, hwrite,
    h.floor_eq, ?_⟩
  intro position hkeeps
  rw [hlookup position, m.bytes_seek, hwrite, h.writeHead_eq, h.bytes_eq position hkeeps]

/-- A flush of a tape is a flush of the map. With `keepHistory` the history
stays, and without it both give up all that lies below `readHead`. -/
theorem Shows.flush (h : t.Shows m) (keepHistory : Bool) :
    (t.flush keepHistory).Shows (m.flush keepHistory) := by
  cases keepHistory with
  | true =>
      refine ⟨h.sound.flush, h.base_eq, h.limit_eq, h.history_eq, h.readHead_eq, h.readHead_eq,
        h.floor_eq, ?_⟩
      intro position hkeeps
      rw [h.sound.lookup_flush, h.readHead_eq, h.bytes_eq position hkeeps]
      rfl
  | false =>
      obtain ⟨hsound, hclips⟩ := h.sound.discard
      refine ⟨hsound, h.base_eq, h.limit_eq, h.history_eq, h.readHead_eq, h.readHead_eq,
        h.readHead_eq, ?_⟩
      intro position _
      rw [hclips]
      rfl

/-- Asking a tape for history by `setHistory` `Shows` what asking the map
leaves, if the amount is a word. -/
theorem Shows.setHistory (h : t.Shows m) {n : Nat} (hn : n ≤ Word.maxSigned) :
    (t.setHistory n).Shows (m.setHistory n) := by
  obtain ⟨hsound, hlookup⟩ := h.sound.setHistory hn
  have hfloor : (t.setHistory n).historyFloor = ({ m with history := n } : ByteMap).historyFloor := by
    show max t.floor (t.readHead - Word.signed n) = max m.floor (m.readHead - n)
    rw [Word.signed_natCast hn, h.floor_eq, h.readHead_eq]
  refine ⟨hsound, h.base_eq, h.limit_eq, rfl, h.readHead_eq, h.writeHead_eq, h.floor_eq, ?_⟩
  intro position hkeeps
  obtain ⟨hle, hbefore⟩ := hkeeps.of_giveUp
  rw [hlookup position (hfloor ▸ hle)]
  exact h.bytes_eq position hbefore

/-- Whatever is done to both, they answer the same, and the tape goes on to
stand for the map. One case for each `TapeOperation`. -/
theorem Shows.perform (h : t.Shows m) {operation : TapeOperation} (hfits : operation.FitsWord) :
    (t.perform operation).1 = (m.perform operation).1
      ∧ (t.perform operation).2.Shows (m.perform operation).2 := by
  cases operation with
  | append block => exact h.append block
  | advance n => exact ⟨rfl, h.advance hfits⟩
  | rewind n => exact h.rewind n
  | seek offset clamp => exact ⟨rfl, h.seek offset clamp⟩
  | flush keepHistory => exact ⟨rfl, h.flush keepHistory⟩
  | setHistory n => exact ⟨rfl, h.setHistory hfits⟩

/-- A run on a tape is a run on the map, by induction on the operations with
`Shows.perform`. -/
theorem Shows.run (h : t.Shows m) {operations : List TapeOperation}
    (hfits : ∀ operation ∈ operations, operation.FitsWord) :
    (t.run operations).1 = (m.run operations).1
      ∧ (t.run operations).2.Shows (m.run operations).2 := by
  induction operations generalizing t m with
  | nil => exact ⟨rfl, h⟩
  | cons operation rest ih =>
      obtain ⟨hfirst, hrest⟩ := List.forall_mem_cons.mp hfits
      obtain ⟨hanswer, hnext⟩ := h.perform hfirst
      obtain ⟨hanswers, hend⟩ := ih hnext hrest
      refine ⟨?_, hend⟩
      simp only [Tape.run, ByteMap.run, hanswer, hanswers]

/-- Looking at the tape shows the bytes of the map, with silence where it has
none, wherever the map `Keeps` the history. -/
theorem Shows.getElem?_peek (h : t.Shows m) {n i : Nat} (hn : n ≤ Word.maxSigned) (hi : i < n)
    (hkeeps : m.Keeps (m.readHead + i)) :
    (t.peek n).toList[i]? = some ((m.bytes (m.readHead + i)).getD 0) := by
  rw [h.sound.toList_peek hn, Clip.getElem?_bytesFrom, if_pos hi, h.readHead_eq,
    h.bytes_eq _ hkeeps]

/-- A block that `perform` answers with `refused` leaves the tape as it is. -/
theorem perform_of_refused (t : Tape) {block : Block} {error : QueueError}
    (h : (t.perform (.append block)).1 = .refused error) :
    (t.perform (.append block)).2 = t := by
  simp only [perform] at h ⊢
  cases happend : t.append block with
  | ok t' =>
      rw [happend] at h
      cases h
  | error e => rfl

/-- After any run of a new `Tape` whose counts fit a word (`FitsWord`), it
answers what the `ByteMap` answers that went through the same run, and its heads
are where those of the map are. It shows as many bytes as it is asked for, and
they are the bytes of the map, with silence where it has none, wherever history
was not given up (`ByteMap.Keeps`). A block that is refused changes nothing. -/
theorem peek_eq_bytes (base limit : Nat) {operations : List TapeOperation}
    (hfits : ∀ operation ∈ operations, operation.FitsWord) :
    let tape := (create base limit).run operations
    let map := (ByteMap.create base limit).run operations
    tape.1 = map.1
      ∧ tape.2.readHead = map.2.readHead
      ∧ tape.2.writeHead = map.2.writeHead
      ∧ (∀ n ≤ Word.maxSigned, (tape.2.peek n).toList.length = n
          ∧ ∀ i < n, map.2.Keeps (map.2.readHead + i) →
              (tape.2.peek n).toList[i]? = some ((map.2.bytes (map.2.readHead + i)).getD 0))
      ∧ ∀ block error, (tape.2.perform (.append block)).1 = .refused error →
          (tape.2.perform (.append block)).2 = tape.2 := by
  intro tape map
  obtain ⟨hanswers, hshows⟩ := (shows_create base limit).run hfits
  refine ⟨hanswers, hshows.readHead_eq, hshows.writeHead_eq, ?_, fun block error hrefused =>
    tape.2.perform_of_refused hrefused⟩
  intro n hn
  refine ⟨?_, fun i hi hkeeps => hshows.getElem?_peek hn hi hkeeps⟩
  rw [hshows.sound.toList_peek hn, Clip.length_bytesFrom]

/-- All six operations, with a block of half a frame and one for which there is
no room. The hypotheses of `peek_eq_bytes` are met, and the answers, the two
heads and the bytes are evaluated on both sides. -/
theorem peek_eq_bytes_trial :
    let operations : List TapeOperation :=
      [.setHistory 4, .append (.ofBytes ⟨#[1, 2, 3, 4, 5, 6]⟩), .append (.ofBytes ⟨#[7]⟩),
        .advance 4, .seek (-2) true, .append (.ofBytes ⟨#[7, 8, 9, 10]⟩), .flush true,
        .seek 2 false, .append (.ofBytes ⟨#[11, 12]⟩), .rewind 2, .append (.silence 4)]
    let tape := (create 2 8).run operations
    let map := (ByteMap.create 2 8).run operations
    tape.1 = [.done, .done, .refused (.unaligned 1 2), .done, .done, .done, .done, .done, .done,
        .rewound 2, .refused (.overflow 10 8)]
      ∧ (tape.2.peek 8).toList = [3, 4, 0, 0, 11, 12, 0, 0]
      ∧ (List.range 8).map (fun i : Nat => map.2.bytes (map.2.readHead + i))
        = [some 3, some 4, none, none, some 11, some 12, none, none]
      ∧ tape.1 = map.1
      ∧ ∀ i : Nat, i < 8 → map.2.Keeps (map.2.readHead + i) →
          (tape.2.peek 8).toList[i]? = some ((map.2.bytes (map.2.readHead + i)).getD 0) := by
  intro operations tape map
  have hfits : ∀ operation ∈ operations, operation.FitsWord := by
    intro operation hmem
    simp only [operations, List.mem_cons, List.not_mem_nil, or_false] at hmem
    rcases hmem with rfl | rfl | rfl | rfl | rfl | rfl | rfl | rfl | rfl | rfl | rfl
    all_goals first | trivial | exact Nat.le_of_lt_succ (by decide)
  obtain ⟨hanswers, -, -, hpeek, -⟩ := peek_eq_bytes 2 8 hfits
  exact ⟨by decide +kernel, by decide +kernel, by decide +kernel, hanswers,
    (hpeek 8 (by decide)).2⟩

end Tape

end EchoAlign
