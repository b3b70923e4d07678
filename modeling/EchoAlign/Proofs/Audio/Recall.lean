import EchoAlign.Proofs.Audio.ByteMap

/-!
# `EchoAlign.Proofs.Audio.Recall`: what a rewind brings back

A read head that goes back comes to bytes that were read before. The tape
bounds a rewind by the history behind the place where the read head stands
now. It has let go of history by the places where the read head stood
earlier, and these may have lain further ahead. After one rewind, a second
one can come to a place whose clips are gone.

`Tape.heard` notes, during a run, which byte was read at each position.

* `rewind_recalls`: whatever was done before, each byte that a rewind
  brings back was read before. It is the byte that was last written there
  wherever history was not given up, and elsewhere that byte or silence.
  Up to the first rewind, no history is given up that could be asked for.
* `rewind_silences`: two rewinds in a row bring back silence where audio
  was read.
-/

set_option autoImplicit false

namespace EchoAlign

namespace TapeOperation

/-- An operation of this kind does not write over what was read: a `seek` that
goes back stops at the read head, and every other operation writes at the write
head. -/
def Clamps : TapeOperation → Prop
  | seek _ clamp => clamp = true
  | _ => True

/-- The read head does not go back, and the history that is asked for stays: any
operation but `rewind` and `setHistory`. -/
def IsForward : TapeOperation → Prop
  | rewind _ => False
  | setHistory _ => False
  | _ => True

end TapeOperation

namespace ByteMap

variable {m : ByteMap} {position : Int}

/-- History that a map `Keeps` at a position is kept further on. -/
theorem Keeps.mono {position' : Int} (h : m.Keeps position) (hle : position ≤ position') :
    m.Keeps position' := fun horizon hhorizon => Int.le_trans (h horizon hhorizon) hle

/-- Giving up history below a position keeps it from there on. A map that gave
up less before, or nothing, has `first` as its new horizon, and one that gave up
more keeps its own. -/
theorem keeps_giveUp {first : Int} (h : m.Keeps position) (hfirst : first ≤ position) :
    (m.giveUp first).Keeps position := by
  intro horizon hhorizon
  unfold giveUp at hhorizon
  cases hbefore : m.horizon? with
  | none =>
      rw [hbefore] at hhorizon
      cases hhorizon
      exact hfirst
  | some earlier =>
      rw [hbefore] at hhorizon
      cases hhorizon
      have := h earlier hbefore
      omega

/-- No history that can be asked for now was given up: the map `Keeps` its
`historyFloor`. -/
structure Retains (m : ByteMap) : Prop where
  floor_le : m.floor ≤ m.readHead
  keeps : m.Keeps m.historyFloor

/-- As long as the read head goes forward, history is given up below what can be
asked for. The horizon of `giveUp` is the `historyFloor` of an earlier time, and
this only rises while operations are `IsForward`. -/
theorem Retains.perform (h : m.Retains) {operation : TapeOperation}
    (hforward : operation.IsForward) : (m.perform operation).2.Retains := by
  have hfloor := h.floor_le
  cases operation with
  | append block =>
      show (m.append block).2.Retains
      unfold append
      simp only
      split
      · exact h
      · split
        · exact h
        · exact ⟨h.floor_le, h.keeps⟩
  | advance n =>
      have hrises : m.historyFloor ≤ (m.advance n).historyFloor := by
        show max m.floor (m.readHead - m.history) ≤ max m.floor (m.readHead + n - m.history)
        omega
      refine ⟨?_, keeps_giveUp (h.keeps.mono hrises) (Int.le_refl _)⟩
      show m.floor ≤ m.readHead + n
      omega
  | rewind n => exact hforward.elim
  | seek offset clamp => exact ⟨h.floor_le, h.keeps⟩
  | flush keepHistory =>
      cases keepHistory with
      | true => exact ⟨h.floor_le, h.keeps⟩
      | false =>
          -- There is no history left to ask for.
          have hnew : (m.flush false).historyFloor = m.readHead := by
            show max m.readHead (m.readHead - m.history) = m.readHead
            omega
          have hrises : m.historyFloor ≤ m.readHead := by
            unfold historyFloor
            omega
          refine ⟨Int.le_refl _, ?_⟩
          show (m.flush false).Keeps (m.flush false).historyFloor
          rw [hnew]
          exact keeps_giveUp (h.keeps.mono hrises) (Int.le_refl _)
  | setHistory n => exact hforward.elim

/-- Any run of forward operations keeps the map `Retains`: history is given up
only below what can still be asked for. -/
theorem Retains.run (h : m.Retains) {operations : List TapeOperation}
    (hforward : ∀ operation ∈ operations, operation.IsForward) :
    (m.run operations).2.Retains := by
  induction operations generalizing m with
  | nil => exact h
  | cons operation rest ih =>
      obtain ⟨hfirst, hrest⟩ := List.forall_mem_cons.mp hforward
      exact ih (h.perform hfirst) hrest

/-- Once `setHistory` says how much history is kept, a run of forward operations
keeps the map `Retains`, up to the first rewind. -/
theorem retains_run (base limit : Nat) {operations rest : List TapeOperation} {history : Nat}
    (hrun : operations = .setHistory history :: rest)
    (hforward : ∀ operation ∈ rest, operation.IsForward) :
    ((create base limit).run operations).2.Retains := by
  rw [hrun]
  refine Retains.run (m := (create base limit).setHistory history) ⟨Int.le_refl _, ?_⟩ hforward
  exact keeps_giveUp (fun _ hhorizon => nomatch hhorizon) (Int.le_refl _)

end ByteMap

namespace Tape

/-- What was read at each position after an operation. An `advance` reads what
it passes, as `peek` shows it, and nothing else reads. -/
def hear (t : Tape) (heard : Int → Option UInt8) : TapeOperation → Int → Option UInt8
  | .advance n => fun position =>
      if t.readHead ≤ position ∧ position < t.readHead + n then
        (t.peek n).toList[(position - t.readHead).toNat]?
      else heard position
  | _ => heard

/-- What was read at each position by the end of a run, from what was read
`before`. -/
def heard (t : Tape) (before : Int → Option UInt8) : List TapeOperation → Int → Option UInt8
  | [] => before
  | operation :: rest => (t.perform operation).2.heard (t.hear before operation) rest

/-- A tape stands for a map, and remembers of its bytes what it has not let go
of (`faded`). What lies behind the read head was read. -/
structure Recalls (t : Tape) (m : ByteMap) (heard : Int → Option UInt8) : Prop where
  shows : t.Shows m
  faded : ∀ position, Clip.lookup t.clips position = none
    ∨ Clip.lookup t.clips position = m.bytes position
  was_heard : ∀ position, t.floor ≤ position → position < t.readHead →
    ∃ byte, heard position = some byte

/-- What was read, `heard`, is what is on the map from the floor up to the read
head, wherever the map `Keeps` its history: nothing is written behind the read
head. -/
structure Settled (t : Tape) (m : ByteMap) (heard : Int → Option UInt8) : Prop where
  heads : t.readHead ≤ t.writeHead
  heard_eq : ∀ position, t.floor ≤ position → position < t.readHead → m.Keeps position →
    heard position = some ((m.bytes position).getD 0)

variable {t : Tape} {m : ByteMap} {heard : Int → Option UInt8}

/-- A new tape `Recalls` an empty map, and nothing was read. -/
theorem recalls_create (base limit : Nat) :
    (create base limit).Recalls (ByteMap.create base limit) fun _ => none where
  shows := shows_create base limit
  faded _ := Or.inl rfl
  was_heard _ hfloor hread := absurd hread (Int.not_lt.mpr hfloor)

/-- On a new tape nothing was read, and so it is `Settled`. -/
theorem settled_create (base limit : Nat) :
    (create base limit).Settled (ByteMap.create base limit) fun _ => none where
  heads := Int.le_refl _
  heard_eq _ hfloor hread _ := absurd hread (Int.not_lt.mpr hfloor)

/-! ### One operation -/

/-- An `advance` of a `Sound` tape hears what `Clip.lookup` finds at the
positions that are passed, with zero in the holes, and leaves `heard` as it was
elsewhere. -/
theorem Sound.hear_advance (h : t.Sound) {n : Nat} (hn : n ≤ Word.maxSigned) (position : Int) :
    t.hear heard (.advance n) position
      = if t.readHead ≤ position ∧ position < t.readHead + n then
          some ((Clip.lookup t.clips position).getD 0)
        else heard position := by
  simp only [hear]
  by_cases hin : t.readHead ≤ position ∧ position < t.readHead + n
  · have hplace : t.readHead + ((position - t.readHead).toNat : Int) = position := by omega
    rw [if_pos hin, if_pos hin, h.toList_peek hn, Clip.getElem?_bytesFrom, if_pos (by omega),
      hplace]
  · rw [if_neg hin, if_neg hin]

/-- A block is refused by both, or put on both. In the second case the two sides
are given as `append` leaves them. -/
theorem Shows.append_cases (h : t.Shows m) (block : Block) :
    ((t.perform (.append block)).2 = t ∧ (m.append block).2 = m)
      ∨ (t.append block = .ok (t.perform (.append block)).2
        ∧ (t.perform (.append block)).2.floor = t.floor
        ∧ (m.append block).2
          = { m with bytes := m.written block.toList, writeHead := m.writeHead + block.size }) := by
  unfold Tape.perform ByteMap.append
  rw [← h.base_eq, ← h.limit_eq, ← h.readHead_eq, ← h.writeHead_eq]
  simp only
  obtain ⟨hframes, happend⟩ | ⟨hframes, hover, happend⟩
    | ⟨hframes, hroom, t', happend, -, -, -, hfloor⟩ := t.append_cases block
  · rw [if_pos hframes, happend]
    exact Or.inl ⟨rfl, rfl⟩
  · rw [if_neg (Decidable.not_not.mpr hframes), if_pos hover, happend]
    exact Or.inl ⟨rfl, rfl⟩
  · rw [if_neg (Decidable.not_not.mpr hframes), if_neg hroom, happend]
    exact Or.inr ⟨rfl, hfloor, rfl⟩

/-- No operation writes a byte that the map does not write, too: what a tape
holds afterwards is a byte of the map, or nothing. This carries `faded` of
`Recalls` over a step. What a `rewind` brings back can be missing on the tape,
while the map has it. -/
theorem Recalls.faded_perform (h : t.Recalls m heard) {operation : TapeOperation}
    (hfits : operation.FitsWord) (position : Int) :
    Clip.lookup (t.perform operation).2.clips position = none
      ∨ Clip.lookup (t.perform operation).2.clips position
        = (m.perform operation).2.bytes position := by
  have hsound := h.shows.sound
  have hbefore := h.faded position
  -- Letting go of clips loses bytes, and changes none.
  have hreleased : ∀ {clips : List Clip} {first : Int},
      clips = t.clips.dropWhile (Clip.endsBy first) →
      Clip.lookup clips position = none ∨ Clip.lookup clips position = m.bytes position := by
    intro clips first hclips
    rw [hclips]
    rcases Reel.lookup_dropWhile_cases hsound.ordered first position with hnone | hsame
    · exact Or.inl hnone
    · rw [hsame]
      exact hbefore
  cases operation with
  | append block =>
      show _ ∨ _ = (m.append block).2.bytes position
      obtain ⟨htape, hmap⟩ | ⟨happend, -, hmap⟩ := h.shows.append_cases block
      · rw [htape, hmap]
        exact hbefore
      · obtain ⟨-, -, -, hlookup⟩ := hsound.clips_append happend
        rw [hmap, hlookup position, hsound.lookup_written, h.shows.writeHead_eq]
        simp only [ByteMap.written]
        split
        · exact Or.inr rfl
        · exact hbefore
  | advance n => exact hreleased (t.clips_advance hfits)
  | rewind n =>
      rw [show (t.perform (.rewind n)).2.clips = t.clips from (hsound.rewind n).2.1]
      exact hbefore
  | seek offset clamp =>
      have hwrite := (h.shows.seek offset clamp).writeHead_eq
      obtain ⟨-, -, hlookup⟩ := hsound.seek offset clamp
      show Clip.lookup (t.seek offset clamp).clips position = none
        ∨ Clip.lookup (t.seek offset clamp).clips position = (m.seek offset clamp).bytes position
      rw [hlookup position, m.bytes_seek, hwrite, h.shows.writeHead_eq]
      split
      · exact Or.inl rfl
      · exact hbefore
  | flush keepHistory =>
      cases keepHistory with
      | true =>
          show Clip.lookup (t.flush true).clips position = none
            ∨ Clip.lookup (t.flush true).clips position = m.erasedFrom m.readHead position
          rw [hsound.lookup_flush, h.shows.readHead_eq, ByteMap.erasedFrom]
          split
          · exact Or.inl rfl
          · exact hbefore
      | false => exact Or.inl rfl
  | setHistory n => exact hreleased (Reel.clips_release ..)

/-- What comes to lie behind the read head is read on the way. This carries
`was_heard` of `Recalls` over a step. -/
theorem Recalls.was_heard_perform (h : t.Recalls m heard) {operation : TapeOperation}
    (hfits : operation.FitsWord) {position : Int}
    (hfloor : (t.perform operation).2.floor ≤ position)
    (hread : position < (t.perform operation).2.readHead) :
    ∃ byte, t.hear heard operation position = some byte := by
  have hsound := h.shows.sound
  cases operation with
  | append block =>
      obtain ⟨htape, -⟩ | ⟨happend, hsame, -⟩ := h.shows.append_cases block
      · rw [htape] at hfloor hread
        exact h.was_heard position hfloor hread
      · obtain ⟨-, hreadHead, -, -⟩ := hsound.clips_append happend
        rw [hsame] at hfloor
        rw [hreadHead] at hread
        exact h.was_heard position hfloor hread
  | advance n =>
      have hmoved : position < t.readHead + n := (hsound.advance hfits).2.1 ▸ hread
      rw [hsound.hear_advance hfits]
      split
      · exact ⟨_, rfl⟩
      · exact h.was_heard position hfloor (by omega)
  | rewind n =>
      have hmoved : position < t.readHead - (t.rewind n).1 := hread
      exact h.was_heard position hfloor (by omega)
  | seek offset clamp => exact h.was_heard position hfloor hread
  | flush keepHistory =>
      cases keepHistory with
      | true => exact h.was_heard position hfloor hread
      | false =>
          -- History begins anew at the read head.
          exact absurd hread (Int.not_lt.mpr hfloor)
  | setHistory n => exact h.was_heard position hfloor hread

/-- Whatever is done, a tape recalls its map, one case for each `TapeOperation`. -/
theorem Recalls.perform (h : t.Recalls m heard) {operation : TapeOperation}
    (hfits : operation.FitsWord) :
    (t.perform operation).2.Recalls (m.perform operation).2 (t.hear heard operation) where
  shows := (h.shows.perform hfits).2
  faded := h.faded_perform hfits
  was_heard _ := h.was_heard_perform hfits

/-- A write head that stops at the read head (`hclamps`) leaves what was read as
it is. -/
theorem Settled.perform (h : t.Settled m heard) (hrecalls : t.Recalls m heard)
    {operation : TapeOperation} (hfits : operation.FitsWord) (hclamps : operation.Clamps) :
    (t.perform operation).2.Settled (m.perform operation).2 (t.hear heard operation) := by
  have hsound := hrecalls.shows.sound
  have hheads := h.heads
  have hread := hrecalls.shows.readHead_eq
  have hwrite := hrecalls.shows.writeHead_eq
  cases operation with
  | append block =>
      obtain ⟨htape, hmap⟩ | ⟨happend, hfloor, hmap⟩ := hrecalls.shows.append_cases block
      · show (t.perform (.append block)).2.Settled (m.append block).2 heard
        rw [htape, hmap]
        exact h
      · obtain ⟨-, hreadHead, hwriteHead, -⟩ := hsound.clips_append happend
        refine ⟨by omega, fun position hp hp' hkeeps => ?_⟩
        rw [hfloor] at hp
        rw [hreadHead] at hp'
        have hkeeps : (m.append block).2.Keeps position := hkeeps
        -- The block lies beyond both heads.
        have hbytes : m.written block.toList position = m.bytes position := if_neg (by omega)
        show heard position = some (((m.append block).2.bytes position).getD 0)
        rw [hmap] at hkeeps ⊢
        show heard position = some ((m.written block.toList position).getD 0)
        rw [hbytes]
        exact h.heard_eq position hp hp' hkeeps
  | advance n =>
      obtain ⟨-, hreadHead, hwriteHead, -⟩ := hsound.advance hfits
      have hmoved : (t.perform (.advance n)).2.readHead = t.readHead + n := hreadHead
      refine ⟨?_, fun position hp hp' hkeeps => ?_⟩
      · show (t.advance n).readHead ≤ (t.advance n).writeHead
        omega
      · obtain ⟨-, hbefore⟩ := hkeeps.of_giveUp
        rw [hmoved] at hp'
        rw [hsound.hear_advance hfits]
        -- What is passed now is on the map, and what was passed before was.
        split
        · rw [hrecalls.shows.bytes_eq position hbefore]
          rfl
        · exact h.heard_eq position hp (by omega) hbefore
  | rewind n =>
      have hmoved : (t.perform (.rewind n)).2.readHead = t.readHead - (t.rewind n).1 := rfl
      refine ⟨?_, fun position hp hp' hkeeps => ?_⟩
      · show t.readHead - ((t.rewind n).1 : Int) ≤ t.writeHead
        omega
      · exact h.heard_eq position hp (by omega) hkeeps
  | seek offset clamp =>
      -- Only what lies beyond the read head is erased.
      cases (show clamp = true from hclamps)
      have hstays : t.readHead ≤ (t.seek offset true).writeHead := by
        show t.readHead ≤ min (max (t.writeHead + offset) t.readHead) (t.readHead + t.limit)
        omega
      have hsame := (hrecalls.shows.seek offset true).writeHead_eq
      refine ⟨hstays, fun position hp hp' hkeeps => ?_⟩
      have hp' : position < t.readHead := hp'
      show heard position = some (((m.seek offset true).bytes position).getD 0)
      rw [m.bytes_seek, if_neg (by omega)]
      exact h.heard_eq position hp hp' hkeeps
  | flush keepHistory =>
      cases keepHistory with
      | true =>
          refine ⟨Int.le_refl _, fun position hp hp' hkeeps => ?_⟩
          have hp' : position < t.readHead := hp'
          show heard position = some ((m.erasedFrom m.readHead position).getD 0)
          rw [ByteMap.erasedFrom, if_neg (by omega)]
          exact h.heard_eq position hp hp' hkeeps
      | false =>
          exact ⟨Int.le_refl _, fun position hp hp' _ => absurd hp' (Int.not_lt.mpr hp)⟩
  | setHistory n =>
      exact ⟨hheads, fun position hp hp' hkeeps =>
        h.heard_eq position hp hp' hkeeps.of_giveUp.2⟩

/-! ### Runs -/

/-- A tape `Recalls` its map over any run of operations that fit a word, by
induction on the operations. -/
theorem Recalls.run (h : t.Recalls m heard) {operations : List TapeOperation}
    (hfits : ∀ operation ∈ operations, operation.FitsWord) :
    (t.run operations).2.Recalls (m.run operations).2 (t.heard heard operations) := by
  induction operations generalizing t m heard with
  | nil => exact h
  | cons operation rest ih =>
      obtain ⟨hfirst, hrest⟩ := List.forall_mem_cons.mp hfits
      exact ih (h.perform hfirst) hrest

/-- A tape stays `Settled` over any run in which every operation fits a word and
has the property `Clamps`, by induction on the operations with the tape that
`Recalls` its map alongside. -/
theorem Settled.run (h : t.Settled m heard) (hrecalls : t.Recalls m heard)
    {operations : List TapeOperation} (hfits : ∀ operation ∈ operations, operation.FitsWord)
    (hclamps : ∀ operation ∈ operations, operation.Clamps) :
    (t.run operations).2.Settled (m.run operations).2 (t.heard heard operations) := by
  induction operations generalizing t m heard with
  | nil => exact h
  | cons operation rest ih =>
      obtain ⟨hfirst, hrest⟩ := List.forall_mem_cons.mp hfits
      obtain ⟨hfirst', hrest'⟩ := List.forall_mem_cons.mp hclamps
      exact ih (h.perform hrecalls hfirst hfirst') (hrecalls.perform hfirst) hrest hrest'

/-- A `rewind` of a `Sound` tape stays within what it is asked for, is a word,
and does not go below `historyFloor`. -/
theorem Sound.rewind_le (h : t.Sound) (n : Nat) :
    (t.rewind n).1 ≤ n ∧ (t.rewind n).1 ≤ Word.maxSigned
      ∧ t.historyFloor ≤ t.readHead - (t.rewind n).1 := by
  have hfloor := h.historyFloor_le
  have hword := h.history_le
  have hbound : t.readHead - t.history ≤ t.historyFloor := by
    unfold historyFloor
    rw [Word.signed_natCast hword]
    omega
  have hamount : (t.rewind n).1 = min n (t.readHead - t.historyFloor).toNat := rfl
  omega

/-- After any run of a new tape, a rewind goes back by no more than it is asked
for, and shows as many bytes. All of them were read there before (`Tape.heard`).
Each is the byte that was last written there on the `ByteMap`, with silence
where there is none, unless its history was given up (`ByteMap.Keeps`), in which
case it may be silent. If write heads always stopped at the read head
(`Clamps`), it is the byte that was read. Nothing is given up up to the first
rewind, once it is set how much history is kept (`IsForward`). -/
theorem rewind_recalls (base limit : Nat) {operations : List TapeOperation}
    (hfits : ∀ operation ∈ operations, operation.FitsWord) (n : Nat) :
    let tape := ((create base limit).run operations).2
    let map := ((ByteMap.create base limit).run operations).2
    let heard := (create base limit).heard (fun _ => none) operations
    let back := tape.rewind n
    back.1 ≤ n
      ∧ back.2.readHead = tape.readHead - back.1
      ∧ (back.2.peek back.1).toList.length = back.1
      ∧ ∀ i < back.1, ∃ shown read,
          (back.2.peek back.1).toList[i]? = some shown
            ∧ heard (back.2.readHead + i) = some read
            ∧ (shown = (map.bytes (back.2.readHead + i)).getD 0
              ∨ shown = 0 ∧ ¬ map.Keeps (back.2.readHead + i))
            ∧ ((∀ operation ∈ operations, operation.Clamps) →
              map.Keeps (back.2.readHead + i) → shown = read)
            ∧ (∀ history rest, operations = .setHistory history :: rest →
              (∀ operation ∈ rest, operation.IsForward) → map.Keeps (back.2.readHead + i)) := by
  intro tape map heard back
  have hrecalls : tape.Recalls map heard := (recalls_create base limit).run hfits
  have hsound := hrecalls.shows.sound
  obtain ⟨hle, hword, hfloor⟩ : back.1 ≤ n ∧ back.1 ≤ Word.maxSigned
      ∧ tape.historyFloor ≤ tape.readHead - back.1 := hsound.rewind_le n
  obtain ⟨hsound', hclips, hread⟩ : back.2.Sound ∧ back.2.clips = tape.clips
      ∧ back.2.readHead = tape.readHead - back.1 := hsound.rewind n
  have hpeek := hsound'.toList_peek hword
  refine ⟨hle, hread, ?_, fun i hi => ?_⟩
  · rw [hpeek, Clip.length_bytesFrom]
  · obtain ⟨position, hposition⟩ : ∃ position, position = back.2.readHead + i := ⟨_, rfl⟩
    have hplace : tape.historyFloor ≤ position ∧ position < tape.readHead := by omega
    -- Between the kept history and the read head, each byte was read before.
    have habove : tape.floor ≤ position := Int.le_trans (Int.le_max_left ..) hplace.1
    obtain ⟨read, hheard⟩ := hrecalls.was_heard position habove hplace.2
    rw [← hposition]
    refine ⟨(Clip.lookup tape.clips position).getD 0, read, ?_, hheard, ?_, ?_, ?_⟩
    · rw [hpeek, Clip.getElem?_bytesFrom, if_pos hi, hclips, hposition]
    · -- Only a byte that the tape has let go of is silent instead.
      by_cases hkeeps : map.Keeps position
      · rw [hrecalls.shows.bytes_eq position hkeeps]
        exact Or.inl rfl
      · rcases hrecalls.faded position with hnone | hsame
        · rw [hnone]
          exact Or.inr ⟨rfl, hkeeps⟩
        · rw [hsame]
          exact Or.inl rfl
    · intro hclamps hkeeps
      have hsettled : tape.Settled map heard :=
        (settled_create base limit).run (recalls_create base limit) hfits hclamps
      have hsame := hsettled.heard_eq position habove hplace.2 hkeeps
      rw [hrecalls.shows.bytes_eq position hkeeps]
      exact Option.some.inj (hsame.symm.trans hheard)
    · intro history rest hrun hforward
      have hretains := ByteMap.retains_run base limit hrun hforward
      refine hretains.keeps.mono ?_
      rw [← hrecalls.shows.historyFloor_eq]
      exact hplace.1

/-- A rewind across audio that was replaced before it was read. The hypotheses
of `rewind_recalls` are met, and the two bytes that were replaced were never
`heard`. -/
theorem rewind_recalls_trial :
    let operations : List TapeOperation :=
      [.setHistory 4, .append (.ofBytes ⟨#[1, 2, 3, 4, 5, 6]⟩), .advance 4, .seek (-2) true,
        .append (.ofBytes ⟨#[7, 8, 9, 10]⟩), .advance 2, .flush true]
    let tape := ((create 2 16).run operations).2
    let map := ((ByteMap.create 2 16).run operations).2
    let heard := (create 2 16).heard (fun _ => none) operations
    let back := tape.rewind 8
    back.1 = 4
      ∧ back.2.readHead = 2
      ∧ (back.2.peek 4).toList = [3, 4, 7, 8]
      ∧ ∀ i : Nat, i < 4 → ∃ shown, (back.2.peek 4).toList[i]? = some shown
            ∧ heard (back.2.readHead + i) = some shown
            ∧ shown = (map.bytes (back.2.readHead + i)).getD 0 := by
  intro operations tape map heard back
  have hfits : ∀ operation ∈ operations, operation.FitsWord ∧ operation.Clamps := by
    intro operation hmem
    simp only [operations, List.mem_cons, List.not_mem_nil, or_false] at hmem
    rcases hmem with rfl | rfl | rfl | rfl | rfl | rfl | rfl
    all_goals exact ⟨by first | trivial | exact Nat.le_of_lt_succ (by decide), by trivial⟩
  have hforward : ∀ operation ∈ operations.tail, operation.IsForward := by
    intro operation hmem
    simp only [operations, List.tail_cons, List.mem_cons, List.not_mem_nil, or_false] at hmem
    rcases hmem with rfl | rfl | rfl | rfl | rfl | rfl
    all_goals trivial
  have hback : back.1 = 4 := by decide +kernel
  obtain ⟨-, -, -, hrecalls⟩ :=
    rewind_recalls 2 16 (fun operation hmem => (hfits operation hmem).1) 8
  refine ⟨hback, by decide +kernel, by decide +kernel, fun i hi => ?_⟩
  obtain ⟨shown, read, hshown, hread, hwritten, hsame, hretains⟩ :=
    hrecalls i (Nat.lt_of_lt_of_eq hi hback.symm)
  have hkeeps : map.Keeps (back.2.readHead + i) := hretains 4 operations.tail rfl hforward
  rw [← hback]
  refine ⟨shown, hshown, ?_, hwritten.resolve_right fun hlost => hlost.2 hkeeps⟩
  rw [hsame (fun operation hmem => (hfits operation hmem).2) hkeeps]
  exact hread

/-- Eight bytes are read, with four to be kept. The first rewind comes to the
four that are kept. The second one is let go as far again, to a clip that is
gone. The tape says that it went back by four, and shows zeros where `heard` and
the map have four bytes. -/
theorem rewind_silences :
    let operations : List TapeOperation :=
      [.setHistory 4, .append (.ofBytes ⟨#[1, 2, 3, 4]⟩), .append (.ofBytes ⟨#[5, 6, 7, 8]⟩),
        .advance 8, .rewind 4]
    let tape := ((create 1 64).run operations).2
    let map := ((ByteMap.create 1 64).run operations).2
    let heard := (create 1 64).heard (fun _ => none) operations
    let back := tape.rewind 4
    back.1 = 4
      ∧ (back.2.peek 4).toList = [0, 0, 0, 0]
      ∧ (List.range 4).map (fun i : Nat => map.bytes (back.2.readHead + i))
        = [some 1, some 2, some 3, some 4]
      ∧ (List.range 4).map (fun i : Nat => heard (back.2.readHead + i))
        = [some 1, some 2, some 3, some 4] := by
  decide +kernel

end Tape

end EchoAlign
