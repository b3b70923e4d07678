import EchoAlign.Proofs.Audio.Tape

/-!
# `EchoAlign.Proofs.Audio.Alike`: tapes that sound alike

The same audio can lie on two tapes in different clips. What a tape answers
does not depend on the clips, with one exception: history is let go of clip by
clip, so that of two such tapes one may still have what the other has lost.

* `Tape.Alike` says that two tapes hold the same audio from a position on, the
  horizon, and that their heads stand at the same places. Each operation keeps
  it, and only `Alike.advance` raises the horizon, to the history that is kept.
* `Alike.toList_peek`, `Alike.unread_eq`: from the horizon on, both tapes read
  the same.
* `Alike.retake`: a tape on which the last bytes were erased and put on once
  more sounds like the one on which they stayed.
-/

set_option autoImplicit false

namespace EchoAlign

namespace Tape

variable {t t' : Tape} {horizon : Int}

/-- The heads of both tapes stand at the same places, and from the `horizon` on
both tapes hold the same audio, whatever clips it lies in. -/
structure Alike (horizon : Int) (t t' : Tape) : Prop where
  sound : t.Sound
  sound' : t'.Sound
  base_eq : t'.base = t.base
  limit_eq : t'.limit = t.limit
  history_eq : t'.history = t.history
  floor_eq : t'.floor = t.floor
  readHead_eq : t'.readHead = t.readHead
  writeHead_eq : t'.writeHead = t.writeHead
  same : ∀ position, horizon ≤ position →
    (Clip.lookup t'.clips position).getD 0 = (Clip.lookup t.clips position).getD 0

/-- A `Sound` tape is `Alike` to itself, from any horizon on. -/
theorem Sound.alike (h : t.Sound) (horizon : Int) : t.Alike horizon t :=
  ⟨h, h, rfl, rfl, rfl, rfl, rfl, rfl, fun _ _ => rfl⟩

/-- Tapes that are `Alike` from a horizon on are alike from any `further` one
on. -/
theorem Alike.mono (h : t.Alike horizon t') {further : Int} (hle : horizon ≤ further) :
    t.Alike further t' :=
  { h with same := fun position hposition => h.same position (Int.le_trans hle hposition) }

/-- Tapes that are `Alike` have the same heads, and so the same `length` unread. -/
theorem Alike.length_eq (h : t.Alike horizon t') : t'.length = t.length := by
  unfold length
  rw [h.readHead_eq, h.writeHead_eq]

/-- Tapes that are `Alike` keep history from the same place on: their
`historyFloor` is the same. -/
theorem Alike.historyFloor_eq (h : t.Alike horizon t') : t'.historyFloor = t.historyFloor := by
  unfold historyFloor
  rw [h.history_eq, h.floor_eq, h.readHead_eq]

/-! ### What is read -/

/-- A stretch of `Clip.bytesFrom` that begins at or behind the horizon is the
same on two tapes that are `Alike`. -/
theorem Alike.bytesFrom_eq (h : t.Alike horizon t') {first : Int} (hfirst : horizon ≤ first)
    (n : Nat) : Clip.bytesFrom t'.clips first n = Clip.bytesFrom t.clips first n := by
  refine List.map_congr_left fun k _ => ?_
  exact h.same (first + k) (by omega)

/-- What lies unread is the same on both tapes, if it lies from the horizon on
(`hread`). -/
theorem Alike.unread_eq (h : t.Alike horizon t') (hread : horizon ≤ t.readHead) :
    t'.unread = t.unread := by
  rw [unread, unread, h.readHead_eq, h.length_eq, h.bytesFrom_eq hread]

/-- A `peek` shows the same on two tapes that are `Alike`, if the read head
stands at the horizon or ahead of it. -/
theorem Alike.toList_peek (h : t.Alike horizon t') (hread : horizon ≤ t.readHead) {n : Nat}
    (hn : n ≤ Word.maxSigned) : (t'.peek n).toList = (t.peek n).toList := by
  rw [h.sound'.toList_peek hn, h.sound.toList_peek hn, h.readHead_eq, h.bytesFrom_eq hread]

/-! ### What each operation leaves -/

/-- Both tapes refuse a block with the same error, or both take it and stay
alike. `Tape.append` looks at `base`, the two heads and `limit`, and these are
the same in both. -/
theorem Alike.append (h : t.Alike horizon t') (block : Block) :
    (∃ e, t.append block = .error e ∧ t'.append block = .error e)
      ∨ ∃ u u', t.append block = .ok u ∧ t'.append block = .ok u' ∧ u.Alike horizon u' := by
  have hframes : block.size % t'.base = block.size % t.base := by rw [h.base_eq]
  have hroom : (t'.writeHead + block.size - t'.readHead).toNat
      = (t.writeHead + block.size - t.readHead).toNat := by rw [h.writeHead_eq, h.readHead_eq]
  obtain ⟨hodd, herror⟩ | ⟨heven, hover, herror⟩ | ⟨heven, hfits, u, hok, hbase, hlimit, hhistory,
    hfloor⟩ := t.append_cases block
  · refine Or.inl ⟨_, herror, ?_⟩
    rw [Tape.append, hframes, if_pos hodd, h.base_eq]
  · refine Or.inl ⟨_, herror, ?_⟩
    rw [Tape.append, hframes, if_neg (by omega), if_neg (by omega)]
    simp only [hroom, h.limit_eq]
    rw [if_pos hover.2]
  · obtain ⟨hodd', -⟩ | ⟨-, hover', -⟩ | ⟨-, -, u', hok', hbase', hlimit', hhistory', hfloor'⟩ :=
      t'.append_cases block
    · omega
    · rw [hroom, h.limit_eq] at hover'
      exact absurd hover' hfits
    · obtain ⟨hsound, hread, hwrite, hlookup⟩ := h.sound.clips_append hok
      obtain ⟨hsound', hread', hwrite', hlookup'⟩ := h.sound'.clips_append hok'
      refine Or.inr ⟨u, u', hok, hok', hsound, hsound', ?_, ?_, ?_, ?_, ?_, ?_, ?_⟩
      · rw [hbase', h.base_eq, hbase]
      · rw [hlimit', h.limit_eq, hlimit]
      · rw [hhistory', h.history_eq, hhistory]
      · rw [hfloor', h.floor_eq, hfloor]
      · rw [hread', h.readHead_eq, hread]
      · rw [hwrite', h.writeHead_eq, hwrite]
      · intro position hposition
        have hbefore := h.same position hposition
        rw [hlookup, hlookup', h.writeHead_eq]
        -- Below the write head the block has no byte, and above it nothing else
        -- has one.
        rcases Int.lt_or_le position t.writeHead with hbelow | habove
        · rw [Clip.byteAt?_of_lt (c := ⟨t.writeHead, block⟩) hbelow, Option.or_none,
            Option.or_none]
          exact hbefore
        · rw [Clip.lookup_eq_none fun c hc => Or.inl (Int.le_trans (h.sound.written c hc) habove),
            Clip.lookup_eq_none fun c hc => Or.inl (Int.le_trans (h.sound'.written c hc)
              (by rw [h.writeHead_eq]; exact habove))]

/-- Moving the write head keeps two tapes alike. `Sound.seek` gives for either
tape what it holds afterwards. -/
theorem Alike.seek (h : t.Alike horizon t') (offset : Int) (clamp : Bool) :
    (t.seek offset clamp).Alike horizon (t'.seek offset clamp) := by
  obtain ⟨hsound, hread, hlookup⟩ := h.sound.seek offset clamp
  obtain ⟨hsound', hread', hlookup'⟩ := h.sound'.seek offset clamp
  have hwrite : (t'.seek offset clamp).writeHead = (t.seek offset clamp).writeHead := by
    show min (if clamp then max (t'.writeHead + offset) t'.readHead else t'.writeHead + offset)
        (t'.readHead + t'.limit)
      = min (if clamp then max (t.writeHead + offset) t.readHead else t.writeHead + offset)
        (t.readHead + t.limit)
    rw [h.writeHead_eq, h.readHead_eq, h.limit_eq]
  refine ⟨hsound, hsound', h.base_eq, h.limit_eq, h.history_eq, h.floor_eq, h.readHead_eq, hwrite,
    fun position hposition => ?_⟩
  rw [hlookup, hlookup', hwrite, h.writeHead_eq]
  split
  · rfl
  · exact h.same position hposition

/-- A `flush` that keeps the history keeps two tapes `Alike`. -/
theorem Alike.flush (h : t.Alike horizon t') : (t.flush true).Alike horizon (t'.flush true) := by
  refine ⟨h.sound.flush, h.sound'.flush, h.base_eq, h.limit_eq, h.history_eq, h.floor_eq,
    h.readHead_eq, h.readHead_eq, fun position hposition => ?_⟩
  rw [h.sound.lookup_flush, h.sound'.lookup_flush, h.readHead_eq]
  split
  · rfl
  · exact h.same position hposition

/-- History is let go of clip by clip. What is not to be kept may then be there
on one of the tapes only, so that the horizon rises to the `historyFloor`. -/
theorem Alike.advance (h : t.Alike horizon t') {n : Nat} (hn : n ≤ Word.maxSigned) :
    (t.advance n).Alike (max horizon (t.advance n).historyFloor) (t'.advance n) := by
  obtain ⟨hsound, hread, hwrite, hlookup⟩ := h.sound.advance hn
  obtain ⟨hsound', hread', hwrite', hlookup'⟩ := h.sound'.advance hn
  have hreads : (t'.advance n).readHead = (t.advance n).readHead := by
    rw [hread', hread, h.readHead_eq]
  have hfloors : (t'.advance n).historyFloor = (t.advance n).historyFloor := by
    show max t'.floor ((t'.advance n).readHead - Word.signed t'.history)
      = max t.floor ((t.advance n).readHead - Word.signed t.history)
    rw [hreads, h.floor_eq, h.history_eq]
  refine ⟨hsound, hsound', h.base_eq, h.limit_eq, h.history_eq, h.floor_eq, hreads, ?_,
    fun position hposition => ?_⟩
  · rw [hwrite', hwrite, h.writeHead_eq, h.readHead_eq]
  · rw [hlookup position (by omega), hlookup' position (by omega)]
    exact h.same position (by omega)

/-- A `rewind` keeps two tapes `Alike`: both go back by the same number of
bytes, as their floors agree. -/
theorem Alike.rewind (h : t.Alike horizon t') (n : Nat) :
    (t.rewind n).2.Alike horizon (t'.rewind n).2 := by
  obtain ⟨hsound, hclips, hread⟩ := h.sound.rewind n
  obtain ⟨hsound', hclips', hread'⟩ := h.sound'.rewind n
  have hamount : (t'.rewind n).1 = (t.rewind n).1 := by
    show min n (t'.readHead - t'.historyFloor).toNat = min n (t.readHead - t.historyFloor).toNat
    rw [h.readHead_eq, h.historyFloor_eq]
  refine ⟨hsound, hsound', h.base_eq, h.limit_eq, h.history_eq, h.floor_eq, ?_, h.writeHead_eq, ?_⟩
  · rw [hread', hread, hamount, h.readHead_eq]
  · rw [hclips, hclips']
    exact h.same

/-! ### The last bytes once more -/

/-- The bytes of a block that ends what lies unread (`hsuffix`), told by their
positions. -/
theorem getD_lookup_of_suffix {block : Block} (hsuffix : block.toList <:+ t.unread)
    {position : Int} (hfirst : t.writeHead - block.size ≤ position) (hlast : position < t.writeHead)
    (hheads : t.readHead ≤ t.writeHead) :
    (Clip.lookup t.clips position).getD 0
      = ((⟨t.writeHead - block.size, block⟩ : Clip).byteAt? position).getD 0 := by
  obtain ⟨front, hfront⟩ := hsuffix
  have hlength := congrArg List.length hfront
  rw [List.length_append, Block.length_toList, length_unread] at hlength
  have htape : t.length = (t.writeHead - t.readHead).toNat := rfl
  obtain ⟨i, hi⟩ : ∃ i : Nat, position = t.writeHead - block.size + i :=
    ⟨(position - (t.writeHead - block.size)).toNat, by omega⟩
  have hplace : position = t.readHead + ((front.length + i : Nat) : Int) := by omega
  have hbyte : t.unread[front.length + i]? = block.toList[i]? := by
    rw [← hfront, List.getElem?_append_right (by omega), Nat.add_sub_cancel_left]
  have hsize : i < block.toList.length := by
    rw [Block.length_toList]
    omega
  rw [unread, Clip.getElem?_bytesFrom, if_pos (by omega), ← hplace,
    List.getElem?_eq_getElem hsize] at hbyte
  rw [Option.some.inj hbyte, Clip.byteAt?_of_mem (by omega)]
  have hindex : (position - (t.writeHead - block.size)).toNat = i := by omega
  show _ = (block.toList[(position - (t.writeHead - block.size)).toNat]?).getD 0
  rw [hindex, List.getElem?_eq_getElem hsize, Option.getD_some]

/-- Where the audio ends in the bytes of a block (`hsuffix`), erasing as many
with `seek` and putting the block on once more changes nothing but the clips. -/
theorem Alike.retake (h : t.Alike horizon t') (hheads : t.readHead ≤ t.writeHead) {block : Block}
    (hword : block.size ≤ Word.maxSigned) (hframes : block.size % t.base = 0)
    (hsuffix : block.toList <:+ t.unread) (hroom : t.length ≤ t.limit) :
    ∃ u, (t'.seek (-Word.signed block.size) true).append block = .ok u ∧ t.Alike horizon u := by
  have hlength : block.size ≤ t.length := by
    have hle := hsuffix.length_le
    rwa [Block.length_toList, length_unread] at hle
  have htape : t.length = (t.writeHead - t.readHead).toNat := rfl
  obtain ⟨hsound, hread, hlookup⟩ := h.sound'.seek (-Word.signed block.size) true
  -- Neither the read head nor the limit is in the way.
  have hwrite : (t'.seek (-Word.signed block.size) true).writeHead = t.writeHead - block.size := by
    show min (max (t'.writeHead + -Word.signed block.size) t'.readHead) (t'.readHead + t'.limit) = _
    rw [Word.signed_natCast hword, h.writeHead_eq, h.readHead_eq, h.limit_eq]
    omega
  obtain ⟨hodd, -⟩ | ⟨-, hover, -⟩ | ⟨-, -, u, hok, hbase, hlimit, hhistory, hfloor⟩ :=
    (t'.seek (-Word.signed block.size) true).append_cases block
  · exact absurd (show block.size % t'.base = 0 by rw [h.base_eq]; exact hframes) hodd
  · have hlimits : t'.limit < (t.writeHead - block.size + block.size - t.readHead).toNat := by
      rw [← hwrite, ← h.readHead_eq, ← hread]
      exact hover.2
    have hlimit := h.limit_eq
    omega
  · obtain ⟨hsound', hread', hwrite', hlookup'⟩ := hsound.clips_append hok
    refine ⟨u, hok, h.sound, hsound', hbase.trans h.base_eq, hlimit.trans h.limit_eq,
      hhistory.trans h.history_eq, hfloor.trans h.floor_eq, ?_, ?_, fun position hposition => ?_⟩
    · rw [hread', hread, h.readHead_eq]
    · rw [hwrite', hwrite]
      omega
    · rw [hlookup', hlookup, hwrite, h.writeHead_eq]
      rcases Int.lt_or_le position (t.writeHead - block.size) with hbelow | habove
      · rw [if_neg (by omega), Clip.byteAt?_of_lt (c := ⟨t.writeHead - block.size, block⟩) hbelow,
          Option.or_none]
        exact h.same position hposition
      · -- From here on only the block is left.
        have hnone : (if t.writeHead - block.size < t.writeHead
            ∧ t.writeHead - block.size ≤ position then none
            else Clip.lookup t'.clips position) = none := by
          split
          · rfl
          · refine Clip.lookup_eq_none fun c hc => Or.inl ?_
            have hend := h.sound'.written c hc
            have heads := h.writeHead_eq
            omega
        rw [hnone, Option.none_or]
        rcases Int.lt_or_le position t.writeHead with hlast | hbeyond
        · exact (getD_lookup_of_suffix hsuffix habove hlast hheads).symm
        · rw [Clip.lookup_eq_none fun c hc => Or.inl (Int.le_trans (h.sound.written c hc) hbeyond),
            Clip.byteAt?_of_ge (by simp only [Clip.stop]; omega)]

/-- Throwing nothing away changes nothing, where nothing lies unread (`hempty`). -/
theorem Alike.flush_right (h : t.Alike horizon t') (hempty : t.writeHead = t.readHead) :
    t.Alike horizon (t'.flush true) := by
  refine ⟨h.sound, h.sound'.flush, h.base_eq, h.limit_eq, h.history_eq, h.floor_eq,
    h.readHead_eq, ?_, fun position hposition => ?_⟩
  · show t'.readHead = t.writeHead
    rw [h.readHead_eq, hempty]
  · rw [h.sound'.lookup_flush, h.readHead_eq]
    split
    · next hahead =>
        rw [Clip.lookup_eq_none fun c hc =>
          Or.inl (Int.le_trans (h.sound.written c hc) (hempty ▸ hahead))]
    · exact h.same position hposition

end Tape

end EchoAlign
