import EchoAlign.Proofs.Audio.Tape

/-!
# `EchoAlign.Proofs.Audio.Readable`: a tape that can be read

`Tape.Sound` says, among other things, that the read head is at the floor
of the tape or beyond. Byte counts that do not fit a word can bring it below.
What is left then, `Tape.Readable`, is kept by every operation, whatever it is
asked for, and it is enough for `peek` to answer with as many bytes as it is
to (`Readable.size_peek`).
-/

set_option autoImplicit false

namespace EchoAlign

namespace Tape

/-- The clips are in order, end at the write head or before, and are parted at
the read head. The floor and the history may be anything, so that this holds on
beyond the counts at which `Sound` ends. -/
def Readable (t : Tape) : Prop := { t with floor := t.readHead, history := 0 }.Sound

variable {t : Tape}

/-- A `Sound` tape is `Readable`, which only leaves out what `Sound` says of the
floor and of the history. -/
theorem Sound.readable (h : t.Sound) : t.Readable :=
  ⟨h.ordered, h.written, h.parted, Int.le_refl _, Nat.zero_le _⟩

namespace Readable

/-- As many bytes come from `peek` of a `Readable` tape as are asked for, if the
count is a word. -/
theorem size_peek (h : t.Readable) {n : Nat} (hn : n ≤ Word.maxSigned) : (t.peek n).size = n :=
  Sound.size_peek h hn

/-- Moving the write head by `seek` leaves a tape `Readable`. -/
theorem seek (h : t.Readable) (offset : Int) (clamp : Bool) : (t.seek offset clamp).Readable :=
  (Sound.seek h offset clamp).1

/-- A `flush` that keeps the history leaves a tape `Readable`. -/
theorem flush (h : t.Readable) : (t.flush true).Readable := Sound.flush h

/-- A block that is put on leaves a tape readable. With `floor` at the read head
and no `history`, the tape is `Sound`, and it is `Sound.clips_append` that says
so. -/
theorem append (h : t.Readable) {block : Block} {t' : Tape} (happend : t.append block = .ok t') :
    t'.Readable := by
  -- Neither the floor nor the history has a part in it.
  suffices hsame : { t with floor := t.readHead, history := 0 }.append block
      = .ok { t' with floor := t'.readHead, history := 0 } from (Sound.clips_append h hsame).1
  unfold Tape.append at happend ⊢
  split at happend
  · cases happend
  · next hframes =>
      rw [if_neg hframes]
      split at happend
      · next hzero =>
          cases happend
          rw [if_pos hzero]
      · next hzero =>
          simp only at happend ⊢
          split at happend
          · cases happend
          · next hroom =>
              cases happend
              rw [if_neg hzero, if_neg hroom]

/-- The read head can be put anywhere, and the reel is parted there. `readHead`
alone changes, and `partedAt_forward` or `partedAt_backward` parts the reel
there. -/
theorem moveReadHead (h : t.Readable) (position : Int) : (t.moveReadHead position).Readable := by
  have hclips : (t.moveReadHead position).clips = t.clips := by
    unfold Tape.moveReadHead clips
    simp only
    split
    · exact Reel.clips_forward ..
    · exact Reel.clips_backward ..
  refine ⟨hclips ▸ h.ordered, hclips ▸ h.written, ?_, Int.le_refl _, Nat.zero_le _⟩
  show (if t.readHead ≤ position then t.reel.forward position
    else t.reel.backward position).PartedAt position
  split
  · next hle => exact Reel.partedAt_forward h.parted h.ordered hle
  · next hlt => exact Reel.partedAt_backward h.parted h.ordered (Int.le_of_lt (Int.not_le.mp hlt))

/-- Letting go of history by `releaseHistory` leaves a tape `Readable`. -/
theorem releaseHistory (h : t.Readable) : t.releaseHistory.Readable := by
  have hclips : t.releaseHistory.clips = t.clips.dropWhile (Clip.endsBy t.historyFloor) :=
    Reel.clips_release ..
  have hsublist : t.releaseHistory.clips.Sublist t.clips :=
    hclips ▸ List.dropWhile_sublist _
  exact ⟨h.ordered.sublist hsublist, fun c hc => h.written c (hsublist.subset hc),
    Reel.partedAt_release _ h.parted, Int.le_refl _, Nat.zero_le _⟩

/-- Going forward by `advance` leaves a tape `Readable`, by any number of bytes. -/
theorem advance (h : t.Readable) (n : Nat) : (t.advance n).Readable := by
  have hmoved := h.moveReadHead (t.readHead + Word.signed n)
  refine releaseHistory ⟨hmoved.ordered, fun c hc => ?_, hmoved.parted, Int.le_refl _, Nat.zero_le _⟩
  exact Int.le_trans (hmoved.written c hc) (Int.le_max_left ..)

/-- Going back by `rewind` leaves a tape `Readable`, by any number of bytes. -/
theorem rewind (h : t.Readable) (n : Nat) : (t.rewind n).2.Readable := h.moveReadHead _

end Readable

end Tape

end EchoAlign
