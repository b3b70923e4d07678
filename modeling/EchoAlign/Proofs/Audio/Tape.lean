import EchoAlign.Audio.Tape
import EchoAlign.Proofs.Audio.Clips

/-!
# `EchoAlign.Proofs.Audio.Tape`: a tape is a map of bytes and two heads

`Tape.Sound` is the state that every operation keeps: the clips are in
order and end at the write head or before, the reel is parted at the read
head, and the kept history lies behind the read head. Each operation is
stated once on the bytes of the tape (`Clip.lookup` of its clips).

`Tape.Holds` is what most of the library needs to know of a tape that is
never rewound: its unread audio is a list of bytes. Appending, reading,
going back and flushing are then operations on that list:

* `Holds.append`, `Holds.append_eq_error`: a block is put behind the
  list, or refused.
* `Holds.toList_peek`, `Holds.advance`: audio is taken off its front.
* `Holds.seekBack`: audio is taken off its end.
* `Holds.flush`: nothing is left.
-/

set_option autoImplicit false

namespace EchoAlign

namespace Reel

/-- Each clip lies on the side of a place on which it ends: `behind` if it ends
by the place, and `ahead` otherwise. -/
structure PartedAt (r : Reel) (place : Int) : Prop where
  behind : ∀ c ∈ r.behind.toList, c.stop ≤ place
  ahead : ∀ c ∈ r.ahead.toList, place < c.stop

/-- Clips in order that do not begin with one that ends by a place all end
behind it. For the first one this is what `Clip.endsBy` says, and the others
begin where it ends or later. -/
theorem lt_stop_of_mem_dropWhile {clips : List Clip} (h : Clip.Ordered clips) {place : Int}
    {c : Clip} (hc : c ∈ clips.dropWhile (Clip.endsBy place)) : place < c.stop := by
  induction clips with
  | nil => cases hc
  | cons d clips ih =>
      obtain ⟨-, hrest, htail⟩ := Clip.ordered_cons.mp h
      by_cases hd : d.endsBy place = true
      · rw [List.dropWhile_cons_of_pos hd] at hc
        exact ih htail hc
      · rw [List.dropWhile_cons_of_neg hd] at hc
        have hd' : place < d.stop := by simpa [Clip.endsBy] using hd
        rcases List.mem_cons.mp hc with rfl | hc
        · exact hd'
        · have h1 := hrest c hc
          have h2 := h.nonempty c (List.mem_cons_of_mem _ hc)
          omega

/-- Clips that `takeWhile` keeps because `Clip.endsBy` holds of them end at or
before the place, which is the bound that `PartedAt` asks of the clips behind. -/
theorem stop_le_of_mem_takeWhile {clips : List Clip} {place : Int} {c : Clip}
    (hc : c ∈ clips.takeWhile (Clip.endsBy place)) : c.stop ≤ place := by
  have hends := List.all_eq_true.mp (List.all_takeWhile ..) c hc
  simpa [Clip.endsBy] using hends

/-- Letting go of the clips at the front for which `Clip.endsBy first` holds
does not touch what `Clip.lookup` finds from `first` on, since each of them has
ended there. -/
theorem lookup_dropWhile {clips : List Clip} {first position : Int} (h : first ≤ position) :
    Clip.lookup (clips.dropWhile (Clip.endsBy first)) position = Clip.lookup clips position := by
  induction clips with
  | nil => rfl
  | cons c clips ih =>
      by_cases hc : c.endsBy first = true
      · have hstop : c.stop ≤ first := by simpa [Clip.endsBy] using hc
        rw [List.dropWhile_cons_of_pos hc, ih, Clip.lookup_cons_of_stop_le (by omega)]
      · rw [List.dropWhile_cons_of_neg hc]

/-- Letting go of clips leaves a byte as it was, or loses it. What lies in the
first clip lies in no other, since the clips are `Ordered`. -/
theorem lookup_dropWhile_cases {clips : List Clip} (h : Clip.Ordered clips)
    (first position : Int) :
    Clip.lookup (clips.dropWhile (Clip.endsBy first)) position = none
      ∨ Clip.lookup (clips.dropWhile (Clip.endsBy first)) position
        = Clip.lookup clips position := by
  induction clips with
  | nil => exact Or.inl rfl
  | cons c clips ih =>
      by_cases hc : c.endsBy first = true
      · rw [List.dropWhile_cons_of_pos hc]
        -- What lies in the first clip lies in no other.
        by_cases hp : position < c.stop
        · have hrest : ∀ d ∈ clips.dropWhile (Clip.endsBy first), position < d.start := by
            intro d hd
            have := h.stop_le_start ((List.dropWhile_sublist _).subset hd)
            omega
          exact Or.inl (Clip.lookup_eq_none fun d hd => Or.inr (hrest d hd))
        · rw [Clip.lookup_cons_of_stop_le (Int.not_lt.mp hp)]
          exact ih h.tail
      · rw [List.dropWhile_cons_of_neg hc]
        exact Or.inr rfl

variable {r : Reel} {place : Int}

/-- Clips in order that `parted` splits at a place are `PartedAt` it: those
behind end there, and those ahead do not. -/
theorem partedAt_parted {clips : List Clip} (h : Clip.Ordered clips) :
    (parted place clips).PartedAt place := by
  constructor
  · intro c hc
    simp only [parted, Queue.toList_ofList] at hc
    exact stop_le_of_mem_takeWhile hc
  · intro c hc
    simp only [parted, Queue.toList_ofList] at hc
    exact lt_stop_of_mem_dropWhile h hc

/-- A reel that goes `forward` to a place that is not before its own is
`PartedAt` the new one. The order of the clips gives that those passed over
stand at the front of what lay ahead. -/
theorem partedAt_forward {place' : Int} (h : r.PartedAt place) (hr : Clip.Ordered r.clips)
    (hle : place ≤ place') : (r.forward place').PartedAt place' := by
  constructor
  · intro c hc
    simp only [forward, Queue.takeWhile_eq, Queue.toList_foldl_push] at hc
    rcases List.mem_append.mp hc with hc | hc
    · exact Int.le_trans (h.behind c hc) hle
    · exact stop_le_of_mem_takeWhile hc
  · intro c hc
    simp only [forward, Queue.toList_dropWhile] at hc
    exact lt_stop_of_mem_dropWhile (Clip.ordered_append.mp hr).2.1 hc

/-- A reel that goes `backward` to a place that is not beyond its own is
`PartedAt` the new one. -/
theorem partedAt_backward {place' : Int} (h : r.PartedAt place) (hr : Clip.Ordered r.clips)
    (hle : place' ≤ place) : (r.backward place').PartedAt place' := by
  constructor
  · intro c hc
    simp only [backward, Queue.toList_ofList] at hc
    exact stop_le_of_mem_takeWhile hc
  · intro c hc
    simp only [backward, Queue.toList_prepend] at hc
    rcases List.mem_append.mp hc with hc | hc
    · exact lt_stop_of_mem_dropWhile (Clip.ordered_append.mp hr).1 hc
    · exact Int.lt_of_le_of_lt hle (h.ahead c hc)

/-- Letting go of clips by `Reel.release` leaves a reel `PartedAt` its place.
What lies ahead is let go of only when nothing lies behind, and clips are let go
of from the front. -/
theorem partedAt_release (position : Int) (h : r.PartedAt place) :
    (r.release position).PartedAt place := by
  have hahead : ∀ c ∈ (r.ahead.dropWhile (Clip.endsBy position)).toList, place < c.stop := by
    intro c hc
    rw [Queue.toList_dropWhile] at hc
    exact h.ahead c ((List.dropWhile_sublist _).subset hc)
  simp only [release]
  split
  · exact ⟨fun c hc => absurd hc List.not_mem_nil, hahead⟩
  · refine ⟨fun c hc => h.behind c ?_, h.ahead⟩
    rw [Queue.toList_dropWhile] at hc
    exact (List.dropWhile_sublist _).subset hc

/-- A clip behind all others is added behind all others. `hlast` says that it is
behind all others. If it ends by `place`, nothing lies ahead, so that it still
comes last. -/
theorem clips_add (h : r.PartedAt place) {c : Clip} (hlast : ∀ d ∈ r.clips, d.stop ≤ c.start)
    (hc : c.start < c.stop) : (r.add place c).clips = r.clips ++ [c] := by
  unfold add
  split
  · next hend =>
      have hstop : c.stop ≤ place := by simpa [Clip.endsBy] using hend
      have hahead : r.ahead.toList = [] := by
        refine List.eq_nil_iff_forall_not_mem.mpr ?_
        intro d hd
        have h1 := h.ahead d hd
        have h2 := hlast d (List.mem_append_right _ hd)
        omega
      simp [clips, hahead]
  · simp [clips]

/-- A clip that is added leaves a reel parted. `Clip.endsBy` decides which of
the two parts it goes to. -/
theorem partedAt_add (h : r.PartedAt place) (c : Clip) : (r.add place c).PartedAt place := by
  unfold add
  split
  · next hend =>
      refine ⟨fun d hd => ?_, h.ahead⟩
      rw [Queue.toList_push] at hd
      rcases List.mem_append.mp hd with hd | hd
      · exact h.behind d hd
      · rw [List.mem_singleton] at hd
        subst hd
        simpa [Clip.endsBy] using hend
  · next hend =>
      refine ⟨h.behind, fun d hd => ?_⟩
      rw [Queue.toList_push] at hd
      rcases List.mem_append.mp hd with hd | hd
      · exact h.ahead d hd
      · rw [List.mem_singleton] at hd
        subst hd
        simpa [Clip.endsBy] using hend

/-- What `Reel.eraseFrom` does to a reel that is `PartedAt` its place is
`Clip.erase` on the one list of clips: it erases on both sides of the place. -/
theorem clips_eraseFrom (h : r.PartedAt place) (position : Int) :
    (r.eraseFrom place position).clips = Clip.erase position none r.clips := by
  unfold eraseFrom
  split
  · next hle =>
      rw [clips_forward]
      unfold clips
      rw [Queue.toList_ofList,
        Clip.erase_append fun c hc => Int.le_trans (h.behind c hc) hle]
  · exact clips_parted ..

/-- Erasing from a position on leaves a reel parted. Where `place` comes first,
only `ahead` is cut. Otherwise all clips are cut, and `parted` anew. -/
theorem partedAt_eraseFrom (h : r.PartedAt place) (hr : Clip.Ordered r.clips) (position : Int) :
    (r.eraseFrom place position).PartedAt place := by
  have herased : Clip.Ordered (Clip.erase position none r.clips) :=
    Clip.ordered_erase hr fun _ hl => nomatch hl
  have hclips := clips_eraseFrom h position
  -- What is erased lies ahead of the place, or else all clips are parted
  -- anew.
  unfold eraseFrom at hclips ⊢
  split
  · next hle =>
      rw [if_pos hle, clips_forward] at hclips
      constructor
      · intro c hc
        simp only [forward, Queue.takeWhile_eq, Queue.toList_foldl_push] at hc
        rcases List.mem_append.mp hc with hc | hc
        · exact h.behind c hc
        · exact stop_le_of_mem_takeWhile hc
      · intro c hc
        simp only [forward, Queue.toList_dropWhile] at hc
        rw [← hclips] at herased
        exact lt_stop_of_mem_dropWhile (Clip.ordered_append.mp herased).2.1 hc
  · exact partedAt_parted herased

end Reel

/-- Nothing that is left when all is erased from a position on reaches beyond
it. Of the two parts of `Clip.cut`, the one behind the range is missing, as the
range has no end. -/
theorem Clip.stop_le_of_mem_erase {clips : List Clip} (h : Clip.Ordered clips) {position : Int}
    {c : Clip} (hc : c ∈ Clip.erase position none clips) : c.stop ≤ position := by
  induction clips with
  | nil => cases hc
  | cons d clips ih =>
      unfold Clip.erase at hc
      split at hc
      · next hd =>
          rcases List.mem_cons.mp hc with rfl | hc
          · exact hd
          · exact ih h.tail hc
      · next hd =>
          rcases List.mem_append.mp hc with hc | hc
          · rcases (Clip.mem_cut (by omega) rfl hc).2.2.2 with hc | ⟨_, hnone, -⟩
            · exact hc
            · cases hnone
          · exact ih h.tail hc

namespace Tape

/-- The unread audio as `Clip.bytesFrom` reads it: the bytes from `readHead` up
to `writeHead`, with silence in the holes between the clips. -/
def unread (t : Tape) : List UInt8 := Clip.bytesFrom t.clips t.readHead t.length

/-- The state of a tape that every operation keeps: the clips are
`Clip.Ordered`, end by `writeHead` and are `PartedAt` the `readHead`, the
`floor` is not above it, and the `history` that is asked for is a word. -/
structure Sound (t : Tape) : Prop where
  ordered : Clip.Ordered t.clips
  written : ∀ c ∈ t.clips, c.stop ≤ t.writeHead
  parted : t.reel.PartedAt t.readHead
  floor_le : t.floor ≤ t.readHead
  history_le : t.history ≤ Word.maxSigned

/-- As many bytes are `unread` as `length` counts between the heads, holes
included. -/
@[simp] theorem length_unread (t : Tape) : t.unread.length = t.length :=
  Clip.length_bytesFrom ..

/-- History is kept from `historyFloor` on, which is not above the `readHead` of
a `Sound` tape: its floor is not, and the history that is asked for lies below. -/
theorem Sound.historyFloor_le {t : Tape} (h : t.Sound) : t.historyFloor ≤ t.readHead := by
  have hfloor := h.floor_le
  unfold historyFloor
  rw [Word.signed_natCast h.history_le]
  omega

/-! ### Reading -/

/-- From the `readHead` on, the clips `ahead` on the reel hold what all clips of
a `Sound` tape hold, since those behind have ended by then. -/
theorem Sound.lookup_ahead {t : Tape} (h : t.Sound) {position : Int}
    (hp : t.readHead ≤ position) :
    Clip.lookup t.reel.ahead.toList position = Clip.lookup t.clips position := by
  -- Clips behind the read head have ended by there.
  have hbehind : Clip.lookup t.reel.behind.toList position = none := by
    refine Clip.lookup_eq_none fun c hc => Or.inl ?_
    have := h.parted.behind c hc
    omega
  unfold clips Reel.clips
  rw [Clip.lookup_append, hbehind, Option.none_or]

/-- A `peek` answers with exactly the bytes at the read head. -/
theorem Sound.toList_peek {t : Tape} (h : t.Sound) {n : Nat} (hn : n ≤ Word.maxSigned) :
    (t.peek n).toList = Clip.bytesFrom t.clips t.readHead n := by
  have hahead : Clip.Ordered t.reel.ahead.toList := (Clip.ordered_append.mp h.ordered).2.1
  have hclips : Clip.bytesFrom t.clips t.readHead n
      = Clip.bytesFrom t.reel.ahead.toList t.readHead n :=
    Clip.bytesFrom_congr fun p hp _ => (h.lookup_ahead hp).symm
  have hlast : (t.readHead + (n : Int) - t.readHead).toNat = n := by omega
  rw [hclips]
  simp only [peek, Word.signed_natCast hn, hlast, Queue.head?_eq, Queue.takeWhile_eq]
  split
  · next hzero =>
      subst hzero
      rfl
  · cases hq : t.reel.ahead.toList with
    | nil =>
        rw [List.head?_nil, Block.toList_silence]
        exact (Clip.bytesFrom_of_lookup_none fun _ _ _ => rfl).symm
    | cons c rest =>
        rw [List.head?_cons]
        simp only
        -- One clip may cover the stretch. Otherwise the bytes are collected
        -- from all clips that begin before its end.
        split
        · next hcover =>
            rw [Block.toList_slice, Clip.bytesFrom_inside hcover.1 hcover.2, List.drop_take]
            congr 1
            omega
        · rw [Block.toList_ofBytes, ← hq,
            Clip.toList_collect (hahead.sublist (List.takeWhile_sublist _)) _ (by omega), hlast]
          show [] ++ _ = _
          rw [List.nil_append]
          exact Clip.bytesFrom_congr fun p _ hp => Clip.lookup_takeWhile hahead hp

/-! ### What each operation does to the bytes -/

/-- A block is refused because it does not consist of whole frames, or because
there is no room for it, or else it is put on as a new clip. An empty block is
never an overflow, whatever `limit` is. -/
theorem append_cases (t : Tape) (block : Block) :
    (block.size % t.base ≠ 0 ∧ t.append block = .error (.unaligned block.size t.base))
      ∨ (block.size % t.base = 0
          ∧ (0 < block.size ∧ t.limit < (t.writeHead + block.size - t.readHead).toNat)
          ∧ t.append block
              = .error (.overflow (t.writeHead + block.size - t.readHead).toNat t.limit))
      ∨ (block.size % t.base = 0
          ∧ ¬(0 < block.size ∧ t.limit < (t.writeHead + block.size - t.readHead).toNat)
          ∧ ∃ t', t.append block = .ok t' ∧ t'.base = t.base ∧ t'.limit = t.limit
              ∧ t'.history = t.history ∧ t'.floor = t.floor) := by
  unfold append
  by_cases hframes : block.size % t.base = 0
  · rw [if_neg (Decidable.not_not.mpr hframes)]
    by_cases hzero : block.size = 0
    · rw [if_pos hzero]
      exact .inr (.inr ⟨hframes, fun hover => by omega, t, rfl, rfl, rfl, rfl, rfl⟩)
    · rw [if_neg hzero]
      simp only
      by_cases hover : t.limit < (t.writeHead + block.size - t.readHead).toNat
      · rw [if_pos hover]
        exact .inr (.inl ⟨hframes, ⟨by omega, hover⟩, rfl⟩)
      · rw [if_neg hover]
        exact .inr (.inr ⟨hframes, fun h => hover h.2, _, rfl, rfl, rfl, rfl, rfl⟩)
  · rw [if_pos hframes]
    exact .inl ⟨hframes, rfl⟩

/-- A block put on the tape lies behind all clips, and leaves it sound.
`Clip.lookup` then finds the new clip from `writeHead` on, and what it found
before below. -/
theorem Sound.clips_append {t t' : Tape} {block : Block} (h : t.Sound)
    (happend : t.append block = .ok t') :
    t'.Sound ∧ t'.readHead = t.readHead ∧ t'.writeHead = t.writeHead + block.size
      ∧ (∀ position, Clip.lookup t'.clips position
          = (Clip.lookup t.clips position).or
              ((⟨t.writeHead, block⟩ : Clip).byteAt? position)) := by
  unfold append at happend
  split at happend
  · cases happend
  · split at happend
    · next hzero =>
        cases happend
        refine ⟨h, rfl, by omega, fun position => ?_⟩
        have hempty : (⟨t.writeHead, block⟩ : Clip).byteAt? position = none := by
          rcases Int.lt_or_le position t.writeHead with hlt | hle
          · exact Clip.byteAt?_of_lt hlt
          · refine Clip.byteAt?_of_ge ?_
            simp only [Clip.stop, hzero]
            omega
        rw [hempty, Option.or_none]
    · next hzero =>
        simp only at happend
        split at happend
        · cases happend
        · cases happend
          have hsize : (⟨t.writeHead, block⟩ : Clip).start
              < (⟨t.writeHead, block⟩ : Clip).stop := by
            simp only [Clip.stop]
            omega
          -- No clip reaches beyond the write head, where the new one begins.
          have hclips : (t.reel.add t.readHead ⟨t.writeHead, block⟩).clips
              = t.clips ++ [⟨t.writeHead, block⟩] :=
            Reel.clips_add h.parted h.written hsize
          refine ⟨⟨?_, ?_, Reel.partedAt_add h.parted _, h.floor_le, h.history_le⟩, rfl, rfl, ?_⟩
          · show Clip.Ordered (Reel.clips _)
            rw [hclips]
            refine Clip.ordered_append.mpr ⟨h.ordered, ?_, ?_⟩
            · exact Clip.ordered_cons.mpr
                ⟨hsize, fun d hd => absurd hd List.not_mem_nil, Clip.ordered_nil⟩
            · intro c hc d hd
              rw [List.mem_singleton] at hd
              subst hd
              exact h.written c hc
          · show ∀ c ∈ Reel.clips _, c.stop ≤ t.writeHead + block.size
            rw [hclips]
            intro c hc
            rcases List.mem_append.mp hc with hc | hc
            · have := h.written c hc
              omega
            · rw [List.mem_singleton] at hc
              subst hc
              exact Int.le_refl _
          · intro position
            show Clip.lookup (Reel.clips _) position = _
            rw [hclips, Clip.lookup_append, Clip.lookup_cons, Clip.lookup_nil, Option.or_none]

/-- The read head never goes back in `advance` by a count that is a word, so
that the reel only goes `forward`, and then lets go of the clips below the new
`historyFloor`. -/
theorem reel_advance (t : Tape) {n : Nat} (hn : n ≤ Word.maxSigned) :
    (t.advance n).reel
      = (t.reel.forward (t.readHead + n)).release (t.advance n).historyFloor := by
  have hmoved : (t.moveReadHead (t.readHead + Word.signed n)).reel
      = t.reel.forward (t.readHead + n) := by
    simp only [moveReadHead, Word.signed_natCast hn]
    rw [if_pos (by omega)]
  rw [← hmoved]
  rfl

/-- Of the clips, `advance` by a count that is a word lets go only of those at
the front that end by the new `historyFloor`. -/
theorem clips_advance (t : Tape) {n : Nat} (hn : n ≤ Word.maxSigned) :
    (t.advance n).clips = t.clips.dropWhile (Clip.endsBy (t.advance n).historyFloor) := by
  unfold clips
  rw [t.reel_advance hn, Reel.clips_release, Reel.clips_forward]

/-- Going forward leaves the bytes of the kept history and all after it. `hn`
makes the count the same as a signed word, and below the new `historyFloor`
nothing is said, as clips are let go of there. -/
theorem Sound.advance {t : Tape} (h : t.Sound) {n : Nat} (hn : n ≤ Word.maxSigned) :
    (t.advance n).Sound ∧ (t.advance n).readHead = t.readHead + n
      ∧ (t.advance n).writeHead = max t.writeHead (t.readHead + n)
      ∧ ∀ position, (t.advance n).historyFloor ≤ position →
          Clip.lookup (t.advance n).clips position = Clip.lookup t.clips position := by
  have hread : (t.advance n).readHead = t.readHead + n := by
    show t.readHead + Word.signed n = _
    rw [Word.signed_natCast hn]
  have hwrite : (t.advance n).writeHead = max t.writeHead (t.readHead + n) := by
    show max t.writeHead (t.readHead + Word.signed n) = _
    rw [Word.signed_natCast hn]
  have hreel := t.reel_advance hn
  have hclips := t.clips_advance hn
  -- Order and bounds are kept, since clips are only let go of.
  refine ⟨⟨?_, ?_, ?_, ?_, h.history_le⟩, hread, hwrite, ?_⟩
  · rw [hclips]
    exact h.ordered.sublist (List.dropWhile_sublist _)
  · intro c hc
    rw [hclips] at hc
    have := h.written c ((List.dropWhile_sublist _).subset hc)
    rw [hwrite]
    omega
  · rw [hreel, hread]
    exact Reel.partedAt_release _ (Reel.partedAt_forward h.parted h.ordered (by omega))
  · have hfloor := h.floor_le
    rw [hread]
    show t.floor ≤ _
    omega
  · intro position hp
    rw [hclips]
    exact Reel.lookup_dropWhile hp

/-- Moving the write head back forgets what lies beyond it and leaves the rest.
Whether it stops at the read head (`clamp`) or at `limit` is part of where the
write head ends up, and does not matter here. -/
theorem Sound.seek {t : Tape} (h : t.Sound) (offset : Int) (clamp : Bool) :
    (t.seek offset clamp).Sound ∧ (t.seek offset clamp).readHead = t.readHead
      ∧ ∀ position, Clip.lookup (t.seek offset clamp).clips position
          = if (t.seek offset clamp).writeHead < t.writeHead
              ∧ (t.seek offset clamp).writeHead ≤ position then none
            else Clip.lookup t.clips position := by
  obtain ⟨target, htarget⟩ : ∃ target, target = (t.seek offset clamp).writeHead := ⟨_, rfl⟩
  have hreel : (t.seek offset clamp).reel
      = if target < t.writeHead then t.reel.eraseFrom t.readHead target else t.reel := by
    rw [htarget]
    rfl
  rw [← htarget]
  -- Only a write head that goes back erases.
  by_cases hback : target < t.writeHead
  · rw [if_pos hback] at hreel
    have hclips : (t.seek offset clamp).clips = Clip.erase target none t.clips := by
      unfold clips
      rw [hreel, Reel.clips_eraseFrom h.parted]
    refine ⟨⟨?_, ?_, ?_, h.floor_le, h.history_le⟩, rfl, ?_⟩
    · rw [hclips]
      exact Clip.ordered_erase h.ordered fun _ hl => nomatch hl
    · rw [hclips, ← htarget]
      exact fun c hc => Clip.stop_le_of_mem_erase h.ordered hc
    · rw [hreel]
      exact Reel.partedAt_eraseFrom h.parted h.ordered target
    · intro position
      rw [hclips, Clip.lookup_erase h.ordered]
      simp [hback]
  · rw [if_neg hback] at hreel
    have hclips : (t.seek offset clamp).clips = t.clips := by
      unfold clips
      rw [hreel]
    refine ⟨⟨?_, ?_, ?_, h.floor_le, h.history_le⟩, rfl, ?_⟩
    · rw [hclips]
      exact h.ordered
    · rw [hclips, ← htarget]
      intro c hc
      have := h.written c hc
      omega
    · rw [hreel]
      exact h.parted
    · intro position
      rw [hclips, if_neg fun hin => hback hin.1]

/-- A `flush` that keeps the history throws the unread audio away and leaves the
tape `Sound`. -/
theorem Sound.flush {t : Tape} (h : t.Sound) : (t.flush true).Sound := by
  have hclips : (t.flush true).clips = Clip.erase t.readHead none t.clips :=
    Reel.clips_eraseFrom h.parted t.readHead
  refine ⟨?_, ?_, Reel.partedAt_eraseFrom h.parted h.ordered t.readHead, h.floor_le, h.history_le⟩
  · rw [hclips]
    exact Clip.ordered_erase h.ordered fun _ hl => nomatch hl
  · rw [hclips]
    exact fun c hc => Clip.stop_le_of_mem_erase h.ordered hc

/-- After a `flush` that keeps the history, `Clip.lookup` finds nothing from the
`readHead` on, and below it what it found before. -/
theorem Sound.lookup_flush {t : Tape} (h : t.Sound) (position : Int) :
    Clip.lookup (t.flush true).clips position
      = if t.readHead ≤ position then none else Clip.lookup t.clips position := by
  have hclips : (t.flush true).clips = Clip.erase t.readHead none t.clips :=
    Reel.clips_eraseFrom h.parted t.readHead
  rw [hclips, Clip.lookup_erase h.ordered]
  simp only [reduceCtorEq, false_implies, implies_true, and_true]

/-- A `flush` that does not keep the history leaves a `Sound` tape without any
clip. -/
theorem Sound.discard {t : Tape} (h : t.Sound) :
    (t.flush false).Sound ∧ (t.flush false).clips = [] := by
  have hclips : (t.flush false).clips = [] := rfl
  refine ⟨⟨?_, ?_, ?_, Int.le_refl _, h.history_le⟩, hclips⟩
  · rw [hclips]
    exact Clip.ordered_nil
  · intro c hc
    rw [hclips] at hc
    cases hc
  · exact ⟨fun c hc => (nomatch hc), fun c hc => (nomatch hc)⟩

/-- Going back stops at the kept history, and changes no clip. The number of
bytes is `n` or what there is down to `historyFloor`. -/
theorem Sound.rewind {t : Tape} (h : t.Sound) (n : Nat) :
    (t.rewind n).2.Sound ∧ (t.rewind n).2.clips = t.clips
      ∧ (t.rewind n).2.readHead = t.readHead - (t.rewind n).1 := by
  have hfloor := h.historyFloor_le
  have hbound : t.floor ≤ t.historyFloor := Int.le_max_left ..
  obtain ⟨amount, hamount⟩ : ∃ amount, amount = min n (t.readHead - t.historyFloor).toNat :=
    ⟨_, rfl⟩
  have hrewind : t.rewind n = (amount, t.moveReadHead (t.readHead - amount)) := by
    rw [hamount]
    rfl
  have hclips : (t.moveReadHead (t.readHead - amount)).clips = t.clips := by
    unfold moveReadHead clips
    simp only
    split
    · exact Reel.clips_forward ..
    · exact Reel.clips_backward ..
  rw [hrewind]
  refine ⟨⟨?_, ?_, ?_, ?_, h.history_le⟩, hclips, rfl⟩
  · rw [hclips]
    exact h.ordered
  · rw [hclips]
    exact h.written
  · unfold moveReadHead
    simp only
    split
    · next hle => exact Reel.partedAt_forward h.parted h.ordered hle
    · exact Reel.partedAt_backward h.parted h.ordered (by omega)
  · show t.floor ≤ t.readHead - amount
    omega

/-- Keeping less history lets go of clips below it only. `hh` makes the history
the same as a signed word. -/
theorem Sound.setHistory {t : Tape} (h : t.Sound) {history : Nat}
    (hh : history ≤ Word.maxSigned) :
    (t.setHistory history).Sound
      ∧ ∀ position, (t.setHistory history).historyFloor ≤ position →
          Clip.lookup (t.setHistory history).clips position = Clip.lookup t.clips position := by
  have hclips : (t.setHistory history).clips
      = t.clips.dropWhile (Clip.endsBy (t.setHistory history).historyFloor) :=
    Reel.clips_release ..
  have hsub : (t.setHistory history).clips.Sublist t.clips := by
    rw [hclips]
    exact List.dropWhile_sublist _
  refine ⟨⟨h.ordered.sublist hsub, fun c hc => h.written c (hsub.subset hc),
    Reel.partedAt_release _ h.parted, h.floor_le, hh⟩, fun position hp => ?_⟩
  rw [hclips]
  exact Reel.lookup_dropWhile hp

/-- A tape made by `create` is `Sound`, whatever history `setHistory` asks for,
if that is a word. The heads are both zero, and there are no clips. -/
theorem sound_create (base limit : Nat) {history : Nat} (hh : history ≤ Word.maxSigned) :
    ((create base limit).setHistory history).Sound := by
  have hclips : ((create base limit).setHistory history).reel.clips = [] := by
    show Reel.clips (Reel.release _ _) = _
    rw [Reel.clips_release]
    rfl
  refine ⟨?_, ?_, ?_, Int.le_refl _, hh⟩
  · unfold clips
    rw [hclips]
    exact Clip.ordered_nil
  · intro c hc
    unfold clips at hc
    rw [hclips] at hc
    cases hc
  · obtain ⟨hbehind, hahead⟩ := List.append_eq_nil_iff.mp hclips
    constructor
    · intro c hc
      rw [hbehind] at hc
      cases hc
    · intro c hc
      rw [hahead] at hc
      cases hc

/-! ### What lies unread -/

/-- As many bytes come from `peek` as are asked for, if the count is a word,
with silence behind the write head. -/
theorem Sound.size_peek {t : Tape} (h : t.Sound) {n : Nat} (hn : n ≤ Word.maxSigned) :
    (t.peek n).size = n := by
  rw [← Block.length_toList, h.toList_peek hn, Clip.length_bytesFrom]

/-- The next bytes are the front of what lies `unread`. -/
theorem Sound.toList_peek_unread {t : Tape} (h : t.Sound) {n : Nat} (hn : n ≤ Word.maxSigned)
    (hle : n ≤ t.length) : (t.peek n).toList = t.unread.take n := by
  rw [h.toList_peek hn, unread, Clip.take_bytesFrom _ _ hle]

/-- Bytes are taken off the front of what lies `unread`. -/
theorem Sound.unread_advance {t : Tape} (h : t.Sound) {n : Nat} (hn : n ≤ Word.maxSigned)
    (hle : n ≤ t.length) : (t.advance n).unread = t.unread.drop n := by
  obtain ⟨hsound, hread, hwrite, hlookup⟩ := h.advance hn
  have hfloor := hsound.historyFloor_le
  have hrest : (t.advance n).length = t.length - n := by
    unfold length at hle ⊢
    rw [hread, hwrite]
    omega
  rw [unread, unread, Clip.drop_bytesFrom _ _ hle, hrest, ← hread]
  exact Clip.bytesFrom_congr fun p hp _ => hlookup p (by omega)

/-- A block that is taken is put behind what lies `unread`. -/
theorem Sound.unread_append {t t' : Tape} {block : Block} (h : t.Sound)
    (hheads : t.readHead ≤ t.writeHead) (happend : t.append block = .ok t') :
    t'.unread = t.unread ++ block.toList := by
  obtain ⟨-, hread, hwrite, hlookup⟩ := h.clips_append happend
  have hlen : t'.length = t.length + block.size := by
    unfold length
    rw [hread, hwrite]
    omega
  -- The old bytes lie before the write head, and the new ones from there on.
  have hold : Clip.bytesFrom t'.clips t.readHead t.length = t.unread := by
    refine Clip.bytesFrom_congr ?_
    intro p _ hp
    have hp' : p < t.writeHead := by
      unfold length at hp
      omega
    rw [hlookup p, Clip.byteAt?_of_lt (c := ⟨t.writeHead, block⟩) hp', Option.or_none]
  have hnew : Clip.bytesFrom t'.clips t.writeHead block.size = block.toList := by
    have hclip : Clip.bytesFrom t'.clips t.writeHead block.size
        = Clip.bytesFrom [⟨t.writeHead, block⟩] t.writeHead block.size := by
      refine Clip.bytesFrom_congr ?_
      intro p hp _
      rw [hlookup p, Clip.lookup_cons, Clip.lookup_nil, Option.or_none]
      rw [Clip.lookup_eq_none fun c hc => Or.inl (Int.le_trans (h.written c hc) hp),
        Option.none_or]
    rw [hclip, Clip.bytesFrom_inside (Int.le_refl _) (Int.le_refl _), Int.sub_self,
      Int.toNat_zero, List.drop_zero]
    exact List.take_of_length_le (Nat.le_of_eq (Block.length_toList block))
  have hend : t.readHead + (t.length : Int) = t.writeHead := by
    unfold length
    omega
  rw [unread, hlen, hread, Clip.bytesFrom_add, hold, hend, hnew]

/-! ### A tape that is never rewound is a list of bytes -/

/-- The tape takes frames of `base` bytes, and the audio that lies unread
on it is `bytes`. -/
structure Holds (t : Tape) (base : Nat) (bytes : List UInt8) : Prop where
  sound : t.Sound
  heads : t.readHead ≤ t.writeHead
  base_eq : t.base = base
  limit_eq : t.limit = maxTapeLength
  unread_eq : t.unread = bytes
  fits : bytes.length ≤ maxTapeLength

variable {t : Tape} {base : Nat} {bytes : List UInt8}

/-- As much lies unread on a tape that `Holds` a list as there are bytes in it. -/
theorem Holds.length_eq (h : t.Holds base bytes) : t.length = bytes.length := by
  rw [← h.unread_eq, length_unread]

/-- No tape `Holds` more bytes than a signed word can count, since
`maxTapeLength` is far below `Word.maxSigned`. -/
theorem Holds.length_le (h : t.Holds base bytes) : bytes.length ≤ Word.maxSigned :=
  Nat.le_trans h.fits (by decide)

/-- The front of the list that a tape `Holds` is a stretch of `Clip.bytesFrom`
from the `readHead` on. -/
theorem Holds.take_eq (h : t.Holds base bytes) {n : Nat} (hn : n ≤ bytes.length) :
    bytes.take n = Clip.bytesFrom t.clips t.readHead n := by
  have hlen := h.length_eq
  rw [← h.unread_eq]
  exact Clip.take_bytesFrom _ _ (by omega)

/-- A new tape of `maxTapeLength` bytes `Holds` the empty list, whatever history
it is asked to keep. -/
theorem holds_create {base history : Nat} (hbase : 0 < base) (hh : history ≤ Word.maxSigned) :
    ((create base maxTapeLength).setHistory history).Holds base [] where
  sound := sound_create base maxTapeLength hh
  heads := Int.le_refl _
  base_eq := by
    show max base 1 = base
    omega
  limit_eq := rfl
  unread_eq := rfl
  fits := Nat.zero_le _

/-- What `peek` shows is the front of the list that the tape `Holds`, as far as
the list goes. -/
theorem Holds.toList_peek (h : t.Holds base bytes) {n : Nat} (hn : n ≤ bytes.length) :
    (t.peek n).toList = bytes.take n := by
  have hword := h.length_le
  have hlen := h.length_eq
  rw [h.sound.toList_peek_unread (by omega) (by omega), h.unread_eq]

/-- Bytes are taken off the front of the list. `unread_advance` gives what is
left to be read, and `hn` keeps the write head where it is. -/
theorem Holds.advance (h : t.Holds base bytes) {n : Nat} (hn : n ≤ bytes.length) :
    (t.advance n).Holds base (bytes.drop n) := by
  have hword := h.length_le
  have hheads := h.heads
  have hlen := h.length_eq
  obtain ⟨hsound, hread, hwrite, -⟩ := h.sound.advance (n := n) (by omega)
  refine ⟨hsound, ?_, h.base_eq, h.limit_eq, ?_, ?_⟩
  · rw [hread, hwrite]
    omega
  · rw [h.sound.unread_advance (by omega) (by omega), h.unread_eq]
  · rw [List.length_drop]
    have := h.fits
    omega

/-- A block of whole frames (`hframes`) for which there is room (`hroom`) is put
behind the list. -/
theorem Holds.append (h : t.Holds base bytes) {block : Block} (hframes : block.size % base = 0)
    (hroom : bytes.length + block.size ≤ maxTapeLength) :
    ∃ t', t.append block = .ok t' ∧ t'.Holds base (bytes ++ block.toList) := by
  have hheads := h.heads
  have hlen := h.length_eq
  unfold length at hlen
  -- Neither of the checks refuses the block.
  have hok : ∃ t', t.append block = .ok t' ∧ t'.base = t.base ∧ t'.limit = t.limit := by
    unfold Tape.append
    rw [if_neg (by rw [h.base_eq]; omega)]
    split
    · exact ⟨t, rfl, rfl, rfl⟩
    · simp only
      rw [if_neg (by rw [h.limit_eq]; omega)]
      exact ⟨_, rfl, rfl, rfl⟩
  obtain ⟨t', happend, hbase, hlimit⟩ := hok
  obtain ⟨hsound, hread, hwrite, -⟩ := h.sound.clips_append happend
  refine ⟨t', happend, hsound, by omega, hbase.trans h.base_eq, hlimit.trans h.limit_eq, ?_, ?_⟩
  · rw [h.sound.unread_append hheads happend, h.unread_eq]
  · rw [List.length_append, Block.length_toList]
    exact hroom

/-- Any other block is refused. The two ways to be refused are an `unaligned`
size and an `overflow`, since `base` and `limit` are those of `Holds`. -/
theorem Holds.append_eq_error (h : t.Holds base bytes) {block : Block}
    (hrefused : ¬(block.size % base = 0 ∧ bytes.length + block.size ≤ maxTapeLength)) :
    ∃ e, t.append block = .error e := by
  have hheads := h.heads
  have hlen := h.length_eq
  have hfits := h.fits
  unfold length at hlen
  unfold Tape.append
  by_cases hframes : block.size % t.base = 0
  · rw [h.base_eq] at hframes
    rw [if_neg (by rw [h.base_eq]; omega), if_neg (by omega)]
    simp only
    rw [if_pos (by rw [h.limit_eq]; omega)]
    exact ⟨_, rfl⟩
  · rw [if_pos hframes]
    exact ⟨_, rfl⟩

/-- A block that `append` takes is put behind the list that the tape `Holds`. -/
theorem Holds.of_append_eq_ok (h : t.Holds base bytes) {block : Block} {t' : Tape}
    (happend : t.append block = .ok t') : t'.Holds base (bytes ++ block.toList) := by
  by_cases hfits : block.size % base = 0 ∧ bytes.length + block.size ≤ maxTapeLength
  · obtain ⟨_, hsame, hholds⟩ := h.append hfits.1 hfits.2
    cases happend.symm.trans hsame
    exact hholds
  · obtain ⟨_, herror⟩ := h.append_eq_error hfits
    cases happend.symm.trans herror

/-- Bytes are taken off the end of the list, as many as there are. `clamp` stops
the write head at the read head, and `limit` is never in the way. -/
theorem Holds.seekBack (h : t.Holds base bytes) {n : Nat} (hn : n ≤ Word.maxSigned) :
    (t.seek (-Word.signed n) true).Holds base (bytes.take (bytes.length - n)) := by
  have hheads := h.heads
  have hlen := h.length_eq
  have hfits := h.fits
  obtain ⟨hsound, hread, hlookup⟩ := h.sound.seek (-Word.signed n) true
  -- The write head stops at the read head. The limit is never in the way.
  have hwrite : (t.seek (-Word.signed n) true).writeHead = max (t.writeHead - n) t.readHead := by
    show min (max (t.writeHead + -Word.signed n) t.readHead) (t.readHead + t.limit) = _
    rw [Word.signed_natCast hn, h.limit_eq]
    unfold length at hlen
    omega
  have hrest : (t.seek (-Word.signed n) true).length = bytes.length - n := by
    unfold length at hlen ⊢
    rw [hread, hwrite]
    omega
  refine ⟨hsound, ?_, h.base_eq, h.limit_eq, ?_, ?_⟩
  · rw [hread, hwrite]
    omega
  · rw [unread, hrest, hread, h.take_eq (by omega)]
    refine Clip.bytesFrom_congr ?_
    intro p _ hp
    rw [hlookup p, hwrite, if_neg]
    unfold length at hlen
    omega
  · rw [List.length_take]
    omega

/-- Nothing lies unread behind a `flush` that keeps the history: the write head
stands at the read head. -/
theorem length_flush (t : Tape) : (t.flush true).length = 0 := by
  show (t.readHead - t.readHead).toNat = 0
  omega

/-- A `Sound` tape with the base `base` and the limit `maxTapeLength` `Holds`
nothing after a `flush`, however much lay unread before. -/
theorem Sound.holds_flush (h : t.Sound) (hbase : t.base = base)
    (hlimit : t.limit = maxTapeLength) : (t.flush true).Holds base [] where
  sound := h.flush
  heads := Int.le_refl _
  base_eq := hbase
  limit_eq := hlimit
  unread_eq := List.eq_nil_of_length_eq_zero ((length_unread _).trans t.length_flush)
  fits := Nat.zero_le _

/-- A `flush` that keeps the history leaves the empty list of a tape that
`Holds` one. -/
theorem Holds.flush (h : t.Holds base bytes) : (t.flush true).Holds base [] :=
  h.sound.holds_flush h.base_eq h.limit_eq

/-- Where nothing lies unread, `advance` by no bytes leaves nothing unread. -/
theorem length_advance_zero (h : t.length = 0) : (t.advance 0).length = 0 := by
  have hzero : Word.signed 0 = 0 := Word.signed_natCast (n := 0) (Nat.zero_le _)
  unfold length at h
  show (max t.writeHead (t.readHead + Word.signed 0) - (t.readHead + Word.signed 0)).toNat = 0
  rw [hzero]
  omega

/-- A sound tape holds what lies `unread` on it, whatever that is, if the bounds
are those of a session. -/
theorem Sound.holds_unread (h : t.Sound) (hheads : t.readHead ≤ t.writeHead) (hbase : t.base = base)
    (hlimit : t.limit = maxTapeLength) (hfits : t.length ≤ maxTapeLength) :
    t.Holds base t.unread :=
  ⟨h, hheads, hbase, hlimit, rfl, by rw [length_unread]; exact hfits⟩

/-- A `seek` whose write head stops at the read head leaves some bytes on the
tape: which ones depends on the offset, but the tape still `Holds` a list. -/
theorem Holds.seek (h : t.Holds base bytes) (offset : Int) :
    ∃ bytes', (t.seek offset true).Holds base bytes' := by
  obtain ⟨hsound, hread, -⟩ := h.sound.seek offset true
  have hwrite : (t.seek offset true).writeHead
      = min (max (t.writeHead + offset) t.readHead) (t.readHead + maxTapeLength) := by
    rw [← h.limit_eq]
    rfl
  refine ⟨_, hsound.holds_unread ?_ h.base_eq h.limit_eq ?_⟩
  · omega
  · unfold length
    omega

end Tape

end EchoAlign
