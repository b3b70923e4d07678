import EchoAlign.Proofs.Audio.ByteMap

/-!
# `EchoAlign.Proofs.Audio.Limit`: how much a tape holds unread

A block is refused for which there is no room, and the write head stops
where the limit lies ahead of the read head. Both look at the place where
the read head stands then. A rewind moves the read head away from the
write head and looks at no limit, so a tape that was filled again after it
was read comes to hold more.

`Tape.givenBack` counts, during a run, the bytes that rewinds gave back
and that were not read again.

* `length_le_limit`: after any run, a tape holds no more than its limit
  and what rewinds gave back. It holds no more than its limit if no rewind
  of the run took it beyond. Beyond the limit, a tape takes no block, and
  a write head that is told to stay cuts the audio off at the limit.
* `rewind_exceeds`: a rewind that takes a tape to twice its limit.
-/

set_option autoImplicit false

namespace EchoAlign

/-- How many bytes stay given back, out of `back` before. Reading takes them
away first. Wherever the write head is put, it is put within the limit. -/
def TapeOperation.givenBack (back : Nat) : TapeOperation → TapeAnswer → Nat
  | .advance n, _ => back - n
  | .seek _ _, _ => 0
  | .flush _, _ => 0
  | _, .rewound n => back + n
  | _, _ => back

namespace Tape

/-- How many bytes stay given back when operations are done one after another.
Each counts by `TapeOperation.givenBack`, with the answer it gets in the state
it meets. -/
def givenBack (t : Tape) (back : Nat) : List TapeOperation → Nat
  | [] => back
  | operation :: rest =>
      (t.perform operation).2.givenBack (operation.givenBack back (t.perform operation).1) rest

variable {t : Tape} {back : Nat}

/-- No operation that `perform` does changes the `limit`. -/
theorem limit_perform (t : Tape) (operation : TapeOperation) :
    (t.perform operation).2.limit = t.limit := by
  cases operation with
  | append block =>
      obtain ⟨-, happend⟩ | ⟨-, -, happend⟩ | ⟨-, -, t', happend, -, hlimit, -⟩ :=
        t.append_cases block
      · simp only [perform, happend]
      · simp only [perform, happend]
      · simp only [perform, happend, hlimit]
  | flush keepHistory => cases keepHistory <;> rfl
  | _ => rfl

/-- A block that is put on ends within the limit, and one that is not, or that
is empty, leaves the heads where they are. So `append` alone never brings a tape
above its `limit`. -/
theorem length_append (t : Tape) (block : Block) :
    let after := (t.perform (.append block)).2
    after.length ≤ t.limit ∨ after.length = t.length := by
  simp only [perform, append]
  by_cases hframes : block.size % t.base ≠ 0
  · rw [if_pos hframes]
    exact .inr rfl
  · rw [if_neg hframes]
    by_cases hzero : block.size = 0
    · rw [if_pos hzero]
      exact .inr rfl
    · rw [if_neg hzero]
      by_cases hover : t.limit < (t.writeHead + block.size - t.readHead).toNat
      · rw [if_pos hover]
        exact .inr rfl
      · rw [if_neg hover]
        exact .inl (Nat.le_of_not_lt hover)

/-- Going forward by `advance` takes bytes off the unread `length`, as far as
there are any. -/
theorem length_advance (t : Tape) {n : Nat} (hn : n ≤ Word.maxSigned) :
    (t.advance n).length = t.length - n := by
  have hread : (t.advance n).readHead = t.readHead + n := by
    show t.readHead + Word.signed n = _
    rw [Word.signed_natCast hn]
  have hwrite : (t.advance n).writeHead = max t.writeHead (t.readHead + n) := by
    show max t.writeHead (t.readHead + Word.signed n) = _
    rw [Word.signed_natCast hn]
  unfold length
  rw [hread, hwrite]
  omega

/-- A `rewind` adds to the unread `length` at most as many bytes as it answers
that it went back. -/
theorem length_rewind_le (t : Tape) (n : Nat) :
    (t.rewind n).2.length ≤ t.length + (t.rewind n).1 := by
  show (t.writeHead - (t.readHead - ((t.rewind n).1 : Nat))).toNat
    ≤ (t.writeHead - t.readHead).toNat + (t.rewind n).1
  omega

/-- A write head that `seek` moves stops at the `limit`, so that no more lies
unread than it allows. -/
theorem length_seek_le (t : Tape) (offset : Int) (clamp : Bool) :
    (t.seek offset clamp).length ≤ t.limit := by
  obtain ⟨wanted, hwrite⟩ : ∃ wanted : Int,
      (t.seek offset clamp).writeHead = min wanted (t.readHead + t.limit) := ⟨_, rfl⟩
  show ((t.seek offset clamp).writeHead - t.readHead).toNat ≤ _
  omega

/-- A write head that `seek` tells to stay leaves the `length` as it is, or cuts
it to the `limit` if it is beyond. -/
theorem length_seek_zero (t : Tape) (clamp : Bool) :
    (t.seek 0 clamp).length = min t.length t.limit := by
  cases clamp with
  | false =>
      show (min (t.writeHead + 0) (t.readHead + t.limit) - t.readHead).toNat
        = min (t.writeHead - t.readHead).toNat t.limit
      omega
  | true =>
      show (min (max (t.writeHead + 0) t.readHead) (t.readHead + t.limit) - t.readHead).toNat
        = min (t.writeHead - t.readHead).toNat t.limit
      omega

/-- Nothing lies unread behind a `flush`, whether it keeps the history or not. -/
theorem length_flush_eq_zero (t : Tape) (keepHistory : Bool) :
    (t.flush keepHistory).length = 0 := by
  cases keepHistory with
  | true => exact t.length_flush
  | false =>
      show (t.readHead - t.readHead).toNat = 0
      rw [Int.sub_self]
      rfl

/-- A block that is put on changes nothing about what was given back, whether
`append` takes or refuses it: what was given back is used up only by reading. -/
theorem givenBack_append (t : Tape) (back : Nat) (block : Block) :
    (TapeOperation.append block).givenBack back (t.perform (.append block)).1 = back := by
  simp only [perform]
  cases t.append block <;> rfl

/-- Each operation keeps a tape within its limit and what was given back
(`back`). Only a rewind adds to the one, and only reading takes off both. -/
theorem length_perform_le (h : t.length ≤ t.limit + back) {operation : TapeOperation}
    (hfits : operation.FitsWord) :
    (t.perform operation).2.length
      ≤ t.limit + operation.givenBack back (t.perform operation).1 := by
  cases operation with
  | append block =>
      rw [givenBack_append]
      rcases t.length_append block with hwithin | hsame
      · exact Nat.le_add_right_of_le hwithin
      · rw [hsame]
        exact h
  | advance n =>
      have hlength := t.length_advance hfits
      simp only [perform, TapeOperation.givenBack]
      omega
  | rewind n =>
      have hlength := t.length_rewind_le n
      simp only [perform, TapeOperation.givenBack]
      omega
  | seek offset clamp => exact t.length_seek_le offset clamp
  | flush keepHistory =>
      simp only [perform, length_flush_eq_zero]
      exact Nat.zero_le _
  | setHistory n => exact h

/-- No run of operations changes the `limit`, by induction on the operations
with `limit_perform`. -/
theorem limit_run (t : Tape) (operations : List TapeOperation) :
    (t.run operations).2.limit = t.limit := by
  induction operations generalizing t with
  | nil => rfl
  | cons operation rest ih => exact (ih _).trans (t.limit_perform operation)

/-- A run keeps a tape within its limit and what was given back, by induction on
the operations. The step is `length_perform_le`, and `givenBack` runs along with
the operations, as an `advance` takes off what a `rewind` has put there. -/
theorem length_run_le (h : t.length ≤ t.limit + back) {operations : List TapeOperation}
    (hfits : ∀ operation ∈ operations, operation.FitsWord) :
    (t.run operations).2.length ≤ t.limit + t.givenBack back operations := by
  induction operations generalizing t back with
  | nil => exact h
  | cons operation rest ih =>
      obtain ⟨hfirst, hrest⟩ := List.forall_mem_cons.mp hfits
      have hnext := length_perform_le h hfirst
      rw [← t.limit_perform operation] at hnext
      have hend := ih hnext hrest
      rw [t.limit_perform operation] at hend
      exact hend

/-- Nothing but a rewind (`hno`) takes a tape beyond its limit. -/
theorem length_perform_of_within (h : t.length ≤ t.limit) {operation : TapeOperation}
    (hfits : operation.FitsWord) (hno : ∀ n, operation ≠ .rewind n) :
    (t.perform operation).2.length ≤ t.limit := by
  have hle : (t.perform operation).2.length
      ≤ t.limit + operation.givenBack 0 (t.perform operation).1 :=
    length_perform_le h hfits
  have hback : operation.givenBack 0 (t.perform operation).1 = 0 := by
    cases operation with
    | append block => exact t.givenBack_append 0 block
    | advance n => exact Nat.zero_sub n
    | rewind n => exact absurd rfl (hno n)
    | _ => rfl
  rw [hback] at hle
  exact hle

/-- A run takes a tape beyond its limit only if one of its rewinds does
(`hwithin`). -/
theorem length_run_of_within (h : t.length ≤ t.limit) {operations : List TapeOperation}
    (hfits : ∀ operation ∈ operations, operation.FitsWord)
    (hwithin : ∀ before n, before ++ [.rewind n] <+: operations →
      (t.run (before ++ [.rewind n])).2.length ≤ t.limit) :
    (t.run operations).2.length ≤ t.limit := by
  induction operations generalizing t with
  | nil => exact h
  | cons operation rest ih =>
      obtain ⟨hfirst, hrest⟩ := List.forall_mem_cons.mp hfits
      have hnext : (t.perform operation).2.length ≤ t.limit := by
        by_cases hrewind : ∃ n, operation = .rewind n
        · obtain ⟨n, rfl⟩ := hrewind
          exact hwithin [] n (List.prefix_append _ rest)
        · exact length_perform_of_within h hfirst fun n hn => hrewind ⟨n, hn⟩
      have hlimit := t.limit_perform operation
      have hend : ((t.perform operation).2.run rest).2.length ≤ (t.perform operation).2.limit := by
        refine ih (hlimit ▸ hnext) hrest fun before n hbefore => ?_
        rw [hlimit]
        exact hwithin (operation :: before) n (List.cons_prefix_cons.mpr ⟨rfl, hbefore⟩)
      exact hlimit ▸ hend

/-- A tape whose unread `length` is above its `limit` refuses every block but an
empty one, and stays as it is. -/
theorem refuses_of_limit_lt (h : t.limit < t.length) {block : Block} (hsome : 0 < block.size) :
    ∃ error, t.perform (.append block) = (.refused error, t) := by
  obtain ⟨-, happend⟩ | ⟨-, -, happend⟩ | ⟨-, hroom, -⟩ := t.append_cases block
  · refine ⟨.unaligned block.size t.base, ?_⟩
    simp only [perform, happend]
  · refine ⟨.overflow (t.writeHead + block.size - t.readHead).toNat t.limit, ?_⟩
    simp only [perform, happend]
  · -- There is no room even for what the tape holds.
    refine absurd ⟨hsome, ?_⟩ hroom
    have hheld : t.limit < (t.writeHead - t.readHead).toNat := h
    omega

/-- After any run of a new tape whose counts fit a word, it holds no more than
its `limit` and the bytes that rewinds gave back and that were not read again
(`givenBack`). If each rewind of the run left it within its limit, it holds no
more than that. Wherever it does hold more, it refuses every block, and a write
head that is moved by nothing goes back to the limit. -/
theorem length_le_limit (base limit : Nat) {operations : List TapeOperation}
    (hfits : ∀ operation ∈ operations, operation.FitsWord) :
    let tape := ((create base limit).run operations).2
    tape.limit = min limit maxTapeLength
      ∧ tape.length ≤ tape.limit + (create base limit).givenBack 0 operations
      ∧ ((∀ before n, before ++ [.rewind n] <+: operations →
            ((create base limit).run (before ++ [.rewind n])).2.length ≤ tape.limit) →
          tape.length ≤ tape.limit)
      ∧ (tape.limit < tape.length →
          (∀ block, 0 < block.size →
            ∃ error, tape.perform (.append block) = (.refused error, tape))
          ∧ ∀ clamp, (tape.seek 0 clamp).length = tape.limit) := by
  intro tape
  have hlimit : tape.limit = (create base limit).limit := (create base limit).limit_run operations
  have hstart : (create base limit).length ≤ (create base limit).limit := Nat.zero_le _
  refine ⟨hlimit, ?_, fun hwithin => ?_, fun hover => ⟨fun block hsome => ?_, fun clamp => ?_⟩⟩
  · rw [hlimit]
    exact length_run_le hstart hfits
  · rw [hlimit] at hwithin ⊢
    exact length_run_of_within hstart hfits hwithin
  · exact refuses_of_limit_lt hover hsome
  · rw [length_seek_zero]
    exact Nat.min_eq_right (Nat.le_of_lt hover)

/-- A tape of eight bytes is filled, read by six, filled again and wound back by
four, of which one is read again. The hypothesis of `length_le_limit` is met,
and three of the eleven bytes are `givenBack`. -/
theorem length_le_limit_trial :
    let operations : List TapeOperation :=
      [.setHistory 8, .append (.silence 8), .advance 6, .append (.silence 6), .rewind 4,
        .advance 1]
    let tape := ((create 1 8).run operations).2
    tape.length = 11
      ∧ (create 1 8).givenBack 0 operations = 3
      ∧ tape.limit = 8
      ∧ tape.length ≤ 8 + 3
      ∧ ∃ error, tape.perform (.append (.silence 1)) = (.refused error, tape) := by
  intro operations tape
  have hfits : ∀ operation ∈ operations, operation.FitsWord := by
    intro operation hmem
    simp only [operations, List.mem_cons, List.not_mem_nil, or_false] at hmem
    rcases hmem with rfl | rfl | rfl | rfl | rfl | rfl
    all_goals first | trivial | exact Nat.le_of_lt_succ (by decide)
  have hlength : tape.length = 11 := by decide +kernel
  have hback : (create 1 8).givenBack 0 operations = 3 := by decide +kernel
  obtain ⟨hlimit, hle, -, hover⟩ := length_le_limit 1 8 hfits
  have height : tape.limit = 8 := hlimit.trans (by decide)
  refine ⟨hlength, hback, height, ?_, (hover ?_).1 _ (by decide)⟩
  · rw [← height, ← hback]
    exact hle
  · show tape.limit < tape.length
    rw [height, hlength]
    decide

/-- Eight bytes are read and eight more put on, as many as the tape may hold. A
rewind of eight brings it to sixteen, and a write head that is moved by nothing
cuts off the eight that were put on last. So `limit` bounds neither what a
`rewind` leads to nor, by `seek`, what is lost after it. -/
theorem rewind_exceeds :
    let operations : List TapeOperation :=
      [.setHistory 8, .append (.ofBytes ⟨#[1, 2, 3, 4, 5, 6, 7, 8]⟩), .advance 8,
        .append (.ofBytes ⟨#[9, 10, 11, 12, 13, 14, 15, 16]⟩), .rewind 8]
    let tape := ((create 1 8).run operations).2
    tape.limit = 8
      ∧ tape.length = 16
      ∧ (tape.perform (.append (.silence 1))).1 = .refused (.overflow 17 8)
      ∧ (tape.seek 0 true).length = 8
      ∧ ((tape.seek 0 true).peek 16).toList = [1, 2, 3, 4, 5, 6, 7, 8, 0, 0, 0, 0, 0, 0, 0, 0] := by
  decide +kernel

end Tape

end EchoAlign
