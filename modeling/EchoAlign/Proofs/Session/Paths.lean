import EchoAlign.Proofs.Session.Reference
import EchoAlign.Proofs.Session.Visits

/-!
# `EchoAlign.Proofs.Session.Paths`: work on blocks, step by step

`Pairing.drive` works off block after block, with a bound on the number of
steps. A `Path` is the same work without the bound.

* `path_drive`: what `drive` does is a path to where no block is left.
* `Path.drive_eq`: there is only one such path.
* `Path.captured`, `Path.size_forwarded`: the events of a path take the
  captured audio off the tape from the front, and what they hand on are
  blocks.
* `isWorked_of_mem_perform`: such events come from capture ticks only.
-/

set_option autoImplicit false

namespace EchoAlign

/-- The captured audio an event takes off the tape: `skipped`, given to the
canceller or `passed` on. -/
def Event.captured? : Event → Option Block
  | skipped captured => some captured
  | cancelled captured _ _ => some captured
  | passed captured _ => some captured
  | _ => none

/-- Only work on captured audio takes some off the tape, hands some on or drops
some: for an event that is not `isWorked` all of these are nothing. -/
theorem Event.of_not_isWorked {event : Event} (h : event.isWorked = false) :
    event.captured? = none ∧ event.forwarded? = none ∧ event.isCall = false
      ∧ event.isPass = false ∧ event.sourceSkipped = 0 ∧ event.sinkSkipped = 0 := by
  cases event with
  | skipped captured => cases h
  | cancelled captured played cleaned => cases h
  | passed captured dropped => cases h
  | _ => exact ⟨rfl, rfl, rfl, rfl, rfl, rfl⟩

namespace Pairing

variable {κ : Type} [Canceller κ] {p next last : Pairing κ} {event : Event} {events : List Event}
  {base : Nat} {bytes : List UInt8}

/-- A step takes captured bytes off the front, and says which. It takes at least
one where blocks are not empty. What it takes is `event.captured?`, and what is
left is the list of the tape behind it. -/
theorem captured_step? (h : p.captured.Holds base bytes) (hstep : p.step? = some (event, next)) :
    next.blockBytes = p.blockBytes
      ∧ ∃ n captured, n ≤ bytes.length ∧ (0 < p.blockBytes → 0 < n)
        ∧ event.captured? = some captured ∧ captured.toList = bytes.take n
        ∧ next.captured.Holds base (bytes.drop n) := by
  have hlen := h.length_eq
  obtain ⟨hle, ⟨hsource, heq⟩ | ⟨-, -, heq⟩ | ⟨-, -, heq⟩⟩ := step?_cases hstep
  · cases heq
    have hn : min p.skip.source p.blockBytes ≤ bytes.length := by omega
    exact ⟨rfl, _, _, hn, by omega, rfl, h.toList_peek hn, h.advance hn⟩
  · cases heq
    have hn : p.blockBytes ≤ bytes.length := by omega
    exact ⟨rfl, _, _, hn, id, rfl, h.toList_peek hn, h.advance hn⟩
  · cases heq
    have hn : p.blockBytes ≤ bytes.length := by omega
    exact ⟨rfl, _, _, hn, id, rfl, h.toList_peek hn, h.advance hn⟩

/-- What is handed on in a step is a block of `blockBytes`. -/
theorem size_forwarded_step? (h : p.captured.Holds base bytes)
    (hstep : p.step? = some (event, next)) {block : Block}
    (hblock : event.forwarded? = some block) : block.size = p.blockBytes := by
  obtain ⟨hle, ⟨-, heq⟩ | ⟨-, -, heq⟩ | ⟨-, -, heq⟩⟩ := step?_cases hstep
  · rw [show event = p.skipCaptured.1 from congrArg Prod.fst heq] at hblock
    cases hblock
  · rw [h.length_eq] at hle
    rw [show event = p.cancel.1 from congrArg Prod.fst heq] at hblock
    rw [← Option.some.inj hblock]
    exact (size_cancelBlock p.canceller _ _).trans (h.take hle).1
  · rw [h.length_eq] at hle
    rw [show event = p.pass.1 from congrArg Prod.fst heq] at hblock
    rw [← Option.some.inj hblock]
    exact (h.take hle).1

/-- Where no block is left, less than a block is: otherwise `Pairing.step?`
would take one. -/
theorem length_lt_of_step?_eq_none (h : p.step? = none) :
    p.captured.length < p.blockBytes := by
  refine Nat.lt_of_not_le fun hle => ?_
  have hblock : p.hasBlock = true := by simpa [hasBlock] using hle
  unfold step? at h
  rw [hblock] at h
  simp only [Bool.not_true, Bool.false_eq_true, if_false] at h
  split at h
  · cases h
  · split at h <;> cases h

/-- Blocks are worked off one after another by `Pairing.step?`, with these
events. -/
inductive Path : Pairing κ → List Event → Pairing κ → Prop where
  | refl (p : Pairing κ) : Path p [] p
  | cons {p next last : Pairing κ} {event : Event} {events : List Event}
      (hstep : p.step? = some (event, next)) (hrest : Path next events last) :
      Path p (event :: events) last

/-- Two paths in a row make up one: `Path` is transitive. -/
theorem Path.trans {first rest : List Event} (h : Path p first next) (h' : Path next rest last) :
    Path p (first ++ rest) last := by
  induction h with
  | refl => exact h'
  | cons hstep _ ih => exact .cons hstep (ih h')

/-- Captured audio is taken off the tape from the front: what the events took
(`Event.captured?`) and what is left make up what was there. -/
theorem Path.captured (h : Path p events last) (hcaptured : p.captured.Holds base bytes) :
    last.blockBytes = p.blockBytes
      ∧ ∃ rest, bytes = bytesOfBlocks (events.filterMap Event.captured?) ++ rest
        ∧ last.captured.Holds base rest := by
  induction h generalizing bytes with
  | refl => exact ⟨rfl, bytes, rfl, hcaptured⟩
  | cons hstep _ ih =>
      obtain ⟨hsize, n, captured, -, -, hsome, htaken, hrest⟩ := captured_step? hcaptured hstep
      obtain ⟨hsize', rest, hbytes, hlast⟩ := ih hrest
      refine ⟨hsize'.trans hsize, rest, ?_, hlast⟩
      rw [List.filterMap_cons_some hsome]
      show bytes = captured.toList ++ bytesOfBlocks _ ++ rest
      rw [htaken, List.append_assoc, ← hbytes, List.take_append_drop]

/-- All that is handed on along a `Path` are blocks of one size. -/
theorem Path.size_forwarded (h : Path p events last) (hcaptured : p.captured.Holds base bytes)
    {block : Block} (hblock : block ∈ events.filterMap Event.forwarded?) :
    block.size = p.blockBytes := by
  induction h generalizing bytes with
  | refl => cases hblock
  | @cons p next last event events hstep _ ih =>
      obtain ⟨hsize, _, _, -, -, -, -, hrest⟩ := captured_step? hcaptured hstep
      obtain ⟨event', hevent, hforwarded⟩ := List.mem_filterMap.mp hblock
      rcases List.mem_cons.mp hevent with rfl | hevent
      · exact size_forwarded_step? hcaptured hstep hforwarded
      · exact (ih hrest (List.mem_filterMap.mpr ⟨event', hevent, hforwarded⟩)).trans hsize

/-- All of the events of a path tell the fate of captured audio. The list of
fates is what a `Backlog` would tell in place of the events. -/
theorem Path.exists_fates (h : Path p events last) :
    ∃ fates : List Fate, events.map Event.fate? = fates.map some := by
  induction h with
  | refl => exact ⟨[], rfl⟩
  | @cons p next last event events hstep _ ih =>
      obtain ⟨fates, hfates⟩ := ih
      have hfate : ∃ fate, event.fate? = some fate := by
        obtain ⟨-, ⟨-, heq⟩ | ⟨-, -, heq⟩ | ⟨-, -, heq⟩⟩ := step?_cases hstep
        · exact ⟨_, congrArg (·.1.fate?) heq⟩
        · exact ⟨_, congrArg (·.1.fate?) heq⟩
        · exact ⟨_, congrArg (·.1.fate?) heq⟩
      obtain ⟨fate, hfate⟩ := hfate
      refine ⟨fate :: fates, ?_⟩
      rw [List.map_cons, List.map_cons, hfate, hfates]

/-- Every block takes captured audio off the tape (`hpos`), so that there are no
more of them than bytes. -/
theorem Path.length_le (h : Path p events last) (hpos : 0 < p.blockBytes)
    (hcaptured : p.captured.Holds base bytes) : events.length ≤ bytes.length := by
  induction h generalizing bytes with
  | refl => exact Nat.zero_le _
  | cons hstep _ ih =>
      obtain ⟨hsize, n, -, hn, hsome, -, -, hrest⟩ := captured_step? hcaptured hstep
      have hlater := ih (hsize ▸ hpos) hrest
      have htaken := hsome hpos
      rw [List.length_drop] at hlater
      rw [List.length_cons]
      omega

/-- With at least as many steps as a path has, `Pairing.driveFrom` goes to its
end. -/
theorem Path.driveFrom (h : Path p events last) (hend : last.step? = none) {steps : Nat}
    (hsteps : events.length ≤ steps) (before : List Event) :
    p.driveFrom steps before = (before.reverse ++ events, last) := by
  induction h generalizing steps before with
  | refl =>
      rw [List.append_nil]
      cases steps with
      | zero => rfl
      | succ steps => simp only [Pairing.driveFrom, hend]
  | cons hstep _ ih =>
      cases steps with
      | zero => cases hsteps
      | succ steps =>
          simp only [Pairing.driveFrom, hstep]
          rw [ih hend (Nat.le_of_succ_le_succ hsteps), List.reverse_cons, List.append_assoc]
          rfl

/-- A path to where no block is left is what working off all blocks is:
`Pairing.drive` has steps enough by `Path.length_le`. -/
theorem Path.drive_eq (h : Path p events last) (hend : last.step? = none) (hpos : 0 < p.blockBytes)
    (hcaptured : p.captured.Holds base bytes) : p.drive = (events, last) := by
  have hlength := h.length_le hpos hcaptured
  rw [← hcaptured.length_eq] at hlength
  exact h.driveFrom hend hlength []

/-- There is such a path: by strong induction on what is left on the tape, which
every step makes shorter. Where no step is left, the path ends; otherwise
`captured_step?` makes the list shorter. -/
theorem exists_path (hpos : 0 < p.blockBytes) (hcaptured : p.captured.Holds base bytes) :
    ∃ events last, Path p events last ∧ last.step? = none := by
  -- By induction on how much captured audio there is.
  induction hlength : bytes.length using Nat.strongRecOn generalizing p bytes with
  | ind length ih =>
      cases hstep : p.step? with
      | none => exact ⟨[], p, .refl p, hstep⟩
      | some result =>
          obtain ⟨event, next⟩ := result
          obtain ⟨hsize, n, -, hn, hsome, -, -, hrest⟩ := captured_step? hcaptured hstep
          have htaken := hsome hpos
          obtain ⟨events, last, hpath, hend⟩ :=
            ih (bytes.drop n).length (by rw [List.length_drop]; omega) (hsize ▸ hpos) hrest rfl
          exact ⟨event :: events, last, .cons hstep hpath, hend⟩

/-- Working off all blocks with `Pairing.drive` is a path to where none is left. -/
theorem path_drive (hpos : 0 < p.blockBytes) (hcaptured : p.captured.Holds base bytes) :
    Path p p.drive.1 p.drive.2 ∧ p.drive.2.step? = none := by
  obtain ⟨events, last, hpath, hend⟩ := exists_path hpos hcaptured
  rw [hpath.drive_eq hend hpos hcaptured]
  exact ⟨hpath, hend⟩

end Pairing

namespace Session

variable {κ υ : Type} [Canceller κ] [Producer υ] {s : Session κ υ}

/-- Only capture ticks work captured audio off: no other operation has an event
that is `isWorked`. -/
theorem isWorked_of_mem_perform {operation : Operation} (hpush : ∀ block, operation ≠ .push block)
    {event : Event} (hevent : event ∈ (s.perform operation).1) : event.isWorked = false := by
  -- Blocks are worked off by a capture tick, and other events are of other kinds.
  cases operation with
  | push block => exact absurd rfl (hpush block)
  | render bytes =>
      have hevent : event ∈ (s.render bytes).1 := hevent
      unfold render at hevent
      split at hevent
      · cases hevent
      · split at hevent
        · rw [List.mem_singleton.mp hevent]
          rfl
        · rw [List.mem_singleton.mp hevent]
          rfl
  | rewindCapture bytes =>
      have hevent : event ∈ (s.rewindCapture bytes).1 := hevent
      unfold rewindCapture at hevent
      split at hevent
      · cases hevent
      · split at hevent
        · cases hevent
        · rw [List.mem_singleton.mp hevent]
          rfl
  | postCorrection usec =>
      have hevent : event ∈ (s.postCorrection usec).1 := hevent
      unfold postCorrection at hevent
      split at hevent
      · cases hevent
      · rw [List.mem_singleton.mp hevent]
        rfl
  | startCheck =>
      obtain ⟨outcome, rfl⟩ := mem_startCheck hevent
      rfl
  | continueCheck =>
      obtain ⟨outcome, rfl⟩ := mem_continueCheck hevent
      rfl
  | inspect asked =>
      rw [List.mem_singleton.mp hevent]
      rfl
  | dropCapture =>
      have hevent : event ∈ s.dropCapture.1 := hevent
      unfold dropCapture at hevent
      split at hevent
      · cases hevent
      · rw [List.mem_singleton.mp hevent]
        rfl
  | _ => cases hevent

end Session

end EchoAlign
