import EchoAlign.Canceller.Nlms
import Mathlib.Data.List.OfFn
import Mathlib.Data.List.FinRange

/-!
# `EchoAlign.Proofs.Canceller.History`: the ring is a sliding window

A filter keeps its last references in a ring that is stored twice over, and
moves through it backwards. Two other filters say what that comes to.

* `Recorder`: keeps every reference it has ever heard, and takes the last ones
  of them at each step. This is what the ring is for.
* `PlainFilter`: has the ring as a list of any length, and stops at the first
  index that is not in it. This is what the ring does.
* `Recalls`: the two copies of the ring agree, and the window holds the last
  references. `Recalls.hear`: a reference more keeps it so.
* `history_slides`: after any number of sample pairs, all three filters have
  given the same and hold the same.
-/

set_option autoImplicit false

namespace EchoAlign

namespace ChannelFilter

variable {α : Type} [Signal α] {taps : Nat}

/-! ### What a step works out -/

/-- The weighted sum of a window, in the order in which `ChannelFilter.estimate`
adds it up. -/
def echoOf (weights window : List α) : α :=
  (weights.zipWith Signal.mul window).foldl Signal.add Signal.zero

/-- The power of a window that a reference comes into and another one leaves,
cut at zero by `Signal.positivePart`. -/
def powerAfter (power reference oldest : α) : α :=
  Signal.positivePart
    (Signal.sub (Signal.add power (Signal.mul reference reference)) (Signal.mul oldest oldest))

/-- The weights, each moved along its reference in the `window` by a step that
the `power` makes smaller. -/
def movedWeights (weights window : List α) (power error : α) : List α :=
  let step := Signal.div (Signal.mul Signal.stepSize error)
    (Signal.add power Signal.regularization)
  weights.zipWith (fun weight reference => Signal.add weight (Signal.mul step reference)) window

/-- The references that are weighted, newest first: the `window` as a list. -/
def windowed (f : ChannelFilter α taps) : List α :=
  List.ofFn fun i : Fin taps => f.window i i.isLt

/-- The reference that the next one is written over, and the one that leaves the
`power`. -/
def oldest (f : ChannelFilter α taps) : α :=
  have hplace : (previous f.newest).val < taps + taps :=
    Nat.lt_add_right taps (previous f.newest).isLt
  f.history[(previous f.newest).val]

/-- Hearing a reference changes the power as `powerAfter` says. -/
theorem power_hear (f : ChannelFilter α taps) (reference : α) :
    (f.hear reference).power = powerAfter f.power reference f.oldest := rfl

/-- The `estimate` of a filter is the weighted sum of its window (`echoOf`). -/
theorem estimate_eq (f : ChannelFilter α taps) :
    f.estimate = echoOf f.weights.toList f.windowed := by
  have hproducts : f.weights.toList.zipWith Signal.mul f.windowed
      = (List.finRange taps).map fun i : Fin taps => Signal.mul f.weights[i.val] (f.window i i.isLt) := by
    apply List.ext_getElem <;> simp [windowed]
  rw [echoOf, hproducts, List.foldl_map, estimate, Nat.fold_eq_finRange_foldl]

/-- Learning moves the weights as `movedWeights` says. -/
theorem weights_learn (f : ChannelFilter α taps) (error : α) :
    (f.learn error).weights.toList
      = movedWeights f.weights.toList f.windowed f.power error := by
  apply List.ext_getElem <;> simp [learn, movedWeights, windowed]

/-! ### The two other filters -/

/-- The last `taps` of the references, which stand newest first, with zeros for
those from before the first one. -/
def lastReferences (taps : Nat) (references : List α) : List α :=
  (references ++ List.replicate taps Signal.zero).take taps

/-- The reference `i` steps before the newest, or zero. -/
def recalled (references : List α) (i : Nat) : α := references[i]?.getD Signal.zero

/-- A filter that keeps all `references`, and looks back as far as it needs to. -/
structure Recorder (α : Type) where
  weights : List α
  /-- Every reference heard, newest first. -/
  references : List α
  power : α

/-- A recorder that has heard nothing, with all `weights` at zero. -/
def Recorder.silent (taps : Nat) : Recorder α :=
  ⟨List.replicate taps Signal.zero, [], Signal.zero⟩

/-- Cleans a sample with the last references, one for each weight
(`lastReferences`). The power is without the reference of as many steps ago. -/
def Recorder.process (f : Recorder α) (microphone reference : α) : α × Recorder α :=
  let taps := f.weights.length
  let references := reference :: f.references
  let power := powerAfter f.power reference (recalled references taps)
  let window := lastReferences taps references
  let error := Signal.sub microphone (echoOf f.weights window)
  (error, ⟨movedWeights f.weights window power error, references, power⟩)

/-- A filter whose ring (`history`) may be of any length, so that its places
have to be checked. -/
structure PlainFilter (α : Type) where
  weights : List α
  history : List α
  newest : Nat
  power : α

/-- A plain filter that has heard nothing, with a ring of twice as many places
as there are weights (`taps`). -/
def PlainFilter.silent (taps : Nat) : PlainFilter α :=
  ⟨List.replicate taps Signal.zero, List.replicate (taps * 2) Signal.zero, 0, Signal.zero⟩

/-- Writes a `value`, if there is such a place. -/
def overwrite? (values : List α) (place : Nat) (value : α) : Option (List α) :=
  if place < values.length then some (values.set place value) else none

/-- The values from `start` to before `stop`, if all of them are there. -/
def stretch? (values : List α) (start stop : Nat) : Option (List α) :=
  if start ≤ stop ∧ stop ≤ values.length then some ((values.drop start).take (stop - start)) else none

/-- Cleans a sample as far as there is what is read and written, and is `none`
where a place is missed. -/
def PlainFilter.process? (f : PlainFilter α) (microphone reference : α) :
    Option (α × PlainFilter α) := do
  let taps := f.weights.length
  -- No place is found by a division by zero.
  guard (taps ≠ 0)
  let newest := (f.newest + taps - 1) % taps
  let oldest ← f.history[newest]?
  let once ← overwrite? f.history newest reference
  let history ← overwrite? once (newest + taps) reference
  let power := powerAfter f.power reference oldest
  let window ← stretch? history newest (newest + taps)
  let error := Signal.sub microphone (echoOf f.weights window)
  return (error, ⟨movedWeights f.weights window power error, history, newest, power⟩)

/-- Runs pairs of a microphone sample and a reference through a filter with
`process`, one after another. -/
def processAll (f : ChannelFilter α taps) : List (α × α) → List α × ChannelFilter α taps
  | [] => ([], f)
  | (microphone, reference) :: rest =>
      let (error, f) := f.process microphone reference
      let (errors, f) := f.processAll rest
      (error :: errors, f)

/-- Runs pairs of samples through a filter that keeps all references, with
`Recorder.process` for each. -/
def Recorder.processAll (f : Recorder α) : List (α × α) → List α × Recorder α
  | [] => ([], f)
  | (microphone, reference) :: rest =>
      let (error, f) := f.process microphone reference
      let (errors, f) := f.processAll rest
      (error :: errors, f)

/-- Runs pairs of samples through a filter with `process?`, as far as there is
what is read and written. -/
def PlainFilter.processAll? (f : PlainFilter α) : List (α × α) → Option (List α × PlainFilter α)
  | [] => some ([], f)
  | (microphone, reference) :: rest => do
      let (error, f) ← f.process? microphone reference
      let (errors, f) ← f.processAll? rest
      return (error :: errors, f)

/-- The filter with its `references` in place of the ring. -/
def recorder (f : ChannelFilter α taps) (references : List α) : Recorder α :=
  ⟨f.weights.toList, references, f.power⟩

/-- The filter without the proof that its places are in the ring (`history`). -/
def plain (f : ChannelFilter α taps) : PlainFilter α :=
  ⟨f.weights.toList, f.history.toList, f.newest, f.power⟩

/-! ### Places in the ring -/

/-- The place before the first one is the last one, and before any other stands
the next lower one. So the wrap of `previous` is dealt with once. -/
theorem previous_cases (place : Fin taps) :
    place.val = 0 ∧ (previous place).val = taps - 1
      ∨ 0 < place.val ∧ (previous place).val + 1 = place.val := by
  have hplace := place.isLt
  rcases Nat.eq_zero_or_pos place.val with hzero | hpos
  · have hlast : (previous place).val = taps - 1 := by
      simp only [previous, hzero, Nat.zero_add]
      exact Nat.mod_eq_of_lt (by omega)
    exact Or.inl ⟨hzero, hlast⟩
  · have hwrap : (previous place).val = place.val - 1 := by
      have hsum : place.val + taps - 1 = place.val - 1 + taps := by omega
      simp only [previous, hsum, Nat.add_mod_right]
      exact Nat.mod_eq_of_lt (by omega)
    exact Or.inr ⟨hpos, by omega⟩

omit [Signal α] in
/-- The window reads the ring from the `newest` reference on. -/
theorem window_eq (f : ChannelFilter α taps) {i : Nat} (hi : i < taps) :
    f.window i hi = f.history[f.newest.val + i] := rfl

/-- What stands in the ring after a reference more: it is at its place
(`previous`) in either copy, and all else is as before. -/
theorem getElem_history_hear (f : ChannelFilter α taps) (reference : α) {i : Nat}
    (hi : i < taps + taps) :
    (f.hear reference).history[i]
      = if i = (previous f.newest).val ∨ i = (previous f.newest).val + taps then reference
        else f.history[i] := by
  simp only [hear, Vector.getElem_set]
  grind

/-! ### The ring and the references -/

/-- The two copies of the ring agree (`mirrored`), and it holds the last of the
references, newest first (`window`). -/
structure Recalls (f : ChannelFilter α taps) (references : List α) : Prop where
  mirrored : ∀ i (hi : i < taps), f.history[i] = f.history[i + taps]
  window : ∀ i (hi : i < taps), f.window i hi = recalled references i

variable {f : ChannelFilter α taps} {references : List α}

/-- A new filter holds zeros, as if nothing was heard before: `Recalls` holds of
no references. -/
theorem recalls_silent (h : 0 < taps) : (silent h : ChannelFilter α taps).Recalls [] where
  mirrored i hi := by simp [silent]
  window i hi := by simp [silent, ChannelFilter.window, recalled, Vector.get]

/-- What is written over is the reference of as many steps ago as there are
taps. That place is `previous` of the newest one, which is the end of the
window. -/
theorem Recalls.oldest (h : f.Recalls references) (reference : α) :
    f.oldest = recalled (reference :: references) taps := by
  have hplace := f.newest.isLt
  have hlast := h.window (taps - 1) (by omega)
  have hsteps : recalled (reference :: references) taps = recalled references (taps - 1) := by
    obtain ⟨n, rfl⟩ : ∃ n, taps = n + 1 := ⟨taps - 1, by omega⟩
    simp [recalled]
  rw [hsteps, ← hlast, window_eq]
  simp only [ChannelFilter.oldest]
  rcases previous_cases f.newest with ⟨hzero, hprevious⟩ | ⟨hpos, hprevious⟩
  · -- The window lies in the first copy.
    simp only [hprevious, hzero, Nat.zero_add]
  · -- The end of the window lies in the second copy.
    have hsecond : f.newest.val + (taps - 1) = (previous f.newest).val + taps := by omega
    simp only [hsecond]
    exact h.mirrored _ (previous f.newest).isLt

/-- A reference more goes in front of the others. `mirrored` holds because
`hear` writes both halves of the ring, and `window` because its first place is
the one written. -/
theorem Recalls.hear (h : f.Recalls references) (reference : α) :
    (f.hear reference).Recalls (reference :: references) where
  mirrored i hi := by
    have hprevious := (previous f.newest).isLt
    rw [getElem_history_hear, getElem_history_hear]
    by_cases hplace : i = (previous f.newest).val
    · rw [if_pos (Or.inl hplace), if_pos (by omega)]
    · rw [if_neg (by omega), if_neg (by omega)]
      exact h.mirrored i hi
  window i hi := by
    have hprevious := (previous f.newest).isLt
    show (f.hear reference).history[(previous f.newest).val + i] = _
    rw [getElem_history_hear]
    cases i with
    | zero => rw [if_pos (by omega)]; rfl
    | succ i =>
        have hstep : recalled (reference :: references) (i + 1) = recalled references i := by
          simp [recalled]
        rw [if_neg (by omega), hstep, ← h.window i (by omega), window_eq]
        rcases previous_cases f.newest with ⟨hzero, hlast⟩ | ⟨hpos, hlast⟩
        · -- The window moves to the end of the first copy, and goes on in the second.
          have hplace : (previous f.newest).val + (i + 1) = i + taps := by omega
          simp only [hplace, hzero, Nat.zero_add]
          exact (h.mirrored i (by omega)).symm
        · have hplace : (previous f.newest).val + (i + 1) = f.newest.val + i := by omega
          simp only [hplace]

/-- Learning touches the weights only, and leaves the ring alone, so that the
filter `Recalls` what it did. -/
theorem Recalls.learn (h : f.Recalls references) (error : α) :
    (f.learn error).Recalls references := ⟨h.mirrored, h.window⟩

/-- A sample that is processed is a reference more (`Recalls.hear`). -/
theorem Recalls.process (h : f.Recalls references) (microphone reference : α) :
    (f.process microphone reference).2.Recalls (reference :: references) :=
  (h.hear reference).learn _

/-- The window of a filter holds the last references (`lastReferences`). -/
theorem Recalls.windowed_eq (h : f.Recalls references) :
    f.windowed = lastReferences taps references := by
  apply List.ext_getElem
  · simp [windowed, lastReferences]
  · intro i hwindow hlast
    have hi : i < taps := by simpa [windowed] using hwindow
    simp only [windowed, List.getElem_ofFn, h.window i hi, lastReferences, List.getElem_take]
    by_cases hknown : i < references.length
    · simp [recalled, List.getElem_append_left hknown, hknown]
    · simp [recalled, List.getElem_append_right (Nat.le_of_not_lt hknown), hknown]

/-! ### One step of the three filters -/

/-- The ring does what keeping all references does: the same error, weights and
power as in `Recorder.process`. -/
theorem Recalls.process_recorder (h : f.Recalls references) (microphone reference : α) :
    let (error, g) := f.process microphone reference
    (f.recorder references).process microphone reference
      = (error, g.recorder (reference :: references)) := by
  have hwindow := (h.hear reference).windowed_eq
  have holdest := h.oldest reference
  have hlength : f.weights.toList.length = taps := f.weights.length_toList
  simp only [ChannelFilter.process, Recorder.process, recorder, hlength, ← holdest, ← hwindow,
    estimate_eq, weights_learn, power_hear]
  rfl

omit [Signal α] in
/-- The window is a stretch of the ring that is there in full. `stretch?` checks
the bounds, and they hold for every `newest`, as the ring is twice as long as
the window. -/
theorem stretch?_history (f : ChannelFilter α taps) :
    stretch? f.history.toList f.newest.val (f.newest.val + taps) = some f.windowed := by
  have hplace := f.newest.isLt
  have hinside : f.newest.val + taps ≤ f.history.toList.length := by
    rw [Vector.length_toList]
    omega
  rw [stretch?, if_pos ⟨Nat.le_add_right _ _, hinside⟩, Nat.add_sub_cancel_left]
  congr 1
  apply List.ext_getElem
  · simp [windowed]
    omega
  · intro i _ _
    simp only [List.getElem_take, List.getElem_drop, Vector.getElem_toList, windowed,
      List.getElem_ofFn, window_eq]

/-- All that a step asks of the ring is in it, so that `PlainFilter.process?`
never misses a place. -/
theorem process?_plain (f : ChannelFilter α taps) (microphone reference : α) :
    let (error, g) := f.process microphone reference
    f.plain.process? microphone reference = some (error, g.plain) := by
  have hprevious := (previous f.newest).isLt
  have htaps : taps ≠ 0 := by omega
  have hlength : f.weights.toList.length = taps := f.weights.length_toList
  have hplace : (f.newest.val + taps - 1) % taps = (previous f.newest).val := rfl
  have hread : f.history.toList[(previous f.newest).val]? = some f.oldest := by
    rw [Vector.getElem?_toList, Vector.getElem?_eq_getElem (by omega)]
    rfl
  -- The two writes one after the other are those of the ring.
  have hfirst : overwrite? f.history.toList (previous f.newest).val reference
      = some (f.history.set (previous f.newest).val reference).toList := by
    rw [overwrite?, if_pos (by rw [Vector.length_toList]; omega), Vector.toList_set]
  have hsecond : overwrite? (f.history.set (previous f.newest).val reference).toList
      ((previous f.newest).val + taps) reference = some (f.hear reference).history.toList := by
    have hinside : (previous f.newest).val + taps < taps + taps := by omega
    rw [overwrite?, if_pos (by rw [Vector.length_toList]; omega), ← Vector.toList_set hinside]
    rfl
  have hwindow : stretch? (f.hear reference).history.toList (previous f.newest).val
      ((previous f.newest).val + taps) = some (f.hear reference).windowed :=
    (f.hear reference).stretch?_history
  simp only [ChannelFilter.process, PlainFilter.process?, plain, hlength, hplace, hread, hfirst,
    guard, if_pos htaps, Option.pure_def, Option.bind_eq_bind, Option.bind_some, hsecond, hwindow,
    estimate_eq, weights_learn, power_hear]
  rfl

/-! ### Runs -/

/-- A new filter is a new recorder (`Recorder.silent`). -/
theorem recorder_silent (h : 0 < taps) :
    (silent h : ChannelFilter α taps).recorder [] = Recorder.silent taps := by
  simp [recorder, silent, Recorder.silent, Vector.toList_replicate]

/-- A new filter is a new plain filter (`PlainFilter.silent`). -/
theorem plain_silent (h : 0 < taps) :
    (silent h : ChannelFilter α taps).plain = PlainFilter.silent taps := by
  simp [plain, silent, PlainFilter.silent, Vector.toList_replicate, Nat.mul_two]

/-- Any number of sample pairs comes to the same in all three filters, by
induction on the pairs. The step is `process_recorder` and its counterpart for
the plain filter, and `references` grows at the front. -/
theorem Recalls.processAll (h : f.Recalls references) (pairs : List (α × α)) :
    let given := f.processAll pairs
    let heard := (pairs.map Prod.snd).reverse ++ references
    given.2.Recalls heard
      ∧ (f.recorder references).processAll pairs = (given.1, given.2.recorder heard)
      ∧ f.plain.processAll? pairs = some (given.1, given.2.plain) := by
  induction pairs generalizing f references with
  | nil => exact ⟨h, rfl, rfl⟩
  | cons pair rest ih =>
      obtain ⟨microphone, reference⟩ := pair
      have hrecorder := h.process_recorder microphone reference
      have hplain := f.process?_plain microphone reference
      obtain ⟨hrecalls, hrecorders, hplains⟩ := ih (h.process microphone reference)
      have hheard : (((microphone, reference) :: rest).map Prod.snd).reverse ++ references
          = (rest.map Prod.snd).reverse ++ reference :: references := by simp
      intro given heard
      refine ⟨?_, ?_, ?_⟩
      · simp only [heard, hheard]
        exact hrecalls
      · simp only [Recorder.processAll, hrecorder, hrecorders, heard, hheard]
        rfl
      · simp only [PlainFilter.processAll?, hplain, Option.bind_eq_bind, Option.bind_some, hplains]
        rfl

/-- A new filter with any number of taps hears any number of sample pairs. Then
both copies of its ring agree. Of one reference more, the window holds the last
ones, newest first, with zeros from before the first one (`lastReferences`), and
the reference that leaves the power is that of as many steps ago as there are
taps. The filter gives the same errors and has the same weights and power as a
`Recorder` that keeps all references, and a `PlainFilter` that checks all its
places never misses one. -/
theorem history_slides (h : 0 < taps) (pairs : List (α × α)) :
    ∃ errors f, (silent h : ChannelFilter α taps).processAll pairs = (errors, f)
      ∧ let references := (pairs.map Prod.snd).reverse
        (∀ i (hi : i < taps), f.history[i] = f.history[i + taps])
          ∧ (∀ reference,
              (f.hear reference).windowed = lastReferences taps (reference :: references)
                ∧ f.oldest = recalled (reference :: references) taps)
          ∧ (Recorder.silent taps).processAll pairs
              = (errors, ⟨f.weights.toList, references, f.power⟩)
          ∧ (PlainFilter.silent taps).processAll? pairs = some (errors, f.plain) := by
  obtain ⟨hrecalls, hrecorder, hplain⟩ := (@recalls_silent α _ taps h).processAll pairs
  rw [List.append_nil] at hrecalls hrecorder
  rw [recorder_silent] at hrecorder
  rw [plain_silent] at hplain
  exact ⟨_, _, rfl, hrecalls.mirrored, fun reference => ⟨(hrecalls.hear reference).windowed_eq,
    hrecalls.oldest reference⟩, hrecorder, hplain⟩

/-- Whole numbers, where a step of learning is two (`stepSize`) and nothing is
divided. -/
@[reducible] def wholeNumbers : Signal Int where
  zero := 0
  add := (· + ·)
  sub := (· - ·)
  mul := (· * ·)
  div x _ := x
  positivePart := max 0
  stepSize := 2
  regularization := 1
  ofSample := Int16.toInt
  toSample := Int16.ofInt

/-- A filter of two taps has heard three references. With a fourth one, the
window is this one and the third, and the second one leaves the power. The
hypothesis of `history_slides` is met, and the plain filter stops nowhere. -/
theorem history_slides_trial :
    letI : Signal Int := wholeNumbers
    let pairs : List (Int × Int) := [(1, 3), (2, 4), (0, 5)]
    let f := ((silent (by decide) : ChannelFilter Int 2).processAll pairs).2
    f.history.toList = [4, 5, 4, 5] ∧ f.newest = 1 ∧ f.power = 41
      ∧ (f.hear 6).windowed = [6, 5] ∧ f.oldest = 4
      ∧ ((PlainFilter.silent 2).processAll? pairs).isSome := by
  let _ : Signal Int := wholeNumbers
  intro pairs f
  obtain ⟨_, g, hrun, -, hwindow, -, hplain⟩ :=
    history_slides (show 0 < 2 by decide) ([(1, 3), (2, 4), (0, 5)] : List (Int × Int))
  obtain rfl : g = f := congrArg Prod.snd hrun.symm
  obtain ⟨hnext, holdest⟩ := hwindow 6
  exact ⟨by decide +kernel, by decide +kernel, by decide +kernel, hnext.trans (by decide +kernel),
    holdest.trans (by decide +kernel), Option.isSome_of_mem hplain⟩

end ChannelFilter

end EchoAlign
