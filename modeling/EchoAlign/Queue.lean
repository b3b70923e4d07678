/-!
# `EchoAlign.Queue`: first in, first out

A `Queue` is a list that grows at its end without being copied. Its
items are kept in two lists, the older ones in their order and the newer
ones in reverse. `Queue.toList` puts them together, and says all there is
to say about a queue: each operation comes with the lemma that tells
what it does to that list.
-/

set_option autoImplicit false

namespace EchoAlign

/-- A list that grows at its end, in two halves, so that neither `push` nor
`pop?` walks through all of it. -/
structure Queue (α : Type) where
  /-- The oldest items, oldest first. -/
  front : List α
  /-- The items after those, newest first. -/
  back : List α

namespace Queue

variable {α : Type}

/-- The items, oldest first. All laws are stated on this list. -/
def toList (q : Queue α) : List α := q.front ++ q.back.reverse

/-- A queue of the items of a list. -/
def ofList (items : List α) : Queue α := ⟨items, []⟩

/-- A queue without items. -/
def empty : Queue α := ofList []

/-- Whether there are no items. -/
def isEmpty (q : Queue α) : Bool := q.front.isEmpty && q.back.isEmpty

/-- Adds an item behind all others. -/
def push (q : Queue α) (item : α) : Queue α := { q with back := item :: q.back }

/-- Adds items before all others. -/
def prepend (q : Queue α) (items : List α) : Queue α := { q with front := items ++ q.front }

/-- The oldest item. -/
def head? (q : Queue α) : Option α :=
  match q.front with
  | item :: _ => some item
  | [] => q.back.getLast?

/-- The oldest item, and the queue without it. -/
def pop? (q : Queue α) : Option (α × Queue α) :=
  match q.front with
  | item :: front => some (item, { q with front })
  | [] =>
      match q.back.reverse with
      | item :: rest => some (item, ofList rest)
      | [] => none

/-- The oldest items up to the first that lacks a property `p`. -/
def takeWhile (p : α → Bool) (q : Queue α) : List α :=
  if q.front.all p then q.front ++ q.back.reverse.takeWhile p else q.front.takeWhile p

/-- The queue from the first item that lacks a property `p` on. -/
def dropWhile (p : α → Bool) (q : Queue α) : Queue α :=
  match q.front.dropWhile p with
  | [] => ofList (q.back.reverse.dropWhile p)
  | front => { q with front }

/-! ### What the operations do to the list -/

/-- A queue that is made of a list holds the items of the list. -/
@[simp] theorem toList_ofList (items : List α) : (ofList items).toList = items := by
  simp [ofList, toList]

/-- An `empty` queue holds nothing. -/
@[simp] theorem toList_empty : (empty : Queue α).toList = [] := rfl

/-- A queue says that it `isEmpty` exactly if it holds nothing. -/
@[simp] theorem isEmpty_eq (q : Queue α) : q.isEmpty = q.toList.isEmpty := by
  cases q with
  | mk front back => cases front <;> cases back <;> simp [isEmpty, toList]

/-- An item that is pushed comes behind all others. -/
@[simp] theorem toList_push (q : Queue α) (item : α) :
    (q.push item).toList = q.toList ++ [item] := by
  simp [push, toList]

/-- Items that are pushed one after another come behind all others, in their
order. -/
@[simp] theorem toList_foldl_push (items : List α) (q : Queue α) :
    (items.foldl push q).toList = q.toList ++ items := by
  induction items generalizing q with
  | nil => simp
  | cons item rest ih => simp [ih]

/-- What is put before with `prepend` comes before all others. -/
@[simp] theorem toList_prepend (q : Queue α) (items : List α) :
    (q.prepend items).toList = items ++ q.toList := by
  simp [prepend, toList]

/-- The oldest item is the head of the list, on whichever half it lies. -/
@[simp] theorem head?_eq (q : Queue α) : q.head? = q.toList.head? := by
  cases q with
  | mk front back => cases front <;> simp [head?, toList]

/-- Taking the oldest item with `pop?` splits the list into its head and the
rest. -/
theorem pop?_eq_some {q rest : Queue α} {item : α} (h : q.pop? = some (item, rest)) :
    q.toList = item :: rest.toList := by
  unfold pop? at h
  split at h
  · next front hfront =>
      cases h
      simp [toList, hfront]
  · next hfront =>
      split at h
      · next hback =>
          cases h
          simp [toList, hfront, hback, ofList]
      · cases h

/-- Only a queue without items has no oldest one for `pop?` to take. -/
theorem pop?_eq_none {q : Queue α} (h : q.pop? = none) : q.toList = [] := by
  unfold pop? at h
  split at h
  · cases h
  · next hfront =>
      split at h
      · cases h
      · next hback => simp [toList, hfront, hback]

/-- What holds of some `items` only stops before the items after them:
`takeWhile` never gets there. -/
theorem takeWhile_append_of_not_all {p : α → Bool} {items : List α} (h : items.all p = false)
    (more : List α) : (items ++ more).takeWhile p = items.takeWhile p := by
  induction items with
  | nil => cases h
  | cons item rest ih =>
      cases hp : p item with
      | false => simp [hp]
      | true =>
          rw [List.all_cons, hp, Bool.true_and] at h
          simp [hp, ih h]

/-- On either half, `takeWhile` is that of the list. -/
@[simp] theorem takeWhile_eq (p : α → Bool) (q : Queue α) :
    q.takeWhile p = q.toList.takeWhile p := by
  unfold takeWhile toList
  split
  · next h => exact (List.takeWhile_append_of_pos (List.all_eq_true.mp h)).symm
  · next h => exact (takeWhile_append_of_not_all (Bool.eq_false_iff.mpr h) _).symm

/-- On either half, `dropWhile` is that of the list. -/
@[simp] theorem toList_dropWhile (p : α → Bool) (q : Queue α) :
    (q.dropWhile p).toList = q.toList.dropWhile p := by
  cases q with
  | mk front back =>
      unfold dropWhile toList
      induction front with
      | nil => simp [ofList]
      | cons item rest ih => by_cases h : p item <;> simp_all

end Queue

end EchoAlign
