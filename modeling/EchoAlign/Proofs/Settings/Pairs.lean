import Mathlib.Data.List.Sort
import Mathlib.Data.String.Basic
import EchoAlign.Settings.FlatArgs

/-!
# `EchoAlign.Proofs.Settings.Pairs`: an argument list as a map

Arguments are kept as pairs in the order of their keys. The lemmas say that
such a list is a map from keys to values, that adding a pair with a new key
adds it to the map, and that the map is all there is to it.

* `perm_insert`, `IsSorted.insert`: where a pair is put.
* `lookup_eq_some_iff_mem`: a key has the value that it is paired with.
* `Holds`: the arguments are the map of some pairs.
  `holds_insertAll` says that adding pairs one by one leads there, and
  `Holds.unique` that there is only one such argument list.
-/

set_option autoImplicit false

namespace EchoAlign.FlatArgs

/-! ### Looking up in pairs -/

/-- With each key once (`hkeys`), a key has the value that it is paired with. -/
theorem lookup_eq_some_iff_mem {pairs : List (String × String)}
    (hkeys : (pairs.map Prod.fst).Nodup) {key value : String} :
    pairs.lookup key = some value ↔ (key, value) ∈ pairs := by
  rw [List.lookup_eq_some_iff]
  constructor
  · rintro ⟨before, after, rfl, -⟩
    exact List.mem_append_right _ List.mem_cons_self
  · intro hmem
    obtain ⟨before, after, rfl⟩ := List.append_of_mem hmem
    rw [List.map_append, List.map_cons] at hkeys
    refine ⟨before, after, rfl, fun pair hpair => bne_iff_ne.mpr fun heq => ?_⟩
    exact List.disjoint_of_nodup_append hkeys (List.mem_map.mpr ⟨pair, hpair, heq.symm⟩)
      List.mem_cons_self

/-- The order of pairs does not matter for `lookup`, if no key stands twice. -/
theorem lookup_eq_of_perm {pairs pairs' : List (String × String)} (hperm : pairs.Perm pairs')
    (hkeys : (pairs.map Prod.fst).Nodup) (key : String) :
    pairs.lookup key = pairs'.lookup key := by
  refine Option.ext fun value => ?_
  rw [lookup_eq_some_iff_mem hkeys, lookup_eq_some_iff_mem ((hperm.map _).nodup_iff.mp hkeys)]
  exact hperm.mem_iff

/-! ### Adding pairs -/

/-- The keys of the arguments, in the order of their `pairs`. -/
def keys (args : FlatArgs) : List String := args.pairs.map Prod.fst

/-- The `pairs` stand in strictly rising order of their keys, so that no key
stands there twice. -/
def IsSorted (args : FlatArgs) : Prop := args.pairs.Pairwise fun p q => p.1 < q.1

variable {args args' : FlatArgs} {key value : String} {pairs : List (String × String)}

/-- A key has a value under `get?` exactly if it is among the `keys`. -/
theorem isSome_get?_iff : (args.get? key).isSome = true ↔ key ∈ args.keys := by
  simp only [get?, keys, List.lookup_isSome_iff, List.mem_map, beq_iff_eq]
  exact exists_congr fun _ => and_congr_right fun _ => eq_comm

/-- In arguments that are `IsSorted`, no key stands twice. -/
theorem IsSorted.nodup (h : args.IsSorted) : args.keys.Nodup :=
  List.pairwise_map.mpr (h.imp fun hlt => ne_of_lt hlt)

/-- A pair that `insertPair` puts in is added to the others, at some place. -/
theorem perm_insertPair (key value : String) (pairs : List (String × String)) :
    (insertPair key value pairs).Perm ((key, value) :: pairs) := by
  induction pairs with
  | nil => exact .refl _
  | cons pair pairs ih =>
      rw [insertPair]
      split
      · exact .refl _
      · exact (ih.cons pair).trans (.swap _ _ _)

/-- A pair that `insert` puts in is added to the others of the arguments. -/
theorem perm_insert (args : FlatArgs) (key value : String) :
    (args.insert key value).pairs.Perm ((key, value) :: args.pairs) :=
  perm_insertPair key value args.pairs

/-- The `keys` after an `insert` are the new one and the others. -/
theorem mem_keys_insert {other : String} :
    other ∈ (args.insert key value).keys ↔ other = key ∨ other ∈ args.keys := by
  rw [keys, ((args.perm_insert key value).map _).mem_iff, List.map_cons, List.mem_cons, keys]

/-- A pair with a new key goes between the smaller keys and the larger, and the
pairs stay sorted. `hnew` makes the order strict. -/
theorem pairwise_insertPair (hsorted : pairs.Pairwise fun p q => p.1 < q.1)
    (hnew : key ∉ pairs.map Prod.fst) :
    (insertPair key value pairs).Pairwise fun p q => p.1 < q.1 := by
  induction pairs with
  | nil => exact List.pairwise_singleton _ _
  | cons pair pairs ih =>
      obtain ⟨hfirst, hrest⟩ := List.pairwise_cons.mp hsorted
      rw [List.map_cons, List.mem_cons, not_or] at hnew
      rw [insertPair]
      split
      · next hlt =>
          refine List.pairwise_cons.mpr ⟨fun other hother => ?_, hsorted⟩
          rcases List.mem_cons.mp hother with rfl | hmem
          · exact hlt
          · exact lt_trans hlt (hfirst other hmem)
      · next hnlt =>
          have hlt : pair.1 < key := lt_of_le_of_ne (not_lt.mp hnlt) (Ne.symm hnew.1)
          refine List.pairwise_cons.mpr ⟨fun other hother => ?_, ih hrest hnew.2⟩
          rcases List.mem_cons.mp ((perm_insertPair key value pairs).mem_iff.mp hother) with
            rfl | hmem
          · exact hlt
          · exact hfirst other hmem

/-- Arguments stay `IsSorted` when a pair with a new key is added by `insert`. -/
theorem IsSorted.insert (h : args.IsSorted) (hnew : key ∉ args.keys) (value : String) :
    (args.insert key value).IsSorted :=
  pairwise_insertPair h hnew

/-- The arguments with pairs added by `insert`, one after the other. -/
def insertAll (args : FlatArgs) (pairs : List (String × String)) : FlatArgs :=
  pairs.foldl (fun args pair => args.insert pair.1 pair.2) args

/-- Adding pairs by `insertAll` is adding the first and then the others. -/
theorem insertAll_cons (args : FlatArgs) (key value : String) (pairs : List (String × String)) :
    args.insertAll ((key, value) :: pairs) = (args.insert key value).insertAll pairs := rfl

/-- The keys of the pairs are new to the `keys` of the arguments, and each is
there once. -/
def Fresh (args : FlatArgs) (pairs : List (String × String)) : Prop :=
  (pairs.map Prod.fst).Nodup ∧ ∀ key ∈ pairs.map Prod.fst, key ∉ args.keys

/-- No pairs are `Fresh` to any arguments. -/
theorem fresh_nil (args : FlatArgs) : args.Fresh [] := ⟨List.nodup_nil, nofun⟩

/-- Pairs are `Fresh` if and only if the first key is new, and the others are
fresh once it is there. -/
theorem fresh_cons :
    args.Fresh ((key, value) :: pairs)
      ↔ key ∉ args.keys ∧ (args.insert key value).Fresh pairs := by
  simp only [Fresh, List.map_cons, List.nodup_cons, List.forall_mem_cons, mem_keys_insert, not_or]
  constructor
  · rintro ⟨⟨hother, hnodup⟩, hnew, hrest⟩
    exact ⟨hnew, hnodup, fun other hmem => ⟨fun heq => hother (heq ▸ hmem), hrest other hmem⟩⟩
  · rintro ⟨hnew, hnodup, hrest⟩
    exact ⟨⟨fun hmem => (hrest key hmem).1 rfl, hnodup⟩, hnew, fun other hmem =>
      (hrest other hmem).2⟩

/-- Pairs that `insertAll` adds are added to the others, in whatever order. -/
theorem perm_insertAll (args : FlatArgs) (pairs : List (String × String)) :
    (args.insertAll pairs).pairs.Perm (pairs ++ args.pairs) := by
  induction pairs generalizing args with
  | nil => exact .refl _
  | cons pair pairs ih =>
      exact (ih (args.insert pair.1 pair.2)).trans
        (((args.perm_insert pair.1 pair.2).append_left pairs).trans List.perm_middle)

/-- Arguments stay `IsSorted` when pairs that are `Fresh` are added by
`insertAll`. -/
theorem IsSorted.insertAll (h : args.IsSorted) (hfresh : args.Fresh pairs) :
    (args.insertAll pairs).IsSorted := by
  induction pairs generalizing args with
  | nil => exact h
  | cons pair pairs ih =>
      obtain ⟨hnew, hrest⟩ := fresh_cons.mp hfresh
      exact ih (h.insert hnew pair.2) hrest

/-! ### The map -/

/-- The arguments are the map of the pairs: they are `IsSorted`, and `get?`
answers what `lookup` finds in the pairs. -/
structure Holds (args : FlatArgs) (pairs : List (String × String)) : Prop where
  sorted : args.IsSorted
  get?_eq : ∀ key, args.get? key = pairs.lookup key

/-- Pairs with each key once are `Fresh` to no arguments at all. -/
theorem fresh_empty (hkeys : (pairs.map Prod.fst).Nodup) : empty.Fresh pairs := ⟨hkeys, nofun⟩

/-- Pairs that `insertAll` adds to no arguments are all there are, in whatever
order. -/
theorem perm_insertAll_empty (pairs : List (String × String)) :
    (empty.insertAll pairs).pairs.Perm pairs := by
  have hperm := empty.perm_insertAll pairs
  rwa [show empty.pairs = [] from rfl, List.append_nil] at hperm

/-- Pairs with each key once that `insertAll` adds to no arguments are what
these `Holds`. -/
theorem holds_insertAll (hkeys : (pairs.map Prod.fst).Nodup) :
    (empty.insertAll pairs).Holds pairs := by
  have hsorted : (empty.insertAll pairs).IsSorted :=
    IsSorted.insertAll List.Pairwise.nil (fresh_empty hkeys)
  exact ⟨hsorted, lookup_eq_of_perm (perm_insertAll_empty pairs) hsorted.nodup⟩

/-- The `pairs` of arguments are those that they are the map of, `Holds`, if
each key stands there once. -/
theorem Holds.mem_iff (h : args.Holds pairs)
    (hkeys : (pairs.map Prod.fst).Nodup) {pair : String × String} :
    pair ∈ args.pairs ↔ pair ∈ pairs := by
  rw [← lookup_eq_some_iff_mem h.sorted.nodup, ← lookup_eq_some_iff_mem hkeys]
  exact Eq.congr_left (h.get?_eq pair.1)

/-- A map has one order of its keys, so that `Holds` tells the arguments
themselves. -/
theorem Holds.unique (h : args.Holds pairs) (h' : args'.Holds pairs) : args = args' := by
  have hmem : ∀ pair, pair ∈ args.pairs ↔ pair ∈ args'.pairs := by
    rintro ⟨key, value⟩
    rw [← lookup_eq_some_iff_mem h.sorted.nodup, ← lookup_eq_some_iff_mem h'.sorted.nodup]
    exact Eq.congr_left ((h.get?_eq key).trans (h'.get?_eq key).symm)
  have hperm : args.pairs.Perm args'.pairs :=
    (List.perm_ext_iff_of_nodup h.sorted.nodup.of_map h'.sorted.nodup.of_map).mpr hmem
  have heq : args.pairs = args'.pairs :=
    hperm.eq_of_pairwise (fun _ _ _ _ hlt hgt => absurd hlt (lt_asymm hgt)) h.sorted h'.sorted
  cases args
  cases args'
  exact congrArg FlatArgs.mk heq

end EchoAlign.FlatArgs
