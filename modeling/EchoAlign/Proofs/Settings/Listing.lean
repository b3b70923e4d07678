import EchoAlign.Proofs.Settings.Grammar

/-!
# `EchoAlign.Proofs.Settings.Listing`: argument lists that are written

A `Scheme` says how the pair of each of several names is written: its key,
its value, and the quotes around the value, if there are any. A `Listing`
takes some of the names, in any order, with white space in front of each.
Together they make a text.

* `Listing.leads`: the text begins with the pairs of the names.
* `Listing.exists_parse`: it is read, and a name that is listed has its value,
  while any other has none.
-/

set_option autoImplicit false

namespace EchoAlign.FlatArgs

variable {α : Type}

/-- How the pair of a name is written: its `key`, its `value` and the quotes
around it, if `quote?` has any. -/
structure Scheme (α : Type) where
  key : α → String
  value : α → String
  /-- The quote on both sides of the value. -/
  quote? : α → Option Char

/-- Some names in an order: each of the `entries` has the white space in front
of its name, and `tail` is the white space behind the last. -/
structure Listing (α : Type) where
  entries : List (List Char × α)
  tail : List Char

namespace Scheme

/-- What stands behind the `=` of a pair. -/
def spelling (w : Scheme α) (name : α) : List Char :=
  match w.quote? name with
  | none => (w.value name).toList
  | some quote => quote :: ((w.value name).toList ++ [quote])

/-- The `key` and the `value` of a name, as they are read. -/
def pair (w : Scheme α) (name : α) : String × String := (w.key name, w.value name)

/-- Every name has an `IsKey` of its own, and its value either `IsPlain` or has
quotes that are not in it. -/
structure IsProper (w : Scheme α) : Prop where
  injective : Function.Injective w.key
  isKey : ∀ name, IsKey (w.key name).toList
  quoted : ∀ name quote, w.quote? name = some quote → IsQuote quote ∧ quote ∉ (w.value name).toList
  plain : ∀ name, w.quote? name = none → IsPlain (w.value name).toList

/-- A value is spelled by what stands behind the `=`, if white space follows
or nothing does. -/
theorem IsProper.spells {w : Scheme α} (h : w.IsProper) (name : α) {rest : List Char}
    (hends : BeginsBlank rest) : Spells (w.value name).toList (w.spelling name) rest := by
  unfold spelling
  split
  · next hquote => exact .bare (h.plain name hquote) hends
  · next hquote =>
      obtain ⟨hquote, habsent⟩ := h.quoted name _ hquote
      exact .quoted hquote habsent

end Scheme

namespace Listing

/-- The names of the `entries`, in order. -/
def names (o : Listing α) : List α := o.entries.map Prod.snd

/-- All names of a list in a `Listing`, each behind one blank. -/
def spaced (names : List α) : Listing α := ⟨names.map fun name => ([' '], name), []⟩

/-- The names of a `spaced` listing are those it was made of. -/
theorem names_spaced (names : List α) : (spaced names).names = names := by
  simp [spaced, Listing.names, Function.comp_def]

/-- The text of a listing under a `Scheme`: for each name the white space, the
key, an equals sign and the `spelling`. -/
def text (o : Listing α) (w : Scheme α) : List Char :=
  o.entries.flatMap
      (fun entry => entry.1 ++ ((w.key entry.2).toList ++ '=' :: w.spelling entry.2))
    ++ o.tail

/-- No name is listed twice, all that stands between names is white space, and
between two of them there is some. -/
structure IsProper (o : Listing α) : Prop where
  nodup : o.names.Nodup
  blanks : ∀ entry ∈ o.entries, IsBlankText entry.1
  spaced : ∀ entry ∈ o.entries.tail, entry.1 ≠ []
  tail : IsBlankText o.tail

/-- A `spaced` listing is proper if no name stands in it twice. -/
theorem isProper_spaced {names : List α} (h : names.Nodup) : (spaced names).IsProper where
  nodup := (names_spaced names).symm ▸ h
  blanks entry hentry := by
    obtain ⟨_, -, rfl⟩ := List.mem_map.mp hentry
    exact List.forall_mem_singleton.mpr (by decide)
  spaced entry hentry := by
    obtain ⟨_, -, rfl⟩ := List.mem_map.mp (List.mem_of_mem_tail hentry)
    exact List.cons_ne_nil _ _
  tail := nofun

/-- Behind the first entry of a listing that `IsProper` there is another one. -/
theorem IsProper.of_cons {entry : List Char × α} {entries : List (List Char × α)} {tail : List Char}
    (h : (⟨entry :: entries, tail⟩ : Listing α).IsProper) :
    (⟨entries, tail⟩ : Listing α).IsProper :=
  ⟨(List.nodup_cons.mp h.nodup).2, fun other hmem => h.blanks other (List.mem_cons_of_mem _ hmem),
    fun other hmem => h.spaced other (List.mem_of_mem_tail hmem), h.tail⟩

/-- The `text` of a listing is that of its first entry and then of the rest. -/
theorem text_cons (entry : List Char × α) (entries : List (List Char × α)) (tail : List Char)
    (w : Scheme α) :
    text ⟨entry :: entries, tail⟩ w
      = entry.1 ++ ((w.key entry.2).toList ++ '=' :: (w.spelling entry.2
          ++ text ⟨entries, tail⟩ w)) := by
  simp [text]

/-- What follows an entry of a listing that `IsProper` is white space, or
nothing, so that a plain value ends there. -/
theorem IsProper.beginsBlank {entry : List Char × α} {entries : List (List Char × α)}
    {tail : List Char} (h : (⟨entry :: entries, tail⟩ : Listing α).IsProper) (w : Scheme α) :
    BeginsBlank (text ⟨entries, tail⟩ w) := by
  intro c hc
  cases entries with
  | nil => exact h.tail c (List.mem_of_mem_head? hc)
  | cons next entries =>
      obtain ⟨d, blanks, heq⟩ := List.exists_cons_of_ne_nil (h.spaced next List.mem_cons_self)
      rw [text_cons, heq, List.cons_append] at hc
      obtain rfl : d = c := Option.some.inj hc
      exact h.blanks next (List.mem_cons_of_mem _ List.mem_cons_self) d (heq ▸ List.mem_cons_self)

/-- The text begins with the pairs of the names that are listed, in the sense of
`Leads`. -/
theorem leads {w : Scheme α} (hw : w.IsProper) {o : Listing α} (ho : o.IsProper) :
    Leads (o.text w) (o.names.map w.pair) o.tail := by
  obtain ⟨entries, tail⟩ := o
  induction entries with
  | nil => exact .nil tail
  | cons entry entries ih =>
      have hlead := Leads.cons (ho.blanks entry List.mem_cons_self) (hw.isKey entry.2)
        (hw.spells entry.2 (ho.beginsBlank w)) (ih ho.of_cons)
      rw [String.ofList_toList, String.ofList_toList] at hlead
      rw [text_cons]
      exact hlead

/-- The `text` of a proper listing under a proper `Scheme` is an argument list
of the pairs of its names, `IsListOf`. -/
theorem isListOf_text {w : Scheme α} (hw : w.IsProper) {o : Listing α} (ho : o.IsProper) :
    IsListOf (o.text w) (o.names.map w.pair) := by
  refine ⟨o.tail, leads hw ho, ho.tail, ?_⟩
  rw [List.map_map]
  exact ho.nodup.map hw.injective

/-- Among the pairs of some names, each name has its own value. `injective` of
`IsProper` keeps the keys apart. -/
theorem lookup_map_pair [DecidableEq α] {w : Scheme α} (hw : w.IsProper) (names : List α)
    (name : α) :
    (names.map w.pair).lookup (w.key name) = if name ∈ names then some (w.value name) else none := by
  induction names with
  | nil => rfl
  | cons first names ih =>
      rw [List.map_cons, Scheme.pair, List.lookup_cons, ih]
      by_cases heq : name = first
      · subst heq
        simp
      · have hkey : w.key name ≠ w.key first := fun h => heq (hw.injective h)
        simp [beq_eq_false_iff_ne.mpr hkey, heq]

/-- The `text` of a proper listing is read by `parse`: a name that is listed has
its value, a name that is not listed has none, and the arguments are the map of
just these pairs, `Holds`. -/
theorem exists_parse [DecidableEq α] {w : Scheme α} (hw : w.IsProper) {o : Listing α}
    (ho : o.IsProper) :
    ∃ args, parse (String.ofList (o.text w)) = .ok args ∧ args.Holds (o.names.map w.pair)
      ∧ ∀ name, args.get? (w.key name) = if name ∈ o.names then some (w.value name) else none := by
  have hlist := isListOf_text hw ho
  have hholds := holds_insertAll hlist.nodup
  refine ⟨_, ?_, hholds, fun name => ?_⟩
  · rw [parse, String.toList_ofList]
    exact hlist.parseFrom_eq
  · rw [hholds.get?_eq, lookup_map_pair hw]

end Listing

end EchoAlign.FlatArgs
