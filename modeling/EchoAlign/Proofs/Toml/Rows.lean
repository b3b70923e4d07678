import EchoAlign.Proofs.Toml.Quoted
import EchoAlign.Proofs.Toml.Scalar
import EchoAlign.Toml.Document

/-!
# `EchoAlign.Proofs.Toml.Rows`: documents of one row to a value

A `Row` is a key and the text of its value, on a line of its own. A page of
rows, with one table of further rows behind them, is read as the values that
the rows spell.

* `Spells`: a text is a written form of a value, wherever a line ends with
  it. Strings, numbers and switches have such forms.
* `statements?_rows`, `statements?_title`: a row is read as a pair, and the
  title of a table as a header, with one unit of fuel for each line.
* `foldlM_rows`, `foldlM_inner`: rows with keys of their own come to entries
  in their order, in the document itself or in the table behind.
* `parse_page`: both, for a whole page.
-/

set_option autoImplicit false

namespace EchoAlign.Toml

/-! ### Written forms of values -/

/-- The text is a written form of the value: where a line ends with it,
`Reader.skipSpace` skips none of it, and `Reader.value?` reads the value and
stops at the end of the line. -/
structure Spells (text : List Char) (value : Value) : Prop where
  unspaced : ∀ rest, Reader.skipSpace (text ++ '\n' :: rest) = text ++ '\n' :: rest
  value?_eq : ∀ fuel depth rest,
    Reader.value? (fuel + 1) depth (text ++ '\n' :: rest) = some (value, '\n' :: rest)

/-- Nothing is skipped by `Reader.skipSpace` in front of a character that is no
`isSpace`. -/
theorem skipSpace_cons {c : Char} (h : isSpace c = false) (rest : List Char) :
    Reader.skipSpace (c :: rest) = c :: rest := by
  simp [Reader.skipSpace, h]

/-- A character that has the property `p` is not one that has it not. -/
theorem ne_of_true_of_false {p : Char → Bool} {c d : Char} (hc : p c = true) (hd : p d = false) :
    c ≠ d := by
  rintro rfl
  exact absurd (hc.symm.trans hd) nofun

/-- What begins with an `isScalarChar` is read by `Scalar.read`: it opens
neither a quoted text nor an array or a table. -/
theorem value?_scalar {c : Char} (hc : Scalar.isScalarChar c = true) (fuel depth : Nat)
    (rest : List Char) : Reader.value? (fuel + 1) depth (c :: rest) = Scalar.read (c :: rest) := by
  unfold Reader.value?
  split
  all_goals first
    | rfl
    | (next heq =>
        cases heq
        cases hc)

/-- A text of scalar characters spells the value that it is read as. `hchars`
keeps it from being taken for a string, as a quote is no scalar character. -/
theorem spells_scalar {text : List Char} {value : Value} (hne : text ≠ [])
    (hchars : ∀ c ∈ text, Scalar.isScalarChar c = true)
    (hread : ∀ rest, Scalar.read (text ++ '\n' :: rest) = some (value, '\n' :: rest)) :
    Spells text value := by
  cases text with
  | nil => exact absurd rfl hne
  | cons c text =>
      have hc := hchars c List.mem_cons_self
      have hspace : isSpace c = false := by
        simp [isSpace, ne_of_true_of_false (d := ' ') hc rfl,
          ne_of_true_of_false (d := '\t') hc rfl]
      refine ⟨fun rest => skipSpace_cons hspace _, fun fuel depth rest => ?_⟩
      rw [← hread rest]
      exact value?_scalar hc fuel depth _

/-- The digits of a number that is a signed word `Spells` it as an integer. -/
theorem spells_toDigits {n : Nat} (hn : n ≤ Word.maxSigned) :
    Spells (Nat.toDigits 10 n) (.integer n) := by
  refine spells_scalar Nat.toDigits_ne_nil (fun c hc => ?_) (Scalar.read_toDigits hn)
  simp [Scalar.isScalarChar, Char.isAlphanum, Text.isDigit_toDigits c hc]

/-- The words for on and off `Spells` a boolean. -/
theorem spells_switch (b : Bool) :
    Spells (if b then "true".toList else "false".toList) (.boolean b) := by
  refine spells_scalar ?_ (List.all_eq_true.mp ?_) (Scalar.read_switch b)
  · cases b <;> decide
  · cases b <;> decide

/-- A string spells its text, in whatever form it is written. `decode_render`
holds for all styles, and the first character is a quote in each. -/
theorem spells_quoted (text : List Char) :
    Spells (Quoted.render text) (.string (String.ofList text)) := by
  have hdecode : ∀ rest, Quoted.decode (Quoted.render text ++ '\n' :: rest)
      = some (text, '\n' :: rest) := fun rest => Quoted.decode_render text (by simp; decide)
  have hquote : ∃ c more, Quoted.render text = c :: more
      ∧ (c = doubleQuote ∨ c = singleQuote) := by
    unfold Quoted.render Quoted.renderAs
    cases Quoted.Style.choose text with
    | basic => exact ⟨_, _, rfl, Or.inl rfl⟩
    | literal => exact ⟨_, _, rfl, Or.inr rfl⟩
    | multiBasic => exact ⟨_, _, rfl, Or.inl rfl⟩
    | multiLiteral => exact ⟨_, _, rfl, Or.inr rfl⟩
  obtain ⟨c, more, heq, hc⟩ := hquote
  refine ⟨fun rest => ?_, fun fuel depth rest => ?_⟩
  · rw [heq]
    exact skipSpace_cons (by rcases hc with rfl | rfl <;> rfl) _
  · have hread : Reader.value? (fuel + 1) depth (Quoted.render text ++ '\n' :: rest)
        = (Quoted.decode (Quoted.render text ++ '\n' :: rest)).map
          fun r => (.string (String.ofList r.1), r.2) := by
      rw [heq]
      rcases hc with rfl | rfl <;> rfl
    rw [hread, hdecode]
    rfl

/-! ### Lines -/

/-- The key needs no quotes: it has characters, and each `isBareChar`. -/
structure IsBare (key : String) : Prop where
  ne_nil : key.toList ≠ []
  chars : ∀ c ∈ key.toList, Reader.isBareChar c = true

/-- A `key`, the text of its value as it is written, and the value that the text
is to mean. -/
structure Row where
  key : String
  text : List Char
  value : Value

namespace Row

/-- The line of a row: its key, an equals sign between blanks and its text, with
the end of the line. -/
def line (row : Row) : List Char := row.key.toList ++ " = ".toList ++ row.text ++ ['\n']

/-- The key of a row `IsBare`, and its text `Spells` its value. -/
structure IsWritten (row : Row) : Prop where
  bare : IsBare row.key
  spells : Spells row.text row.value

/-- What a row says, as the reader tells it: a `pair` of its key and value in no
table. -/
def statement (row : Row) : Statement := .pair [] row.key row.value

end Row

namespace IsBare

variable {key : String}

/-- A key that `IsBare` begins with a character that `isBareChar`. -/
theorem exists_cons (h : IsBare key) :
    ∃ c more, key.toList = c :: more ∧ Reader.isBareChar c = true := by
  cases hkey : key.toList with
  | nil => exact absurd hkey h.ne_nil
  | cons c more => exact ⟨c, more, rfl, h.chars c (hkey ▸ List.mem_cons_self)⟩

/-- A bare key is read up to the first character that it cannot have. `hc` ends
the key at `c`. -/
theorem key?_eq (h : IsBare key) {c : Char} (hc : Reader.isBareChar c = false)
    (rest : List Char) : Reader.key? (key.toList ++ c :: rest) = some (key, c :: rest) := by
  obtain ⟨d, more, hkey, -⟩ := h.exists_cons
  have htake : (key.toList ++ c :: rest).takeWhile Reader.isBareChar = key.toList := by
    rw [List.takeWhile_append_of_pos h.chars]
    simp [hc]
  have hdrop : (key.toList ++ c :: rest).dropWhile Reader.isBareChar = c :: rest := by
    rw [List.dropWhile_append_of_pos h.chars]
    simp [hc]
  unfold Reader.key?
  rw [htake, hdrop, hkey]
  simp [← hkey]

/-- A bare key is a path of its own, if no dot follows. `hafter` and `hdot` say
what comes behind the key and the space after it. -/
theorem keyPath?_eq (h : IsBare key) {c : Char} (hc : Reader.isBareChar c = false)
    {rest after : List Char} (hafter : Reader.skipSpace (c :: rest) = after)
    (hdot : ∀ d ∈ after.head?, d ≠ '.') :
    Reader.keyPath? (key.toList ++ c :: rest) = some (([], key), after) := by
  obtain ⟨d, more, hkey, hd⟩ := h.exists_cons
  have hspace : isSpace d = false := by
    simp [isSpace, ne_of_true_of_false (d := ' ') hd rfl, ne_of_true_of_false (d := '\t') hd rfl]
  have hstart : Reader.skipSpace (key.toList ++ c :: rest) = key.toList ++ c :: rest := by
    rw [hkey, List.cons_append, skipSpace_cons hspace]
  have hkeys : Reader.keys? (Reader.maxKeys + 1) (key.toList ++ c :: rest)
      = some ([key], after) := by
    unfold Reader.keys?
    rw [hstart, h.key?_eq hc]
    simp only [Option.bind_eq_bind, Option.bind_some, hafter]
    split
    · exact absurd rfl (hdot '.' rfl)
    · rfl
  unfold Reader.keyPath?
  rw [hkeys]
  rfl

end IsBare

/-- Where a line does not begin with a blank, `Reader.statements?` takes it for
empty if it begins with a comment or a line end, and reads one statement from it
otherwise. -/
theorem statements?_succ {c : Char} (hspace : isSpace c = false) (fuel : Nat) (rest : List Char) :
    Reader.statements? (fuel + 1) (c :: rest)
      = if c = '#' ∨ c = '\n' ∨ c = '\r' then
          (Reader.lineEnd? (c :: rest)).bind (Reader.statements? fuel)
        else
          (Reader.statement? fuel (c :: rest)).bind fun r =>
            (Reader.statements? fuel r.2).map (r.1 :: ·) := by
  rw [Reader.statements?, skipSpace_cons hspace]
  simp only [Option.map_eq_bind]
  rfl

namespace Row

variable {row : Row}

/-- The `line` of a row that `IsWritten` begins with a character of its key. -/
theorem IsWritten.exists_cons (h : row.IsWritten) (rest : List Char) :
    ∃ c more, row.line ++ rest = c :: more ∧ Reader.isBareChar c = true := by
  obtain ⟨c, more, hkey, hc⟩ := h.bare.exists_cons
  refine ⟨c, more ++ " = ".toList ++ row.text ++ ['\n'] ++ rest, ?_, hc⟩
  simp [line, hkey]

/-- A line is read as a pair of its key and its value. `keyPath?_eq` reads the
key, and `Spells` the value up to the line feed. -/
theorem IsWritten.statement?_eq (h : row.IsWritten) (bound : Nat) (rest : List Char) :
    Reader.statement? bound (row.line ++ rest) = some (row.statement, rest) := by
  obtain ⟨c, more, hline, hc⟩ := h.exists_cons rest
  have hform : row.line ++ rest
      = row.key.toList ++ ' ' :: '=' :: ' ' :: (row.text ++ '\n' :: rest) := by
    simp [line]
  have hpath : Reader.keyPath? (row.line ++ rest)
      = some (([], row.key), '=' :: ' ' :: (row.text ++ '\n' :: rest)) := by
    rw [hform]
    exact h.bare.keyPath?_eq (by decide) (by simp [Reader.skipSpace, isSpace]) (by simp)
  have hvalue : Reader.skipSpace (' ' :: (row.text ++ '\n' :: rest)) = row.text ++ '\n' :: rest :=
    h.spells.unspaced rest
  rw [hline] at hpath ⊢
  unfold Reader.statement?
  split
  -- A header would begin with a bracket.
  · next heq =>
      cases heq
      cases hc
  · next heq =>
      cases heq
      cases hc
  · rw [hpath]
    simp only [Option.bind_eq_bind, Option.bind_some, Reader.equals?, hvalue, h.spells.value?_eq]
    rfl

/-- The `line` of a row that `IsWritten` is read as its `statement`, and costs
`Reader.statements?` a unit of fuel. -/
theorem IsWritten.statements?_eq (h : row.IsWritten) (fuel : Nat) (rest : List Char) :
    Reader.statements? (fuel + 1) (row.line ++ rest)
      = (Reader.statements? fuel rest).map (row.statement :: ·) := by
  obtain ⟨c, more, hline, hc⟩ := h.exists_cons rest
  have hspace : isSpace c = false := by
    simp [isSpace, ne_of_true_of_false (d := ' ') hc rfl, ne_of_true_of_false (d := '\t') hc rfl]
  have hstatement := h.statement?_eq fuel rest
  rw [hline] at hstatement ⊢
  rw [statements?_succ hspace]
  simp only [ne_of_true_of_false (d := '#') hc rfl, ne_of_true_of_false (d := '\n') hc rfl,
    ne_of_true_of_false (d := '\r') hc rfl, or_false, if_false, hstatement, Option.bind_some]

end Row

/-- The lines of rows, one behind the other, each as `Row.line` has it. -/
def linesOf (rows : List Row) : List Char := rows.flatMap Row.line

/-- Rows are read one after another, by induction on them. The step is
`IsWritten.statement?_eq`. Each row takes one unit of `fuel`. -/
theorem statements?_rows {rows : List Row} (h : ∀ row ∈ rows, row.IsWritten) (fuel : Nat)
    (rest : List Char) :
    Reader.statements? (rows.length + fuel) (linesOf rows ++ rest)
      = (Reader.statements? fuel rest).map (rows.map Row.statement ++ ·) := by
  induction rows with
  | nil =>
      rw [List.length_nil, Nat.zero_add]
      cases hrest : Reader.statements? fuel rest <;> simp [linesOf, hrest]
  | cons row rows ih =>
      obtain ⟨hrow, hrows⟩ := List.forall_mem_cons.mp h
      have hlines : linesOf (row :: rows) ++ rest = row.line ++ (linesOf rows ++ rest) := by
        simp [linesOf]
      rw [hlines, List.length_cons, Nat.add_right_comm, hrow.statements?_eq, ih hrows,
        Option.map_map]
      rfl

/-- The title of a table in brackets, behind an empty line. -/
def titleOf (title : String) : List Char := '\n' :: '[' :: (title.toList ++ [']', '\n'])

/-- A title is read as a header. It takes two lines. `IsBare` lets `keyPath?_eq`
read it between the brackets. -/
theorem statements?_title {title : String} (h : IsBare title) (fuel : Nat) (rest : List Char) :
    Reader.statements? (fuel + 2) (titleOf title ++ rest)
      = (Reader.statements? fuel rest).map (.header [] title :: ·) := by
  have hform : titleOf title ++ rest
      = '\n' :: '[' :: (title.toList ++ ']' :: '\n' :: rest) := by simp [titleOf]
  have hpath : Reader.keyPath? (title.toList ++ ']' :: '\n' :: rest)
      = some (([], title), ']' :: '\n' :: rest) :=
    h.keyPath?_eq (by decide) (by simp [Reader.skipSpace, isSpace]) (by simp)
  have hstatement : Reader.statement? fuel ('[' :: (title.toList ++ ']' :: '\n' :: rest))
      = some (.header [] title, rest) := by
    obtain ⟨c, more, hkey, hc⟩ := h.exists_cons
    -- One bracket only: a key does not begin with the other.
    have hsingle : c ≠ '[' := ne_of_true_of_false hc rfl
    rw [hkey, List.cons_append] at hpath ⊢
    unfold Reader.statement?
    split
    · next heq =>
        cases heq
        exact absurd rfl hsingle
    · next heq =>
        cases heq
        rw [hpath]
        rfl
    · next hnone => exact absurd rfl (hnone _)
  rw [hform, statements?_succ (by decide), if_pos (by decide)]
  show Reader.statements? (fuel + 1) ('[' :: (title.toList ++ ']' :: '\n' :: rest)) = _
  rw [statements?_succ (by decide), if_neg (by decide), hstatement, Option.bind_some]

/-! ### Entries -/

/-- The entries that rows come to, in order: each value is a `leaf` under its
key. -/
def leaves (rows : List Row) : Entries := rows.map fun row => (row.key, .leaf row.value)

/-- The values that rows are to spell, with their keys, in order. -/
def valuesOf (rows : List Row) : List (String × Value) := rows.map fun row => (row.key, row.value)

namespace Entries

variable {key : String} {root : Entries}

/-- A key that is not there gets the node that `f` makes of nothing, and
`change?` puts it behind all others. -/
theorem change?_new (h : key ∉ root.map Prod.fst) (f : Option Node → Option Node) :
    change? key f root = (f none).map fun node => root ++ [(key, node)] := by
  induction root with
  | nil => rfl
  | cons entry root ih =>
      obtain ⟨k, node⟩ := entry
      rw [List.map_cons, List.mem_cons, not_or] at h
      rw [change?, if_neg (Ne.symm h.1), ih h.2, Option.map_map]
      rfl

/-- A key that is there last has its node changed by `f`, in its place. -/
theorem change?_last (h : key ∉ root.map Prod.fst) (f : Option Node → Option Node) (node : Node) :
    change? key f (root ++ [(key, node)])
      = (f (some node)).map fun node => root ++ [(key, node)] := by
  induction root with
  | nil => simp [change?]
  | cons entry root ih =>
      obtain ⟨k, other⟩ := entry
      rw [List.map_cons, List.mem_cons, not_or] at h
      rw [List.cons_append, change?, if_neg (Ne.symm h.1), ih h.2, Option.map_map]
      rfl

/-- A value under a new key is added by `add?` behind all others. -/
theorem add?_eq (h : key ∉ root.map Prod.fst) (value : Value) :
    add? key value root = some (root ++ [(key, .leaf value)]) :=
  change?_new h _

end Entries

namespace Draft

/-- Rows behind some entries come to entries behind these, if no key stands
there twice. `h` keeps the keys apart, so that `add?` never meets one that is
there. -/
theorem foldlM_rows {rows : List Row} {root : Entries}
    (h : (root.map Prod.fst ++ rows.map Row.key).Nodup) :
    (rows.map Row.statement).foldlM add? ⟨root, []⟩ = some ⟨root ++ leaves rows, []⟩ := by
  induction rows generalizing root with
  | nil => simp [leaves]
  | cons row rows ih =>
      have hnew : row.key ∉ root.map Prod.fst := fun hmem =>
        (List.nodup_append.mp h).2.2 _ hmem _ List.mem_cons_self rfl
      have hnext : ((root ++ [(row.key, Node.leaf row.value)]).map Prod.fst
          ++ rows.map Row.key).Nodup := by
        simpa using h
      rw [List.map_cons, List.foldlM_cons]
      show (((Entries.add? row.key row.value root).map fun root => (⟨root, []⟩ : Draft)).bind
        fun d => (rows.map Row.statement).foldlM add? d) = _
      rw [Entries.add?_eq hnew, Option.map_some, Option.bind_some, ih hnext]
      simp [leaves]

/-- Rows behind the title of the last table come to entries of this table.
`htitle` makes the lookup of the title come to this table, and `h` keeps the
keys apart in it. -/
theorem foldlM_inner {title : String} {root : Entries} (htitle : title ∉ root.map Prod.fst)
    {rows : List Row} {inner : Entries} (h : (inner.map Prod.fst ++ rows.map Row.key).Nodup) :
    (rows.map Row.statement).foldlM add? ⟨root ++ [(title, .table .explicit inner)], [title]⟩
      = some ⟨root ++ [(title, .table .explicit (inner ++ leaves rows))], [title]⟩ := by
  induction rows generalizing inner with
  | nil => simp [leaves]
  | cons row rows ih =>
      have hnew : row.key ∉ inner.map Prod.fst := fun hmem =>
        (List.nodup_append.mp h).2.2 _ hmem _ List.mem_cons_self rfl
      have hnext : ((inner ++ [(row.key, Node.leaf row.value)]).map Prod.fst
          ++ rows.map Row.key).Nodup := by
        simpa using h
      have hadd : Entries.within? (Entries.addDotted? row.key row.value []) [title]
          (root ++ [(title, .table .explicit inner)])
          = some (root ++ [(title, .table .explicit (inner ++ [(row.key, .leaf row.value)]))]) := by
        rw [Entries.within?, Entries.change?_last htitle]
        show ((Entries.add? row.key row.value inner).map _).map _ = _
        rw [Entries.add?_eq hnew]
        rfl
      rw [List.map_cons, List.foldlM_cons]
      show ((Entries.within? (Entries.addDotted? row.key row.value []) [title] _).map
        fun root => (⟨root, [title]⟩ : Draft)).bind _ = _
      rw [hadd, Option.map_some, Option.bind_some, ih hnext]
      simp [leaves]

end Draft

/-- The values that `entriesToValues` finds in two parts are those of the first
and then of the second. -/
theorem entriesToValues_append (first rest : Entries) :
    entriesToValues (first ++ rest) = entriesToValues first ++ entriesToValues rest := by
  induction first with
  | nil => rfl
  | cons entry first ih =>
      obtain ⟨key, node⟩ := entry
      rw [List.cons_append, entriesToValues, ih, entriesToValues, List.cons_append]

/-- The values of the `leaves` of rows are their `valuesOf`. -/
theorem entriesToValues_leaves (rows : List Row) :
    entriesToValues (leaves rows) = valuesOf rows := by
  induction rows with
  | nil => rfl
  | cons row rows ih =>
      show (row.key, (Node.leaf row.value).toValue) :: entriesToValues (leaves rows) = _
      rw [ih, Node.toValue]
      rfl

/-! ### Pages -/

/-- Every row costs a character at least, so that a text as long as `linesOf`
has fuel for its rows. -/
theorem length_le_length_linesOf (rows : List Row) : rows.length ≤ (linesOf rows).length := by
  induction rows with
  | nil => exact Nat.le_refl _
  | cons row rows ih =>
      simp only [linesOf, List.flatMap_cons, List.length_append, List.length_cons, Row.line] at ih ⊢
      omega

/-- Rows, and behind them a table of further rows under a `titleOf`. -/
def pageOf (rows : List Row) (title : String) (inner : List Row) : List Char :=
  linesOf rows ++ (titleOf title ++ linesOf inner)

section Page

variable {rows inner : List Row} {title : String}

/-- A page begins with a key or with an empty line, not with a mark. `skipMark`
looks at the first character only. -/
theorem skipMark_pageOf (hrows : ∀ row ∈ rows, row.IsWritten) :
    skipMark (pageOf rows title inner) = pageOf rows title inner := by
  cases rows with
  | nil => rfl
  | cons row rows =>
      obtain ⟨c, more, hline, hc⟩ := (hrows row List.mem_cons_self).exists_cons
        (linesOf rows ++ (titleOf title ++ linesOf inner))
      have hpage : pageOf (row :: rows) title inner = c :: more := by
        rw [← hline]
        simp [pageOf, linesOf]
      have hmark : c ≠ byteOrderMark := ne_of_true_of_false hc (by decide)
      simp [hpage, skipMark, hmark]

/-- A page is read as its pairs, with a header before those of the table. It is
`statements?_rows`, `statements?_title` and `statements?_rows` again, with
`fuel` that the length of the page is enough for. -/
theorem statements?_page (hrows : ∀ row ∈ rows, row.IsWritten)
    (hinner : ∀ row ∈ inner, row.IsWritten) (htitle : IsBare title) :
    statements? (String.ofList (pageOf rows title inner))
      = some (rows.map Row.statement ++ .header [] title :: inner.map Row.statement) := by
  -- The title has three characters besides its letters, two lines for the fuel.
  have hfuel : ∃ k, (pageOf rows title inner).length + 1
      = rows.length + (inner.length + (k + 1) + 2) := by
    have hrowsLength := length_le_length_linesOf rows
    have hinnerLength := length_le_length_linesOf inner
    have hpage : (pageOf rows title inner).length
        = (linesOf rows).length + (title.toList.length + 4 + (linesOf inner).length) := by
      simp only [pageOf, titleOf, List.length_append, List.length_cons, List.length_nil]
    exact ⟨(pageOf rows title inner).length - rows.length - inner.length - 2, by omega⟩
  obtain ⟨k, hk⟩ := hfuel
  have hend : Reader.statements? (k + 1) [] = some [] := rfl
  have hinnerRead := statements?_rows hinner (k + 1) []
  rw [List.append_nil, hend] at hinnerRead
  show Reader.statements? ((skipMark (String.ofList (pageOf rows title inner)).toList).length + 1)
    (skipMark (String.ofList (pageOf rows title inner)).toList) = _
  rw [String.toList_ofList, skipMark_pageOf hrows, hk, pageOf, statements?_rows hrows,
    statements?_title htitle, hinnerRead]
  simp

/-- The statements of a page come to the entries of its rows, with a table
behind. It is `foldlM_rows`, the header, and `foldlM_inner`. -/
theorem foldlM_page (hkeys : (rows.map Row.key).Nodup) (hfresh : title ∉ rows.map Row.key)
    (hinnerKeys : (inner.map Row.key).Nodup) :
    (rows.map Row.statement ++ .header [] title :: inner.map Row.statement).foldlM Draft.add?
        Draft.empty
      = some ⟨leaves rows ++ [(title, .table .explicit (leaves inner))], [title]⟩ := by
  have hnew : title ∉ (leaves rows).map Prod.fst := by
    have hfst : (leaves rows).map Prod.fst = rows.map Row.key := by simp [leaves]
    rwa [hfst]
  have hnodup : (([] : Entries).map Prod.fst ++ rows.map Row.key).Nodup := hkeys
  have hinnerNodup : (([] : Entries).map Prod.fst ++ inner.map Row.key).Nodup := hinnerKeys
  have hrows : (rows.map Row.statement).foldlM Draft.add? Draft.empty = some ⟨leaves rows, []⟩ :=
    Draft.foldlM_rows hnodup
  have hheader : Draft.add? ⟨leaves rows, []⟩ (.header [] title)
      = some ⟨leaves rows ++ [(title, .table .explicit [])], [title]⟩ := by
    show (Entries.open? title (leaves rows)).map _ = _
    rw [Entries.open?, Entries.change?_new hnew]
    rfl
  rw [List.foldlM_append, hrows]
  show (List.foldlM Draft.add? _ (_ :: _)) = _
  rw [List.foldlM_cons, hheader]
  exact Draft.foldlM_inner hnew hinnerNodup

/-- A page is read by `Toml.parse` as the values that its rows spell, those of
the table in a table of its own behind the others. -/
theorem parse_page (hrows : ∀ row ∈ rows, row.IsWritten) (hinner : ∀ row ∈ inner, row.IsWritten)
    (htitle : IsBare title) (hkeys : (rows.map Row.key).Nodup)
    (hfresh : title ∉ rows.map Row.key) (hinnerKeys : (inner.map Row.key).Nodup) :
    parse (String.ofList (pageOf rows title inner))
      = some (valuesOf rows ++ [(title, .table (valuesOf inner))]) := by
  have htable : entriesToValues [(title, .table .explicit (leaves inner))]
      = [(title, .table (valuesOf inner))] := by
    rw [entriesToValues, Node.toValue, entriesToValues_leaves]
    rfl
  rw [parse, statements?_page hrows hinner htitle]
  simp only [Option.bind_eq_bind, Option.bind_some, foldlM_page hkeys hfresh hinnerKeys,
    entriesToValues_append, entriesToValues_leaves, htable]
  rfl

end Page

end EchoAlign.Toml
