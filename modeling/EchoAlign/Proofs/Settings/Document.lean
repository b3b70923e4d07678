import EchoAlign.CommandLine.Program
import EchoAlign.Proofs.Session.Start
import EchoAlign.Proofs.Toml.Rows

/-!
# `EchoAlign.Proofs.Settings.Document`: settings that are printed can be read

What the program prints as the settings is a document, and this document
holds the same settings.

* `renderChars_eq`: the document is a page of rows, with the sizes of the
  canceller in a table behind the others.
* `IsStorable`: the settings fit the ranges of a document and of a session.
  Then every row can be read (`IsStorable.isWritten`), and what has been read
  comes to the same settings (`IsStorable.ofEntries?_entries`).
* `printed_linesOf`: a text is printed as it is.
* `load_printed`: what `Program.showSettings` prints is what `render?` makes, and
  from a file that holds it `load` gives back the settings that were printed.
-/

set_option autoImplicit false

namespace EchoAlign.Settings

open Toml (Row)

/-! ### Rows -/

/-- The row of a number, written in decimal `digits`. -/
def numberRow (key : String) (n : Nat) : Row := ⟨key, digits n, .integer n⟩

/-- The row of a switch, written as `true` or `false`. -/
def switchRow (key : String) (b : Bool) : Row := ⟨key, switchText b, .boolean b⟩

/-- The row of a text, written in the quotes that `Toml.Quoted.render` chooses. -/
def textRow (key text : String) : Row := ⟨key, Toml.Quoted.render text.toList, .string text⟩

/-- The rows of all settings but the sizes of the canceller, in the order of the
fields of `Settings`. -/
def rows (s : Settings) : List Row :=
  [numberRow rateKey s.rate,
   numberRow channelsKey s.channels,
   textRow formatKey s.format.label,
   textRow methodKey s.method.label,
   numberRow adjustTimeKey s.adjustTime,
   switchRow saveDumpsKey s.saveDumps,
   textRow dumpDirKey s.dumpDir,
   numberRow messageCapacityKey s.messageCapacity,
   numberRow timingTimeoutKey s.timingTimeoutMs]

/-- The rows of the sizes of the canceller, which stand in a table of their own
under `tuningKey`. -/
def tuningRows (t : CancellerTuning) : List Row :=
  [numberRow CancellerTuning.frameKey t.frameMs, numberRow CancellerTuning.filterKey t.filterMs]

/-- The entries of the document of settings, as the reader comes to them: the
values of `rows`, and then the table of `tuningRows`. -/
def entries (s : Settings) : Entries :=
  Toml.valuesOf s.rows ++ [(tuningKey, .table (Toml.valuesOf (tuningRows s.tuning)))]

/-- The document is a page of the rows, so that `Toml.parse_page` is about it. -/
theorem renderChars_eq (s : Settings) :
    s.renderChars = Toml.pageOf s.rows tuningKey (tuningRows s.tuning) := by
  simp [renderChars, Toml.pageOf, Toml.linesOf, Toml.titleOf, Row.line, rows, tuningRows, line,
    numberRow, switchRow, textRow]

/-! ### Keys -/

/-- The keys of the document need no quotes, `Toml.IsBare`, as they have letters
and underscores only. -/
theorem isBare_of_mem {key : String}
    (h : key ∈ keys ++ [CancellerTuning.frameKey, CancellerTuning.filterKey]) :
    Toml.IsBare key := by
  have hall : (keys ++ [CancellerTuning.frameKey, CancellerTuning.filterKey]).all
      (fun key => key.toList != [] && key.toList.all Toml.Reader.isBareChar) = true := by
    decide +kernel
  have hkey := List.all_eq_true.mp hall key h
  rw [Bool.and_eq_true, bne_iff_ne, List.all_eq_true] at hkey
  exact ⟨hkey.1, hkey.2⟩

/-- The keys of `rows`, in order. -/
theorem rows_key (s : Settings) :
    s.rows.map Row.key
      = [rateKey, channelsKey, formatKey, methodKey, adjustTimeKey, saveDumpsKey, dumpDirKey,
         messageCapacityKey, timingTimeoutKey] := rfl

/-- The keys of `tuningRows`, in order. -/
theorem tuningRows_key (t : CancellerTuning) :
    (tuningRows t).map Row.key = [CancellerTuning.frameKey, CancellerTuning.filterKey] := rfl

/-! ### Settings that fit a document -/

/-- Settings that `validate` accepts, so that a session can run on them, and
whose numbers a document can hold: the rate is at most `maxRate`, and TOML has
signed words. -/
structure IsStorable (s : Settings) : Prop where
  valid : s.validate = .ok ()
  rate_le : s.rate ≤ maxRate
  adjustTime_le : s.adjustTime ≤ Word.maxSigned
  messageCapacity_le : s.messageCapacity ≤ Word.maxSigned
  timingTimeoutMs_le : s.timingTimeoutMs ≤ Word.maxSigned

namespace IsStorable

variable {s : Settings}

/-- Settings that are storable fit a document, and so `render?` gives one. -/
theorem fitsDocument (h : s.IsStorable) : s.fitsDocument = true := by
  simp [Settings.fitsDocument, h.adjustTime_le, h.messageCapacity_le, h.timingTimeoutMs_le]

/-- Settings that are `IsStorable` have at most `maxChannels` channels, blocks
of at most 200 ms and a filter of at most 2000 ms, as `validate` asks. -/
theorem bounds (h : s.IsStorable) :
    s.channels ≤ maxChannels ∧ s.tuning.frameMs ≤ 200 ∧ s.tuning.filterMs ≤ 2000 := by
  obtain ⟨_, hspec, hrest⟩ := Session.bind_eq_ok h.valid
  obtain ⟨_, htuning, -⟩ := Session.bind_eq_ok hrest
  exact ⟨(StreamSpec.pos_of_validate (Session.mapError_eq_ok hspec)).2.2,
    Session.sizes_of_validate (Session.mapError_eq_ok htuning)⟩

end IsStorable

/-! ### Rows that can be read -/

/-- The row of a number that is a signed word `IsWritten`, if its key is one of
the document. -/
theorem isWritten_numberRow {key : String}
    (hkey : key ∈ keys ++ [CancellerTuning.frameKey, CancellerTuning.filterKey]) {n : Nat}
    (hn : n ≤ Word.maxSigned) : (numberRow key n).IsWritten :=
  ⟨isBare_of_mem hkey, Toml.spells_toDigits hn⟩

/-- The row of a switch `IsWritten`, if its key is one of the document. -/
theorem isWritten_switchRow {key : String}
    (hkey : key ∈ keys ++ [CancellerTuning.frameKey, CancellerTuning.filterKey]) (b : Bool) :
    (switchRow key b).IsWritten :=
  ⟨isBare_of_mem hkey, Toml.spells_switch b⟩

/-- The row of a text `IsWritten`, whatever is in the text, if its key is one of
the document. -/
theorem isWritten_textRow {key : String}
    (hkey : key ∈ keys ++ [CancellerTuning.frameKey, CancellerTuning.filterKey]) (text : String) :
    (textRow key text).IsWritten := by
  have hspells := Toml.spells_quoted text.toList
  rw [String.ofList_toList] at hspells
  exact ⟨isBare_of_mem hkey, hspells⟩

namespace IsStorable

variable {s : Settings}

/-- Every row of storable settings can be read. `isWritten_numberRow` needs its
number to fit a signed word, and `IsStorable` says that each does. -/
theorem isWritten (h : s.IsStorable) :
    (∀ row ∈ s.rows, row.IsWritten) ∧ ∀ row ∈ tuningRows s.tuning, row.IsWritten := by
  have hrate := h.rate_le
  obtain ⟨hchannels, hframe, hfilter⟩ := h.bounds
  rw [maxRate, Word.max32] at hrate
  rw [maxChannels] at hchannels
  constructor
  · intro row hrow
    simp only [rows, List.mem_cons, List.not_mem_nil, or_false] at hrow
    rcases hrow with rfl | rfl | rfl | rfl | rfl | rfl | rfl | rfl | rfl
    · exact isWritten_numberRow (by decide) (by rw [Word.maxSigned]; omega)
    · exact isWritten_numberRow (by decide) (by rw [Word.maxSigned]; omega)
    · exact isWritten_textRow (by decide) _
    · exact isWritten_textRow (by decide) _
    · exact isWritten_numberRow (by decide) h.adjustTime_le
    · exact isWritten_switchRow (by decide) _
    · exact isWritten_textRow (by decide) _
    · exact isWritten_numberRow (by decide) h.messageCapacity_le
    · exact isWritten_numberRow (by decide) h.timingTimeoutMs_le
  · intro row hrow
    simp only [tuningRows, List.mem_cons, List.not_mem_nil, or_false] at hrow
    rcases hrow with rfl | rfl
    · exact isWritten_numberRow (by decide) (by rw [Word.maxSigned]; omega)
    · exact isWritten_numberRow (by decide) (by rw [Word.maxSigned]; omega)

/-- The document that `renderChars` writes for settings that are `IsStorable` is
read by `Toml.parse` as their `entries`. -/
theorem parse_renderChars (h : s.IsStorable) :
    Toml.parse (String.ofList s.renderChars) = some s.entries := by
  rw [renderChars_eq]
  refine Toml.parse_page h.isWritten.1 h.isWritten.2 (isBare_of_mem (by decide)) ?_ ?_ ?_
  · rw [rows_key]
    decide
  · rw [rows_key]
    decide
  · rw [tuningRows_key]
    decide

end IsStorable

/-! ### Settings from their entries -/

/-- A number that is at most `max` is read from its value by `natOf?`. -/
theorem natOf?_of_le {n max : Nat} (h : n ≤ max) : natOf? max (.integer n) = some n := by
  simp [natOf?, h]

/-- The `label` of a format stands for it among all formats. -/
theorem named?_format (format : SampleFormat) :
    named? [.s16le, .f32le] SampleFormat.label (.string format.label) = some format := by
  cases format <;> decide

/-- The `label` of a method stands for it among all methods. -/
theorem named?_method (method : CancellerMethod) :
    named? [.nlms, .null] CancellerMethod.label (.string method.label) = some method := by
  cases method <;> decide

/-- The table of `tuningRows` is read by `tuningOf?` as the sizes it was written
for, if they are in range. -/
theorem tuningOf?_tuningRows {t : CancellerTuning} (hframe : t.frameMs ≤ CancellerTuning.maxSize)
    (hfilter : t.filterMs ≤ CancellerTuning.maxSize) :
    tuningOf? (.table (Toml.valuesOf (tuningRows t))) = some t := by
  have hframeRead : entryOr (Toml.valuesOf (tuningRows t)) CancellerTuning.frameKey
      (natOf? CancellerTuning.maxSize) CancellerTuning.standard.frameMs = some t.frameMs :=
    natOf?_of_le hframe
  have hfilterRead : entryOr (Toml.valuesOf (tuningRows t)) CancellerTuning.filterKey
      (natOf? CancellerTuning.maxSize) CancellerTuning.standard.filterMs = some t.filterMs :=
    natOf?_of_le hfilter
  simp only [tuningOf?, hframeRead, hfilterRead, Option.bind_eq_bind, Option.bind_some]
  rfl

/-- Every setting is read from its own entry, whatever its standard is. With
`IsStorable` no number is refused, and `ofEntries?` looks up each name among the
entries that `entries` has for it. -/
theorem IsStorable.ofEntries?_entries {s : Settings} (h : s.IsStorable) :
    ofEntries? s.entries = some s := by
  have hadjust := h.adjustTime_le
  have hcapacity := h.messageCapacity_le
  have htimeout := h.timingTimeoutMs_le
  obtain ⟨hchannels, hframe, hfilter⟩ := h.bounds
  rw [Word.maxSigned] at hadjust hcapacity htimeout
  rw [maxChannels] at hchannels
  have hrateRead : entryOr s.entries rateKey (natOf? maxRate) standard.rate = some s.rate :=
    natOf?_of_le h.rate_le
  have hchannelsRead : entryOr s.entries channelsKey (natOf? maxGivenChannels) standard.channels
      = some s.channels := natOf?_of_le (by rw [maxGivenChannels, Word.max16]; omega)
  have hformatRead : entryOr s.entries formatKey (named? [.s16le, .f32le] SampleFormat.label)
      standard.format = some s.format := named?_format s.format
  have hmethodRead : entryOr s.entries methodKey (named? [.nlms, .null] CancellerMethod.label)
      standard.method = some s.method := named?_method s.method
  have hadjustRead : entryOr s.entries adjustTimeKey (natOf? Word.maxUnsigned) standard.adjustTime
      = some s.adjustTime := natOf?_of_le (by rw [Word.maxUnsigned]; omega)
  have hdumpsRead : entryOr s.entries saveDumpsKey switchOf? standard.saveDumps
      = some s.saveDumps := rfl
  have hdirRead : entryOr s.entries dumpDirKey textOf? standard.dumpDir = some s.dumpDir := rfl
  have hcapacityRead : entryOr s.entries messageCapacityKey (natOf? Word.maxUnsigned)
      standard.messageCapacity = some s.messageCapacity :=
    natOf?_of_le (by rw [Word.maxUnsigned]; omega)
  have htimeoutRead : entryOr s.entries timingTimeoutKey (natOf? Word.maxUnsigned)
      standard.timingTimeoutMs = some s.timingTimeoutMs :=
    natOf?_of_le (by rw [Word.maxUnsigned]; omega)
  have htuningRead : entryOr s.entries tuningKey tuningOf? standard.tuning = some s.tuning :=
    tuningOf?_tuningRows (by rw [CancellerTuning.maxSize, Word.max32]; omega)
      (by rw [CancellerTuning.maxSize, Word.max32]; omega)
  simp only [ofEntries?, hrateRead, hchannelsRead, hformatRead, hmethodRead, hadjustRead,
    hdumpsRead, hdirRead, hcapacityRead, htimeoutRead, htuningRead, Option.bind_eq_bind,
    Option.bind_some]
  rfl

/-! ### Files -/

/-- A text that `toUTF8` encodes is decoded by `String.fromUTF8?` as it was. -/
theorem fromUTF8?_toUTF8 (text : String) : String.fromUTF8? text.toUTF8 = some text := by
  have hvalid : text.toUTF8.IsValidUTF8 := text.isValidUTF8
  unfold String.fromUTF8?
  rw [dif_pos hvalid]
  rfl

/-- Settings that are `IsStorable` are read by `ofFile` from a file that holds
the document of `renderChars`, encoded. -/
theorem IsStorable.ofFile_document {s : Settings} (h : s.IsStorable) (path : String) :
    ofFile path (.ok (.file (String.ofList s.renderChars).toUTF8)) = .ok s := by
  have htext : textOfFile path (.ok (.file (String.ofList s.renderChars).toUTF8))
      = .ok (String.ofList s.renderChars) := by
    simp only [textOfFile, Except.bind, FileTree.contents, fromUTF8?_toUTF8]
  have hparse : parse (String.ofList s.renderChars) = .ok s := by
    simp only [parse, h.parse_renderChars, Option.bind_some, h.ofEntries?_entries, h.valid]
    rfl
  simp only [ofFile, htext, Except.bind, hparse]

/-! ### The program -/

/-- What is seen of lines that are printed one by one, each with its end. -/
def printed (lines : List String) : String := String.join (lines.map (· ++ "\n"))

/-- Lines that are `printed` are parted by their ends, and the last one has an
end, too. -/
theorem toList_printed {lines : List (List Char)} (hlines : lines ≠ []) :
    (printed (lines.map String.ofList)).toList = ['\n'].intercalate lines ++ ['\n'] := by
  induction lines with
  | nil => exact absurd rfl hlines
  | cons line lines ih =>
      cases lines with
      | nil => simp [printed]
      | cons next lines =>
          have hrest := ih (List.cons_ne_nil _ _)
          rw [List.intercalate_cons_of_ne_nil (List.cons_ne_nil _ _), List.append_assoc, ← hrest]
          simp [printed]

/-- A text whose last line ends is `printed` as it is, once `Program.linesOf`
has cut it into lines. -/
theorem printed_linesOf (text : List Char) :
    printed (Program.linesOf (text ++ ['\n'])) = String.ofList (text ++ ['\n']) := by
  have hsplit : (text ++ ['\n']).splitOn '\n' = text.splitOn '\n' ++ [[]] :=
    List.splitOn_append_cons_self text []
  apply String.toList_injective
  rw [Program.linesOf, hsplit, List.dropLast_concat, toList_printed (List.splitOn_ne_nil _ _),
    List.intercalate_splitOn, String.toList_ofList]

/-- The document of `renderChars` ends with the end of a line, so that it is
`printed` as it is. -/
theorem exists_renderChars_eq (s : Settings) : ∃ text, s.renderChars = text ++ ['\n'] :=
  ⟨_, (List.append_assoc _ _ _).symm⟩

/-- What is printed as the settings of a session (`Program.showSettings`) can be
kept in a file, and the settings that are loaded from this file by
`Settings.load` are the same. The settings must be valid, and their numbers must
fit the signed words of TOML. -/
theorem load_printed {s : Settings} (hvalid : s.validate = .ok ()) (hrate : s.rate ≤ maxRate)
    (hadjust : s.adjustTime ≤ Word.maxSigned) (hcapacity : s.messageCapacity ≤ Word.maxSigned)
    (htimeout : s.timingTimeoutMs ≤ Word.maxSigned) :
    ∃ lines, Program.showSettings s = .ok lines ∧ s.render? = some (printed lines)
      ∧ ∀ (tree : FileTree) (path : String),
          tree.find path = .ok (.file (printed lines).toUTF8) → load tree path = .ok s := by
  have hstorable : s.IsStorable := ⟨hvalid, hrate, hadjust, hcapacity, htimeout⟩
  have hprinted : printed (Program.linesOf s.renderChars) = String.ofList s.renderChars := by
    obtain ⟨text, htext⟩ := s.exists_renderChars_eq
    rw [htext, printed_linesOf]
  refine ⟨Program.linesOf s.renderChars, ?_, ?_, fun tree path hfind => ?_⟩
  · rw [Program.showSettings, if_pos hstorable.fitsDocument]
  · rw [render?, if_pos hstorable.fitsDocument, hprinted]
  · rw [load, hfind, hprinted]
    exact hstorable.ofFile_document path

/-- The `standard` settings with the longest adjustment time that fits a word,
and a folder whose name no plain string can hold: it has quotes of both kinds, a
backslash and control characters. -/
def awkward : Settings :=
  { standard with
    adjustTime := Word.maxSigned
    dumpDir := "\nit's \"\"\" or ''' \\ \x01\x7f\r\n" }

/-- A folder with one file in it, under the name `kept`. -/
def shelf (text : String) : FileTree := ⟨[(["kept"], .file text.toUTF8)], []⟩

/-- The file of `shelf` is found under its path. The path has one component, and
leads to it from the root. -/
theorem find_shelf (text : String) : (shelf text).find "/kept" = .ok (.file text.toUTF8) := by
  have hcomponents : FileTree.componentsOf "/kept" = ["kept"] := by decide +kernel
  have hplain : "/kept".contains '\x00' = false := by
    rw [String.contains_char_eq]
    decide +kernel
  have hshort : ¬ FileTree.maxPathSize < "/kept".utf8ByteSize := by decide +kernel
  have hroot : (shelf text).start "/kept" = [] := if_pos (by decide +kernel)
  have happroach : (shelf text).approach "/kept" = .ok ([], "kept") := by
    simp [FileTree.approach, hcomponents, hplain, hshort, hroot, FileTree.enter, Except.map]
  have hends : "/kept".endsWith "/" = false := by decide +kernel
  have hplace : FileTree.follow [] "kept" = .ok ["kept"] := rfl
  have hnode : (shelf text).node? ["kept"] = some (.file text.toUTF8) := rfl
  simp only [FileTree.find, happroach, hplace, hnode, hends, bind, Except.bind]
  rfl

/-- The hypotheses of `load_printed` are met by settings with an `awkward`
folder and the largest time that fits a word, and the `shelf` has what is
printed. -/
theorem load_printed_trial :
    awkward.validate = .ok ()
      ∧ ∃ lines, Program.showSettings awkward = .ok lines
        ∧ load (shelf (printed lines)) "/kept" = .ok awkward := by
  obtain ⟨lines, hlines, -, hload⟩ := load_printed (s := awkward) rfl (by decide) (by decide)
    (by decide) (by decide)
  exact ⟨rfl, lines, hlines, hload _ _ (find_shelf _)⟩

end EchoAlign.Settings
