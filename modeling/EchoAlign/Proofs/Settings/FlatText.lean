import EchoAlign.Proofs.Session.Start
import EchoAlign.Proofs.Settings.Listing
import EchoAlign.Proofs.Text.Number

/-!
# `EchoAlign.Proofs.Settings.FlatText`: settings written as arguments

Settings can be written as an argument list in many ways. A `Layout` says
which settings are written, in which order and with which white space and
quotes, and the same for the sizes of the canceller, which are an argument
list of their own inside of one value.

* `CancellerTuning.parse_text`: sizes are read from any listing that names
  those that are not at their standard.
* `ofFlatArgs_eq`: settings are read from arguments that name those that are
  not at their standard.
* `flat_text_read`: settings are read from any layout that suits them, or are
  refused with the same error whatever the layout is.
-/

set_option autoImplicit false

namespace EchoAlign

open FlatArgs (Scheme Listing IsPlain IsQuote IsKey IsBlankText)
open Text (decimal)

/-! ### Values that need no quotes -/

/-- A digit is not a quote as `IsQuote` has them. -/
theorem not_isQuote_of_isDigit {c : Char} (h : c.isDigit = true) : ¬ IsQuote c := by
  rintro (rfl | rfl) <;> exact absurd h (by decide)

/-- A number that `decimal` writes consists of digits. -/
theorem isDigit_decimal {n : Nat} : ∀ c ∈ (decimal n).toList, c.isDigit = true := by
  rw [decimal, String.toList_ofList]
  exact Text.isDigit_toDigits

/-- A number that `decimal` writes `IsPlain`, as it has neither white space nor
quotes. -/
theorem isPlain_decimal (n : Nat) : IsPlain (decimal n).toList :=
  ⟨fun c hc => Text.isBlank_of_isDigit (isDigit_decimal c hc),
    fun c hc => not_isQuote_of_isDigit (isDigit_decimal c (List.mem_of_mem_head? hc))⟩

/-! ### The sizes of the canceller -/

namespace CancellerTuning

/-- The sizes by name, as a `Listing` of them needs names. -/
inductive Name
  | frame
  | filter
  deriving DecidableEq

/-- The key of a size in the argument list: `frameKey` or `filterKey`. -/
def Name.key : Name → String
  | frame => frameKey
  | filter => filterKey

/-- The size of a `Name`, as a field of the tuning. -/
def size (t : CancellerTuning) : Name → Nat
  | .frame => t.frameMs
  | .filter => t.filterMs

/-- Sizes are written in `decimal` digits and without quotes. -/
def scheme (t : CancellerTuning) : Scheme Name :=
  ⟨Name.key, fun name => decimal (t.size name), fun _ => none⟩

/-- No two sizes have the same `Name.key`. -/
theorem key_injective : Function.Injective Name.key := by
  intro a b h
  cases a <;> cases b <;> first | rfl | exact absurd h (by decide)

/-- The `Name.key` of a size is one that an argument can have, `IsKey`. -/
theorem isKey_key (name : Name) : IsKey name.key.toList := by
  cases name <;> exact FlatArgs.isKey_of_all (by decide) (by decide)

/-- Every size is written by its `scheme` in a way that can be read. -/
theorem isProper_scheme (t : CancellerTuning) : t.scheme.IsProper where
  injective := key_injective
  isKey := isKey_key
  quoted := nofun
  plain name _ := isPlain_decimal (t.size name)

/-- Two tunings are equal if they have the same `size` for every `Name`. -/
theorem ext_size {t t' : CancellerTuning} (h : ∀ name, t.size name = t'.size name) : t = t' := by
  have hframe : t.frameMs = t'.frameMs := h .frame
  have hfilter : t.filterMs = t'.filterMs := h .filter
  cases t
  cases t'
  simp_all

/-- A size that is at most `maxSize` is `set` by its `decimal` digits, and the
other one stays. -/
theorem set_decimal (t : CancellerTuning) (name : Name) {n : Nat} (h : n ≤ maxSize) :
    ∃ t', t.set name.key (decimal n) = .ok t'
      ∧ ∀ other, t'.size other = if other = name then n else t.size other := by
  cases name with
  | frame =>
      refine ⟨{ t with frameMs := n }, ?_, fun other => by cases other <;> rfl⟩
      rw [set, if_pos (show Name.frame.key = frameKey from rfl), Text.readNat?_decimal h]
  | filter =>
      refine ⟨{ t with filterMs := n }, ?_, fun other => by cases other <;> rfl⟩
      rw [set, if_neg (show Name.filter.key ≠ frameKey by decide),
        if_pos (show Name.filter.key = filterKey from rfl), Text.readNat?_decimal h]

/-- The pairs of some sizes are read one by one, and set these sizes. In the
result the sizes that are named are those of `t`, and all others are those of
`base`. -/
theorem foldlM_set {t : CancellerTuning} (hrange : ∀ name, t.size name ≤ maxSize)
    (pairs : List (String × String)) (hpairs : ∀ pair ∈ pairs, ∃ name, pair = t.scheme.pair name)
    (base : CancellerTuning) :
    ∃ t', pairs.foldlM (fun t pair => t.set pair.1 pair.2) base = Except.ok t'
      ∧ ∀ name, t'.size name = if t.scheme.pair name ∈ pairs then t.size name else base.size name := by
  induction pairs generalizing base with
  | nil => exact ⟨base, rfl, fun name => (if_neg List.not_mem_nil).symm⟩
  | cons pair pairs ih =>
      obtain ⟨⟨first, rfl⟩, hrest⟩ := List.forall_mem_cons.mp hpairs
      obtain ⟨next, hset, hsize⟩ := base.set_decimal first (hrange first)
      obtain ⟨t', hfold, hfinal⟩ := ih hrest next
      refine ⟨t', ?_, fun name => ?_⟩
      · rw [List.foldlM_cons]
        exact (congrArg (· >>= _) hset).trans hfold
      · rw [hfinal, hsize]
        by_cases hmem : t.scheme.pair name ∈ pairs
        · rw [if_pos hmem, if_pos (List.mem_cons_of_mem _ hmem)]
        · rw [if_neg hmem]
          by_cases heq : name = first
          · subst heq
            rw [if_pos rfl, if_pos List.mem_cons_self]
          · have hne : t.scheme.pair name ≠ t.scheme.pair first := fun h =>
              heq (key_injective (congrArg Prod.fst h))
            rw [if_neg heq, if_neg (List.not_mem_cons_of_ne_of_not_mem hne hmem)]

/-- Sizes are read from every listing that names those that are not at their
standard, if they are ones to run on. `hlisted` is what makes a listing enough.
Sizes that are not named stay at `standard`. -/
theorem parse_text {t : CancellerTuning} (hrange : ∀ name, t.size name ≤ maxSize)
    {o : Listing Name} (ho : o.IsProper)
    (hlisted : ∀ name, t.size name ≠ standard.size name → name ∈ o.names) :
    parse (String.ofList (o.text t.scheme)) = t.validate.map fun _ => t := by
  obtain ⟨args, hparse, hholds, -⟩ := Listing.exists_parse t.isProper_scheme ho
  have hmem : ∀ pair, pair ∈ args.pairs ↔ pair ∈ o.names.map t.scheme.pair := fun pair =>
    hholds.mem_iff (Listing.isListOf_text t.isProper_scheme ho).nodup
  obtain ⟨t', hfold, hsize⟩ := foldlM_set hrange args.pairs (fun pair hpair => by
    obtain ⟨name, -, rfl⟩ := List.mem_map.mp ((hmem pair).mp hpair)
    exact ⟨name, rfl⟩) standard
  obtain rfl : t' = t := by
    refine ext_size fun name => (hsize name).trans ?_
    split
    · rfl
    · next habsent =>
        -- What is not listed is at its standard.
        by_contra hne
        exact habsent ((hmem _).mpr (List.mem_map_of_mem (hlisted name (Ne.symm hne))))
  rw [parse, hparse]
  simp only [hfold, bind, Except.bind]
  cases t'.validate <;> rfl

end CancellerTuning

/-! ### Layouts -/

namespace Settings

/-- The settings by name, as a `Listing` of them needs names. -/
inductive Name
  | rate
  | channels
  | format
  | method
  | tuning
  | adjustTime
  | saveDumps
  | dumpDir
  | messageCapacity
  | timingTimeout
  deriving DecidableEq

/-- The key of a setting in the argument list, one of `keys`. -/
def Name.key : Name → String
  | rate => rateKey
  | channels => channelsKey
  | format => formatKey
  | method => methodKey
  | tuning => tuningKey
  | adjustTime => adjustTimeKey
  | saveDumps => saveDumpsKey
  | dumpDir => dumpDirKey
  | messageCapacity => messageCapacityKey
  | timingTimeout => timingTimeoutKey

/-- A setting of this `Name` has the value that it has in `standard`, so that it
need not be written. -/
def IsStandard (s : Settings) : Name → Prop
  | .rate => s.rate = standard.rate
  | .channels => s.channels = standard.channels
  | .format => s.format = standard.format
  | .method => s.method = standard.method
  | .tuning => s.tuning = standard.tuning
  | .adjustTime => s.adjustTime = standard.adjustTime
  | .saveDumps => s.saveDumps = standard.saveDumps
  | .dumpDir => s.dumpDir = standard.dumpDir
  | .messageCapacity => s.messageCapacity = standard.messageCapacity
  | .timingTimeout => s.timingTimeoutMs = standard.timingTimeoutMs

/-- How settings are written as an argument list: which of them, in what order,
with what white space, and in which quotes. The sizes have a `Listing` of their
own, as they are the value of one setting. -/
structure Layout where
  /-- The settings that are written. -/
  order : Listing Name
  /-- The sizes that are written in the value of the sizes. -/
  sizes : Listing CancellerTuning.Name
  /-- The quote around the name of the folder. -/
  dirQuote : Char
  /-- The quote around the sizes. -/
  tuningQuote : Char

namespace Layout

/-- How each setting is written: numbers in decimal digits, choices by their
names, the switch as `yes` or `no`, and the folder and the sizes in
quotes. -/
def scheme (l : Layout) (s : Settings) : Scheme Name where
  key := Name.key
  value
    | .rate => decimal s.rate
    | .channels => decimal s.channels
    | .format => s.format.label
    | .method => s.method.label
    | .tuning => String.ofList (l.sizes.text s.tuning.scheme)
    | .adjustTime => decimal s.adjustTime
    | .saveDumps => if s.saveDumps then "yes" else "no"
    | .dumpDir => s.dumpDir
    | .messageCapacity => decimal s.messageCapacity
    | .timingTimeout => decimal s.timingTimeoutMs
  quote?
    | .tuning => some l.tuningQuote
    | .dumpDir => some l.dirQuote
    | _ => none

/-- The settings as text, in this layout: the text of its `order` under its
`scheme`. -/
def text (l : Layout) (s : Settings) : String := String.ofList (l.order.text (l.scheme s))

/-- The layout names everything that is not at its standard (`listed`), and the
folder is free of the quote around it. -/
structure Suits (l : Layout) (s : Settings) : Prop where
  order : l.order.IsProper
  sizes : l.sizes.IsProper
  listed : ∀ name, ¬ s.IsStandard name → name ∈ l.order.names
  sizesListed : ∀ name, s.tuning.size name ≠ CancellerTuning.standard.size name →
    name ∈ l.sizes.names
  isQuote_dirQuote : IsQuote l.dirQuote
  isQuote_tuningQuote : IsQuote l.tuningQuote
  absent : l.dirQuote ∉ s.dumpDir.toList

end Layout

/-- The numbers of the settings have the width that `ofFlatText` reads them
with. -/
structure InRange (s : Settings) : Prop where
  rate_le : s.rate ≤ maxRate
  channels_le : s.channels ≤ maxGivenChannels
  size_le : ∀ name, s.tuning.size name ≤ CancellerTuning.maxSize
  adjustTime_le : s.adjustTime ≤ Word.maxUnsigned
  messageCapacity_le : s.messageCapacity ≤ Word.maxUnsigned
  timingTimeoutMs_le : s.timingTimeoutMs ≤ Word.maxUnsigned

/-! ### Layouts are argument lists -/

/-- No two settings have the same `Name.key`. -/
theorem key_injective : Function.Injective Name.key := by
  intro a b h
  cases a <;> cases b <;> first | rfl | exact absurd h (by decide)

/-- The `Name.key` of a setting is one that an argument can have, `IsKey`. -/
theorem isKey_key (name : Name) : IsKey name.key.toList := by
  cases name <;> exact FlatArgs.isKey_of_all (by decide) (by decide)

/-- The `Name.key` of a setting is among the `keys` of all settings. -/
theorem key_mem_keys (name : Name) : name.key ∈ keys := by
  cases name <;> decide

/-- No quote stands in a proper `Listing` of sizes, so that it may stand between
quotes. Neither a blank nor a key nor a digit is a quote. -/
theorem quote_notMem_sizes {o : Listing CancellerTuning.Name} (ho : o.IsProper)
    (t : CancellerTuning) {quote : Char} (hquote : IsQuote quote) :
    quote ∉ o.text t.scheme := by
  have hblank : ∀ blanks : List Char, IsBlankText blanks → quote ∉ blanks := fun blanks h hmem =>
    Bool.eq_false_iff.mp (FlatArgs.isQuote_of_isBlank (h quote hmem))
      (FlatArgs.isQuote_iff.mpr hquote)
  have hkey : ∀ name : CancellerTuning.Name, quote ∉ name.key.toList := by
    rcases hquote with rfl | rfl <;> intro name <;> cases name <;> decide
  have hvalue : ∀ n, quote ∉ (decimal n).toList := fun n hmem =>
    not_isQuote_of_isDigit (isDigit_decimal quote hmem) hquote
  have hsign : quote ≠ '=' := by
    rcases hquote with rfl | rfl <;> decide
  rw [Listing.text, List.mem_append, not_or]
  refine ⟨fun hmem => ?_, hblank _ ho.tail⟩
  obtain ⟨entry, hentry, hmem⟩ := List.mem_flatMap.mp hmem
  rcases List.mem_append.mp hmem with hmem | hmem
  · exact hblank _ (ho.blanks entry hentry) hmem
  rcases List.mem_append.mp hmem with hmem | hmem
  · exact hkey _ hmem
  rcases List.mem_cons.mp hmem with heq | hmem
  · exact hsign heq
  · exact hvalue _ hmem

namespace Layout

variable {l : Layout} {s : Settings}

/-- The labels of formats and methods and the words for switches are `IsPlain`,
so that they need no quotes. -/
theorem isPlain_label (format : SampleFormat) (method : CancellerMethod) (b : Bool) :
    IsPlain format.label.toList ∧ IsPlain method.label.toList
      ∧ IsPlain (if b then "yes" else "no").toList := by
  refine ⟨?_, ?_, ?_⟩
  · cases format <;> exact FlatArgs.isPlain_of_all (by decide)
  · cases method <;> exact FlatArgs.isPlain_of_all (by decide)
  · cases b <;> exact FlatArgs.isPlain_of_all (by decide)

/-- Every setting is written in a way that can be read. `Suits` gives quotes for
the folder and for the sizes, and all other values are numbers and names. -/
theorem Suits.isProper_scheme (h : l.Suits s) : (l.scheme s).IsProper where
  injective := key_injective
  isKey := isKey_key
  quoted name quote hquote := by
    cases name with
    | tuning =>
        obtain rfl : l.tuningQuote = quote := Option.some.inj hquote
        refine ⟨h.isQuote_tuningQuote, ?_⟩
        rw [scheme, String.toList_ofList]
        exact quote_notMem_sizes h.sizes s.tuning h.isQuote_tuningQuote
    | dumpDir =>
        obtain rfl : l.dirQuote = quote := Option.some.inj hquote
        exact ⟨h.isQuote_dirQuote, h.absent⟩
    | _ => cases hquote
  plain name hquote := by
    obtain ⟨hformat, hmethod, hswitch⟩ := isPlain_label s.format s.method s.saveDumps
    cases name with
    | tuning => cases hquote
    | dumpDir => cases hquote
    | format => exact hformat
    | method => exact hmethod
    | saveDumps => exact hswitch
    | _ => exact isPlain_decimal _

end Layout

/-! ### Settings from their arguments -/

section Reading

variable {α : Type} {args : FlatArgs} {key value : String} {read? : String → Option α}
  {standing x : α} {l : Layout} {s : Settings}

/-- What `readOr` answers: a value that is given is read by `read?`, and one
that is not given is `standing`. -/
theorem readOr_eq (hgiven : args.get? key = some value ∨ args.get? key = none ∧ x = standing)
    (hread : read? value = some x) : readOr args key read? standing = .ok x := by
  rcases hgiven with hsome | ⟨hnone, rfl⟩
  · simp only [readOr, FlatArgs.read, hsome, hread]
  · simp only [readOr, FlatArgs.read, hnone]

/-- What `parseOr` answers: a value that is given is read by `parse`, which has
errors of its own, and one that is not given is `standing`. -/
theorem parseOr_eq {ε : Type} {parse : String → Except ε α} {cause : ε → SettingsError}
    (hgiven : args.get? key = some value ∨ args.get? key = none ∧ x = standing)
    (hparse : parse value = .ok x) : parseOr args key parse cause standing = .ok x := by
  rcases hgiven with hsome | ⟨hnone, rfl⟩
  · simp only [parseOr, hsome, hparse]
    rfl
  · simp only [parseOr, hnone]

/-- The arguments give the settings that a `Layout` names, each with the value
of its `scheme`, and no others. -/
structure Gives (args : FlatArgs) (l : Layout) (s : Settings) : Prop where
  holds : args.Holds (l.order.names.map (l.scheme s).pair)
  get?_eq : ∀ name : Name, args.get? name.key
    = if name ∈ l.order.names then some ((l.scheme s).value name) else none

/-- A setting is given by arguments that `Gives` describes, or stands at its
standard, if the layout `Suits` the settings. -/
theorem Gives.given (h : Gives args l s) (hl : l.Suits s) (name : Name) :
    args.get? name.key = some ((l.scheme s).value name)
      ∨ args.get? name.key = none ∧ s.IsStandard name := by
  by_cases hmem : name ∈ l.order.names
  · exact .inl ((h.get?_eq name).trans (if_pos hmem))
  · exact .inr ⟨(h.get?_eq name).trans (if_neg hmem), by_contra fun hne => hmem (hl.listed name hne)⟩

/-- Every key of arguments that `Gives` describes names a setting, so that
`checkKeys` passes. -/
theorem Gives.checkKeys_eq (h : Gives args l s) (hl : l.Suits s) : checkKeys args = .ok () := by
  have hnone : args.pairs.find? (fun pair => !keys.contains pair.1) = none := by
    rw [List.find?_eq_none]
    intro pair hpair
    have hnodup := (Listing.isListOf_text hl.isProper_scheme hl.order).nodup
    obtain ⟨name, -, rfl⟩ := List.mem_map.mp ((h.holds.mem_iff hnodup).mp hpair)
    have hkey : ((l.scheme s).pair name).1 ∈ keys := key_mem_keys name
    simpa using hkey
  rw [checkKeys, hnone]

/-- The `label` of a format is parsed as the format. -/
theorem parse_format_label (format : SampleFormat) : SampleFormat.parse format.label = .ok format := by
  cases format <;> decide

/-- The `label` of a method is parsed as the method. -/
theorem parse_method_label (method : CancellerMethod) :
    CancellerMethod.parse method.label = .ok method := by
  cases method <;> decide

/-- The word for a switch is read by `Text.readSwitch?` as the switch. -/
theorem readSwitch?_word (b : Bool) : Text.readSwitch? (if b then "yes" else "no") = some b := by
  cases b <;> decide

/-- The sizes are refused as soon as they are read. The sizes in the text are
read by `parse_text`, and `hrange` keeps them within what can be read. -/
theorem Gives.parseOr_tuning (h : Gives args l s) (hl : l.Suits s) (hrange : s.InRange) :
    parseOr args tuningKey CancellerTuning.parse .canceller standard.tuning
      = (s.tuning.validate.mapError SettingsError.canceller).map fun _ => s.tuning := by
  rcases h.given hl .tuning with hsome | ⟨hnone, hstandard⟩
  · have hparse := CancellerTuning.parse_text hrange.size_le hl.sizes hl.sizesListed
    have hsome : args.get? tuningKey = some (String.ofList (l.sizes.text s.tuning.scheme)) := hsome
    simp only [parseOr, hsome, hparse]
    cases s.tuning.validate <;> rfl
  · have hnone : args.get? tuningKey = none := hnone
    have hstandard : s.tuning = standard.tuning := hstandard
    simp only [parseOr, hnone, hstandard]
    rfl

/-- Settings are read from arguments that give them: first of all the sizes are
checked, and then all settings. It is `parseOr_tuning` first, and then `Gives`
for each setting, in the order of `ofFlatArgs`. -/
theorem Gives.ofFlatArgs_eq (h : Gives args l s) (hl : l.Suits s) (hrange : s.InRange) :
    ofFlatArgs args
      = (s.tuning.validate.mapError SettingsError.canceller).bind fun _ =>
          s.validate.map fun _ => s := by
  -- Each setting is read from its pair, or is at its standard without one.
  have hrate : readOr args rateKey (Text.readNat? maxRate) standard.rate = .ok s.rate :=
    readOr_eq (h.given hl .rate) (Text.readNat?_decimal hrange.rate_le)
  have hchannels : readOr args channelsKey (Text.readNat? maxGivenChannels) standard.channels
      = .ok s.channels :=
    readOr_eq (h.given hl .channels) (Text.readNat?_decimal hrange.channels_le)
  have hformat : parseOr args formatKey SampleFormat.parse .audio standard.format = .ok s.format :=
    parseOr_eq (h.given hl .format) (parse_format_label s.format)
  have hmethod : parseOr args methodKey CancellerMethod.parse .canceller standard.method
      = .ok s.method :=
    parseOr_eq (h.given hl .method) (parse_method_label s.method)
  have hadjust : readOr args adjustTimeKey (Text.readNat? Word.maxUnsigned) standard.adjustTime
      = .ok s.adjustTime :=
    readOr_eq (h.given hl .adjustTime) (Text.readNat?_decimal hrange.adjustTime_le)
  have hdumps : readOr args saveDumpsKey Text.readSwitch? standard.saveDumps = .ok s.saveDumps :=
    readOr_eq (h.given hl .saveDumps) (readSwitch?_word s.saveDumps)
  have hdir : (args.get? dumpDirKey).getD standard.dumpDir = s.dumpDir := by
    rcases h.given hl .dumpDir with hsome | ⟨hnone, hstandard⟩
    · exact congrArg (Option.getD · standard.dumpDir) hsome
    · exact (congrArg (Option.getD · standard.dumpDir) hnone).trans (Eq.symm hstandard)
  have hcapacity : readOr args messageCapacityKey (Text.readNat? Word.maxUnsigned)
      standard.messageCapacity = .ok s.messageCapacity :=
    readOr_eq (h.given hl .messageCapacity) (Text.readNat?_decimal hrange.messageCapacity_le)
  have htimeout : readOr args timingTimeoutKey (Text.readNat? Word.maxUnsigned)
      standard.timingTimeoutMs = .ok s.timingTimeoutMs :=
    readOr_eq (h.given hl .timingTimeout) (Text.readNat?_decimal hrange.timingTimeoutMs_le)
  simp only [ofFlatArgs, h.checkKeys_eq hl, hrate, hchannels, hformat, hmethod,
    h.parseOr_tuning hl hrange, hadjust, hdumps, hdir, hcapacity, htimeout, bind, Except.bind]
  cases s.tuning.validate with
  | error e => rfl
  | ok _ =>
      change (s.validate >>= fun _ => Except.ok s) = s.validate.map fun _ => s
      cases s.validate <;> rfl

/-- Settings that are `InRange` are read by `ofFlatText` from any layout that
`Suits` them, if `validate` accepts them, and otherwise the error of that check
is the answer, with that of the sizes first. -/
theorem Layout.Suits.ofFlatText_eq (hl : l.Suits s) (hrange : s.InRange) :
    ofFlatText (l.text s)
      = (s.tuning.validate.mapError SettingsError.canceller).bind fun _ =>
          s.validate.map fun _ => s := by
  obtain ⟨args, hparse, hholds, hget⟩ := Listing.exists_parse hl.isProper_scheme hl.order
  have hgives : Gives args l s := ⟨hholds, hget⟩
  rw [ofFlatText, Layout.text, hparse]
  exact hgives.ofFlatArgs_eq hl hrange

/-- No settings are read by `ofFlatText` that `validate` does not accept. -/
theorem validate_of_ofFlatText {text : String} (h : ofFlatText text = .ok s) :
    s.validate = .ok () := by
  unfold ofFlatText at h
  split at h
  · cases h
  -- The keys and the nine values that are read come before the check.
  iterate 10 obtain ⟨_, -, h⟩ := Session.bind_eq_ok h
  obtain ⟨_, hvalid, h⟩ := Session.bind_eq_ok h
  cases h
  exact hvalid

end Reading

/-! ### Settings read back -/

/-- The layout in which every setting is written, and every size, in the order
of the fields, with one blank in front of each and a double quote around the
sizes. -/
def Layout.full (dirQuote : Char) : Layout where
  order := .spaced [.rate, .channels, .format, .method, .tuning, .adjustTime, .saveDumps, .dumpDir,
    .messageCapacity, .timingTimeout]
  sizes := .spaced [.frame, .filter]
  dirQuote
  tuningQuote := '\x22'

/-- All settings can be written, where there is a quote for the folder.
`habsent` lets the folder stand between its quotes. Every name is listed, so
that nothing has to be at its standard. -/
theorem Layout.suits_full {s : Settings} {dirQuote : Char} (hquote : IsQuote dirQuote)
    (habsent : dirQuote ∉ s.dumpDir.toList) : (Layout.full dirQuote).Suits s where
  order := Listing.isProper_spaced (by decide)
  sizes := Listing.isProper_spaced (by decide)
  listed name _ := by
    rw [Layout.full, Listing.names_spaced]
    cases name <;> decide
  sizesListed name _ := by
    rw [Layout.full, Listing.names_spaced]
    cases name <;> decide
  isQuote_dirQuote := hquote
  isQuote_tuningQuote := .inr rfl
  absent := habsent

/-- Settings that `validate` accepts have sizes that `CancellerTuning.validate`
accepts. -/
theorem validate_tuning {s : Settings} (h : s.validate = .ok ()) : s.tuning.validate = .ok () := by
  obtain ⟨_, -, h⟩ := Session.bind_eq_ok h
  obtain ⟨_, htuning, -⟩ := Session.bind_eq_ok h
  exact Session.mapError_eq_ok htuning

/-- Where `validate` refuses settings, what `ofFlatText_eq` gives for a layout
of them is an error: that of the sizes or that of the settings. -/
theorem refused_eq_error {s : Settings} (h : s.validate ≠ .ok ()) :
    ∃ e, ((s.tuning.validate.mapError SettingsError.canceller).bind fun _ =>
      s.validate.map fun _ => s) = .error e := by
  cases s.tuning.validate with
  | error e => exact ⟨.canceller e, rfl⟩
  | ok _ =>
      cases hvalid : s.validate with
      | error e => exact ⟨e, rfl⟩
      | ok _ => exact absurd hvalid h

/-- Settings that are accepted are read back by `ofFlatText` from every `Layout`
that suits them. Settings that are refused give the same error from every
layout, and no text at all is read as such settings. There is a layout that
suits the settings unless both quotes occur in the name of the folder. `InRange`
says that the numbers have the width that they are read with. -/
theorem flat_text_read {s : Settings} (hrange : s.InRange) :
    (s.validate = .ok () → ∀ l : Layout, l.Suits s → ofFlatText (l.text s) = .ok s)
      ∧ (s.validate ≠ .ok () → (∃ e, ∀ l : Layout, l.Suits s → ofFlatText (l.text s) = .error e)
          ∧ ∀ text, ofFlatText text ≠ .ok s)
      ∧ (¬ ('\x27' ∈ s.dumpDir.toList ∧ '\x22' ∈ s.dumpDir.toList) →
          ∃ l : Layout, l.Suits s) := by
  refine ⟨fun hvalid l hl => ?_, fun hinvalid => ⟨?_, fun text hread => ?_⟩, fun hboth => ?_⟩
  · rw [hl.ofFlatText_eq hrange, validate_tuning hvalid, hvalid]
    rfl
  · obtain ⟨e, he⟩ := refused_eq_error hinvalid
    exact ⟨e, fun l hl => (hl.ofFlatText_eq hrange).trans he⟩
  · exact hinvalid (validate_of_ofFlatText hread)
  · by_cases hsingle : '\x27' ∈ s.dumpDir.toList
    · exact ⟨_, Layout.suits_full (.inr rfl) fun hdouble => hboth ⟨hsingle, hdouble⟩⟩
    · exact ⟨_, Layout.suits_full (.inl rfl) hsingle⟩

/-- The `standard` settings but for two channels, other sizes and a recording,
in a folder with a single quote in its name. -/
def recorded : Settings :=
  { standard with
    channels := 2, tuning := ⟨10, 200⟩, saveDumps := true, dumpDir := "/tmp/cat\x27s ear" }

/-- A `Layout` with the folder first, then a wide blank and the sizes, the
filter before the block, and some other settings behind them. -/
def scrambled : Layout where
  order :=
    ⟨[([], .dumpDir), (['\u3000'], .tuning), ([' ', '\t'], .saveDumps), (['\n'], .format),
      ([' '], .channels)], [' ']⟩
  sizes := ⟨[([], .filter), ([' '], .frame)], []⟩
  dirQuote := '\x22'
  tuningQuote := '\x27'

/-- The settings are read from the scrambled text, and refused without channels.
The hypotheses of `flat_text_read` are met by `recorded` and the layout
`scrambled`. -/
theorem flat_text_read_trial :
    scrambled.text recorded
        = "dump_dir=\x22/tmp/cat\x27s ear\x22\u3000aec_args=\x27filter_size_ms=200 frame_size_ms=10\x27 \tsave_aec=yes\nformat=s16le channels=2 "
      ∧ ofFlatText (scrambled.text recorded) = .ok recorded
      ∧ ∃ e, ofFlatText (scrambled.text { recorded with channels := 0 }) = .error e := by
  have hsize : ∀ name, recorded.tuning.size name ≤ CancellerTuning.maxSize := by
    intro name
    cases name <;> decide
  have hrange : recorded.InRange :=
    ⟨by decide, by decide, hsize, by decide, by decide, by decide⟩
  have hrange' : InRange { recorded with channels := 0 } :=
    ⟨by decide, by decide, hsize, by decide, by decide, by decide⟩
  have hsuits : ∀ n, scrambled.Suits { recorded with channels := n } := fun n =>
    { order := ⟨by decide, by decide, by decide, by decide⟩
      sizes := ⟨by decide, by decide, by decide, by decide⟩
      listed := by
        intro name hname
        cases name <;> first | decide | exact absurd rfl hname
      sizesListed := by
        intro name _
        cases name <;> decide
      isQuote_dirQuote := .inr rfl
      isQuote_tuningQuote := .inl rfl
      absent := show '\x22' ∉ recorded.dumpDir.toList by decide }
  obtain ⟨e, he⟩ := ((flat_text_read hrange').2.1 (by decide)).1
  exact ⟨by decide +kernel, (flat_text_read hrange).1 (by decide) scrambled (hsuits 2),
    e, he scrambled (hsuits 0)⟩

end Settings

end EchoAlign
