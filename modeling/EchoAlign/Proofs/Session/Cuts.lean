import EchoAlign.Proofs.Session.Suspension
import EchoAlign.Proofs.Session.Wiring

/-!
# `EchoAlign.Proofs.Session.Cuts`: how captured audio is cut does not matter

Captured audio comes in blocks of any length, and is worked off in blocks
of the canceller's length. Where the one kind of block ends is of no
consequence for the other.

* `Pairing.Extends` says that two pairings are alike but that one has more
  captured audio at the end of its tape. It can do whatever the other does
  (`Extends.step?`), and then goes on (`Extends.drive_cut`).
* `push_cut`: with no messages waiting, two capture ticks do the same to the
  audio, the counters and the dumps as one tick with the audio of both.
-/

set_option autoImplicit false

namespace EchoAlign

/-! ### Blocks that hold the same bytes -/

/-- Blocks with the same bytes (`toList`) have the same byte array. -/
theorem Block.bytes_eq {a b : Block} (h : a.toList = b.toList) : a.bytes = b.bytes := by
  rw [← bytesOfList_toList, h, bytesOfList_toList]

/-- Blocks with the same bytes (`toList`) are of one size. -/
theorem Block.size_eq {a b : Block} (h : a.toList = b.toList) : a.size = b.size := by
  rw [← Block.length_toList, h, Block.length_toList]

/-- The canceller goes by the bytes it is given: captured blocks with the same
bytes come to the same in `cancelBlock`, and leave it in the same state. -/
theorem cancelBlock_congr {κ : Type} [Canceller κ] (s : κ) {a b : Block} (h : a.toList = b.toList)
    (reference : Block) :
    (cancelBlock s a reference).1.toList = (cancelBlock s b reference).1.toList
      ∧ (cancelBlock s a reference).2 = (cancelBlock s b reference).2 := by
  unfold cancelBlock
  rw [Block.size_eq h, Block.bytes_eq h]
  split
  · exact ⟨rfl, rfl⟩
  · exact ⟨h, rfl⟩

/-! ### More captured audio at the end -/

namespace Pairing

variable {κ : Type} [Canceller κ] {p q next last : Pairing κ} {events : List Event} {base : Nat}
  {bytes more : List UInt8}

/-- Two pairings are alike, but the second has `more` captured audio behind
that of the first. -/
def Extends (base : Nat) (more : List UInt8) (p q : Pairing κ) : Prop :=
  ∃ captured bytes, q = { p with captured } ∧ p.captured.Holds base bytes
    ∧ captured.Holds base (bytes ++ more)

omit [Canceller κ] in
/-- If there is nothing more behind it, the first pairing `Extends` the second
as well. -/
theorem Extends.symm (h : p.Extends base [] q) : q.Extends base [] p := by
  obtain ⟨captured, bytes, rfl, hp, hq⟩ := h
  rw [List.append_nil] at hq
  exact ⟨p.captured, bytes, rfl, hq, by rwa [List.append_nil]⟩

/-- What is taken off either tape is the same, as long as it lies (`hn`) before
what the second one has `more`. -/
theorem holds_advance_more {s t : Tape} (hs : s.Holds base bytes)
    (ht : t.Holds base (bytes ++ more)) {n : Nat} (hn : n ≤ bytes.length) :
    (t.peek n).toList = (s.peek n).toList ∧ (s.advance n).Holds base (bytes.drop n)
      ∧ (t.advance n).Holds base (bytes.drop n ++ more) := by
  have hn' : n ≤ (bytes ++ more).length := by
    rw [List.length_append]
    omega
  have hadvance := ht.advance hn'
  rw [List.drop_append_of_le_length hn] at hadvance
  rw [hs.toList_peek hn, ht.toList_peek hn', List.take_append_of_le_length hn]
  exact ⟨rfl, hs.advance hn, hadvance⟩

omit [Canceller κ] in
/-- What is dropped by `skipCaptured` does not depend on what comes behind the
block (`more`). -/
theorem Extends.skipCaptured (h : p.Extends base more q)
    (hle : p.blockBytes ≤ p.captured.length) :
    p.skipCaptured.1.fate? = q.skipCaptured.1.fate?
      ∧ p.skipCaptured.2.Extends base more q.skipCaptured.2 := by
  obtain ⟨tape, bytes, rfl, hp, hq⟩ := h
  rw [hp.length_eq] at hle
  obtain ⟨hbytes, hrest, hrest'⟩ :=
    holds_advance_more hp hq (Nat.le_trans (Nat.min_le_right p.skip.source p.blockBytes) hle)
  exact ⟨congrArg (some ∘ Fate.skipped) hbytes.symm, _, _, rfl, hrest, hrest'⟩

/-- A run of the canceller does not depend on what comes behind its block
(`more`). -/
theorem Extends.cancel (h : p.Extends base more q) (hle : p.blockBytes ≤ p.captured.length) :
    p.cancel.1.fate? = q.cancel.1.fate? ∧ p.cancel.2.Extends base more q.cancel.2 := by
  obtain ⟨tape, bytes, rfl, hp, hq⟩ := h
  rw [hp.length_eq] at hle
  obtain ⟨hbytes, hrest, hrest'⟩ := holds_advance_more hp hq hle
  obtain ⟨hcleaned, hcanceller⟩ := cancelBlock_congr p.canceller hbytes
    (p.played.peek p.blockBytes)
  constructor
  · simp only [Pairing.cancel, Tape.take, Event.fate?, hbytes, hcleaned]
  · simp only [Pairing.cancel, Tape.take, hcanceller]
    exact ⟨_, _, rfl, hrest, hrest'⟩

omit [Canceller κ] in
/-- What `pass` passes on does not depend on what comes behind the block
(`more`). -/
theorem Extends.pass (h : p.Extends base more q) (hle : p.blockBytes ≤ p.captured.length) :
    p.pass.1.fate? = q.pass.1.fate? ∧ p.pass.2.Extends base more q.pass.2 := by
  obtain ⟨tape, bytes, rfl, hp, hq⟩ := h
  rw [hp.length_eq] at hle
  obtain ⟨hbytes, hrest, hrest'⟩ := holds_advance_more hp hq hle
  exact ⟨congrArg (fun captured => some (Fate.passed captured _)) hbytes.symm, _, _, rfl, hrest,
    hrest'⟩

/-- What is done with a block (`Pairing.step?`) does not depend on what comes
behind it. -/
theorem Extends.step? (h : p.Extends base more q) {event : Event}
    (hstep : p.step? = some (event, next)) :
    ∃ event' next', q.step? = some (event', next') ∧ event.fate? = event'.fate?
      ∧ next.Extends base more next' := by
  obtain ⟨hle, hcases⟩ := step?_cases hstep
  -- Both have a block, and they go by the same state to decide about it.
  have hsame : q.blockBytes = p.blockBytes ∧ q.skip = p.skip ∧ q.canCancel = p.canCancel
      ∧ p.captured.length ≤ q.captured.length := by
    obtain ⟨tape, bytes, rfl, hp, hq⟩ := h
    rw [hp.length_eq, hq.length_eq, List.length_append]
    exact ⟨rfl, rfl, rfl, Nat.le_add_right _ _⟩
  obtain ⟨hsize, hskip, hcan, hlength⟩ := hsame
  have hstep' : q.step?
      = if 0 < p.skip.source then some q.skipCaptured
        else if p.canCancel then some q.cancel else some q.pass := by
    have hblock : q.hasBlock = true := by
      unfold hasBlock
      rw [decide_eq_true_iff]
      omega
    unfold Pairing.step?
    rw [hblock, hskip, hcan]
    rfl
  rcases hcases with ⟨hsource, heq⟩ | ⟨hsource, hyes, heq⟩ | ⟨hsource, hno, heq⟩
  · rw [if_pos hsource] at hstep'
    obtain ⟨hfate, hnext⟩ := h.skipCaptured hle
    rw [← heq] at hfate hnext
    exact ⟨_, _, hstep', hfate, hnext⟩
  · rw [if_neg (by omega), if_pos hyes] at hstep'
    obtain ⟨hfate, hnext⟩ := h.cancel hle
    rw [← heq] at hfate hnext
    exact ⟨_, _, hstep', hfate, hnext⟩
  · rw [if_neg (by omega), if_neg (Bool.eq_false_iff.mp hno)] at hstep'
    obtain ⟨hfate, hnext⟩ := h.pass hle
    rw [← heq] at hfate hnext
    exact ⟨_, _, hstep', hfate, hnext⟩

/-- Steps that one pairing takes can be taken by one that `Extends` it, with the
same fates. -/
theorem Extends.path (h : p.Extends base more q) (hpath : Path p events last) :
    ∃ events' last', Path q events' last' ∧ events.map Event.fate? = events'.map Event.fate?
      ∧ last.Extends base more last' := by
  induction hpath generalizing q with
  | refl => exact ⟨[], q, .refl q, rfl, h⟩
  | cons hstep _ ih =>
      obtain ⟨event', next', hstep', hfate, hnext⟩ := h.step? hstep
      obtain ⟨events', last', hpath', hfates, hlast⟩ := ih hnext
      refine ⟨event' :: events', last', .cons hstep' hpath', ?_, hlast⟩
      rw [List.map_cons, List.map_cons, hfate, hfates]

/-- A pairing with more captured audio does what the other does, and goes on as
the other does once it gets that audio, too. So cutting the captured audio in
two makes no difference. So cutting the captured audio in two makes no
difference to `Pairing.drive`, as long as the tape has room for all of it
(`maxTapeLength`). -/
theorem Extends.drive_cut (h : p.Extends base more q) (hpos : 0 < p.blockBytes) :
    ∃ rest, p.drive.2.captured.Holds base rest ∧ rest.length + more.length ≤ maxTapeLength
      ∧ ∀ captured : Tape, captured.Holds base (rest ++ more) →
        (p.drive.1 ++ { p.drive.2 with captured }.drive.1).map Event.fate?
            = q.drive.1.map Event.fate?
          ∧ { p.drive.2 with captured }.drive.2.Extends base [] q.drive.2 := by
  obtain ⟨hsize, bytes, hp, hq⟩ :
      q.blockBytes = p.blockBytes ∧ ∃ bytes, p.captured.Holds base bytes
        ∧ q.captured.Holds base (bytes ++ more) := by
    obtain ⟨tape, bytes, rfl, hp, hq⟩ := h
    exact ⟨rfl, bytes, hp, hq⟩
  obtain ⟨hfirst, -⟩ := path_drive hpos hp
  obtain ⟨first', middle, hfirst', hfates, hmiddle⟩ := h.path hfirst
  have hpos' : 0 < p.drive.2.blockBytes := (hfirst.captured hp).1 ▸ hpos
  obtain ⟨tape, rest, rfl, hrest, hrest'⟩ := hmiddle
  refine ⟨rest, hrest, List.length_append ▸ hrest'.fits, fun captured hcaptured => ?_⟩
  -- With that audio, the one is where the other has come to.
  have hagain : { p.drive.2 with captured }.Extends base [] { p.drive.2 with captured := tape } :=
    ⟨tape, _, rfl, hcaptured, by rwa [List.append_nil]⟩
  obtain ⟨hsecond, hend⟩ := path_drive (p := { p.drive.2 with captured }) hpos' hcaptured
  obtain ⟨second', last', hsecond', hfates', hlast⟩ := hagain.path hsecond
  have hend' : last'.step? = none := by
    cases hstep : last'.step? with
    | none => rfl
    | some result =>
        obtain ⟨_, _, hmore, -⟩ := hlast.symm.step? hstep
        cases hend.symm.trans hmore
  rw [(hfirst'.trans hsecond').drive_eq hend' (hsize ▸ hpos) hq]
  refine ⟨?_, hlast⟩
  rw [List.map_append, List.map_append, hfates, hfates']

end Pairing

/-! ### Dumps of the same audio -/

/-- Two dump files were written alike: the blocks of a `recording` have the same
bytes, however they are stored. -/
inductive DumpFile.Alike : DumpFile → DumpFile → Prop where
  | missing : Alike .missing .missing
  | recording {blocks blocks' : List Block} (room? : Option Nat)
      (h : blocks.map Block.toList = blocks'.map Block.toList) :
      Alike (.recording blocks room?) (.recording blocks' room?)
  | abandoned (written : Nat) : Alike (.abandoned written) (.abandoned written)

namespace DumpFile

variable {f g : DumpFile}

/-- Every dump file was written like itself: `Alike` is reflexive. -/
theorem Alike.refl (f : DumpFile) : f.Alike f := by
  cases f with
  | missing => exact .missing
  | recording blocks room? => exact .recording room? rfl
  | abandoned written => exact .abandoned written

/-- Blocks with the same bytes are of one `totalSize`. -/
theorem totalSize_eq {blocks blocks' : List Block}
    (h : blocks.map Block.toList = blocks'.map Block.toList) :
    totalSize blocks = totalSize blocks' := by
  have hsizes : ∀ blocks : List Block, totalSize blocks
      = (blocks.map Block.toList).foldl (fun size bytes => size + bytes.length) 0 := by
    intro blocks
    simp only [totalSize, List.foldl_map, Block.length_toList]
  rw [hsizes, hsizes, h]

/-- Files stay alike when the same bytes are written to them (`DumpFile.write`),
also where there is a limit. -/
theorem Alike.write (h : f.Alike g) {a b : Block} (hbytes : a.toList = b.toList) :
    (f.write a).Alike (g.write b) := by
  cases h with
  | missing => exact .missing
  | abandoned written => exact .abandoned written
  | @recording blocks blocks' room? h =>
      have hcons : (a :: blocks).map Block.toList = (b :: blocks').map Block.toList := by
        rw [List.map_cons, List.map_cons, hbytes, h]
      cases room? with
      | none => exact .recording none hcons
      | some room =>
          simp only [DumpFile.write, Block.size_eq hbytes]
          split
          · exact .recording _ hcons
          · rw [totalSize_eq h]
            exact .abandoned _

/-- Files that are alike hold the same, and as much was written to them. So the
two files show the same `contents?` to whoever reads them, though one may have
taken its bytes in more blocks. -/
theorem Alike.contents_eq (h : f.Alike g) :
    f.contents? = g.contents? ∧ f.bytesWritten = g.bytesWritten := by
  cases h with
  | missing => exact ⟨rfl, rfl⟩
  | abandoned written => exact ⟨rfl, rfl⟩
  | recording room? h =>
      refine ⟨?_, totalSize_eq h⟩
      have hbytes : ∀ blocks : List Block,
          blocks.reverse.foldl (fun bytes block => bytes ++ block.bytes) ByteArray.empty
            = (blocks.map Block.toList).reverse.foldl (fun bytes list => bytes ++ bytesOfList list)
                ByteArray.empty := by
        intro blocks
        rw [← List.map_reverse, List.foldl_map]
        simp only [bytesOfList_toList]
      simp only [contents?, hbytes, h]

end DumpFile

namespace Dumps

/-- What each file of the dumps holds (`contents?`), and how much was written to
it. -/
def contents (d : Dumps) : List (Option ByteArray × Nat) :=
  d.files.map fun file => (file.contents?, file.bytesWritten)

/-- The files of two dumps were written alike, each `DumpFile.Alike`. -/
structure Alike (d d' : Dumps) : Prop where
  captured : d.captured.Alike d'.captured
  played : d.played.Alike d'.played
  cleaned : d.cleaned.Alike d'.cleaned

/-- Dumps are `Alike` to themselves. -/
theorem Alike.refl (d : Dumps) : d.Alike d := ⟨.refl _, .refl _, .refl _⟩

/-- Dumps that are `Alike` hold the same in all three files. -/
theorem Alike.contents_eq {d d' : Dumps} (h : d.Alike d') : d.contents = d'.contents := by
  simp only [contents, files, List.map_cons, List.map_nil, h.captured.contents_eq,
    h.played.contents_eq, h.cleaned.contents_eq]

/-- An event of the same fate is written down alike, for only runs of the
canceller are. By `Event.fate?` an event of the one side is known from one of
the other, up to the block that its bytes lie in. -/
theorem Alike.record {d d' : Dumps} (h : d.Alike d') {event event' : Event}
    (hfate : event.fate? = event'.fate?) : (d.record event).Alike (d'.record event') := by
  -- Only runs of the canceller are written down.
  cases event with
  | cancelled captured played cleaned =>
      cases event' with
      | cancelled captured' played' cleaned' =>
          simp only [Event.fate?, Option.some.injEq, Fate.cancelled.injEq] at hfate
          obtain ⟨hcaptured, hplayed, hcleaned⟩ := hfate
          exact ⟨h.captured.write hcaptured, h.played.write hplayed, h.cleaned.write hcleaned⟩
      | _ => cases hfate
  | _ =>
      cases event' with
      | cancelled captured' played' cleaned' => cases hfate
      | _ => exact h

/-- Events of the same fates (`Event.fate?`) are written down alike by
`Dumps.record`. -/
theorem alike_foldl_record {events events' : List Event}
    (h : events.map Event.fate? = events'.map Event.fate?) {d d' : Dumps} (hd : d.Alike d') :
    (events.foldl Dumps.record d).Alike (events'.foldl Dumps.record d') := by
  induction events generalizing events' d d' with
  | nil =>
      rw [List.map_eq_nil_iff.mp h.symm]
      exact hd
  | cons event events ih =>
      cases events' with
      | nil => cases h
      | cons event' events' =>
          obtain ⟨hfate, hrest⟩ := List.cons.inj h
          exact ih hrest (hd.record hfate)

end Dumps

/-! ### Capture ticks without messages -/

/-- Counters that are changed twice by `count` are changed once, by both changes
in order. -/
theorem Link.count_count (l : Link) (f g : Counters → Counters) :
    (l.count f).count g = l.count fun counters => g (f counters) := rfl

namespace Capture

variable {κ : Type} {c : Capture κ} {base : Nat} {bytes : List UInt8}

/-- Whole frames (`hframes`) for which there is room (`hroom`) are put behind
what lies unread, and nothing else of the side changes. -/
theorem accept_of_fits (hcaptured : c.pairing.captured.Holds base bytes) {block : Block}
    (hframes : block.size % base = 0) (hroom : bytes.length + block.size ≤ maxTapeLength) :
    ∃ captured, c.accept block = { c with pairing := { c.pairing with captured } }
      ∧ captured.Holds base (bytes ++ block.toList) := by
  obtain ⟨captured, happend, hholds⟩ := hcaptured.append hframes hroom
  refine ⟨captured, ?_, hholds⟩
  unfold accept
  rw [happend]

end Capture

namespace Session

variable {κ υ : Type} [Canceller κ] [Producer υ] {s : Session κ υ} {c : Capture κ}

omit [Producer υ] in
/-- Without messages (`Idle`), a capture tick takes the audio in and works it
off. The side first goes back to work if it is to. -/
theorem Idle.push (h : s.Idle) (hc : s.capture? = some c) (hlinked : s.link.linked = true)
    (block : Block) :
    let taken := (c.resume s.link).1.accept block
    (s.push block).1 = taken.pairing.drive.1
      ∧ (s.push block).2.capture? = some { taken with pairing := taken.pairing.drive.2 }
      ∧ (s.push block).2.link
        = ((c.resume s.link).2.count fun counters =>
            taken.pairing.drive.1.foldl Counters.record counters)
      ∧ (s.push block).2.dumps?
        = s.dumps?.map (fun dumps => taken.pairing.drive.1.foldl Dumps.record dumps)
      ∧ (s.push block).2.Idle := by
  obtain ⟨hcontrol, hcontrol'⟩ := Mailbox.drain_of_nil h.control s.drainLimit
  obtain ⟨hdata, hdata'⟩ := Mailbox.drain_of_nil h.data s.drainLimit
  have hattend : s.attend c = (c, s.link) := by
    rw [attend_eq, hcontrol, hdata]
    rfl
  have hleft : (s.push block).2.Idle := by
    simp only [Session.push, hc, hlinked, Bool.not_true, Bool.false_eq_true, if_false]
    exact ⟨hcontrol', hdata'⟩
  obtain ⟨hevents, hcapture, hlink, hdumps, -⟩ := push_attend hc hlinked block
  rw [hattend] at hevents hcapture hlink hdumps
  exact ⟨hevents, hcapture, hlink, hdumps, hleft⟩

/-- Two sessions have done the same with the audio behind them, and have the
same audio before them. How it is cut into blocks, and where it is stored, may
differ. -/
structure SameAudio (s t : Session κ υ) : Prop where
  link_eq : s.link = t.link
  dumps_eq : s.dumps?.map Dumps.contents = t.dumps?.map Dumps.contents
  capture : ∃ c c', s.capture? = some c ∧ t.capture? = some c'
    ∧ c.pairing.captured.unread = c'.pairing.captured.unread
    ∧ c.pairing.played = c'.pairing.played ∧ c.pairing.skip = c'.pairing.skip
    ∧ c.pairing.canceller = c'.pairing.canceller ∧ c.received = c'.received
    ∧ c.suspended = c'.suspended ∧ c.resuming = c'.resuming

omit [Producer υ] in
/-- A block of captured audio that is cut in two does what the whole does
(`whole.toList` is that of `a` and then that of `b`), with the same fates in the
same order. -/
theorem Idle.push_push (h : s.Idle) (hc : s.capture? = some c) (hlinked : s.link.linked = true)
    {size base : Nat} (hpos : 0 < size) (hrecords : c.Records size base) {a b whole : Block}
    (ha : a.size % base = 0) (hb : b.size % base = 0)
    (hroom : c.pairing.captured.length + a.size + b.size ≤ maxTapeLength)
    (hwhole : whole.toList = a.toList ++ b.toList) :
    ∃ fates : List Fate,
      ((s.push a).1 ++ ((s.push a).2.push b).1).map Event.fate? = fates.map some
        ∧ (s.push whole).1.map Event.fate? = fates.map some
        ∧ ((s.push a).2.push b).2.SameAudio (s.push whole).2 := by
  obtain ⟨hsize, bytes, hbytes⟩ := hrecords
  obtain ⟨hpairing, hresuming⟩ := c.resume_cases s.link
  rw [hbytes.length_eq] at hroom
  have hlength : whole.size = a.size + b.size := by
    rw [← Block.length_toList, hwhole, List.length_append, Block.length_toList,
      Block.length_toList]
  have hframes : whole.size % base = 0 := by
    rw [hlength, Nat.add_mod, ha, hb, Nat.add_zero, Nat.zero_mod]
  rw [← hpairing] at hbytes hsize
  -- The side goes back to work in the first tick, if at all.
  generalize hback : (c.resume s.link).1 = back at *
  -- After the first tick, the side is as far as the other one is when it
  -- has come to the end of the first part.
  obtain ⟨tape, haccept, htape⟩ := Capture.accept_of_fits hbytes ha (by omega)
  obtain ⟨tape', haccept', htape'⟩ := Capture.accept_of_fits hbytes hframes (by omega)
  rw [hwhole, ← List.append_assoc] at htape'
  have hpos' : 0 < back.pairing.blockBytes := hsize ▸ hpos
  obtain ⟨rest, hrest, hfits, hcut⟩ := Pairing.Extends.drive_cut
    (p := { back.pairing with captured := tape }) ⟨tape', _, rfl, htape, htape'⟩ hpos'
  obtain ⟨hevents, hcapture, hlink, hdumps, hidle⟩ := h.push hc hlinked a
  obtain ⟨hevents', hcapture', hlink', hdumps', -⟩ := h.push hc hlinked whole
  rw [hback, haccept] at hevents hcapture hlink hdumps
  rw [hback, haccept'] at hevents' hcapture' hlink' hdumps'
  -- The second tick puts the second part behind what is left.
  have hlinked' : (s.push a).2.link.linked = true := by
    rw [hlink]
    exact (c.linked_resume s.link).trans hlinked
  obtain ⟨tape₂, haccept₂, htape₂⟩ := Capture.accept_of_fits
    (c := { back with pairing := { back.pairing with captured := tape }.drive.2 }) hrest hb
    (by rwa [Block.length_toList] at hfits)
  obtain ⟨hevents₂, hcapture₂, hlink₂, hdumps₂, -⟩ := hidle.push hcapture hlinked' b
  simp only [Capture.resume_of_not_resuming (c := { back with pairing :=
    { back.pairing with captured := tape }.drive.2 }) hresuming, haccept₂]
    at hevents₂ hcapture₂ hlink₂ hdumps₂
  obtain ⟨hfates, hsame⟩ := hcut tape₂ htape₂
  obtain ⟨fates, hwholeFates⟩ :=
    (Pairing.path_drive (p := { back.pairing with captured := tape' }) hpos' htape').1.exists_fates
  rw [hevents, hevents₂, hevents']
  refine ⟨fates, hfates.trans hwholeFates, hwholeFates, ?_, ?_, ?_⟩
  · rw [hlink₂, hlink, hlink', Link.count_count]
    refine congrArg (c.resume s.link).2.count (funext fun counters => ?_)
    rw [← List.foldl_append, Capture.foldl_record (hfates.trans hwholeFates),
      Capture.foldl_record hwholeFates]
  · rw [hdumps₂, hdumps, hdumps', Option.map_map, Option.map_map, Option.map_map]
    refine congrArg (s.dumps?.map ·) (funext fun dumps => ?_)
    show Dumps.contents (List.foldl _ (List.foldl _ _ _) _) = _
    rw [← List.foldl_append]
    exact (Dumps.alike_foldl_record hfates (Dumps.Alike.refl dumps)).contents_eq
  · obtain ⟨captured, unread, heq, hunread, hunread'⟩ := hsame
    rw [List.append_nil] at hunread'
    refine ⟨_, _, hcapture₂, hcapture', ?_⟩
    rw [heq]
    exact ⟨hunread.unread_eq.trans hunread'.unread_eq.symm, rfl, rfl, rfl, rfl, rfl, rfl⟩

/-- In every state that a run leads to in which no message waits for a linked
capture side (`Idle`): two blocks of whole frames that come one after the other
do the same as one block with the audio of both, if there is room for it. The
same becomes of the same bytes, in the same order, and the sessions behind it
are `SameAudio`. -/
theorem push_cut (hnew : s.IsNew) (operations : List Operation)
    (hc : (s.run operations).2.capture? = some c)
    (hlinked : (s.run operations).2.link.linked = true) (hidle : (s.run operations).2.Idle)
    {a b whole : Block} (ha : a.size % s.spec.frameSize = 0) (hb : b.size % s.spec.frameSize = 0)
    (hroom : c.pairing.captured.length + a.size + b.size ≤ maxTapeLength)
    (hwhole : whole.toList = a.toList ++ b.toList) :
    let cut := (s.run operations).2.run [.push a, .push b]
    let once := (s.run operations).2.run [.push whole]
    ∃ fates : List Fate, cut.1.map Event.fate? = fates.map some
      ∧ once.1.map Event.fate? = fates.map some ∧ cut.2.SameAudio once.2 := by
  obtain ⟨-, hpos, hrecords⟩ := hnew.recording
  have hrecorded := hrecords.steps (Capture.stable_records _ _ _) (s.steps_any operations)
  simp only [run, perform, List.append_nil]
  exact hidle.push_push hc hlinked hpos (hrecorded c hc) ha hb hroom hwhole

/-- The hypotheses of `push_cut` are met where half a block waits, and the cut
goes through the middle of the next one. -/
theorem push_cut_trial :
    let operations : List Operation := [.render 16, .push (.ofBytes ⟨#[100, 101]⟩)]
    let a := Block.ofBytes ⟨#[102, 103, 104, 105]⟩
    let b := Block.ofBytes ⟨#[106, 107, 108, 109]⟩
    let whole := Block.ofBytes ⟨#[102, 103, 104, 105, 106, 107, 108, 109]⟩
    let t := (trial.run operations).2
    (t.run [.push a, .push b]).1.map Event.fate? = (t.run [.push whole]).1.map Event.fate?
      ∧ (t.run [.push whole]).1.map Event.fate?
        = [some (.cancelled [100, 101, 102, 103] [1, 2, 3, 4] [100, 101, 102, 103]),
          some (.cancelled [104, 105, 106, 107] [5, 6, 7, 8] [104, 105, 106, 107])]
      ∧ (t.run [.push a, .push b]).2.SameAudio (t.run [.push whole]).2 := by
  intro operations a b whole t
  have hidle : t.Idle := ⟨by decide +kernel, by decide +kernel⟩
  have hlength : t.capture?.map (·.pairing.captured.length) = some 2 := by decide +kernel
  obtain ⟨c, hc, hlength⟩ := Option.map_eq_some_iff.mp hlength
  have hwhole : whole.toList = a.toList ++ b.toList := by decide +kernel
  obtain ⟨fates, hcut, honce, hsame⟩ := push_cut isNew_trial operations hc (by decide +kernel)
    hidle (by decide +kernel) (by decide +kernel) (by rw [hlength]; decide +kernel) hwhole
  exact ⟨hcut.trans honce.symm, by decide +kernel, hsame⟩

end Session

end EchoAlign
