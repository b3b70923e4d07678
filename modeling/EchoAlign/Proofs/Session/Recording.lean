import EchoAlign.Proofs.Session.Calls
import EchoAlign.Proofs.Session.Parallel
import EchoAlign.Proofs.Session.Teardown

/-!
# `EchoAlign.Proofs.Session.Recording`: what the dumps of a session hold

With dumps, the three streams of the canceller are written to files. A file may
be missing, or may take only so many bytes before a write fails.

* `run_withDumps`: a session with dumps does what it does without them, and its
  dumps are made from its trace alone.
* `Dumps.file_foldl_record`: each file is written on its own, so that
  what becomes of it does not depend on the others.
* `dumps_hold_calls`: the files hold what the canceller was given and what it
  answered. They are to be new when the session is built, and those that a
  session creates are (`Dumps.new_create`).

All that is written to a file comes in blocks of one size. How much room there
is therefore says which write fails.
-/

set_option autoImplicit false

namespace EchoAlign

/-- One of the streams that are recorded, each in a `DumpFile` of its own. -/
inductive Track where
  | captured
  | played
  | cleaned
  deriving DecidableEq

/-- The block an event writes to the file of a `track`: only runs of the
canceller write any. -/
def Event.dumped? (track : Track) : Event → Option Block
  | cancelled captured played cleaned =>
      match track with
      | .captured => some captured
      | .played => some played
      | .cleaned => some cleaned
  | _ => none

/-! ### Files -/

namespace DumpFile

/-- Nothing has been written to the file: it is `missing` or empty. -/
def New (f : DumpFile) : Prop := f = missing ∨ ∃ room?, f = recording [] room?

/-- Whether so many bytes can be written to the file, with regard to its
`room?`. -/
def Takes : DumpFile → Nat → Prop
  | recording _ none, _ => True
  | recording _ (some room), n => n ≤ room
  | missing, _ => False
  | abandoned _, _ => False

/-- A file that is not written any more (`h`) stays as it is, whatever blocks
come. -/
theorem foldl_write_of_closed {f : DumpFile} (h : ∀ block, f.write block = f) (blocks : List Block) :
    blocks.foldl write f = f := by
  induction blocks with
  | nil => rfl
  | cons block rest ih => rw [List.foldl_cons, h block, ih]

/-- A file without limit (`none`) takes all of the blocks. -/
theorem foldl_write_unlimited (done blocks : List Block) :
    blocks.foldl write (recording done none) = recording (blocks.reverse ++ done) none := by
  induction blocks generalizing done with
  | nil => rfl
  | cons block rest ih =>
      rw [List.foldl_cons, write, ih, List.reverse_cons, List.append_assoc, List.singleton_append]

/-- A file with little room takes all of the blocks or is given up: it has
`room` for their bytes, or it is `abandoned`. -/
theorem foldl_write_limited (done blocks : List Block) (room : Nat) :
    ((bytesOfBlocks blocks).length ≤ room
        → ∃ left, blocks.foldl write (recording done (some room))
          = recording (blocks.reverse ++ done) (some left))
      ∧ (room < (bytesOfBlocks blocks).length
        → ∃ written, blocks.foldl write (recording done (some room)) = abandoned written) := by
  induction blocks generalizing done room with
  | nil => exact ⟨fun _ => ⟨room, rfl⟩, fun h => absurd h (Nat.not_lt_zero _)⟩
  | cons block rest ih =>
      have hlength : (bytesOfBlocks (block :: rest)).length
          = block.size + (bytesOfBlocks rest).length := by
        rw [bytesOfBlocks, List.flatMap_cons, List.length_append, Block.length_toList]
        rfl
      obtain ⟨hfits, hfull⟩ := ih (block :: done) (room - block.size)
      rw [hlength, List.foldl_cons, write]
      by_cases hroom : block.size ≤ room
      · rw [if_pos hroom]
        refine ⟨fun h => ?_, fun h => hfull (by omega)⟩
        obtain ⟨left, hleft⟩ := hfits (by omega)
        exact ⟨left, by rw [hleft, List.reverse_cons, List.append_assoc, List.singleton_append]⟩
      · rw [if_neg hroom]
        exact ⟨fun h => absurd h (by omega),
          fun _ => ⟨_, foldl_write_of_closed (fun _ => rfl) rest⟩⟩

/-- A file that takes blocks has their bytes for its contents. They are kept
newest first in `DumpFile.recording`, and the contents turn them round. -/
theorem contents?_recording (blocks : List Block) (room? : Option Nat) :
    (recording blocks.reverse room?).contents? = some (bytesOfList (bytesOfBlocks blocks)) := by
  have hfold : ∀ bytes : ByteArray,
      (blocks.foldl (fun bytes block => bytes ++ block.bytes) bytes).data.toList
        = bytes.data.toList ++ bytesOfBlocks blocks := by
    induction blocks with
    | nil => exact fun bytes => (List.append_nil _).symm
    | cons block rest ih =>
        intro bytes
        rw [List.foldl_cons, ih, toList_append_bytes, List.append_assoc]
        rfl
  rw [contents?, List.reverse_reverse]
  refine congrArg some (ByteArray.ext (Array.ext' ?_))
  exact hfold ByteArray.empty

/-- A file that takes all the blocks holds all of their bytes, and one that does
not is given up and has no contents. For a file that is `missing` neither case
says more than that it has no contents. -/
theorem contents?_foldl_write {f : DumpFile} (hnew : f.New) (blocks : List Block) :
    (f.Takes (bytesOfBlocks blocks).length
        → (blocks.foldl write f).contents? = some (bytesOfList (bytesOfBlocks blocks)))
      ∧ (¬ f.Takes (bytesOfBlocks blocks).length → (blocks.foldl write f).contents? = none) := by
  obtain rfl | ⟨room?, rfl⟩ := hnew
  · refine ⟨False.elim, fun _ => ?_⟩
    rw [foldl_write_of_closed fun _ => rfl]
    rfl
  · cases room? with
    | none =>
        refine ⟨fun _ => ?_, fun h => absurd trivial h⟩
        rw [foldl_write_unlimited, List.append_nil, contents?_recording]
    | some room =>
        obtain ⟨hfits, hfull⟩ := foldl_write_limited [] blocks room
        refine ⟨fun h => ?_, fun h => ?_⟩
        · obtain ⟨left, hleft⟩ := hfits h
          rw [hleft, List.append_nil, contents?_recording]
        · obtain ⟨written, hwritten⟩ := hfull (Nat.lt_of_not_le h)
          rw [hwritten]
          rfl

end DumpFile

/-- All blocks that are written down have the size of those that the canceller
gets, whichever `track` they are on. -/
theorem Calls.length_dumped {κ : Type} [Canceller κ] {size : Nat} {first last : κ}
    {events : List Event} (h : Calls size first events last) (track : Track) :
    (bytesOfBlocks (events.filterMap (Event.dumped? track))).length
      = events.countP Event.isCall * size := by
  induction events generalizing first with
  | nil => exact (Nat.zero_mul size).symm
  | cons event rest ih =>
      cases event with
      | cancelled captured played cleaned =>
          obtain ⟨hcaptured, hplayed, hcleaned, hrest⟩ := h
          have hsize : cleaned.size = size := by
            rw [← size_bytes, hcleaned, Canceller.size_run _ _ _
              (by rw [size_bytes, size_bytes, hcaptured, hplayed]), size_bytes, hcaptured]
          have hblock : ∃ block, Event.dumped? track (.cancelled captured played cleaned) = some block
              ∧ block.size = size := by
            cases track with
            | captured => exact ⟨captured, rfl, hcaptured⟩
            | played => exact ⟨played, rfl, hplayed⟩
            | cleaned => exact ⟨cleaned, rfl, hsize⟩
          obtain ⟨block, hdumped, hlength⟩ := hblock
          rw [List.filterMap_cons_some hdumped, bytesOfBlocks, List.flatMap_cons, List.length_append,
            Block.length_toList, hlength, List.countP_cons_of_pos rfl, Nat.succ_mul, Nat.add_comm]
          exact congrArg (· + size) (ih hrest)
      | _ => exact ih h

namespace Dumps

/-- The file of a stream, by its field in `Dumps`. -/
def file (d : Dumps) : Track → DumpFile
  | .captured => d.captured
  | .played => d.played
  | .cleaned => d.cleaned

/-- Nothing has been written to any file, in the sense of `DumpFile.New`. -/
def New (d : Dumps) : Prop := ∀ track, (d.file track).New

/-- Dumps that have just been created are `New`, whichever files there are in
the folder. -/
theorem new_create (files : FileTree) (folder : String) : (create files folder).1.New := by
  have hcreate : ∀ files path, (DumpFile.create files path).1.New := by
    intro files path
    unfold DumpFile.create
    split
    · exact .inr ⟨none, rfl⟩
    · exact .inl rfl
  intro track
  cases track with
  | captured => exact hcreate _ _
  | played => exact hcreate _ _
  | cleaned => exact hcreate _ _

/-- What becomes of a file depends on what it was, and on the trace: it takes
the blocks that `Event.dumped?` finds for its track. -/
theorem file_foldl_record (d : Dumps) (events : List Event) (track : Track) :
    (events.foldl record d).file track
      = (events.filterMap (Event.dumped? track)).foldl DumpFile.write (d.file track) := by
  induction events generalizing d with
  | nil => rfl
  | cons event rest ih =>
      rw [List.foldl_cons, ih]
      cases event with
      | cancelled captured played cleaned => cases track <;> rfl
      | _ => rfl

/-- Nothing is written where the canceller does not run (`isCall`). -/
theorem foldl_record_of_not_isCall {events : List Event}
    (h : ∀ event ∈ events, event.isCall = false) (d : Dumps) : events.foldl record d = d := by
  induction events with
  | nil => rfl
  | cons event rest ih =>
      obtain ⟨hfirst, hrest⟩ := List.forall_mem_cons.mp h
      rw [List.foldl_cons]
      cases event with
      | cancelled captured played cleaned => cases hfirst
      | _ => exact ih hrest

end Dumps

/-! ### A session with other dumps -/

namespace Session

variable {κ υ : Type} [Canceller κ] [Producer υ] {s : Session κ υ} {dumps? : Option Dumps}

/-- The same session with other dumps, or with none: no field but `dumps?`
changes. -/
def withDumps (s : Session κ υ) (dumps? : Option Dumps) : Session κ υ := { s with dumps? }

omit [Canceller κ] [Producer υ] in
/-- A change that leaves the sides alone (`LeavesSides`) does not look at the
dumps either. -/
theorem LeavesSides.withDumps {change : Session κ υ → Session κ υ} (hchange : LeavesSides change)
    (s : Session κ υ) (dumps? : Option Dumps) :
    change (s.withDumps dumps?) = (change s).withDumps dumps? := by
  have hsame := hchange s s.data s.capture? s.playback? s.dumps?
  have hother := hchange s s.data s.capture? s.playback? dumps?
  exact hother.trans (congrArg (Session.withDumps · dumps?) hsame.symm)

omit [Producer υ] in
/-- A capture tick has nothing to do with the dumps, but that they record its
events with `Dumps.record`. -/
theorem push_withDumps (s : Session κ υ) (dumps? : Option Dumps) (block : Block) :
    (s.withDumps dumps?).push block
      = ((s.push block).1, (s.push block).2.withDumps
          (dumps?.map fun dumps => (s.push block).1.foldl Dumps.record dumps)) := by
  have hnothing : (dumps?.map fun dumps => ([] : List Event).foldl Dumps.record dumps) = dumps? :=
    Option.map_id' ..
  cases hc : s.capture? with
  | none => simp only [push, withDumps, hc, hnothing]
  | some c =>
      simp only [push, withDumps, hc]
      split
      · simp only [hc, hnothing]
      · rfl

/-- Only a capture tick (`push`) runs the canceller. -/
theorem isCall_of_mem_perform {operation : Operation} (h : ¬ ∃ block, operation = .push block)
    {event : Event} (hevent : event ∈ (s.perform operation).1) : event.isCall = false :=
  (Event.of_not_isWorked (isWorked_of_mem_perform (fun block heq => h ⟨block, heq⟩) hevent)).2.2.1

/-- Whatever happens, what is recorded has no part in it: the trace is the same,
and the dumps record it. By cases on the operation. A capture tick is
`push_withDumps`, and the others never look at `dumps?`. -/
theorem perform_withDumps (s : Session κ υ) (dumps? : Option Dumps) (operation : Operation) :
    (s.withDumps dumps?).perform operation
      = ((s.perform operation).1, (s.perform operation).2.withDumps
          (dumps?.map fun dumps => (s.perform operation).1.foldl Dumps.record dumps)) := by
  by_cases hpush : ∃ block, operation = .push block
  · obtain ⟨block, rfl⟩ := hpush
    exact s.push_withDumps dumps? block
  have hnothing : (dumps?.map fun dumps => (s.perform operation).1.foldl Dumps.record dumps)
      = dumps? := by
    simp only [Dumps.foldl_record_of_not_isCall fun _ hevent => isCall_of_mem_perform hpush hevent]
    exact Option.map_id' ..
  rw [hnothing]
  -- None of the others looks at the dumps.
  cases operation with
  | push block => exact absurd ⟨block, rfl⟩ hpush
  | startCheck =>
      dsimp only [perform, startCheck, withDumps]
      split
      · rfl
      · split
        · rfl
        · rfl
  | continueCheck =>
      dsimp only [perform, continueCheck, withDumps]
      split
      · rfl
      · rfl
  | reportDevice direction running =>
      exact congrArg _ ((leavesSides_reportDevice direction running).withDumps s dumps?)
  | requestResync => exact congrArg _ (leavesSides_requestResync.withDumps s dumps?)
  | shutdown => exact congrArg _ (leavesSides_shutdown.withDumps s dumps?)
  | dropControl => exact congrArg _ (leavesSides_dropControl.withDumps s dumps?)
  | scheduleRequests readings =>
      exact congrArg _ ((leavesSides_scheduleRequests readings).withDumps s dumps?)
  | setLatency direction latency =>
      exact congrArg _ ((leavesSides_setLatency direction latency).withDumps s dumps?)
  | postCorrection usec =>
      dsimp only [perform, postCorrection, withDumps]
      split
      · rfl
      · rw [postCapture_eq, postCapture_eq]
        rfl
  | inspect asked =>
      obtain ⟨capture, playback⟩ := asked
      cases hc : s.capture? <;> cases hp : s.playback? <;> cases capture <;> cases playback <;>
        simp [perform, inspect, captureTiming, playbackTiming, withDumps, hc, hp]
  | render bytes =>
      cases hp : s.playback? with
      | none => simp only [perform, render, withDumps, hp]
      | some p =>
          simp only [perform, render, withDumps, hp]
          split
          · simp only [hp]
          · rfl
  | rewindPlayback bytes =>
      cases hp : s.playback? with
      | none => simp only [perform, rewindPlayback, withDumps, hp]
      | some p =>
          simp only [perform, rewindPlayback, withDumps, hp]
          split
          · simp only [hp]
          · rfl
  | rewindCapture bytes =>
      cases hc : s.capture? with
      | none => simp only [perform, rewindCapture, withDumps, hc]
      | some c =>
          simp only [perform, rewindCapture, withDumps, hc]
          split
          · simp only [hc]
          · rfl
  | correct usec => cases hc : s.capture? <;> simp only [perform, correct, withDumps, hc]
  | dropCapture => cases hc : s.capture? <;> simp only [perform, dropCapture, withDumps, hc]
  | dropPlayback => cases hp : s.playback? <;> simp only [perform, dropPlayback, withDumps, hp]
  | advanceClock usec => rfl

/-- What is recorded has no part in a run, by induction on the operations with
`perform_withDumps`. -/
theorem run_withDumps (s : Session κ υ) (dumps? : Option Dumps) (operations : List Operation) :
    (s.withDumps dumps?).run operations
      = ((s.run operations).1, (s.run operations).2.withDumps
          (dumps?.map fun dumps => (s.run operations).1.foldl Dumps.record dumps)) := by
  induction operations generalizing s dumps? with
  | nil => exact congrArg (([], s.withDumps ·)) (Option.map_id' ..).symm
  | cons operation rest ih =>
      simp only [run, perform_withDumps, ih, Option.map_map, Function.comp_def, List.foldl_append]

/-- The dumps are made from the trace alone, by `Dumps.record`. -/
theorem dumps?_run (s : Session κ υ) (operations : List Operation) :
    (s.run operations).2.dumps?
      = s.dumps?.map fun dumps => (s.run operations).1.foldl Dumps.record dumps :=
  congrArg (·.2.dumps?) (s.run_withDumps s.dumps? operations)

/-- Once the capture side has gone away, the canceller does not run (`isCall`),
whatever operations come. By induction on the operations, as no operation brings
a side back. -/
theorem isCall_of_gone (h : s.capture? = none) (operations : List Operation) :
    ∀ event ∈ (s.run operations).1, event.isCall = false := by
  induction operations generalizing s with
  | nil => exact fun event hevent => absurd hevent List.not_mem_nil
  | cons operation rest ih =>
      have hgone : (s.perform operation).2.capture? = none := by
        have hsome := isSome_capture?_run s [operation]
        rw [h, Option.isSome_none, Bool.false_and] at hsome
        exact Option.not_isSome_iff_eq_none.mp (Bool.not_eq_true _ ▸ hsome)
      intro event hevent
      rcases List.mem_append.mp hevent with hfirst | hrest
      · by_cases hpush : ∃ block, operation = .push block
        · obtain ⟨block, rfl⟩ := hpush
          have hfirst : event ∈ (s.push block).1 := hfirst
          unfold push at hfirst
          rw [h] at hfirst
          cases hfirst
        · exact isCall_of_mem_perform hpush hfirst
      · exact ih hgone event hrest

/-- From the end of the capture side on, nothing is written. It has no calls to
tell of then, by `isCall_of_gone`. -/
theorem dumps?_run_dropCapture (s : Session κ υ) (operations later : List Operation) :
    (s.run (operations ++ .dropCapture :: later)).2.dumps? = (s.run operations).2.dumps? := by
  have hgone : ((s.run operations).2.perform .dropCapture).2.capture? = none := by
    have hsome := isSome_capture?_run (s.run operations).2 [.dropCapture]
    rw [show [Operation.dropCapture].any Operation.isDropCapture = true from rfl, Bool.not_true,
      Bool.and_false] at hsome
    exact Option.not_isSome_iff_eq_none.mp (Bool.not_eq_true _ ▸ hsome)
  have hdrop : ((s.run operations).2.perform .dropCapture).2.dumps? = (s.run operations).2.dumps? := by
    show (s.run operations).2.dropCapture.2.dumps? = _
    unfold dropCapture
    split
    · rfl
    · rfl
  rw [run_append]
  show (((s.run operations).2.perform .dropCapture).2.run later).2.dumps? = _
  rw [dumps?_run, hdrop]
  simp only [Dumps.foldl_record_of_not_isCall (isCall_of_gone hgone later)]
  exact Option.map_id' ..

omit [Producer υ] in
/-- A session that is to be recorded is set up as it is without the recording
(`saveDumps`), but for its dumps. -/
theorem buildWith_withDumps {settings : Settings} {canceller : κ} {producer : υ} {link : Link}
    {dumps : Dumps} (hsaves : settings.saveDumps = true)
    (hbuild : buildWith settings canceller producer link dumps = .ok s) :
    s.dumps? = some dumps
      ∧ (∃ c, s.capture? = some c ∧ c.pairing.canceller = canceller)
      ∧ ∀ other, buildWith { settings with saveDumps := false } canceller producer link other
          = .ok (s.withDumps none) := by
  obtain ⟨_, hvalid, hassemble⟩ := bind_eq_ok hbuild
  have hvalid' : ({ settings with saveDumps := false } : Settings).validate.mapError
      SessionError.settings = .ok () := hvalid
  unfold assemble at hassemble
  rw [hsaves] at hassemble
  split at hassemble
  · cases hassemble
  · next hframes =>
      cases hassemble
      refine ⟨rfl, ⟨_, rfl, rfl⟩, fun other => ?_⟩
      rw [buildWith, hvalid']
      exact if_neg hframes

/-- In every run of a session that is built with `saveDumps`, all is as it is
without the recording: the trace, and all of the session but its dumps. The
trace tells of all runs of the canceller. After the capture side has gone away,
the file of each `Track` holds its stream of what the canceller was given and
what it answered, if it takes as much (`DumpFile.Takes`). What becomes of a file
does not depend on the other files, and the streams are of the same length. -/
theorem dumps_hold_calls {settings : Settings} {canceller : κ} {producer : υ} {link : Link}
    {dumps : Dumps} (hrate : settings.rate ≤ Settings.maxRate) (hlink : link.IsNew)
    (hsaves : settings.saveDumps = true) (hnew : dumps.New)
    (hbuild : buildWith settings canceller producer link dumps = .ok s) :
    (∀ other, buildWith { settings with saveDumps := false } canceller producer link other
        = .ok (s.withDumps none))
      ∧ ∀ operations later : List Operation,
        let plain := (s.withDumps none).run operations
        plain = ((s.run operations).1, (s.run operations).2.withDumps none)
          ∧ plain.2.Follows s.blockBytes canceller plain.1
          ∧ ∃ files, (s.run (operations ++ .dropCapture :: later)).2.dumps? = some files
            ∧ ∀ track,
              let bytes := bytesOfBlocks (plain.1.filterMap (Event.dumped? track))
              bytes.length = plain.1.countP Event.isCall * s.blockBytes
                ∧ ((dumps.file track).Takes bytes.length
                  → (files.file track).contents? = some (bytesOfList bytes))
                ∧ (¬ (dumps.file track).Takes bytes.length
                  → (files.file track).contents? = none) := by
  obtain ⟨hdumps, ⟨c, hc, rfl⟩, hplain⟩ := buildWith_withDumps hsaves hbuild
  refine ⟨hplain, fun operations later => ?_⟩
  have hsession : s.IsNew :=
    ⟨settings, c.pairing.canceller, producer, link, dumps, hrate, hlink, hbuild⟩
  have hfollows := hsession.follows hc operations
  have ⟨last, hcalls, _⟩ := hfollows
  -- The dumps are a fold over the events, beside a session that does not see them.
  simp only [run_withDumps, Option.map_none]
  refine ⟨trivial, hfollows, (s.run operations).1.foldl Dumps.record dumps, ?_, fun track => ?_⟩
  · rw [dumps?_run_dropCapture, dumps?_run, hdumps]
    rfl
  · rw [Dumps.file_foldl_record]
    exact ⟨hcalls.length_dumped track, DumpFile.contents?_foldl_write (hnew track) _⟩

/-- The hypotheses of `dumps_hold_calls` are met where the canceller runs twice,
and a third block is passed on. The file of played audio is missing, and that of
cleaned audio takes one block only. -/
theorem dumps_hold_calls_trial :
    let settings : Settings :=
      { Settings.standard with rate := 8000, messageCapacity := 4, saveDumps := true }
    let dumps : Dumps := ⟨.fresh, .missing, .recording [] (some 4)⟩
    let operations : List Operation :=
      [.render 8, .push (.ofBytes ⟨#[101, 102, 103, 104, 105, 106, 107, 108, 109, 110, 111, 112]⟩)]
    let s := trial.withDumps (some dumps)
    settings.saveDumps = true ∧ dumps.New
      ∧ trial.run operations
        = ((s.run operations).1, (s.run operations).2.withDumps none)
      ∧ (trial.run operations).1.countP Event.isCall = 2
      ∧ ((trial.run operations).1.filterMap Event.forwarded?).length = 3
      ∧ ∃ files, (s.run (operations ++ [.dropCapture])).2.dumps? = some files
        ∧ files.captured.contents? = some ⟨#[101, 102, 103, 104, 105, 106, 107, 108]⟩
        ∧ files.played.contents? = none
        ∧ files.cleaned.contents? = none := by
  intro settings dumps operations s
  have hnew : dumps.New := by
    intro track
    cases track with
    | captured => exact .inr ⟨none, rfl⟩
    | played => exact .inl rfl
    | cleaned => exact .inr ⟨some 4, rfl⟩
  have hbuild : buildWith settings (⟨2⟩ : NullCanceller)
      (RawSource.ofBlock (.ofBytes ⟨#[1, 2, 3, 4, 5, 6, 7, 8]⟩) true)
      (Link.create (.showing 0) ⟨0, 0⟩ ⟨0, 0⟩) dumps = .ok s := rfl
  obtain ⟨-, hrun⟩ := dumps_hold_calls (by decide) ⟨_, _, _, _, rfl⟩ rfl hnew hbuild
  obtain ⟨hplain, -, files, hfiles, htracks⟩ := hrun operations []
  have hcaptured : bytesOfBlocks ((trial.run operations).1.filterMap (Event.dumped? .captured))
      = [101, 102, 103, 104, 105, 106, 107, 108] := by decide +kernel
  have hcleaned : bytesOfBlocks ((trial.run operations).1.filterMap (Event.dumped? .cleaned))
      = [101, 102, 103, 104, 105, 106, 107, 108] := by decide +kernel
  refine ⟨rfl, hnew, hplain, by decide +kernel, by decide +kernel, files, hfiles, ?_, ?_, ?_⟩
  · have hheld := (htracks .captured).2.1 trivial
    exact hheld.trans (congrArg (fun bytes => some (bytesOfList bytes)) hcaptured)
  · exact (htracks .played).2.2 id
  · refine (htracks .cleaned).2.2 fun htakes => ?_
    have hlength : (bytesOfBlocks ((trial.run operations).1.filterMap
        (Event.dumped? .cleaned))).length ≤ 4 := htakes
    rw [hcleaned] at hlength
    exact absurd hlength (by decide)

end Session

end EchoAlign
