import EchoAlign.Proofs.Session.Leading
import EchoAlign.Proofs.Session.Removal

/-!
# `EchoAlign.Proofs.Session.Past`: the tape remembers what was taken off it

All playback that was ever taken off the tape is its past. It still lies on
the tape, behind the read head, as far back as history is kept.

* `Tape.Remembers` says which bytes the past consists of. Every operation of
  a side at work keeps it, and `Remembers.advance` adds the bytes that it
  takes off.
* `Remembers.rewind`: going back brings the last bytes of the past to lie in
  front of those that lie unread.
* `IsNew.remembering`: in every run in which the consumer takes nothing back,
  the past is what the events of the run took off the tape.

As long as the read head never goes back, history is only let go of where no
rewind can come to. Up to the first rewind, all that is asked for is there.
-/

set_option autoImplicit false

namespace EchoAlign

namespace Tape

variable {t t' : Tape} {base history : Nat} {past : List UInt8}

/-- The bytes of `past` were taken off the tape, from its beginning. Those
that lie in the kept history are still on it. -/
structure Remembers (history : Nat) (past : List UInt8) (t : Tape) : Prop where
  history_eq : t.history = history
  readHead_eq : t.readHead = past.length
  recalls : ∀ (i : Nat) (byte : UInt8), past[i]? = some byte → t.historyFloor ≤ i →
    (Clip.lookup t.clips i).getD 0 = byte

/-- A new tape `Remembers` that nothing was taken off it. -/
theorem remembers_create (base history : Nat) :
    ((create base maxTapeLength).setHistory history).Remembers history [] where
  history_eq := rfl
  readHead_eq := rfl
  recalls i byte hbyte := by simp at hbyte

/-- What happens ahead of the read head does not touch the past: the floor, the
read head and what `lookup` finds before it stay the same. -/
theorem Remembers.congr (h : t.Remembers history past) (hhistory : t'.history = t.history)
    (hfloor : t'.floor = t.floor) (hread : t'.readHead = t.readHead)
    (hlookup : ∀ position < t.readHead,
      Clip.lookup t'.clips position = Clip.lookup t.clips position) :
    t'.Remembers history past := by
  refine ⟨hhistory.trans h.history_eq, hread.trans h.readHead_eq, ?_⟩
  intro i byte hbyte hkept
  have hpast : (i : Int) < t.readHead := by
    have hlt := (List.getElem?_eq_some_iff.mp hbyte).1
    rw [h.readHead_eq]
    omega
  have hsame : t'.historyFloor = t.historyFloor := by
    unfold historyFloor
    rw [hhistory, hfloor, hread]
  rw [hlookup i hpast]
  exact h.recalls i byte hbyte (hsame ▸ hkept)

/-- Audio is put on at the write head, so that the past (`past`) is not touched. -/
theorem Remembers.append (h : t.Remembers history past) (hrunning : t.Running base)
    {block : Block} (happend : t.append block = .ok t') : t'.Remembers history past := by
  have hheads := hrunning.heads
  obtain ⟨-, hread, -, hlookup⟩ := hrunning.sound.clips_append happend
  obtain ⟨-, herror⟩ | ⟨-, -, herror⟩ | ⟨-, -, t'', hok, -, -, hhistory, hfloor⟩ :=
    t.append_cases block
  · cases happend.symm.trans herror
  · cases happend.symm.trans herror
  · cases happend.symm.trans hok
    refine h.congr hhistory hfloor hread fun position hposition => ?_
    rw [hlookup position, Clip.byteAt?_of_lt (show position < t.writeHead by omega), Option.or_none]

/-- The write head stops at the read head when it goes back, so that a `seek`
does not touch the past. -/
theorem Remembers.seek (h : t.Remembers history past) (hsound : t.Sound) (offset : Int) :
    (t.seek offset true).Remembers history past := by
  obtain ⟨-, -, hlookup⟩ := hsound.seek offset true
  have hstays : t.readHead ≤ (t.seek offset true).writeHead := by
    show t.readHead ≤ min (max (t.writeHead + offset) t.readHead) (t.readHead + t.limit)
    omega
  refine h.congr rfl rfl rfl fun position hposition => ?_
  rw [hlookup position, if_neg (by omega)]

/-- A flush moves the write head to the read head, and does not touch the
`past`. -/
theorem Remembers.flush (h : t.Remembers history past) (hsound : t.Sound) :
    (t.flush true).Remembers history past := by
  refine h.congr rfl rfl rfl fun position hposition => ?_
  rw [hsound.lookup_flush, if_neg (by omega)]

/-- What is taken off is remembered with the rest: `advance` moves the read head
over the bytes that `take` found. -/
theorem Remembers.advance (h : t.Remembers history past) (hsound : t.Sound) {n : Nat}
    (hn : n ≤ Word.maxSigned) (hle : n ≤ t.length) :
    (t.advance n).Remembers history (past ++ t.unread.take n) := by
  obtain ⟨-, hread, -, hlookup⟩ := hsound.advance hn
  have hbefore := h.readHead_eq
  have hlength : (t.unread.take n).length = n := by
    rw [List.length_take, length_unread, Nat.min_eq_left hle]
  refine ⟨h.history_eq, ?_, fun i byte hbyte hkept => ?_⟩
  · rw [hread, hbefore, List.length_append, hlength]
    rfl
  · -- History is let go of below what is kept from now on.
    rw [hlookup i hkept]
    rcases Nat.lt_or_ge i past.length with hi | hi
    · rw [List.getElem?_append_left hi] at hbyte
      have hrises : t.historyFloor ≤ (t.advance n).historyFloor := by
        show max t.floor _ ≤ max t.floor ((t.advance n).readHead - _)
        rw [hread]
        show max t.floor (t.readHead - Word.signed t.history)
          ≤ max t.floor (t.readHead + n - Word.signed t.history)
        omega
      exact h.recalls i byte hbyte (Int.le_trans hrises hkept)
    · have hin := (List.getElem?_eq_some_iff.mp hbyte).1
      rw [List.length_append, hlength] at hin
      have hplace : t.readHead + ((i - past.length : Nat) : Int) = i := by omega
      rw [List.getElem?_append_right hi, unread, Clip.take_bytesFrom _ _ hle,
        Clip.getElem?_bytesFrom, if_pos (by omega), hplace] at hbyte
      exact Option.some.inj hbyte

/-- Going back by no more than is kept brings the last bytes of the past in
front of what lies unread. `hkept` compares with the `history` of the tape,
`hle` with the past that there is. -/
theorem Remembers.rewind (h : t.Remembers history past) (hrunning : t.Running base) {n : Nat}
    (hkept : n ≤ history) (hle : n ≤ past.length) :
    (t.rewind n).2.unread = past.drop (past.length - n) ++ t.unread := by
  have hbefore := h.readHead_eq
  have hheads := hrunning.heads
  have hfloor : t.historyFloor = max 0 (t.readHead - history) := by
    unfold historyFloor
    rw [Word.signed_natCast hrunning.sound.history_le, hrunning.floor_eq, h.history_eq]
  have hamount : (t.rewind n).1 = n := by
    show min n (t.readHead - t.historyFloor).toNat = n
    omega
  obtain ⟨-, hclips, hread⟩ := hrunning.sound.rewind n
  rw [hamount] at hread
  have hlength : (t.rewind n).2.length = n + t.length := by
    show (t.writeHead - (t.rewind n).2.readHead).toNat = n + (t.writeHead - t.readHead).toNat
    omega
  have hend : t.readHead - (n : Int) + n = t.readHead := by omega
  rw [unread, hclips, hread, hlength, Clip.bytesFrom_add, hend, unread]
  refine congrArg (· ++ _) (List.ext_getElem? fun i => ?_)
  rw [Clip.getElem?_bytesFrom, List.getElem?_drop]
  by_cases hi : i < n
  · have hin : past.length - n + i < past.length := by omega
    have hplace : t.readHead - (n : Int) + i = ((past.length - n + i : Nat) : Int) := by omega
    rw [if_pos hi, hplace, List.getElem?_eq_getElem hin]
    exact congrArg some (h.recalls _ _ (List.getElem?_eq_getElem hin) (by omega))
  · rw [if_neg hi, List.getElem?_eq_none (by omega)]

end Tape

/-! ### The past in a session -/

/-- The runs of the canceller in two parts of a trace are those of the first and
then of the second, as `pairsOf` picks events out. -/
theorem pairsOf_append (first rest : List Event) :
    pairsOf (first ++ rest) = pairsOf first ++ pairsOf rest :=
  List.filterMap_append

/-- The canceller only runs on captured audio, so that idle events (`isWorked`)
give it nothing. -/
theorem pairsOf_of_idle {events : List Event} (h : ∀ event ∈ events, event.isWorked = false) :
    pairsOf events = [] := by
  refine List.filterMap_eq_nil_iff.mpr fun event hevent => ?_
  have hidle := h event hevent
  cases event with
  | cancelled captured played cleaned => cases hidle
  | _ => rfl

namespace Pairing

variable {κ : Type} [Canceller κ] {p next : Pairing κ} {event : Event} {frame base history : Nat}
  {bytes past : List UInt8}

/-- What a step takes off the tape of playback is remembered with the rest. By
cases on the step: a call and a pass take playback off with `Tape.take`, and
`Remembers.advance` adds it to the past. -/
theorem remembers_step? (h : p.played.Remembers history past) (hplayed : p.played.Running base)
    (hword : p.played.writeHead ≤ (Word.maxSigned : Int)) (hstep : p.step? = some (event, next)) :
    next.played.Remembers history (past ++ usedOf [event]) := by
  have hlength := hplayed.length_le
  have hused : ∀ {n : Nat}, n ≤ p.played.length →
      (p.played.advance n).Remembers history (past ++ ((p.played.peek n).toList ++ [])) := by
    intro n hn
    rw [List.append_nil, hplayed.sound.toList_peek_unread (by omega) hn]
    exact h.advance hplayed.sound (by omega) hn
  obtain ⟨-, ⟨-, hcase⟩ | ⟨-, hcan, hcase⟩ | ⟨-, -, hcase⟩⟩ := step?_cases hstep
  · cases hcase
    show p.played.Remembers history (past ++ [])
    rw [List.append_nil]
    exact h
  · cases hcase
    exact hused (ready_of_canCancel hcan).1
  · cases hcase
    exact hused (Nat.min_le_right _ _)

/-- The canceller is given two blocks of the size that the pairing works with.
Only a call gives it any, and `Pairing.canCancel` has seen to it that there was
a whole block of either. -/
theorem sized_step? (hcaptured : p.captured.Holds frame bytes) (hplayed : p.played.Running base)
    (hword : p.played.writeHead ≤ (Word.maxSigned : Int)) (hstep : p.step? = some (event, next)) :
    ∀ pair ∈ pairsOf [event],
      pair.1.length = p.blockBytes ∧ pair.2.length = p.blockBytes := by
  have hlength := hplayed.length_le
  obtain ⟨hle, ⟨-, hcase⟩ | ⟨-, hcan, hcase⟩ | ⟨-, -, hcase⟩⟩ := step?_cases hstep
  · cases hcase
    exact nofun
  · cases hcase
    obtain ⟨hready, -⟩ := ready_of_canCancel hcan
    rw [hcaptured.length_eq] at hle
    intro pair hpair
    rw [List.mem_singleton.mp hpair, Block.length_toList, Block.length_toList]
    exact ⟨(hcaptured.take hle).1, hplayed.sound.size_peek (by omega)⟩
  · cases hcase
    exact nofun

end Pairing

/-- No message takes anything off the tape, so that the past stays as it is. One
case for each message: audio that arrives, audio that is taken back and a flush
are dealt with by `Remembers.append`, `Remembers.seek` and `Remembers.flush`. -/
theorem Capture.remembers_handle {κ : Type} {c : Capture κ} {base history : Nat}
    {past : List UInt8} (h : c.pairing.played.Remembers history past)
    (hplayed : c.pairing.played.Running base) (link : Link) (message : CaptureMessage) :
    (c.handle link message).1.pairing.played.Remembers history past := by
  cases message with
  | rendered block =>
      show (c.receive block).pairing.played.Remembers history past
      unfold receive
      cases hsuspended : c.suspended with
      | true => exact h.flush hplayed.sound
      | false =>
          cases happend : c.pairing.played.append block with
          | ok played =>
              simp only [Bool.false_eq_true, if_false]
              exact h.append hplayed happend
          | error e => exact h
  | rewound n =>
      show (c.takeBack n).pairing.played.Remembers history past
      unfold takeBack
      cases hsuspended : c.suspended with
      | true => exact h.flush hplayed.sound
      | false => exact h.seek hplayed.sound _
  -- Nothing below is about playback, unless the side is suspended.
  | timingRequest ticket => exact h
  | correct usec => exact h
  | playbackTiming epoch timing =>
      show (c.resync link epoch timing).1.pairing.played.Remembers history past
      unfold resync
      split
      · exact h
      · exact h
  | device state =>
      cases state with
      | suspended => exact h.flush hplayed.sound
      | running =>
          show (c.follow .running).pairing.played.Remembers history past
          simp only [follow]
          split
          · exact h
          · exact h

namespace Session

variable {κ υ : Type} [Canceller κ] [Producer υ] {allowed : Operation → Prop} {s t : Session κ υ}
  {entries : List Entry} {size base history : Nat} {events : List Event}

/-- The tape of playback remembers what these events took off it (`past`). In
all of them that are runs of the canceller, it was given two blocks of `size`
bytes. -/
structure Remembering (size history : Nat) (events : List Event) (s : Session κ υ) : Prop where
  past : s.CaptureIs fun c => c.pairing.played.Remembers history (usedOf events)
  sized : ∀ pair ∈ pairsOf events, pair.1.length = size ∧ pair.2.length = size

/-- A step that takes nothing back (`hback`) adds what it takes off, and keeps
`Remembering`. -/
theorem Remembering.step (h : s.Remembering size history events) (hinOrder : s.InOrder size base)
    (hback : ∀ n, ¬ allowed (.rewindCapture n)) (hstep : Step allowed s entries t) :
    t.Remembering size history (events ++ entries.filterMap Entry.event?) := by
  -- Most steps take nothing off.
  have hidle : (∀ event ∈ entries.filterMap Entry.event?, event.isWorked = false) →
      t.CaptureIs (fun c => c.pairing.played.Remembers history (usedOf events)) →
      t.Remembering size history (events ++ entries.filterMap Entry.event?) := by
    intro hidle hpast
    obtain ⟨-, hused, -, -⟩ := Event.of_idle hidle
    refine ⟨?_, ?_⟩
    · rw [usedOf_append, hused, List.append_nil]
      exact hpast
    · rw [pairsOf_append, pairsOf_of_idle hidle, List.append_nil]
      exact h.sized
  have hsame : t.capture? = s.capture? →
      t.CaptureIs fun c => c.pairing.played.Remembers history (usedOf events) :=
    fun hsame c hc => h.past c (hsame.symm.trans hc)
  have hacts : ∀ {c next : Capture κ}, s.capture? = some c → t.capture? = some next →
      next.pairing.played.Remembers history (usedOf events) →
      t.CaptureIs fun c => c.pairing.played.Remembers history (usedOf events) := by
    intro c next hc hnext hpast c' hc'
    cases hc'.symm.trans hnext
    exact hpast
  have hnothing : entries.filterMap Entry.event? = [] →
      ∀ event ∈ entries.filterMap Entry.event?, event.isWorked = false := by
    intro hnone event hevent
    rw [hnone] at hevent
    cases hevent
  cases hstep.act with
  | quiet hevents hc hdata =>
      refine hidle (fun event hevent => ?_) (hsame hc)
      have hanswer := hevents event hevent
      cases event <;> first | rfl | cases hanswer
  | @control c message hc hmessage hentries hnext hdata =>
      subst hentries
      have hplayed := (hinOrder.sounds c hc).played
      exact hidle (hnothing (Capture.events_handleEntries ..))
        (hacts hc hnext (Capture.remembers_handle (h.past c hc) hplayed s.link message))
  | @data c message hc hentries hnext hdata =>
      subst hentries
      have hplayed := (hinOrder.sounds c hc).played
      exact hidle (hnothing (Capture.events_handleEntries ..))
        (hacts hc hnext (Capture.remembers_handle (h.past c hc) hplayed s.link message))
  | @resume c block hc ha hentries hnext hdata =>
      subst hentries
      exact hidle (hnothing rfl) (hacts hc hnext (h.past c hc))
  | @accept c block hc ha hentries hnext hdata =>
      subst hentries
      refine hidle (hnothing (Capture.events_appendEntries ..)) (hacts hc hnext ?_)
      unfold Capture.accept
      split
      · exact h.past c hc
      · exact h.past c hc
  | @pair c event pairing hc hpair hentries hnext hdata =>
      -- The one step that takes audio off.
      subst hentries
      obtain ⟨bytes, hcaptured⟩ := (hinOrder.records c hc).captured
      have hsize := (hinOrder.records c hc).blockBytes_eq
      obtain ⟨hplayed, hwritten⟩ := hinOrder.sounds c hc
      refine ⟨fun c' hc' => ?_, ?_⟩
      · cases hc'.symm.trans hnext
        rw [usedOf_append]
        exact Pairing.remembers_step? (h.past c hc) hplayed hwritten hpair
      · rw [pairsOf_append]
        intro pair hmem
        rcases List.mem_append.mp hmem with hmem | hmem
        · exact h.sized pair hmem
        · rw [← hsize]
          exact Pairing.sized_step? hcaptured hplayed hwritten hpair pair hmem
  | rewind hc ha hentries hnext hdata => exact absurd ha (hback _)
  | @correct c usec hc ha hentries hnext hdata =>
      subst hentries
      exact hidle (hnothing rfl) (hacts hc hnext (h.past c hc))
  | @post message hevents hword hc hdata =>
      refine hidle (fun event hevent => ?_) (hsame hc)
      rw [hevents] at hevent
      obtain ⟨block, -, rfl⟩ := List.mem_map.mp hevent
      rfl
  | idle hentries hc hdata =>
      subst hentries
      exact hidle (List.forall_mem_singleton.mpr rfl) (hsame hc)
  | drop hentries hnext hdata =>
      subst hentries
      exact hidle (List.forall_mem_singleton.mpr rfl) fun c hc => nomatch hc.symm.trans hnext

/-- In every run of a new session in which nothing is taken back, the tape of
playback remembers all that was taken off it, as long as no more is rendered
than a word can count. By induction on the operations with `Remembering.step`
for the steps of each. -/
theorem IsNew.remembering {new : Session κ υ} (hnew : new.IsNew) {operations : List Operation}
    (hfits : ∀ operation ∈ operations, FitsWord operation)
    (hback : ∀ n, .rewindCapture n ∉ operations)
    (hbytes : renderedBytesOf (new.run operations).1 ≤ Word.maxSigned) :
    (new.run operations).2.Remembering new.blockBytes new.spec.bytesPerSecond
      (new.run operations).1 := by
  have hstart : Steps FitsWord new [] new := .refl new
  have hsteps : Steps (· ∈ operations) new (new.journalOf operations) (new.run operations).2 :=
    new.steps_run fun operation hmem => hmem
  rw [← new.events_journalOf operations] at hbytes ⊢
  refine hnew.steps_induct hstart hfits hsteps hbytes
    (motive := fun t entries => t.Remembering new.blockBytes new.spec.bytesPerSecond
      (entries.filterMap Entry.event?)) ?_ ?_
  · obtain ⟨spec, capacity, canceller, producer, link, dumps?, rfl, -⟩ := hnew.opened
    refine ⟨fun c hc => ?_, nofun⟩
    cases hc
    exact Tape.remembers_create ..
  · intro t u first next hinOrder hremembering hstep _
    rw [List.filterMap_append]
    exact hremembering.step hinOrder hback hstep

end Session

end EchoAlign
