import EchoAlign.Proofs.Session.Acts
import EchoAlign.Proofs.Session.Balance
import EchoAlign.Proofs.Session.Visits

/-!
# `EchoAlign.Proofs.Session.Sounding`: the tape of playback in any run

A tape of playback that is only appended to and read is a list of bytes
(`Tape.Holds`). Once its audio is taken up again, more may lie unread than
the tape has room for, since every rewind is bounded by the place where
the read head stands. What is left to say of such a tape is that it is in
order (`Tape.Running`).

* `IsNew.sounding_steps`: in every run, whatever is taken back, the tape of
  playback is in order, as long as no more is rendered than a word can
  count.

The bound is used where playback is taken off the tape. What lies unread is
no more than what was put on (`Capture.Sounds`), and this is no more than
what was rendered and waits no longer (`Session.Sounding`).
-/

set_option autoImplicit false

namespace EchoAlign

/-! ### The tape of playback before a suspension -/

namespace Tape

variable {t : Tape} {base : Nat}

/-- A tape of frames of `base` bytes in order, whose history was never
thrown away. -/
structure Running (base : Nat) (t : Tape) : Prop where
  sound : t.Sound
  heads : t.readHead ≤ t.writeHead
  base_eq : t.base = base
  limit_eq : t.limit = maxTapeLength
  floor_eq : t.floor = 0

/-- A new tape runs in order: nothing was put on it, and its `history` fits a
word. -/
theorem running_create {history : Nat} (hbase : 0 < base) (hh : history ≤ Word.maxSigned) :
    ((create base maxTapeLength).setHistory history).Running base where
  sound := sound_create base maxTapeLength hh
  heads := Int.le_refl _
  base_eq := (holds_create hbase hh).base_eq
  limit_eq := rfl
  floor_eq := rfl

/-- What lies unread lies below the write head, as the read head of a `Running`
tape is not below 0. -/
theorem Running.length_le (h : t.Running base) : (t.length : Int) ≤ t.writeHead := by
  have hread := h.sound.floor_le
  have hheads := h.heads
  rw [h.floor_eq] at hread
  unfold length
  omega

/-- Audio that is put on with `append` moves the write head by its size, and the
tape runs on (`Running`). -/
theorem Running.append (h : t.Running base) {t' : Tape} {block : Block}
    (happend : t.append block = .ok t') :
    t'.Running base ∧ t'.writeHead = t.writeHead + block.size := by
  have hheads := h.heads
  obtain ⟨-, herror⟩ | ⟨-, -, herror⟩ | ⟨-, -, t'', hok, hbase, hlimit, -, hfloor⟩ :=
    t.append_cases block
  · cases happend.symm.trans herror
  · cases happend.symm.trans herror
  · cases happend.symm.trans hok
    obtain ⟨hsound, hread, hwrite, -⟩ := h.sound.clips_append happend
    exact ⟨⟨hsound, by omega, hbase.trans h.base_eq, hlimit.trans h.limit_eq,
      hfloor.trans h.floor_eq⟩, hwrite⟩

/-- Audio that is taken off leaves the write head alone (`hle`), and the tape
runs on. -/
theorem Running.advance (h : t.Running base) {n : Nat} (hn : n ≤ Word.maxSigned)
    (hle : n ≤ t.length) :
    (t.advance n).Running base ∧ (t.advance n).writeHead = t.writeHead := by
  have hheads := h.heads
  obtain ⟨hsound, hread, hwrite, -⟩ := h.sound.advance hn
  unfold length at hle
  refine ⟨⟨hsound, ?_, h.base_eq, h.limit_eq, h.floor_eq⟩, ?_⟩
  · omega
  · omega

/-- Going back with `rewind` leaves the write head alone, and the tape runs on. -/
theorem Running.rewind (h : t.Running base) (n : Nat) :
    (t.rewind n).2.Running base ∧ (t.rewind n).2.writeHead = t.writeHead := by
  have hheads := h.heads
  obtain ⟨hsound, -, hread⟩ := h.sound.rewind n
  refine ⟨⟨hsound, ?_, h.base_eq, h.limit_eq, h.floor_eq⟩, rfl⟩
  show (t.rewind n).2.readHead ≤ t.writeHead
  omega

/-- Audio that is taken back at the write head with `seek` does not move it on,
and the tape runs on. -/
theorem Running.seekBack (h : t.Running base) {n : Nat} (hn : n ≤ Word.maxSigned) :
    (t.seek (-Word.signed n) true).Running base
      ∧ (t.seek (-Word.signed n) true).writeHead ≤ t.writeHead := by
  have hheads := h.heads
  obtain ⟨hsound, hread, -⟩ := h.sound.seek (-Word.signed n) true
  have hwrite : (t.seek (-Word.signed n) true).writeHead
      = min (max (t.writeHead - n) t.readHead) (t.readHead + t.limit) := by
    show min (max (t.writeHead + -Word.signed n) t.readHead) (t.readHead + t.limit) = _
    rw [Word.signed_natCast hn]
    rfl
  refine ⟨⟨hsound, ?_, h.base_eq, h.limit_eq, h.floor_eq⟩, ?_⟩
  · omega
  · omega

/-- A `flush` does not move the write head on, and the tape runs on. -/
theorem Running.flush (h : t.Running base) :
    (t.flush true).Running base ∧ (t.flush true).writeHead ≤ t.writeHead :=
  ⟨⟨h.sound.flush, Int.le_refl _, h.base_eq, h.limit_eq, h.floor_eq⟩, h.heads⟩

end Tape

/-! ### The capture side before a suspension -/

namespace Pairing

variable {κ : Type} [Canceller κ] {p next : Pairing κ} {event : Event} {base : Nat}

/-- A `step?` takes playback off that lies unread, and its event tells which.
The tape runs on, and its write head stays. -/
theorem played_step? (h : p.played.Running base)
    (hword : p.played.writeHead ≤ (Word.maxSigned : Int)) (hstep : p.step? = some (event, next)) :
    next.played.Running base ∧ next.played.writeHead = p.played.writeHead := by
  have hlength := h.length_le
  obtain ⟨-, ⟨-, heq⟩ | ⟨-, hcan, heq⟩ | ⟨-, -, heq⟩⟩ := step?_cases hstep
  · cases heq
    exact ⟨h, rfl⟩
  · cases heq
    have hready := ready_of_canCancel hcan
    exact h.advance (by omega) hready.1
  · cases heq
    exact h.advance (by omega : min p.skip.sink p.played.length ≤ Word.maxSigned) (by omega)

end Pairing

namespace Capture

variable {κ : Type} {c : Capture κ} {base : Nat}

/-- The tape of playback is in order, and no more than `written` bytes were
put on it. -/
structure Sounds (base : Nat) (written : Int) (c : Capture κ) : Prop where
  played : c.pairing.played.Running base
  written_le : c.pairing.played.writeHead ≤ written

variable {written : Int}

/-- What holds of fewer bytes `written` holds of `more`. -/
theorem Sounds.mono (h : c.Sounds base written) {more : Int} (hle : written ≤ more) :
    c.Sounds base more :=
  ⟨h.played, Int.le_trans h.written_le hle⟩

/-- Of the side, only the tape of playback matters to `Sounds`. -/
theorem sounds_of_eq {t : Tape} (hplayed : c.pairing.played = t) (hrunning : t.Running base)
    (hle : t.writeHead ≤ written) : c.Sounds base written :=
  ⟨hplayed ▸ hrunning, hplayed ▸ hle⟩

/-- A rendered block that arrives adds its size at most to what was written. A
suspended side flushes the tape instead, and a block that `Tape.append` refuses
leaves it as it is. -/
theorem Sounds.receive (h : c.Sounds base written) (block : Block) :
    (c.receive block).Sounds base (written + block.size) := by
  have hwritten := h.written_le
  cases hsuspended : c.suspended with
  | true =>
      obtain ⟨hrunning, hle⟩ := h.played.flush
      have hplayed : (c.receive block).pairing.played = c.pairing.played.flush true := by
        simp only [Capture.receive, hsuspended, if_true]
      exact sounds_of_eq hplayed hrunning (by omega)
  | false =>
      cases happend : c.pairing.played.append block with
      | ok played =>
          obtain ⟨hrunning, hwrite⟩ := h.played.append happend
          have hplayed : (c.receive block).pairing.played = played := by
            simp only [Capture.receive, hsuspended, happend, Bool.false_eq_true, if_false]
          exact sounds_of_eq hplayed hrunning (by omega)
      | error e =>
          -- A block that the tape does not take is lost.
          have hplayed : (c.receive block).pairing.played = c.pairing.played := by
            simp only [Capture.receive, hsuspended, happend, Bool.false_eq_true, if_false]
          exact sounds_of_eq hplayed h.played (by omega)

/-- Rendered audio that is taken back adds nothing to what was written. By
`Tape.Running.seekBack`, or by a flush on a suspended side. -/
theorem Sounds.takeBack (h : c.Sounds base written) {n : Nat} (hn : n ≤ Word.maxSigned) :
    (c.takeBack n).Sounds base written := by
  have hwritten := h.written_le
  cases hsuspended : c.suspended with
  | true =>
      obtain ⟨hrunning, hle⟩ := h.played.flush
      have hplayed : (c.takeBack n).pairing.played = c.pairing.played.flush true := by
        simp only [Capture.takeBack, hsuspended, if_true]
      exact sounds_of_eq hplayed hrunning (by omega)
  | false =>
      obtain ⟨hrunning, hle⟩ := h.played.seekBack hn
      have hplayed : (c.takeBack n).pairing.played
          = c.pairing.played.seek (-Word.signed n) true := by
        simp only [Capture.takeBack, hsuspended, Bool.false_eq_true, if_false]
      exact sounds_of_eq hplayed hrunning (by omega)

/-- A message puts no more on the tape than the block it brings, as its
`postedBytes` tell. -/
theorem Sounds.handle (h : c.Sounds base written) (link : Link) {message : CaptureMessage}
    (hword : ∀ n, message = .rewound n → n ≤ Word.maxSigned) :
    (c.handle link message).1.Sounds base (written + postedBytes [message]) := by
  have hsame : c.Sounds base (written + (0 : Nat)) := h.mono (by omega)
  cases message with
  | rendered block => exact h.receive block
  | rewound n => exact (h.takeBack (hword n rfl)).mono (by omega)
  | timingRequest ticket => exact hsame
  | correct usec => exact ⟨hsame.played, hsame.written_le⟩
  | playbackTiming epoch timing =>
      show (c.resync link epoch timing).1.Sounds base (written + (0 : Nat))
      unfold resync
      split
      · exact hsame
      · exact ⟨hsame.played, hsame.written_le⟩
  | device state =>
      cases state with
      | suspended =>
          obtain ⟨hrunning, hle⟩ := hsame.played.flush
          exact ⟨hrunning, Int.le_trans hle hsame.written_le⟩
      | running =>
          show (c.follow .running).Sounds base (written + (0 : Nat))
          simp only [follow]
          split
          · exact ⟨hsame.played, hsame.written_le⟩
          · exact hsame

/-- Captured audio that comes in with `accept` leaves the tape of playback
alone. -/
theorem Sounds.accept (h : c.Sounds base written) (block : Block) :
    (c.accept block).Sounds base written := by
  unfold Capture.accept
  split
  · exact ⟨h.played, h.written_le⟩
  · exact h

end Capture

/-! ### What is rendered is more than what is written -/

/-- The bytes an event hands to the playback device, in `Event.rendered`. -/
def Event.renderedBytes : Event → Nat
  | rendered block => block.size
  | _ => 0

/-- The bytes that events hand to the playback device (`Event.renderedBytes`),
as a sum over all of them. -/
def renderedBytesOf (events : List Event) : Nat := Event.total Event.renderedBytes events

/-- The bytes of events in two parts are those of the first and of the second,
by `total_append`. -/
theorem renderedBytesOf_append (first rest : List Event) :
    renderedBytesOf (first ++ rest) = renderedBytesOf first + renderedBytesOf rest :=
  Event.total_append ..

/-- What is posted first counts beside the rest, as `postedBytes` is a sum. -/
theorem postedBytes_cons (message : CaptureMessage) (rest : List CaptureMessage) :
    postedBytes (message :: rest) = postedBytes [message] + postedBytes rest := by
  cases message with
  | rendered block => rfl
  | _ => exact (Nat.zero_add _).symm

/-- What is posted in two parts counts as that of the first and of the second,
as `postedBytes` is a sum. -/
theorem postedBytes_append (first rest : List CaptureMessage) :
    postedBytes (first ++ rest) = postedBytes first + postedBytes rest := by
  induction first with
  | nil => exact (Nat.zero_add _).symm
  | cons message first ih =>
      rw [List.cons_append, postedBytes_cons, ih, postedBytes_cons message first, Nat.add_assoc]

namespace Session

variable {κ υ : Type} [Canceller κ] [Producer υ] {allowed : Operation → Prop} {s t : Session κ υ}
  {entries : List Entry}

/-- The tape of playback is in order (`Sounds`). What was put on it was
rendered, and waits no longer: the write head is no further than the rendered
bytes less those in the data mailbox. -/
def Sounding (base : Nat) (s : Session κ υ) (events : List Event) : Prop :=
  s.CaptureIs
    (Capture.Sounds base ((renderedBytesOf events : Int) - postedBytes s.data.items))

variable {base : Nat} {events : List Event}

/-- The tape stays in order, while no more is rendered than a word can count
(`hbytes`). `hbalanced` says what the mailbox holds. -/
theorem Sounding.step (h : s.Sounding base events) (hbalanced : s.Balanced)
    (hstep : Step allowed s entries t)
    (hbytes : renderedBytesOf (events ++ entries.filterMap Entry.event?) ≤ Word.maxSigned) :
    t.Sounding base (events ++ entries.filterMap Entry.event?) := by
  intro c' hc'
  have hmore := renderedBytesOf_append events (entries.filterMap Entry.event?)
  -- What is known of the tape may be forgotten in part.
  have hsame : t.capture? = s.capture? →
      (renderedBytesOf events : Int) - postedBytes s.data.items
        ≤ renderedBytesOf (events ++ entries.filterMap Entry.event?)
          - postedBytes t.data.items →
      Capture.Sounds base (renderedBytesOf (events ++ entries.filterMap Entry.event?)
        - postedBytes t.data.items) c' :=
    fun hsame hle => (h c' (hsame.symm.trans hc')).mono hle
  cases hstep.act with
  | quiet hevents hc hdata =>
      rw [hdata] at hsame ⊢
      exact hsame hc (by omega)
  | @control c message hc hmessage hentries hnext hdata =>
      cases hc'.symm.trans hnext
      have hdataless := hbalanced.control _ hmessage
      have hword : ∀ n, message = .rewound n → n ≤ Word.maxSigned := by
        intro n hn
        rw [hn] at hdataless
        cases hdataless
      have hnone : postedBytes [message] = 0 := by
        cases message <;> first | rfl | cases hdataless
      rw [hdata]
      exact ((h _ hc).handle s.link hword).mono (by omega)
  | @data c message hc hentries hnext hdata =>
      cases hc'.symm.trans hnext
      have hword : ∀ n, message = .rewound n → n ≤ Word.maxSigned := by
        intro n hn
        refine hbalanced.word n ?_
        rw [hdata, hn]
        exact List.mem_cons_self
      have hposted := postedBytes_cons message t.data.items
      rw [← hdata] at hposted
      exact ((h _ hc).handle s.link hword).mono (by omega)
  | resume hc ha hentries hnext hdata =>
      cases hc'.symm.trans hnext
      rw [hdata]
      obtain ⟨hplayed, hwritten⟩ := h _ hc
      exact ⟨hplayed, Int.le_trans hwritten (by omega)⟩
  | accept hc ha hentries hnext hdata =>
      cases hc'.symm.trans hnext
      rw [hdata]
      exact ((h _ hc).accept _).mono (by omega)
  | @pair c event pairing hc hpair hentries hnext hdata =>
      cases hc'.symm.trans hnext
      -- This is where the bound comes in: only so many bytes can be taken off.
      obtain ⟨hplayed, hwritten⟩ := h _ hc
      obtain ⟨hrunning, hwrite⟩ := Pairing.played_step? hplayed (by omega) hpair
      rw [hdata]
      refine ⟨hrunning, ?_⟩
      show pairing.played.writeHead ≤ _
      omega
  | @rewind c n hc ha hentries hnext hdata =>
      cases hc'.symm.trans hnext
      obtain ⟨hplayed, hwritten⟩ := h _ hc
      obtain ⟨hrunning, hwrite⟩ := hplayed.rewind n
      rw [hdata]
      refine ⟨hrunning, ?_⟩
      show (c.pairing.played.rewind n).2.writeHead ≤ _
      omega
  | correct hc ha hentries hnext hdata =>
      cases hc'.symm.trans hnext
      rw [hdata]
      obtain ⟨hplayed, hwritten⟩ := h _ hc
      exact ⟨hplayed, Int.le_trans hwritten (by omega)⟩
  | @post message hevents hword hc hdata =>
      -- What is rendered waits, or is lost.
      refine hsame hc ?_
      rw [hdata]
      have hposted : postedBytes [message]
          = renderedBytesOf (entries.filterMap Entry.event?) := by
        rw [hevents]
        cases message <;> rfl
      split
      · rw [postedBytes_append]
        omega
      · omega
  | idle hentries hc hdata =>
      rw [hdata] at hsame ⊢
      exact hsame hc (by omega)
  | drop hentries hnext hdata => cases hc'.symm.trans hnext

/-- The tape of playback is in order at any point between any two steps of a new
session. By induction on `Steps` with `Sounding.step`, which needs the
`Balanced` mailbox of a new session. -/
theorem IsNew.sounding_steps (h : s.IsNew) (hsteps : Steps FitsWord s entries t)
    (hbytes : renderedBytesOf (entries.filterMap Entry.event?) ≤ Word.maxSigned) :
    t.Sounding s.spec.frameSize (entries.filterMap Entry.event?) := by
  induction hsteps with
  | refl =>
      obtain ⟨spec, capacity, canceller, producer, link, dumps?, rfl, ⟨_, _, _, _, rfl⟩, hspec,
        hrate, -, -⟩ := h.opened
      intro c hc
      cases hc
      exact ⟨Tape.running_create (StreamSpec.frameSize_pos hspec)
        (StreamSpec.bytesPerSecond_le hspec hrate), Int.le_refl _⟩
  | @tail t u before entries hsteps hstep ih =>
      rw [List.filterMap_append] at hbytes ⊢
      have hfewer := renderedBytesOf_append (before.filterMap Entry.event?)
        (entries.filterMap Entry.event?)
      exact (ih (by omega)).step (h.balanced_steps hsteps).1 hstep hbytes

end Session

end EchoAlign
