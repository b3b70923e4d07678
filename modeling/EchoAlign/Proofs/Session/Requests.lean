import EchoAlign.Proofs.Session.Steps

/-!
# `EchoAlign.Proofs.Session.Requests`: the link keeps account of requests

A journal tells of every request for a resync and of every resync that
is begun. Three fields of the link can be read off it: the epoch is the
number of requests, a resync is pending when the last of these entries is
a request, and the counter is the number of resyncs.

`Link.Follows` says this of the link before and after some entries, and
`Step.follows` shows it for every step.
-/

set_option autoImplicit false

namespace EchoAlign

/-- The number of requests for a resync, each of them an `Entry.requested`. -/
def requestCount (entries : List Entry) : Nat := entries.countP Entry.isRequest

/-- The number of resyncs that were begun, each of them an `Entry.resynced`. -/
def resyncCount (entries : List Entry) : Nat := entries.countP Entry.isResync

/-- Whether a resync is pending after an entry: a request makes it so, and the
start of a resync ends it. Folded over a journal, this is `Link.resyncPending`. -/
def pendingAfter (pending : Bool) : Entry → Bool
  | .requested => true
  | .resynced _ _ => false
  | _ => pending

/-- The requests in two parts are those of the first and of the second, as
`requestCount` counts entries. -/
theorem requestCount_append (first rest : List Entry) :
    requestCount (first ++ rest) = requestCount first + requestCount rest :=
  List.countP_append

/-- The resyncs in two parts are those of the first and of the second, as
`resyncCount` counts entries. -/
theorem resyncCount_append (first rest : List Entry) :
    resyncCount (first ++ rest) = resyncCount first + resyncCount rest :=
  List.countP_append

/-- Adding to a number that was cut back to the word (`unsigned`) is adding to
the number itself, once the sum is cut back. -/
theorem Word.unsigned_add (n m : Nat) : unsigned (unsigned n + m) = unsigned (n + m) := by
  rw [unsigned_eq_mod, unsigned_eq_mod, unsigned_eq_mod, Nat.mod_add_mod]

/-- The entries tell what becomes of the requests on a link: how far the epoch
has gone on, whether a resync is pending, and how many resyncs are counted. -/
structure Link.Follows (before : Link) (entries : List Entry) (after : Link) : Prop where
  epoch_eq : after.epoch = before.epoch + requestCount entries
  pending_eq : after.resyncPending = entries.foldl pendingAfter before.resyncPending
  resyncs_eq : ∀ n, before.counters.resyncs = Word.unsigned n →
    after.counters.resyncs = Word.unsigned (n + resyncCount entries)

namespace Link.Follows

/-- Nothing is to be told where nothing about requests changes: the `epoch`,
`resyncPending` and the count of resyncs. -/
theorem same {l l' : Link} (hepoch : l'.epoch = l.epoch)
    (hpending : l'.resyncPending = l.resyncPending)
    (hresyncs : l'.counters.resyncs = l.counters.resyncs) : l.Follows [] l' :=
  ⟨hepoch, hpending, fun _ hn => hresyncs.trans hn⟩

/-- A link follows no entries (`Follows`) by not changing. -/
theorem refl (l : Link) : l.Follows [] l := same rfl rfl rfl

/-- A link that `Follows` some entries and then others follows all of them. -/
theorem trans {l l' l'' : Link} {first rest : List Entry} (h : l.Follows first l')
    (h' : l'.Follows rest l'') : l.Follows (first ++ rest) l'' := by
  refine ⟨?_, ?_, ?_⟩
  · rw [h'.epoch_eq, h.epoch_eq, requestCount_append, Nat.add_assoc]
  · rw [h'.pending_eq, h.pending_eq, List.foldl_append]
  · intro n hn
    rw [h'.resyncs_eq _ (h.resyncs_eq n hn), resyncCount_append, Nat.add_assoc]

/-- An entry about something else (`isRequest`, `isResync`) tells nothing of
requests, and may be put in front. -/
theorem cons {l l' : Link} {entry : Entry} {entries : List Entry} (h : l.Follows entries l')
    (hrequest : entry.isRequest = false) (hresync : entry.isResync = false) :
    l.Follows (entry :: entries) l' := by
  have hpending : pendingAfter l.resyncPending entry = l.resyncPending := by
    cases entry with
    | requested => cases hrequest
    | resynced epoch timing => cases hresync
    | _ => rfl
  refine ⟨?_, ?_, ?_⟩
  · rw [h.epoch_eq, requestCount, requestCount, List.countP_cons_of_neg (by simp [hrequest])]
  · rw [h.pending_eq, List.foldl_cons, hpending]
  · intro n hn
    rw [h.resyncs_eq n hn, resyncCount, resyncCount, List.countP_cons_of_neg (by simp [hresync])]

/-- Counting something else than resyncs (`hf`) tells nothing of requests. -/
theorem count {l l' : Link} {entries : List Entry} (h : l.Follows entries l')
    {f : Counters → Counters} (hf : ∀ c, (f c).resyncs = c.resyncs) :
    l.Follows entries (l'.count f) :=
  ⟨h.epoch_eq, h.pending_eq, fun n hn => (hf _).trans (h.resyncs_eq n hn)⟩

/-- Asking for a resync follows the entry `requested`. -/
theorem requestResync (l : Link) : l.Follows [.requested] l.requestResync :=
  ⟨rfl, rfl, fun _ hn => hn⟩

/-- Reading the clock follows the request that may come with it, which
`readEntries` tell. -/
theorem readClock (l : Link) : l.Follows l.readEntries l.readClock.2 := by
  unfold Link.readEntries Link.readClock
  cases l.clock.interrupts with
  | true => exact ⟨rfl, rfl, fun _ hn => hn⟩
  | false => exact same rfl rfl rfl

/-- A resync takes the pending request, and asks again at its end if the reading
of the clock brought a request. The request is taken before the clock is read,
so that `resyncPending` is `true` behind it exactly if the reading brought one. -/
theorem rearm {l later : Link}
    (h : { l with resyncPending := false }.Follows l.readEntries later)
    (playback : PlaybackTiming) :
    l.Follows (.resynced l.epoch playback :: l.readEntries)
      (if (later.count (·.addResyncs 1)).epoch != l.epoch then
        (later.count (·.addResyncs 1)).rearmResync
      else later.count (·.addResyncs 1)) := by
  have hepoch : later.epoch = l.epoch + requestCount l.readEntries := h.epoch_eq
  have hpending : later.resyncPending = l.readEntries.foldl pendingAfter false := h.pending_eq
  have hcount : ∀ n, l.counters.resyncs = Word.unsigned n →
      (later.counters.addResyncs 1).resyncs
        = Word.unsigned (n + resyncCount (.resynced l.epoch playback :: l.readEntries)) := by
    intro n hn
    show Word.unsigned (later.counters.resyncs + 1) = _
    rw [h.resyncs_eq n hn, Word.unsigned_add, Nat.add_assoc]
    exact congrArg (fun k => Word.unsigned (n + k)) (List.countP_cons_of_pos rfl).symm
  -- Another epoch means another request, so that asking again changes nothing.
  have hagain : later.epoch ≠ l.epoch → l.readEntries.foldl pendingAfter false = true := by
    unfold Link.readEntries at hepoch ⊢
    split
    · exact fun _ => rfl
    · next hint =>
        rw [if_neg hint] at hepoch
        exact fun hne => absurd hepoch hne
  split
  · next hne => exact ⟨hepoch, (hagain (bne_iff_ne.mp hne)).symm, hcount⟩
  · exact ⟨hepoch, hpending, hcount⟩

end Link.Follows

namespace Capture

variable {κ : Type} (c : Capture κ) (link : Link)

/-- A tape takes no part in the requests: `appendEntries` are refusals at most. -/
theorem follows_append (tape : Tape) (direction : Direction) (block : Block) :
    link.Follows (appendEntries tape direction block) link := by
  unfold appendEntries
  split
  · exact Link.Follows.refl link
  · exact (Link.Follows.refl link).cons rfl rfl

/-- A correction takes no part in the requests: it leaves the `epoch` and
`resyncPending` alone. -/
theorem follows_correct (usec : Int) : link.Follows [] (c.correct link usec).2 := by
  simp only [correct]
  split
  · exact (Link.Follows.refl link).count fun _ => rfl
  · exact Link.Follows.refl link

/-- A resync clears the request it is for. One that comes up while the clock is
read stays, by `Follows.rearm`. -/
theorem follows_resync (epoch : Nat) (playback : PlaybackTiming) :
    link.Follows (c.resyncEntries link epoch playback) (c.resync link epoch playback).2 := by
  unfold resyncEntries resync
  by_cases hskip : (c.suspended || !link.resyncPending || epoch != link.epoch) = true
  · rw [if_pos hskip, if_pos hskip]
    exact Link.Follows.refl link
  · rw [if_neg hskip, if_neg hskip]
    have hepoch : epoch = link.epoch := by
      simp only [Bool.or_eq_true, bne_iff_ne, ne_eq, not_or, Decidable.not_not] at hskip
      exact hskip.2
    subst hepoch
    -- The clock is read after the request is taken.
    have hread := Link.Follows.readClock { link with resyncPending := false }
    have hcorrect := hread.trans (c.follows_correct _
      (offset c.spec playback (c.timing { link with resyncPending := false }).1))
    rw [List.append_nil] at hcorrect
    exact hcorrect.rearm playback

/-- Handling a message follows its entries, one case for each kind of
`CaptureMessage`. -/
theorem follows_handle (message : CaptureMessage) :
    link.Follows (c.handleEntries link message) (c.handle link message).2 := by
  have hfollows : link.Follows (c.handleEntries link message).tail (c.handle link message).2 := by
    cases message with
    | rendered block =>
        show link.Follows (c.receiveEntries block) link
        unfold receiveEntries
        split
        · exact Link.Follows.refl link
        · exact follows_append link _ .output block
    | rewound bytes => exact Link.Follows.refl link
    | timingRequest ticket => exact Link.Follows.readClock link
    | correct usec => exact c.follows_correct link usec
    | playbackTiming epoch timing => exact c.follows_resync link epoch timing
    | device state => exact Link.Follows.refl link
  exact hfollows.cons rfl rfl

end Capture

namespace Playback

variable {υ : Type} (p : Playback υ) (link : Link)

/-- An underrun follows the request that it makes at its end. Whether one ends
is told by `Playback.inUnderrun` and the new `underrun`. -/
theorem follows_noteUnderrun (underrun : Nat) :
    link.Follows (p.noteUnderrunEntries underrun) (p.noteUnderrun link underrun).2 := by
  -- Only the end of an underrun asks for a resync.
  unfold noteUnderrunEntries noteUnderrun
  by_cases hunderrun : 0 < underrun
  · rw [if_neg fun h => Nat.ne_of_gt hunderrun h.1, if_pos hunderrun]
    split
    · exact Link.Follows.refl link
    · exact (Link.Follows.refl link).count (f := (·.addUnderruns 1)) fun _ => rfl
  · rw [if_neg hunderrun]
    cases p.inUnderrun with
    | true =>
        rw [if_pos ⟨Nat.eq_zero_of_not_pos hunderrun, rfl⟩]
        exact Link.Follows.requestResync link
    | false =>
        rw [if_neg fun h => nomatch h.2]
        exact Link.Follows.refl link

/-- Handling a message follows its entries on the playback side, by `readClock`
where it is a question. -/
theorem follows_handle (message : PlaybackMessage) :
    link.Follows (handleEntries link message) (p.handle link message).2 := by
  cases message with
  | timingRequest ticket => exact Link.Follows.readClock link
  | device state =>
      cases state with
      | running => exact Link.Follows.refl link
      | suspended => exact Link.Follows.refl link

end Playback

namespace PlaybackScene

variable {υ : Type} (s : PlaybackScene υ)

/-- A post takes no part in the requests: `sent` and `lost` are neither requests
nor resyncs. -/
theorem follows_post (message : CaptureMessage) :
    s.link.Follows (s.postEntries message) (s.post message).2.link := by
  have hentry : s.link.Follows (s.postEntries message) s.link := by
    unfold postEntries
    split
    · exact (Link.Follows.refl s.link).cons rfl rfl
    · exact (Link.Follows.refl s.link).cons rfl rfl
  unfold post
  simp only
  split
  · exact hentry
  · exact hentry.count fun _ => rfl

/-- Making audio follows the request of an underrun that ends. First the
underrun (`follows_noteUnderrun`), then the post (`follows_post`). -/
theorem follows_play [Producer υ] (n : Nat) :
    s.link.Follows (s.playEntries n) (s.play n).2.link := by
  -- An underrun is noted before the block is posted.
  obtain ⟨rendered, hrendered⟩ : ∃ rendered, rendered = Producer.render s.playback.producer n :=
    ⟨_, rfl⟩
  have hunderrun := { s.playback with producer := rendered.2 }.follows_noteUnderrun s.link
    rendered.1.underrun
  have hpost := follows_post
    { s with
      playback := ({ s.playback with producer := rendered.2 }.noteUnderrun s.link
        rendered.1.underrun).1
      link := ({ s.playback with producer := rendered.2 }.noteUnderrun s.link
        rendered.1.underrun).2 } (.rendered rendered.1.block)
  rw [← link_send] at hpost
  rw [hrendered] at hunderrun hpost
  exact hunderrun.trans (hpost.cons rfl rfl)

/-- Sending timing follows the request that may come up while the clock is read
(`readClock`). -/
theorem follows_sendTiming : s.link.Follows s.sendTimingEntries s.sendTiming.link := by
  cases howes : s.owesTiming with
  | false =>
      obtain ⟨hsame, hnothing⟩ := s.sendTiming_of_not_owesTiming howes
      rw [hsame, hnothing]
      exact Link.Follows.refl s.link
  | true =>
      obtain ⟨-, -, hlink, hentries⟩ := s.sendTiming_of_owesTiming howes
      have hread := Link.Follows.readClock s.link
      have hpost := follows_post { s with link := s.link.readClock.2 }
        (.playbackTiming s.link.epoch s.nextTiming)
      rw [hentries, hlink]
      exact (hread.trans hpost).cons rfl rfl

/-- A rewind takes no part in the requests. Its post is `follows_post`, for the
scene whose producer has gone back. -/
theorem follows_rewind [Producer υ] (n : Nat) :
    s.link.Follows (s.postEntries (.rewound n)) (s.rewind n).link := by
  have hpost := follows_post { s with
    playback := { s.playback with producer := Producer.rewind s.playback.producer n } } (.rewound n)
  have hlink : (s.rewind n).link = ({ s with
      playback := { s.playback with producer := Producer.rewind s.playback.producer n } }.post
        (.rewound n)).2.link := by
    unfold rewind
    simp only
    split
    · rfl
    · rfl
  rw [hlink]
  exact hpost

end PlaybackScene

/-- No event of the trace counts a resync: `record` leaves `resyncs` alone. -/
theorem Counters.resyncs_record (c : Counters) (event : Event) :
    (c.record event).resyncs = c.resyncs := by
  cases event with
  | _ => rfl

namespace Session

variable {κ υ : Type} [Canceller κ] [Producer υ] {allowed : Operation → Prop}

/-- The journal of a step tells what becomes of the requests: the links before
and after are as in `Link.Follows`. -/
theorem Step.follows {s t : Session κ υ} {entries : List Entry}
    (h : Step allowed s entries t) : s.link.Follows entries t.link := by
  -- A single event tells nothing of requests.
  have hevent : ∀ event, s.link.Follows [.event event] s.link :=
    fun event => (Link.Follows.refl s.link).cons rfl rfl
  -- A message that is lost is counted, and that is all.
  have hlost : ∀ (kept : Bool) {link : Link}, s.link.Follows [] link →
      s.link.Follows [] (if kept then link else link.count (·.addPostsDropped 1)) := by
    intro kept link hlink
    split
    · exact hlink
    · exact hlink.count fun _ => rfl
  cases h with
  | request => exact Link.Follows.requestResync s.link
  | read => exact Link.Follows.readClock s.link
  | world clock captureLatency playbackLatency => exact Link.Follows.same rfl rfl rfl
  | unlink ha => exact Link.Follows.same rfl rfl rfl
  | answer event he => exact hevent event
  | reportCapture running ha hnew =>
      rw [postCapture_eq]
      exact hlost _ (Link.Follows.same rfl rfl rfl)
  | reportPlayback running ha hnew =>
      rw [postPlayback_eq]
      exact hlost _ (Link.Follows.same rfl rfl rfl)
  | postCapture message hm =>
      rw [postCapture_eq]
      exact hlost _ (Link.Follows.refl s.link)
  | @handleControl c message rest hc hrest => exact c.follows_handle s.link message
  | @handleData c message rest hc hrest => exact c.follows_handle s.link message
  | @handlePlayback p message rest hp hrest => exact p.follows_handle s.link message
  | resume hc hresuming => exact Link.Follows.requestResync s.link
  | accept block hc ha => exact Capture.follows_append s.link _ .input block
  | @pair c event pairing hc hstep =>
      exact (hevent event).count fun c => c.resyncs_record event
  | rewindCapture n hc ha => exact hevent _
  | @correct c usec hc ha => exact c.follows_correct s.link usec
  | @play p n hp hlinked ha => exact (s.scene p).follows_play n
  | @sendTiming p hp => exact (s.scene p).follows_sendTiming
  | @rewindPlayback p n hp ha => exact (s.scene p).follows_rewind n
  | idle n hp hlinked ha => exact hevent _
  | dropCapture hc ha => exact hevent _
  | _ => exact Link.Follows.refl s.link

/-- So does the journal of any number of steps, by induction on `Steps`. -/
theorem Steps.follows {s t : Session κ υ} {entries : List Entry}
    (h : Steps allowed s entries t) : s.link.Follows entries t.link :=
  h.induct (motive := fun t entries => s.link.Follows entries t.link) (Link.Follows.refl s.link)
    fun _ _ _ _ hfollows hstep => hfollows.trans hstep.follows

end Session

end EchoAlign
