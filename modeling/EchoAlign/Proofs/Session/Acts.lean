import EchoAlign.Proofs.Session.Reference

/-!
# `EchoAlign.Proofs.Session.Acts`: what steps do to the audio

Of all that a step can do, only some bears on the audio of a session: on
the tapes of the capture side, on the messages of the playback side that
wait for it, and on the trace. `Act` lists what that can be, and
`Step.act` says that there is nothing else. An invariant about the audio
is proved by cases on the act.
-/

set_option autoImplicit false

namespace EchoAlign

namespace Session

variable {κ υ : Type} [Canceller κ] [Producer υ]

/-- What a step from `s` to `t` does to the audio. -/
inductive Act (allowed : Operation → Prop) (s : Session κ υ) (entries : List Entry)
    (t : Session κ υ) : Prop where
  /-- Nothing, though the control side may get an answer. -/
  | quiet (hevents : ∀ event ∈ entries.filterMap Entry.event?, event.isAnswer = true)
      (hc' : t.capture? = s.capture?) (hdata : t.data.items = s.data.items)
  /-- The capture side handles a message of the control side. -/
  | control {c : Capture κ} {message : CaptureMessage} (hc : s.capture? = some c)
      (hmessage : message ∈ s.captureControl.items)
      (hentries : entries = c.handleEntries s.link message)
      (hc' : t.capture? = some (c.handle s.link message).1)
      (hdata : t.data.items = s.data.items)
  /-- It handles the next message of the playback side. -/
  | data {c : Capture κ} {message : CaptureMessage} (hc : s.capture? = some c)
      (hentries : entries = c.handleEntries s.link message)
      (hc' : t.capture? = some (c.handle s.link message).1)
      (hdata : s.data.items = message :: t.data.items)
  /-- It goes back to work. -/
  | resume {c : Capture κ} {block : Block} (hc : s.capture? = some c)
      (ha : allowed (.push block)) (hentries : entries = [.requested])
      (hc' : t.capture? = some { c with suspended := false, resuming := false })
      (hdata : t.data.items = s.data.items)
  /-- Captured audio arrives. -/
  | accept {c : Capture κ} {block : Block} (hc : s.capture? = some c) (ha : allowed (.push block))
      (hentries : entries = c.acceptEntries block) (hc' : t.capture? = some (c.accept block))
      (hdata : t.data.items = s.data.items)
  /-- A block of captured audio is worked off. -/
  | pair {c : Capture κ} {event : Event} {pairing : Pairing κ} (hc : s.capture? = some c)
      (hstep : c.pairing.step? = some (event, pairing)) (hentries : entries = [.event event])
      (hc' : t.capture? = some { c with pairing }) (hdata : t.data.items = s.data.items)
  /-- The consumer is going to get bytes again. -/
  | rewind {c : Capture κ} {n : Nat} (hc : s.capture? = some c) (ha : allowed (.rewindCapture n))
      (hentries : entries = [.event (.rewound n)]) (hc' : t.capture? = some (c.rewind n))
      (hdata : t.data.items = s.data.items)
  /-- The streams are realigned at once. -/
  | correct {c : Capture κ} {usec : Int} (hc : s.capture? = some c) (ha : allowed (.correct usec))
      (hentries : entries = []) (hc' : t.capture? = some (c.correct s.link usec).1)
      (hdata : t.data.items = s.data.items)
  /-- The playback side offers a message to the mailbox, behind a block that
  it may have made. -/
  | post {message : CaptureMessage}
      (hevents : entries.filterMap Entry.event? = message.rendered?.toList.map Event.rendered)
      (hword : ∀ n, message = .rewound n → allowed (.rewindPlayback n))
      (hc' : t.capture? = s.capture?)
      (hdata : t.data.items
        = if s.data.hasRoom then s.data.items ++ [message] else s.data.items)
  /-- The playback device gets silence. -/
  | idle {n : Nat} (hentries : entries = [.event (.rendered (Block.silence n))])
      (hc' : t.capture? = s.capture?) (hdata : t.data.items = s.data.items)
  /-- The capture side goes away. -/
  | drop (hentries : entries = [.event .released]) (hc' : t.capture? = none)
      (hdata : t.data.items = [])

variable {allowed : Operation → Prop} {s t : Session κ υ} {entries : List Entry}

/-- Every `Step` does one of the things that `Act` lists. So a proof about the
audio goes by the cases of `Act`, of which there are far fewer. -/
theorem Step.act (h : Step allowed s entries t) : Act allowed s entries t := by
  -- Most steps are not about audio at all.
  have hquiet : entries.filterMap Entry.event? = [] → t.capture? = s.capture? →
      t.data.items = s.data.items → Act allowed s entries t := by
    intro hnothing hc hdata
    refine .quiet ?_ hc hdata
    rw [hnothing]
    exact fun event hevent => absurd hevent List.not_mem_nil
  cases h with
  | read => exact hquiet (events_readEntries s.link) rfl rfl
  | answer event he =>
      refine .quiet (fun event' hevent' => ?_) rfl rfl
      rw [List.mem_singleton.mp hevent']
      exact he
  | reportCapture running ha hnew =>
      rw [postCapture_eq] at hquiet ⊢
      exact hquiet rfl rfl rfl
  | reportPlayback running ha hnew =>
      rw [postPlayback_eq] at hquiet ⊢
      exact hquiet rfl rfl rfl
  | postCapture message hm =>
      rw [postCapture_eq] at hquiet ⊢
      exact hquiet rfl rfl rfl
  | repack hcontrol hdata hplayback => exact hquiet rfl rfl hdata.items.symm
  | @handleControl c message rest hc hrest =>
      refine .control hc ?_ rfl rfl rfl
      rw [hrest.items]
      exact List.mem_cons_self
  | handleData message hc hrest => exact .data hc rfl rfl hrest.items
  | handlePlayback message hp hrest =>
      exact hquiet (Playback.events_handleEntries s.link message) rfl rfl
  | resume hc hresuming ha => exact .resume hc ha rfl rfl rfl
  | accept block hc ha => exact .accept hc ha rfl rfl rfl
  | pair hc hstep => exact .pair hc hstep rfl rfl rfl
  | rewindCapture n hc ha => exact .rewind hc ha rfl rfl rfl
  | correct usec hc ha => exact .correct hc ha rfl rfl rfl
  | @play p n hp hlinked ha =>
      refine .post ?_ ?_ rfl ((s.scene p).items_play n)
      · exact PlaybackScene.events_playEntries (s.scene p) n
      · exact nofun
  | @sendTiming p hp =>
      cases howes : (s.scene p).owesTiming with
      | false =>
          rw [((s.scene p).sendTiming_of_not_owesTiming howes).1] at hquiet ⊢
          exact hquiet (PlaybackScene.events_sendTimingEntries _) rfl rfl
      | true =>
          refine .post ?_ ?_ rfl ((s.scene p).sendTiming_of_owesTiming howes).1
          · exact PlaybackScene.events_sendTimingEntries _
          · exact nofun
  | @rewindPlayback p n hp ha =>
      refine .post ?_ ?_ rfl ((s.scene p).items_rewind n)
      · exact PlaybackScene.events_postEntries _ _
      · intro n' hn'
        cases hn'
        exact ha
  | idle n hp hlinked ha => exact .idle rfl rfl rfl
  | dropCapture hc ha => exact .drop rfl rfl rfl
  | _ => exact hquiet rfl rfl rfl

end Session

/-! ### What the capture side keeps -/

/-- What is said of the capture side stays true whatever it does, while only
`allowed` operations happen. There is one field for each thing that an `Act` can
do to it. -/
structure Capture.Stable {κ : Type} [Canceller κ] (allowed : Operation → Prop)
    (property : Capture κ → Prop) : Prop where
  handle : ∀ (c : Capture κ) (link : Link) (message : CaptureMessage), property c →
    property (c.handle link message).1
  resume : ∀ (c : Capture κ) (block : Block), allowed (.push block) → property c →
    property { c with suspended := false, resuming := false }
  accept : ∀ (c : Capture κ) (block : Block), allowed (.push block) → property c →
    property (c.accept block)
  pair : ∀ (c : Capture κ) (event : Event) (pairing : Pairing κ),
    c.pairing.step? = some (event, pairing) → property c → property { c with pairing }
  rewind : ∀ (c : Capture κ) (n : Nat), allowed (.rewindCapture n) → property c →
    property (c.rewind n)

namespace Session

variable {κ υ : Type} [Canceller κ] [Producer υ] {allowed : Operation → Prop}
  {s t : Session κ υ} {entries : List Entry} {property : Capture κ → Prop}

/-- Where the capture side is there, the `property` is true of it. A session
without one has it in any case. -/
def CaptureIs (property : Capture κ → Prop) (s : Session κ υ) : Prop :=
  ∀ c, s.capture? = some c → property c

/-- A step keeps what is `Stable`: each case of `Act` is one of its fields. -/
theorem CaptureIs.step (h : s.CaptureIs property) (hstable : Capture.Stable allowed property)
    (hstep : Step allowed s entries t) : t.CaptureIs property := by
  intro c' hc'
  cases hstep.act with
  | quiet hevents hsame hdata => exact h c' (hsame.symm.trans hc')
  | control hc hmessage hentries hnext hdata =>
      cases hc'.symm.trans hnext
      exact hstable.handle _ s.link _ (h _ hc)
  | data hc hentries hnext hdata =>
      cases hc'.symm.trans hnext
      exact hstable.handle _ s.link _ (h _ hc)
  | resume hc ha hentries hnext hdata =>
      cases hc'.symm.trans hnext
      exact hstable.resume _ _ ha (h _ hc)
  | accept hc ha hentries hnext hdata =>
      cases hc'.symm.trans hnext
      exact hstable.accept _ _ ha (h _ hc)
  | pair hc hpair hentries hnext hdata =>
      cases hc'.symm.trans hnext
      exact hstable.pair _ _ _ hpair (h _ hc)
  | rewind hc ha hentries hnext hdata =>
      cases hc'.symm.trans hnext
      exact hstable.rewind _ _ ha (h _ hc)
  | @correct c usec hc ha hentries hnext hdata =>
      -- To realign at once is to handle the message.
      cases hc'.symm.trans hnext
      exact hstable.handle c s.link (.correct usec) (h c hc)
  | post hevents hword hsame hdata => exact h c' (hsame.symm.trans hc')
  | idle hentries hsame hdata => exact h c' (hsame.symm.trans hc')
  | drop hentries hnext hdata => cases hc'.symm.trans hnext

/-- Any number of steps keep what is `Stable`. -/
theorem CaptureIs.steps (h : s.CaptureIs property) (hstable : Capture.Stable allowed property)
    (hsteps : Steps allowed s entries t) : t.CaptureIs property :=
  hsteps.induct (motive := fun t _ => t.CaptureIs property) h
    fun _ _ _ _ hbefore hstep => hbefore.step hstable hstep

end Session

end EchoAlign
