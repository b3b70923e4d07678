import EchoAlign.Align.Counters

/-!
# `EchoAlign.Align.Link`: what all parts of a session share

A session has a control side, a capture side and a playback side. They
meet in a `Link`: the clock, the latency each device reports, the
resync request, the run state of the devices, and the counters.

A resync is asked for with `requestResync`, which also raises the
epoch. Timing carries the epoch it was taken for, so timing from before
the latest request can be told from timing taken after it.

Reading the clock takes a moment in which the control side may ask for
a resync. `Clock.requests` lists the readings during which it does.
-/

set_option autoImplicit false

namespace EchoAlign

/-- The time source of a session. Resyncs that are asked for while a side reads
the clock are given by `requests`. -/
structure Clock where
  /-- The time in microseconds. -/
  now : Nat
  /-- How many readings from now a resync will be asked for: one entry
  for each request to come. -/
  requests : List Nat

namespace Clock

/-- A clock that shows the time `now` and interrupts nobody. -/
def showing (now : Nat) : Clock := ⟨now, []⟩

/-- Whether the next reading brings a request: one of the entries of `requests`
is 1. -/
def interrupts (c : Clock) : Bool := c.requests.contains 1

/-- The clock after one more reading. It shows the same time, and every entry of
`requests` is one reading closer. -/
def afterReading (c : Clock) : Clock :=
  { c with requests := (c.requests.filter (1 < ·)).map (· - 1) }

end Clock

/-- What a device says about its delay: time inside it, and bytes on the way to
or from it. -/
structure DeviceLatency where
  /-- Time inside the device, in microseconds. -/
  usec : Nat
  /-- Bytes between the device and the session. -/
  bytes : Nat
  deriving DecidableEq, Repr

/-- What the parts of a session share: whether it runs, the pending resync with
its `epoch`, the state and latency of the devices, the `counters` and the
`clock`. -/
structure Link where
  /-- Whether the session still runs. -/
  linked : Bool
  /-- Whether a resync is asked for and not yet done. -/
  resyncPending : Bool
  /-- The number of resync requests so far. -/
  epoch : Nat
  /-- Whether the capture device was last reported running. -/
  captureActive : Bool
  /-- Whether the playback device was last reported running. -/
  playbackActive : Bool
  counters : Counters
  clock : Clock
  /-- What the capture device last reported. -/
  captureLatency : DeviceLatency
  /-- What the playback device last reported. -/
  playbackLatency : DeviceLatency
  /-- The microseconds that both devices are taken to have, whatever they
  report. -/
  assumedLatency? : Option Nat

namespace Link

/-- The link of a new session, with no resync pending and both devices taken as
suspended. -/
def create (clock : Clock) (captureLatency playbackLatency : DeviceLatency) : Link :=
  { linked := true
    resyncPending := false
    epoch := 0
    captureActive := false
    playbackActive := false
    counters := Counters.zero
    clock
    captureLatency
    playbackLatency
    assumedLatency? := none }

/-- Asks for a resync against timing taken from now on. Timing of an earlier
`epoch` no longer counts. -/
def requestResync (l : Link) : Link :=
  { l with epoch := l.epoch + 1, resyncPending := true }

/-- Asks again for the resync of the present `epoch`. It serves a request that
came up while the resync of an earlier one was carried out (`Capture.resync`). -/
def rearmResync (l : Link) : Link := { l with resyncPending := true }

/-- Reads the clock, after whatever request (`Clock.interrupts`) falls into the
reading. That request is already part of the link that is returned. -/
def readClock (l : Link) : Nat × Link :=
  let asked := if l.clock.interrupts then l.requestResync else l
  (l.clock.now, { asked with clock := l.clock.afterReading })

/-- What a session goes by where a device reports a latency: `assumedLatency?`
if one is assumed, without any bytes, and else the report. -/
def latencyFrom (l : Link) (reported : DeviceLatency) : DeviceLatency :=
  match l.assumedLatency? with
  | some usec => ⟨usec, 0⟩
  | none => reported

/-- Whether both devices run, as they were last reported. Only then is a drift
check made. -/
def bothActive (l : Link) : Bool := l.captureActive && l.playbackActive

/-- Applies a change to the `counters` and leaves the rest of the link as it is. -/
def count (l : Link) (f : Counters → Counters) : Link := { l with counters := f l.counters }

end Link

end EchoAlign
