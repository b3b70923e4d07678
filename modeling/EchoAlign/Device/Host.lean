import EchoAlign.Device.Catalog
import EchoAlign.Session.Run

/-!
# `EchoAlign.Device.Host`: running a session on devices

A `HostedSession` is a session whose two sides are handed to device
streams. Each side can be handed over once: a stream that cannot be
opened or started takes its side with it, and so does stopping.

Devices speak in floating-point samples between -1 and 1, and give the
time of each call next to the time at which the samples were captured or
will be heard. The difference is the latency of the device.
-/

set_option autoImplicit false

namespace EchoAlign

/-! ### Samples of devices -/

/-- A device sample, cut to the range from -1 to 1. -/
def clampDeviceSample (x : Float32) : Float32 :=
  if x < -1.0 then -1.0 else if 1.0 < x then 1.0 else x

/-- A device sample as a 16-bit sample, rounded toward zero. -/
def sampleOfDevice (x : Float32) : Int16 := (clampDeviceSample x * 32767.0).toInt16

/-- A 16-bit sample as a device sample. -/
def deviceOfSample (s : Int16) : Float32 := s.toFloat32 / 32768.0

/-- Fills a device buffer. Where there is no sample for it, the buffer
keeps what it held. -/
def fillBuffer : List Float32 → List Int16 → List Float32
  | _ :: buffer, s :: samples => deviceOfSample s :: fillBuffer buffer samples
  | buffer, [] => buffer
  | [], _ => []

/-- The microseconds from one time to a later one, both in nanoseconds,
cut to whole ones. -/
def latencyBetween (first last : Int) : Option Nat :=
  if last < first then none else some ((last - first).toNat / 1000)

/-! ### Streams -/

/-- What a host reports about its streams. -/
inductive HostEvent where
  | inputDisconnected
  | outputDisconnected
  | streamError (reason : String)
  deriving DecidableEq, Repr

/-- What goes wrong with a running stream. -/
inductive StreamFault where
  | deviceGone
  | backend (reason : String)
  deriving DecidableEq, Repr

namespace StreamFault

/-- The report about a fault. -/
def event (direction : Direction) : StreamFault → HostEvent
  | deviceGone =>
      match direction with
      | .input => .inputDisconnected
      | .output => .outputDisconnected
  | backend reason => .streamError (backendFailure reason)

end StreamFault

/-- Where a side of the session is. -/
inductive Custody where
  /-- Not yet handed over. -/
  | waiting
  /-- In a running stream. -/
  | streaming
  /-- Gone with its stream. -/
  | released
  deriving DecidableEq, Repr

/-- A session and the device streams that drive it. -/
structure HostedSession (κ υ : Type) where
  session : Session κ υ
  /-- The format of the device streams. -/
  spec : StreamSpec
  catalog : DeviceCatalog
  capture : Custody
  playback : Custody

namespace HostedSession

variable {κ υ : Type} [Canceller κ] [Producer υ]

/-- Checks that device streams can have a format: they carry 16-bit
samples. -/
def checkSpec (spec : StreamSpec) : Except AudioError Unit :=
  match spec.format with
  | .s16le => .ok ()
  | .f32le => .error (.hostFormat spec.format.label)

/-- A session that no device drives yet. -/
def create (session : Session κ υ) (spec : StreamSpec) (catalog : DeviceCatalog) :
    Except AudioError (HostedSession κ υ) := do
  checkSpec spec
  return ⟨session, spec, catalog, .waiting, .waiting⟩

/-- Opens and starts a stream on a device. -/
def openStream (catalog : DeviceCatalog) (direction : Direction) (name? : Option String) :
    Except AudioError Unit := do
  let device ← catalog.find direction name?
  if device.failsToOpen then throw (.stream (backendFailure "build failed"))
  if device.failsToStart then throw (.stream (backendFailure "play failed"))

/-- Hands the capture side to a device stream. -/
def startCapture (h : HostedSession κ υ) (name? : Option String) :
    Except AudioError Unit × List Event × HostedSession κ υ :=
  match openStream h.catalog .input name? with
  | .ok () => (.ok (), [], { h with capture := .streaming })
  | .error e =>
      let (events, session) := h.session.dropCapture
      (.error e, events, { h with session, capture := .released })

/-- Hands the playback side to a device stream. -/
def startPlayback (h : HostedSession κ υ) (name? : Option String) :
    Except AudioError Unit × HostedSession κ υ :=
  match openStream h.catalog .output name? with
  | .ok () => (.ok (), { h with playback := .streaming })
  | .error e => (.error e, { h with session := h.session.dropPlayback, playback := .released })

/-- Takes over the latency a device call tells, if it tells one. -/
def noteLatency (h : HostedSession κ υ) (direction : Direction) (usec? : Option Nat) :
    HostedSession κ υ :=
  match usec? with
  | none => h
  | some usec =>
      let bytes := match direction with
        | .input => h.session.link.captureLatency.bytes
        | .output => h.session.link.playbackLatency.bytes
      { h with session := h.session.setLatency direction ⟨usec, bytes⟩ }

/-- The capture stream delivers samples. -/
def deliver (h : HostedSession κ υ) (samples : List Float32) (latency? : Option Nat) :
    List Event × HostedSession κ υ :=
  let h := h.noteLatency .input latency?
  let (events, session) := h.session.push (Block.ofSamples (samples.map sampleOfDevice))
  (events, { h with session })

/-- The samples that the playback device gets to hear. -/
def renderedSamples (events : List Event) : List Int16 :=
  events.flatMap fun
    | .rendered block => block.samples
    | _ => []

/-- The playback stream fills a buffer. -/
def fill (h : HostedSession κ υ) (buffer : List Float32) (latency? : Option Nat) :
    List Float32 × List Event × HostedSession κ υ :=
  let h := h.noteLatency .output latency?
  let (events, session) := h.session.render (2 * buffer.length)
  (fillBuffer buffer (renderedSamples events), events, { h with session })

/-- Stops both streams. The sides in them go away. -/
def stop (h : HostedSession κ υ) : List Event × HostedSession κ υ :=
  let (events, h) :=
    if h.capture = .streaming then
      let (events, session) := h.session.dropCapture
      (events, { h with session, capture := .released })
    else ([], h)
  if h.playback = .streaming then
    (events, { h with session := h.session.dropPlayback, playback := .released })
  else (events, h)

/-! ### Runs -/

/-- The sides that are there and not in a stream. -/
def atHand (h : HostedSession κ υ) : Sides :=
  h.session.sides.inter ⟨h.capture == .waiting, h.playback == .waiting⟩

/-- Where the side of a direction is. -/
def custody (h : HostedSession κ υ) : Direction → Custody
  | .input => h.capture
  | .output => h.playback

/-- What is left of an operation when only the sides at hand can be
reached. -/
def reach (h : HostedSession κ υ) (operation : Operation) : Option Operation :=
  match operation with
  | .push _ | .rewindCapture _ | .correct _ | .dropCapture =>
      if h.atHand.capture then some operation else none
  | .render _ | .rewindPlayback _ | .dropPlayback =>
      if h.atHand.playback then some operation else none
  | .inspect asked => some (.inspect (asked.inter h.atHand))
  | other => some other

end HostedSession

/-- One thing that can happen to a session on devices. -/
inductive HostOperation where
  /-- Something happens to the session, apart from the devices. -/
  | session (operation : Operation)
  | startCapture (name? : Option String)
  | startPlayback (name? : Option String)
  /-- The capture stream delivers samples. -/
  | deliver (samples : List Float32) (latency? : Option Nat)
  /-- The playback stream fills a buffer. -/
  | fill (buffer : List Float32) (latency? : Option Nat)
  /-- Something goes wrong with a stream. -/
  | disturb (direction : Direction) (fault : StreamFault)
  | stop

/-- What a host answers. -/
inductive HostAnswer where
  | done
  /-- The side was handed over before, or is gone. -/
  | gone
  /-- A stream runs in this format. -/
  | started (spec : StreamSpec)
  /-- No stream could be started. -/
  | refused (error : AudioError)
  /-- Whether there was a running stream. -/
  | reached (running : Bool)
  /-- The filled buffer. -/
  | filled (buffer : List Float32)
  deriving Repr

namespace HostedSession

variable {κ υ : Type} [Canceller κ] [Producer υ]

/-- The answer to an attempt to start a stream. -/
def startAnswer (h : HostedSession κ υ) : Except AudioError Unit → HostAnswer
  | .ok () => .started h.spec
  | .error e => .refused e

/-- Lets one thing happen. -/
def perform (h : HostedSession κ υ) :
    HostOperation → HostAnswer × List Event × HostedSession κ υ
  | .session operation =>
      match h.reach operation with
      | none => (.done, [], h)
      | some operation =>
          let (events, session) := h.session.perform operation
          (.done, events, { h with session })
  | .startCapture name? =>
      if !h.atHand.capture then (.gone, [], h)
      else
        let (result, events, h) := h.startCapture name?
        (h.startAnswer result, events, h)
  | .startPlayback name? =>
      if !h.atHand.playback then (.gone, [], h)
      else
        let (result, h) := h.startPlayback name?
        (h.startAnswer result, [], h)
  | .deliver samples latency? =>
      if h.capture = .streaming then
        let (events, h) := h.deliver samples latency?
        (.reached true, events, h)
      else (.reached false, [], h)
  | .fill buffer latency? =>
      if h.playback = .streaming then
        let (buffer, events, h) := h.fill buffer latency?
        (.filled buffer, events, h)
      else (.done, [], h)
  | .disturb direction _ => (.reached (h.custody direction = .streaming), [], h)
  | .stop =>
      let (events, h) := h.stop
      (.done, events, h)

/-- What the host reports about an operation: faults of running
streams. -/
def notices (h : HostedSession κ υ) : HostOperation → List HostEvent
  | .disturb direction fault =>
      if h.custody direction = .streaming then [fault.event direction] else []
  | _ => []

end HostedSession

end EchoAlign
