import EchoAlign.Audio.Spec

/-!
# `EchoAlign.Device.Catalog`: the devices of a host

A `DeviceCatalog` is what the host system says about its audio devices.
It may be unable to list them, a device may be unable to tell its name
or what it can do, and the host may have no default device; each of
these has its place here.

`DeviceInfo` is what is offered to a user: devices with a name, and of
what they can do the rates worth offering for speech.
-/

set_option autoImplicit false

namespace EchoAlign

/-- The wording of a failure inside the host's audio system. -/
def backendFailure (reason : String) : String :=
  s!"A backend-specific error has occurred: {reason}"

/-- A range of streams that a device can run, from `minRate` to `maxRate` with
up to so many channels. -/
structure DeviceRange where
  minRate : Nat
  maxRate : Nat
  channels : Nat
  deriving DecidableEq, Repr

namespace DeviceRange

/-- Whether a rate lies in the range. -/
def covers (r : DeviceRange) (rate : Nat) : Bool := r.minRate ≤ rate && rate ≤ r.maxRate

end DeviceRange

/-- A device as the host knows it. -/
structure Device where
  /-- The name, if the device can tell it. -/
  name? : Option String
  /-- What the device can do, if it can tell it. -/
  ranges? : Option (List DeviceRange)
  /-- Whether opening a stream on the device fails. -/
  failsToOpen : Bool
  /-- Whether starting an opened stream fails. -/
  failsToStart : Bool
  deriving DecidableEq, Repr

namespace Device

/-- What the device can do, as far as it can tell. -/
def ranges (d : Device) : List DeviceRange := d.ranges?.getD []

end Device

/-- The rates worth offering for speech, in rising order. A `DeviceInfo` lists
those of them that the device covers. -/
def candidateRates : List Nat := [8000, 16000, 32000, 44100, 48000, 96000]

/-- A device as it is offered. -/
structure DeviceInfo where
  /-- The name, which also identifies the device. -/
  name : String
  direction : Direction
  /-- The candidate rates that the device can run. -/
  rates : List Nat
  /-- The largest channel count in any of its ranges. -/
  maxChannels : Nat
  isDefault : Bool
  deriving DecidableEq, Repr

namespace DeviceInfo

/-- Whether the device is taken to run a stream. -/
def supports (d : DeviceInfo) (spec : StreamSpec) : Bool :=
  d.rates.contains spec.rate && spec.channels ≤ d.maxChannels

/-- Puts a rate behind those found so far, if it lies in the range and was not
found before. -/
def addRate (range : DeviceRange) (found : List Nat) (rate : Nat) : List Nat :=
  if range.covers rate && !found.contains rate then found ++ [rate] else found

/-- The rates found so far, and the candidates that lie in one more range. -/
def addRates (found : List Nat) (range : DeviceRange) : List Nat :=
  candidateRates.foldl (addRate range) found

/-- The candidate rates that lie in some range, in rising order. -/
def ratesOf (ranges : List DeviceRange) : List Nat := (ranges.foldl addRates []).mergeSort

/-- The largest channel count of any range. -/
def maxChannelsOf (ranges : List DeviceRange) : Nat :=
  ranges.foldl (fun most r => max most r.channels) 0

/-- A device with these ranges, as it is offered. -/
def ofRanges (name : String) (direction : Direction) (ranges : List DeviceRange)
    (isDefault : Bool) : DeviceInfo :=
  ⟨name, direction, ratesOf ranges, maxChannelsOf ranges, isDefault⟩

end DeviceInfo

/-- The devices of one direction. -/
structure DeviceShelf where
  /-- The devices, if the host can list them. -/
  devices? : Option (List Device)
  /-- The place of the default device in the list. -/
  default? : Option Nat
  deriving DecidableEq, Repr

namespace DeviceShelf

/-- The host's default device. -/
def defaultDevice? (s : DeviceShelf) : Option Device :=
  s.default?.bind fun i => s.devices?.bind (·[i]?)

/-- The devices as they are offered: those that have a name. -/
def infos (s : DeviceShelf) (direction : Direction) : List DeviceInfo :=
  let defaultName? := s.defaultDevice?.bind (·.name?)
  (s.devices?.getD []).filterMap fun device =>
    device.name?.map fun name =>
      DeviceInfo.ofRanges name direction device.ranges (defaultName? == some name)

/-- The device with a name, or else the default device. -/
def find (s : DeviceShelf) (direction : Direction) (name? : Option String) :
    Except AudioError Device :=
  match name? with
  | none =>
      match s.defaultDevice? with
      | some device => .ok device
      | none => .error (.noDefaultDevice direction)
  | some name =>
      match s.devices? with
      | none => .error (.enumeration (backendFailure "enumeration failed"))
      | some devices =>
          match devices.find? fun device => device.name? == some name with
          | some device => .ok device
          | none => .error (.noSuchDevice name)

end DeviceShelf

/-- All devices of a host. -/
structure DeviceCatalog where
  inputs : DeviceShelf
  outputs : DeviceShelf
  deriving DecidableEq, Repr

namespace DeviceCatalog

/-- The devices of a direction. -/
def shelf (c : DeviceCatalog) : Direction → DeviceShelf
  | .input => c.inputs
  | .output => c.outputs

/-- The devices of a direction as they are offered. -/
def infos (c : DeviceCatalog) (direction : Direction) : List DeviceInfo :=
  (c.shelf direction).infos direction

/-- The device of a direction with a name, or else the default one. -/
def find (c : DeviceCatalog) (direction : Direction) (name? : Option String) :
    Except AudioError Device :=
  (c.shelf direction).find direction name?

end DeviceCatalog

end EchoAlign
