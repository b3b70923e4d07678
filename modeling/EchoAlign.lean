import EchoAlign.Align.Drift
import EchoAlign.Align.Link
import EchoAlign.Align.Skip
import EchoAlign.Audio.Shelf
import EchoAlign.Audio.Tape
import EchoAlign.Audio.TapeRun
import EchoAlign.Canceller.Setup
import EchoAlign.CommandLine.Program
import EchoAlign.Device.Host
import EchoAlign.Endpoint.Dumps
import EchoAlign.Endpoint.Playable
import EchoAlign.Endpoint.RawSink
import EchoAlign.Main
import EchoAlign.Proofs.Align.Checks
import EchoAlign.Proofs.Audio.ByteMap
import EchoAlign.Proofs.Audio.Limit
import EchoAlign.Proofs.Audio.Recall
import EchoAlign.Proofs.Session.Balance
import EchoAlign.Proofs.Session.Cuts
import EchoAlign.Proofs.Session.Hearing
import EchoAlign.Proofs.Session.Leading
import EchoAlign.Proofs.Session.Leftover
import EchoAlign.Proofs.Session.Pending
import EchoAlign.Proofs.Session.Reference
import EchoAlign.Proofs.Session.Refinement
import EchoAlign.Proofs.Session.Remeasure
import EchoAlign.Proofs.Session.Resumption
import EchoAlign.Proofs.Session.Resync
import EchoAlign.Proofs.Session.Shift
import EchoAlign.Proofs.Session.Suspension
import EchoAlign.Session.Build
import EchoAlign.Settings.Document
import EchoAlign.Proofs.Session.Ledger
import EchoAlign.Proofs.Session.Rounds
import EchoAlign.Proofs.Session.Following
import EchoAlign.Proofs.Session.Starvation
import EchoAlign.Proofs.Session.Teardown
import EchoAlign.Proofs.Session.Intake
import EchoAlign.Proofs.Settings.Document
import EchoAlign.Proofs.Session.Correction
import EchoAlign.Proofs.Align.Rounding
import EchoAlign.Proofs.Session.Setup
import EchoAlign.Proofs.Session.Replay
import EchoAlign.Proofs.Session.Retake
import EchoAlign.Proofs.Align.Conversions
import EchoAlign.Proofs.Align.Monotone
import EchoAlign.Proofs.Settings.FlatText
import EchoAlign.Proofs.Endpoint.Overwriting
import EchoAlign.Proofs.Endpoint.Retracing
import EchoAlign.Proofs.Session.Recording
import EchoAlign.Proofs.Canceller.Channels
import EchoAlign.Proofs.Session.Losses
import EchoAlign.Proofs.Device.Capabilities
import EchoAlign.Proofs.Align.Corrections
import EchoAlign.Proofs.Canceller.History
import EchoAlign.Proofs.Audio.Row
import EchoAlign.Proofs.Session.Ticks
import EchoAlign.Proofs.Audio.Views
