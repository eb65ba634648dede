import Liaison.Main
import Liaison.Rehearsal.Trial
import Liaison.Proofs.Json.Integer
import Liaison.Proofs.Json.RoundTrip
import Liaison.Proofs.Frame.Header
import Liaison.Proofs.Frame.Alignment
import Liaison.Proofs.Frame.RoundTrip
import Liaison.Proofs.Document.Change
import Liaison.Proofs.Document.Mirror
import Liaison.Proofs.Json.Decode
import Liaison.Proofs.Document.Exchange
import Liaison.Proofs.Document.Agreement
import Liaison.Proofs.Session.Duties
import Liaison.Proofs.Session.History
import Liaison.Proofs.Session.Steps
import Liaison.Proofs.Session.Verdict
import Liaison.Proofs.Session.Mail
import Liaison.Proofs.Session.Knowledge
import Liaison.Proofs.Session.Delivery
import Liaison.Proofs.Session.Story
import Liaison.Proofs.Session.Order
import Liaison.Proofs.Session.Calls
import Liaison.Proofs.Session.Roster
import Liaison.Proofs.Session.Settlement
import Liaison.Proofs.Diagnostic.Freshness
import Liaison.Proofs.Session.Reach
import Liaison.Proofs.Session.Course
import Liaison.Proofs.Session.Conduct
import Liaison.Proofs.Session.Discipline
import Liaison.Proofs.Session.Invariance
import Liaison.Proofs.Session.Ledger
import Liaison.Proofs.Session.Ending
import Liaison.Proofs.Document.Versions
import Liaison.Proofs.Diagnostic.Reopening
import Liaison.Proofs.Document.LineEnds
import Liaison.Proofs.Session.Routing
import Liaison.Proofs.Frame.Stream
import Liaison.Proofs.Session.Rules
import Liaison.Proofs.Session.Ordinary
import Liaison.Proofs.Session.Placement
import Liaison.Proofs.Session.Reading
import Liaison.Proofs.Session.Recall
import Liaison.Proofs.Session.Streams
import Liaison.Proofs.Session.ReadProgress
import Liaison.Proofs.Session.HandledFrames
import Liaison.Proofs.Session.Writing
import Liaison.Proofs.Session.Accounts
import Liaison.Proofs.Session.WriteInvariant
import Liaison.Proofs.Session.AwaitedReceipts
import Liaison.Proofs.Session.Acknowledgement
import Liaison.Proofs.Session.Handshaking
import Liaison.Proofs.Session.Handshake
import Liaison.Proofs.Session.HandshakeTurns
import Liaison.Proofs.Rename.Gathering
import Liaison.Proofs.Rename.Overlap
import Liaison.Proofs.Session.TaskGroup
import Liaison.Proofs.Session.ShuttingDown
import Liaison.Proofs.Session.Shutdowns
import Liaison.Proofs.Session.TaskPlaces
import Liaison.Proofs.Session.Readiness
import Liaison.Proofs.Session.AfterShutdown
import Liaison.Proofs.Session.ProcessExit
import Liaison.Proofs.Document.Opening
import Liaison.Proofs.Document.Openness
import Liaison.Proofs.Document.Extent
import Liaison.Proofs.Rename.Normal
import Liaison.Proofs.Session.Refusal
import Liaison.Proofs.Session.Dispatched
import Liaison.Proofs.Frame.Truncation
import Liaison.Proofs.Frame.Exhaustion
import Liaison.Proofs.Message.RoundTrip
import Liaison.Proofs.Diagnostic.Convergence
import Liaison.Proofs.Diagnostic.Waiter
import Liaison.Proofs.Session.WaitingShutdowns
import Liaison.Proofs.Location.Ascent
import Liaison.Proofs.Config.Choice
import Liaison.Proofs.Config.Expansion
import Liaison.Proofs.Config.Roots
import Liaison.Proofs.Hover.Contents
import Liaison.Proofs.Uri.Canonical
import Liaison.Proofs.Process.LastLines
