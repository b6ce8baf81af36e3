import Actors.PatternCache
import Actors.Proofs.Mailbox.FirstCome
import Actors.Proofs.Process
import Actors.Proofs.ProcessTable
import Actors.Scenario.Command
import Actors.Wire.TermCodec
import Actors.Proofs.Node.Signals
import Actors.Proofs.Node.Life
import Actors.Proofs.Node.Run
import Actors.Proofs.Node.Coherence
import Actors.Proofs.Dict
import Actors.Proofs.Node.Moves
import Actors.Proofs.Node.Ageing
import Actors.Proofs.Node.Orderly
import Actors.Proofs.Node.Drain
import Actors.Proofs.Node.Cascade
import Actors.Proofs.Node.References
import Actors.Proofs.Node.Watching
import Actors.Proofs.Node.Silence
import Actors.Proofs.Node.Mutual
import Actors.Proofs.Dispatcher
import Actors.Proofs.Node.Posting
import Actors.Proofs.Node.OneByOne
import Actors.Proofs.Node.Batches
import Actors.Proofs.Node.Living
import Actors.Proofs.Node.Outlook
import Actors.Proofs.Node.Survivors
import Actors.Proofs.Node.AskedToEnd
import Actors.Proofs.Node.Identity
import Actors.Proofs.Node.Isolation
import Actors.Term.Numbered
import Actors.Wire.Atoms
import Actors.Proofs.Atom
import Actors.Proofs.Binary64
import Actors.Proofs.Binary64.Values
import Actors.Proofs.Term.Order
import Actors.Proofs.Term.MixedNumbers
import Actors.Proofs.Term.Numbered
import Actors.Proofs.Text.Quoted
import Actors.Proofs.Term.Rendering
import Actors.Proofs.Wire.Reading
import Actors.Proofs.Wire.TermCodec
import Actors.Proofs.Wire.Padding
import Actors.Proofs.Pattern
import Actors.Proofs.Envelope
import Actors.Proofs.Node.Forwarding
import Actors.Proofs.Node.Holders
import Actors.Proofs.Node.Awaiting
import Actors.Proofs.Node.TwoSided
import Actors.Proofs.Node.Arrivals
import Actors.Proofs.Node.Addressing
import Actors.Proofs.Node.Refusals
import Actors.Proofs.Node.Lockstep
import Actors.Proofs.Node.Births
import Actors.Proofs.Node.Records
import Actors.Proofs.Mailbox.Returns
import Actors.Proofs.Mailbox.Unseen
import Actors.Proofs.Mailbox.Closing
import Actors.Proofs.Node.LastRequest
import Actors.Proofs.Node.Handling
import Actors.Proofs.RouteHistory
import Actors.Proofs.AtomHistory
import Actors.Proofs.SlotHistory
import Actors.Proofs.Node.Numbering
import Actors.Proofs.Scenario.FirstCause
