import Blackboard.Data.Table
import Blackboard.Text.Blank
import Blackboard.Text.Numeral
import Blackboard.Text.Octets
import Blackboard.Text.Quoted
import Blackboard.Error
import Blackboard.Key
import Blackboard.Time
import Blackboard.Tuple
import Blackboard.Tuple.Match
import Blackboard.Json
import Blackboard.Tuple.Json
import Blackboard.Reference
import Blackboard.Store
import Blackboard.Results
import Blackboard.Space
import Blackboard.Config.File
import Blackboard.Transport.Wire
import Blackboard.Host.Testbed
import Blackboard.Proofs.Matching.Agreement
import Blackboard.Proofs.Store.Runs
import Blackboard.Proofs.Store.Searching
import Blackboard.Proofs.Store.Observing
import Blackboard.Proofs.Subscription
import Blackboard.Proofs.Results
import Blackboard.Proofs.Key
import Blackboard.Proofs.Clock
import Blackboard.Proofs.Config.Loading
import Blackboard.Proofs.Reference
import Blackboard.Proofs.Tuple.Json
import Blackboard.Proofs.Space.Delivery
import Blackboard.Proofs.Space.Grounding
import Blackboard.Proofs.Space.Listing
import Blackboard.Proofs.Space.Notification
import Blackboard.Proofs.Space.Interest
import Blackboard.Proofs.Space.Copies
import Blackboard.Proofs.Space.Repointing
import Blackboard.Proofs.Space.Turns
import Blackboard.Proofs.Space.Followers
import Blackboard.Proofs.Space.Sweeping
import Blackboard.Proofs.Kernel.WriteIfAbsent
import Blackboard.Proofs.Kernel.Failures
import Blackboard.Proofs.Kernel.FirstCovered
import Blackboard.Proofs.Kernel.Wildcards
import Blackboard.Proofs.Kernel.Ownership
import Blackboard.Proofs.Kernel.Withdrawing
import Blackboard.Proofs.Kernel.Tally
import Blackboard.Proofs.Host.Stopping
import Blackboard.Proofs.Host.Sharing
import Blackboard.Proofs.Host.Reading
