import Changefeed.Feed.Run
import Changefeed.RingBuffer.Log
import Changefeed.Settings.Document
import Changefeed.Settings.Overlay
import Changefeed.Wire.Order
import Changefeed.Proofs.Scan
import Changefeed.Proofs.Channels
import Changefeed.Proofs.Journals
import Changefeed.Proofs.History
import Changefeed.Proofs.Signals
import Changefeed.Proofs.Holders
import Changefeed.Proofs.Sound
import Changefeed.Proofs.Delivery
import Changefeed.Proofs.Wakeup
import Changefeed.Proofs.Consumption
import Changefeed.Proofs.Refinement
import Changefeed.Proofs.Written
import Changefeed.Proofs.Isolation
import Changefeed.Proofs.Creation
import Changefeed.Proofs.Absence
import Changefeed.Proofs.Refusals
import Changefeed.Proofs.Purity
import Changefeed.Proofs.Closed
import Changefeed.Proofs.Teardown
import Changefeed.Proofs.Parking
import Changefeed.Proofs.Failures
import Changefeed.Proofs.Registrations
import Changefeed.Proofs.Notices
import Changefeed.Proofs.Documents
import Changefeed.Proofs.Persistence
import Changefeed.Proofs.TextForm
import Changefeed.Proofs.CompactForm
import Changefeed.Proofs.Ledger
import Changefeed.Proofs.Retention
import Changefeed.Proofs.Counters
import Changefeed.Proofs.Lifetime
import Changefeed.Proofs.Ranges
import Changefeed.Proofs.Expiry
import Changefeed.Proofs.Extent
import Changefeed.Proofs.Pages
import Changefeed.Proofs.VersionText
import Changefeed.Proofs.Lookup
import Changefeed.Proofs.Loading
import Changefeed.Proofs.Roster
import Changefeed.Proofs.Passes
import Changefeed.Proofs.Slots
import Changefeed.Proofs.Overflow
