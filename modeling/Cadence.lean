import Cadence.Calendar.Exact
import Cadence.Control
import Cadence.Host.Edit
import Cadence.Host.Phrases
import Cadence.Proofs.Calendar.Order
import Cadence.Proofs.Calendar.Recovered
import Cadence.Proofs.DateText.Clock
import Cadence.Proofs.DateText.Numbers
import Cadence.Proofs.Control.HostData
import Cadence.Proofs.Control.Reopened
import Cadence.Proofs.Description.Kept
import Cadence.Proofs.Description.Occurrences
import Cadence.Proofs.Description.Repeated
import Cadence.Proofs.Description.RoundTrip
import Cadence.Proofs.Form.Loaded
import Cadence.Proofs.Form.Session
import Cadence.Proofs.Rule.Agreement
import Cadence.Proofs.Rule.Imported
import Cadence.Proofs.Rule.Local
import Cadence.Proofs.Form.Edited
import Cadence.Proofs.Rule.Anchored
import Cadence.Proofs.Binary64.Rounding
import Cadence.Proofs.Binary64.Shortest
import Cadence.Proofs.Json.Numbers
import Cadence.Proofs.Json.Strings
import Cadence.Proofs.Json.Written
import Cadence.Proofs.Control.Echo
import Cadence.Proofs.Control.Told
import Cadence.Proofs.Description.Spoken
import Cadence.Proofs.Form.Import
import Cadence.Proofs.Form.Discarded
import Cadence.Proofs.Document.Embedded
import Cadence.Proofs.Document.Fired
import Cadence.Proofs.DateText.Timed
import Cadence.Proofs.Description.LastDay
import Cadence.Proofs.Rule.Usable
import Cadence.Proofs.Form.YearAhead
import Cadence.Proofs.Control.Listed
import Cadence.Proofs.Rule.Items
