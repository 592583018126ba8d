import Fixtures.Context
import Fixtures.Decimal.Notation
import Fixtures.Dict
import Fixtures.EntityType
import Fixtures.Json.Reader
import Fixtures.Json.Writer
import Fixtures.Loader
import Fixtures.Script.Engine
import Fixtures.Options
import Fixtures.ScriptRef
import Fixtures.Source
import Fixtures.Store.Access
import Fixtures.Text.Path
import Fixtures.Text.Quoted
import Fixtures.Text.Utf8
import Fixtures.Value.Display
import Fixtures.Value.Json
import Fixtures.Proofs.Dict
import Fixtures.Proofs.Work
import Fixtures.Proofs.Pending
import Fixtures.Proofs.Steps
import Fixtures.Proofs.Atomicity
import Fixtures.Proofs.Reachable
import Fixtures.Proofs.Visible
import Fixtures.Proofs.Loads
import Fixtures.Proofs.Batches
import Fixtures.Proofs.Holdings
import Fixtures.Proofs.Numbering
import Fixtures.Proofs.Blocks
import Fixtures.Proofs.Canonical
import Fixtures.Proofs.Crossing
import Fixtures.Proofs.Nesting
import Fixtures.Proofs.Unfolding
import Fixtures.Proofs.Capture
import Fixtures.Proofs.Merging
import Fixtures.Proofs.Interleaving
import Fixtures.Proofs.Independence
import Fixtures.Proofs.OwnBlocks
import Fixtures.Proofs.Uncaught
import Fixtures.Proofs.SingleRun
import Fixtures.Proofs.Rows
import Fixtures.Proofs.Entries
import Fixtures.Proofs.Rebinding
import Fixtures.Proofs.Identifiers
import Fixtures.Proofs.CreateAll
import Fixtures.Proofs.LoadArguments
import Fixtures.Proofs.Reads
import Fixtures.Proofs.Declaring
import Fixtures.Proofs.Backing
import Fixtures.Proofs.InSight
import Fixtures.Proofs.OnlyLoads
import Fixtures.Proofs.LoadChains
import Fixtures.Proofs.Untagged
import Fixtures.Proofs.Frames
import Fixtures.Proofs.Buffers
import Fixtures.Proofs.Scopes
