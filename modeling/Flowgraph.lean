import Flowgraph.Main
import Flowgraph.Proofs.Builtin.Orders
import Flowgraph.Proofs.Builtin.Soundness
import Flowgraph.Proofs.Event.Delivery
import Flowgraph.Proofs.Graph.Formed
import Flowgraph.Proofs.Graph.IntPorts
import Flowgraph.Proofs.Graph.Lifetime
import Flowgraph.Proofs.Graph.Obstacles
import Flowgraph.Proofs.Graph.Removal
import Flowgraph.Proofs.Host.Account
import Flowgraph.Proofs.Host.Overrides
import Flowgraph.Proofs.Host.Polling
import Flowgraph.Proofs.Saved.Acceptance
import Flowgraph.Proofs.Saved.Form
import Flowgraph.Proofs.Saved.Tagged
import Flowgraph.Proofs.Template.Listings
import Flowgraph.Proofs.Tick.Cap
import Flowgraph.Proofs.Tick.Effect
import Flowgraph.Proofs.Tick.Isolation
import Flowgraph.Proofs.Tick.Resolution
import Flowgraph.Proofs.Tick.Rounds
import Flowgraph.Proofs.Tick.Storing
import Flowgraph.Proofs.Twin.Session
