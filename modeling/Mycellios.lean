import Mycellios.Credit.Replay
import Mycellios.PhysicalTree.Exact
import Mycellios.Stage.Chain
import Mycellios.Stage.Arena
import Mycellios.Protocol.Stream
import Mycellios.TreeWave.Codec
import Mycellios.PrefixWave.Lanes
import Mycellios.Economy.Settlement
import Mycellios.Batching.Service
import Mycellios.Billing.Netting
import Mycellios.Mesh.Runs
import Mycellios.Deployment.Fencing
import Mycellios.Deployment.Attempts
import Mycellios.Persistence.Delivery
import Mycellios.Payouts.Projection
import Mycellios.Swarm.Registry
import Mycellios.Direct.Integrity
import Mycellios.Planning.Replicas
import Mycellios.Release.Store
