import Wruntime.Manager.Unstage
import Wruntime.Manager.ProxyRecovery
import Wruntime.Manager.RestorationFence
import Wruntime.Manager.Phases
import Wruntime.Manager.LeaseFence
import Wruntime.Routing.Finality
import Wruntime.Routing.Generations
import Wruntime.Fleet.Admission
import Wruntime.Fleet.Completion
import Wruntime.Engine.Atomicity
import Wruntime.Migration.Honesty
import Wruntime.Auth.Confinement
import Wruntime.Cleanup.Rollback
import Wruntime.Cleanup.Inventory
import Wruntime.Cleanup.Reports
import Wruntime.Bundle.Determination
import Wruntime.Snapshot.Latch
import Wruntime.Jobs.Lifecycle
import Wruntime.Jobs.Dispatch
import Wruntime.Jobs.Pages
import Wruntime.Postgres.HbaSecurity
import Wruntime.Postgres.Generations
import Wruntime.Engine.Environment
import Wruntime.Proxy.Breakers
import Wruntime.Routing.Schemas
import Wruntime.Postgres.Names
import Wruntime.Postgres.Networks
import Wruntime.Engine.Drain
import Wruntime.Lifecycle.Gate
import Wruntime.Routing.Services
import Wruntime.Deploy.Activation
