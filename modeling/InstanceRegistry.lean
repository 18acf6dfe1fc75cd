import InstanceRegistry.NameMap.Lemmas
import InstanceRegistry.Registry.Lemmas
import InstanceRegistry.Run.Machine
import InstanceRegistry.Scenario.Session
import InstanceRegistry.Typed
import InstanceRegistry.Proofs.Alias.Conflicts
import InstanceRegistry.Proofs.Alias.Order
import InstanceRegistry.Proofs.Alias.Queries
import InstanceRegistry.Proofs.Alias.Resolution
import InstanceRegistry.Proofs.Creation.Abandoned
import InstanceRegistry.Proofs.Creation.Cycles
import InstanceRegistry.Proofs.Creation.EarlyObject
import InstanceRegistry.Proofs.Creation.Exclusive
import InstanceRegistry.Proofs.Creation.Listing
import InstanceRegistry.Proofs.Creation.Marks
import InstanceRegistry.Proofs.Creation.Persistence
import InstanceRegistry.Proofs.Creation.Propagation
import InstanceRegistry.Proofs.Creation.Related
import InstanceRegistry.Proofs.Creation.Rollback
import InstanceRegistry.Proofs.Creation.Wiring
import InstanceRegistry.Proofs.Registry.Dependence
import InstanceRegistry.Proofs.Teardown.Containment
import InstanceRegistry.Proofs.Teardown.Forbidden
import InstanceRegistry.Proofs.Teardown.Frame
import InstanceRegistry.Proofs.Teardown.Inverse
import InstanceRegistry.Proofs.Teardown.Leftovers
import InstanceRegistry.Proofs.Teardown.Recordings
import InstanceRegistry.Proofs.Teardown.Failures
import InstanceRegistry.Proofs.Teardown.Reported
import InstanceRegistry.Proofs.Run.Replay
import InstanceRegistry.Proofs.Run.Typed
