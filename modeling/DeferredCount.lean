import DeferredCount.Proofs.Entries
import DeferredCount.Proofs.Layout
import DeferredCount.Session.Allocating
import DeferredCount.Session.Collecting
import DeferredCount.Session.Counting
import DeferredCount.Session.Inspecting
import DeferredCount.Session.Storing
import DeferredCount.Settings.Reader
import DeferredCount.Version
import DeferredCount.Work.Bench
import DeferredCount.Work.Consumers
import DeferredCount.Proofs.Cells
import DeferredCount.Proofs.Objects
import DeferredCount.Proofs.Decrements
import DeferredCount.Proofs.Shifts
import DeferredCount.Proofs.Draining
import DeferredCount.Proofs.Marking
import DeferredCount.Proofs.Tracing
import DeferredCount.Proofs.Sweeping
import DeferredCount.Proofs.Recounting
import DeferredCount.Proofs.Increments
import DeferredCount.Proofs.Processing
import DeferredCount.Proofs.Scanning
import DeferredCount.Proofs.Crews
import DeferredCount.Proofs.Ledger
import DeferredCount.Proofs.Settling
import DeferredCount.Proofs.Holding
import DeferredCount.Proofs.Elapsing
import DeferredCount.Proofs.Locking
import DeferredCount.Proofs.Logging
import DeferredCount.Proofs.Barriers
import DeferredCount.Proofs.Stretches
import DeferredCount.Proofs.Collecting
import DeferredCount.Proofs.Quiescence
import DeferredCount.Proofs.Actions
import DeferredCount.Proofs.Contention
import DeferredCount.Proofs.Racing
import DeferredCount.Proofs.Placing
import DeferredCount.Proofs.Stock
import DeferredCount.Proofs.Allocating
import DeferredCount.Proofs.Room
import DeferredCount.Proofs.Creating
import DeferredCount.Proofs.Newborn
import DeferredCount.Proofs.Turns
import DeferredCount.Proofs.Running
import DeferredCount.Proofs.Coalescing
import DeferredCount.Proofs.Relogging
import DeferredCount.Proofs.Reclaiming
import DeferredCount.Proofs.Locality
import DeferredCount.Proofs.Requests
import DeferredCount.Proofs.Lockstep
import DeferredCount.Proofs.Converging
import DeferredCount.Proofs.Reconfiguring
import DeferredCount.Proofs.Gaps
import DeferredCount.Proofs.Leftovers
import DeferredCount.Proofs.Disjoint
import DeferredCount.Proofs.Aligning
import DeferredCount.Proofs.Parcels
import DeferredCount.Proofs.Strolls
import DeferredCount.Proofs.Hauling
import DeferredCount.Proofs.Tenants
import DeferredCount.Proofs.Linearizing
import DeferredCount.Proofs.Evictions
import DeferredCount.Proofs.Flavors
import DeferredCount.Proofs.Passing
import DeferredCount.Proofs.Copying
import DeferredCount.Proofs.Mixing
import DeferredCount.Proofs.Stopping
import DeferredCount.Proofs.Ending
import DeferredCount.Proofs.Overdrafts
import DeferredCount.Proofs.Freeing
import DeferredCount.Proofs.Supply
import DeferredCount.Proofs.Reaching
import DeferredCount.Proofs.Answering
import DeferredCount.Proofs.Refusals
import DeferredCount.Proofs.Electing
import DeferredCount.Proofs.Slack
import DeferredCount.Proofs.Grants
import DeferredCount.Proofs.Estates
import DeferredCount.Proofs.Stranding
import DeferredCount.Proofs.Routing
import DeferredCount.Proofs.Refilling
import DeferredCount.Proofs.Padding
import DeferredCount.Proofs.Packing
import DeferredCount.Proofs.Configuring
