import R1s.Allocator.Proofs.Retirement
import R1s.Runtime.Proofs.Environment
import R1s.Runtime.Proofs.Fingerprint
import R1s.Allocator.Proofs.Announced
import R1s.Allocator.Proofs.RoundTrip
import R1s.Client.Proofs.Selection
import R1s.Client.Proofs.Refused
import R1s.Client.Proofs.LossMarks
import R1s.Fleet
import R1s.Lease.Loss
import R1s.Presence.Summary
import R1s.Client.Proofs.Cancelled
import R1s.Client.Proofs.Rerouted
import R1s.Client.Proofs.Convergence
import R1s.Client.Proofs.Releases
import R1s.Runtime.Proofs.Promises
import R1s.Allocator.Proofs.Endings
import R1s.Allocator.Proofs.LeaseTimes
import R1s.Allocator.Proofs.Strangers
import R1s.Allocator.Proofs.DurableErrors
import R1s.Allocator.Proofs.Rollback
import R1s.Allocator.Proofs.Budget
import R1s.Allocator.Proofs.Quotas
import R1s.Allocator.Proofs.Acks
import R1s.Allocator.Proofs.EvictionLoop
import R1s.Yggdrasil.Window
import R1s.Yggdrasil.Pair
import R1s.Logstore.Reservations
import R1s.Logstore.Streams
import R1s.RunTail
import R1s.Tunnel.RunTunnel
