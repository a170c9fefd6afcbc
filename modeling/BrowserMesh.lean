import BrowserMesh.Js.Text
import BrowserMesh.Js.Number
import BrowserMesh.Js.Dict
import BrowserMesh.Library.Replication
import BrowserMesh.Library.Transition
import BrowserMesh.Library.Search
import BrowserMesh.Library.Pattern
import BrowserMesh.Library.LastWriter
import BrowserMesh.Library.Weave
import BrowserMesh.Library.Guards
import BrowserMesh.Library.Async
import BrowserMesh.Library.Replay
import BrowserMesh.Primitives.Registers
import BrowserMesh.Primitives.Counters
import BrowserMesh.Primitives.Convergence
import BrowserMesh.Primitives.OrSet
import BrowserMesh.Primitives.VectorClock
import BrowserMesh.Primitives.Rga
import BrowserMesh.Primitives.RgaRuns
import BrowserMesh.Primitives.Glob
import BrowserMesh.Primitives.Padding
import BrowserMesh.Primitives.Wire
import BrowserMesh.Primitives.RgaEditing
import BrowserMesh.Primitives.AccessGrants
import BrowserMesh.Sync.SyncEngine
import BrowserMesh.Sync.DocumentTypes
import BrowserMesh.Sync.DeltaSync
import BrowserMesh.Sync.DeltaNetwork
import BrowserMesh.Sync.DeltaRuns
import BrowserMesh.Core.Capabilities
import BrowserMesh.Core.Attenuation
import BrowserMesh.Core.Revocation
import BrowserMesh.Core.GroupKeys
import BrowserMesh.Core.GroupKeyAgreement
import BrowserMesh.Core.GroupKeyMembership
import BrowserMesh.Core.Keyring
import BrowserMesh.Core.KeyringOrder
import BrowserMesh.Core.KeyringSuccession
import BrowserMesh.Core.ConnectionTokens
import BrowserMesh.Mux.Frames
import BrowserMesh.Mux.Reassembly
import BrowserMesh.Mux.PriorityMux
import BrowserMesh.Mux.Delivery
import BrowserMesh.Apps.AuditChain
import BrowserMesh.Apps.Scheduler
import BrowserMesh.Apps.PaymentChannel
import BrowserMesh.Apps.PaymentSolvency
import BrowserMesh.Apps.PaymentConvergence
import BrowserMesh.Apps.PaymentSigning
import BrowserMesh.Apps.PaymentClose
import BrowserMesh.Apps.GrantLog
import BrowserMesh.Apps.GrantLogConvergence
import BrowserMesh.Apps.GrantLogAuthority
import BrowserMesh.Core.MeshAcl
import BrowserMesh.Apps.PeerRegistry
import BrowserMesh.Apps.MeshKv
import BrowserMesh.Apps.MeshKvRelay
import BrowserMesh.Apps.CloudStorage
import BrowserMesh.Library.Counting
import BrowserMesh.Apps.PodSupervisor
import BrowserMesh.Apps.PodRestarts
import BrowserMesh.Apps.PodReplacements
import BrowserMesh.Library.Forest
import BrowserMesh.Apps.PodLinks
import BrowserMesh.Apps.PodCascade
import BrowserMesh.Library.Ranking
import BrowserMesh.Discovery.Swim
import BrowserMesh.Discovery.SwimUpdates
import BrowserMesh.Discovery.SwimSuspicion
import BrowserMesh.Discovery.SwimProbes
import BrowserMesh.Discovery.SwarmViews
import BrowserMesh.Discovery.Gossip
import BrowserMesh.Discovery.GossipConvergence
import BrowserMesh.Sync.Migration
import BrowserMesh.Sync.MigrationRuns
import BrowserMesh.Sync.FileTransfer
import BrowserMesh.Sync.FileTransferRuns
import BrowserMesh.Library.Link
import BrowserMesh.Transport.Streams
import BrowserMesh.Transport.StreamViews
import BrowserMesh.Transport.StreamQuiescence
import BrowserMesh.Transport.WebRTC
import BrowserMesh.Transport.WebRTCLifecycle
import BrowserMesh.Transport.Sockets
import BrowserMesh.Transport.Relay
import BrowserMesh.Transport.RelayConnection
import BrowserMesh.Js.Json
import BrowserMesh.Js.Countdown
import BrowserMesh.Apps.MeshRouter
import BrowserMesh.Apps.RoutingHops
import BrowserMesh.Js.Arithmetic
import BrowserMesh.Library.Best
import BrowserMesh.Apps.ResourceScorer
import BrowserMesh.Apps.ComputePlacement
import BrowserMesh.Library.Median
import BrowserMesh.Js.Sorting
import BrowserMesh.Apps.TimestampAuthority
import BrowserMesh.Js.Midpoint
import BrowserMesh.Apps.TimestampConsensus
import BrowserMesh.Apps.TimestampProofs
import BrowserMesh.Apps.CreditLedgers
import BrowserMesh.Apps.LedgerConservation
import BrowserMesh.Apps.KeyDistribution
import BrowserMesh.Apps.KeyDeliveries
import BrowserMesh.Js.Encoding
import BrowserMesh.Apps.PeerFiles
import BrowserMesh.Apps.EncryptedBlobs
import BrowserMesh.Js.Url
import BrowserMesh.Apps.ServerSharing
import BrowserMesh.Apps.CloudObjects
import BrowserMesh.Apps.ObjectReads
import BrowserMesh.Apps.RegistryGrants
import BrowserMesh.Apps.DefaultAcl
import BrowserMesh.Apps.GrantEffects
import BrowserMesh.Js.Stringify
import BrowserMesh.Primitives.Base64
import BrowserMesh.Js.Rebuild
import BrowserMesh.Apps.AuditPayload
import BrowserMesh.Library.Merkle
import BrowserMesh.Apps.MerkleProofs
import BrowserMesh.Apps.AuditForks
import BrowserMesh.Apps.Placement
import BrowserMesh.Apps.UsageReports
import BrowserMesh.Apps.KvReads
import BrowserMesh.Discovery.Stealth
import BrowserMesh.Mux.Starvation
import BrowserMesh.Mux.Redelivery
import BrowserMesh.Mux.Draining
import BrowserMesh.Core.AclScopes
import BrowserMesh.Core.AclRoles
import BrowserMesh.Core.KeyringAncestry
import BrowserMesh.Apps.ChunkReplication
import BrowserMesh.Apps.Consensus
import BrowserMesh.Discovery.Kademlia
import BrowserMesh.Sync.DeltaCodec
import BrowserMesh.Core.GroupKeyEpochs
import BrowserMesh.Library.Regroup
import BrowserMesh.Sync.Cid
import BrowserMesh.Library.Layers
import BrowserMesh.Sync.Unixfs
import BrowserMesh.Library.PathTree
import BrowserMesh.Sync.UnixfsDirectory
import BrowserMesh.Library.Worklist
import BrowserMesh.Library.Walks
import BrowserMesh.Primitives.Trust
import BrowserMesh.Core.TrustGraph
import BrowserMesh.Sync.MemorySync
import BrowserMesh.Sync.MemoryConflicts
import BrowserMesh.Sync.DeltaCompaction
import BrowserMesh.Core.Invitations
import BrowserMesh.Apps.ConsensusTransport
import BrowserMesh.Transport.StreamCredits
import BrowserMesh.Netway.LoopbackPorts
import BrowserMesh.Core.Canonical
import BrowserMesh.Library.Mailbox
import BrowserMesh.Netway.StreamSocket
import BrowserMesh.Kernel.ByteStream
import BrowserMesh.Netway.Gateway
import BrowserMesh.Core.CircuitBreaker
import BrowserMesh.Kernel.ResourceTable
