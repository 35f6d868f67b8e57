import Aviso.Proofs.Sessions
import Aviso.Proofs.Conformance
import Aviso.Proofs.StateMonotone
import Aviso.Proofs.NothingTwice
import Aviso.Proofs.AtLeastOnce
import Aviso.Proofs.Leases
import Aviso.Proofs.FoundCredentials
import Aviso.Proofs.StoreRefinement
import Aviso.Proofs.Slot
import Aviso.Proofs.Cancellation
import Aviso.Proofs.RefreshLaw
import Aviso.Proofs.UrlStructure
import Aviso.Proofs.BodyPassthrough
import Aviso.Proofs.WatchHistory
import Aviso.Proofs.Dispatching
import Aviso.Proofs.Multiplex
import Aviso.Proofs.FailureAtomic
import Aviso.Proofs.OpeningGate
import Aviso.Proofs.SkipSoundness
import Aviso.Proofs.ValueNeutrality
import Aviso.Proofs.ShellSimulation
import Aviso.Proofs.Literalness
import Aviso.Proofs.Refusal
import Aviso.Proofs.NotifyRoundTrip
import Aviso.Proofs.BoundedTail
import Aviso.Proofs.ResumeFraming
import Aviso.Proofs.MemoryBound
import Aviso.Proofs.ReconnectDelay
import Aviso.Proofs.MergedDelivery
import Aviso.Proofs.AsyncIterator
import Aviso.Proofs.CommandEnvironment
import Aviso.Proofs.Batches
import Aviso.Proofs.Listening
import Aviso.Proofs.Endpoint
import Aviso.Proofs.Identifiers
import Aviso.Proofs.ListenCommand
import Aviso.Proofs.WatchMany
import Aviso.Proofs.Facade
