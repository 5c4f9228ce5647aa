import Nqvpn.GenerationProtocol
import Nqvpn.CredentialExpiry
import Nqvpn.RefusalFlag
import Nqvpn.RefusedMember
import Nqvpn.DeadSessions
import Nqvpn.SessionFacts
import Nqvpn.EntitledSessions
import Nqvpn.CrossedHandshakes
import Nqvpn.DeniedJoin
import Nqvpn.RoutePolicyScope
import Nqvpn.ForeignRoutes
import Nqvpn.JournaledPins
import Nqvpn.OwnershipAgreement
import Nqvpn.DeltaRing
import Nqvpn.OwnerValidity
import Nqvpn.RelayRestarts
import Nqvpn.Debounce
import Nqvpn.ForwardingComplete
import Nqvpn.AllocationComplete
import Nqvpn.DataFrames
import Nqvpn.HandshakeChecks
import Nqvpn.ImportCommit
import Nqvpn.ReplayWords
import Nqvpn.RouteAges
import Nqvpn.FlowLanes
import Nqvpn.TlsIdentity
import Nqvpn.RpcPeer
import Nqvpn.EndpointGuard
import Nqvpn.LaneFraming
import Nqvpn.RouteCoverage
