import Tp2p.Lib.Fleet
import Tp2p.Lib.HashMap
import Tp2p.Lib.Transition
import Tp2p.Model.Sandbox
import Tp2p.Network.Consent
import Tp2p.Network.Contacts
import Tp2p.Network.Convergence
import Tp2p.Network.Correspondence
import Tp2p.Network.Handshake
import Tp2p.Network.Introduction
import Tp2p.Network.Mesh
import Tp2p.Network.Origin
import Tp2p.Network.Pair
import Tp2p.Network.Projection
import Tp2p.Network.Storm
import Tp2p.Network.Timeouts
import Tp2p.Node.Activation
import Tp2p.Node.Admission
import Tp2p.Node.Agreement
import Tp2p.Node.Recovery
import Tp2p.Node.Retention
import Tp2p.Node.Denial
import Tp2p.Node.Failures
import Tp2p.Node.Frame
import Tp2p.Node.Gate
import Tp2p.Node.Independence
import Tp2p.Node.Initiations
import Tp2p.Node.Integrity
import Tp2p.Node.Keepalive
import Tp2p.Node.LastWord
import Tp2p.Node.Maintenance
import Tp2p.Node.Nonces
import Tp2p.Node.Opening
import Tp2p.Node.Patience
import Tp2p.Node.Queries
import Tp2p.Node.Questions
import Tp2p.Node.Reference
import Tp2p.Node.Service
import Tp2p.Node.Snapshots
import Tp2p.Transport.Manager
import Tp2p.Transport.Wire
