import GoVpn.Proof.ReceiveWindow
import GoVpn.Proof.WireCanonical
import GoVpn.Proof.ReplayFilter
import GoVpn.Proof.PacketIDs
import GoVpn.Proof.CtrlFresh
import GoVpn.Proof.SendSlots
import GoVpn.Proof.WriteReport
import GoVpn.Proof.CtrlStream
import GoVpn.Proof.DeadlineRuns
import GoVpn.Proof.HandshakeOutcome
import GoVpn.Proof.FailedReneg
import GoVpn.Proof.Delivery
import GoVpn.Proof.UdpRoundTrip
import GoVpn.Proof.AcceptQueue
import GoVpn.Proof.TcpBudgets
import GoVpn.Proof.AddressConflicts
import GoVpn.Proof.Shutdown
import GoVpn.Proof.CallbackWait
import GoVpn.Proof.PeerRetransmits
import GoVpn.Proof.ReorderBuffer
import GoVpn.Proof.PeerWindow
import GoVpn.Proof.WindowsFit
import GoVpn.Proof.CipherChoice
import GoVpn.Proof.TcpRoundTrip
import GoVpn.Proof.ReasmRefusals
import GoVpn.Proof.TcpUnfragmented
import GoVpn.Proof.UdpConservation
import GoVpn.Proof.Auth
import GoVpn.Proof.Routes
import GoVpn.Proof.KeyFile
import GoVpn.Proof.Prf
