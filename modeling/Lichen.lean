import Lichen.Core.NextTx
import Lichen.Core.Congestion
import Lichen.Core.TxService
import Lichen.Link.Signable
import Lichen.Link.Revocation
import Lichen.Rpl.DaoTx
import Lichen.Rpl.ManagedPrefix
import Lichen.Rpl.RootFreshness
import Lichen.Rpl.DelegatedTargets
import Lichen.Rpl.ParentSelection
import Lichen.Rpl.AddressFreshness
import Lichen.Schc.Delivery
import Lichen.Schc.SessionExclusive
import Lichen.Schc.AdmissionFloor
import Lichen.Schc.Canonical
import Lichen.Schc.Preflight
import Lichen.Schc.AckCodec
import Lichen.Schc.FragmentCodec
import Lichen.Coap.Build
import Lichen.Gateway.SlipRing
import Lichen.Gateway.SlipRx
import Lichen.Gateway.TunnelGrants
import Lichen.Gateway.SlotClaimCanonical
import Lichen.Gateway.RecipientRun
import Lichen.Client.DeadDropRoundTrip
import Lichen.Node.DioRate
import Lichen.Link.SosRate
import Lichen.Node.ForwardOrder
import Lichen.Ipv6.Checksum
import Lichen.Coap.BlockTransfer
import Lichen.Coap.BlockReception
import Lichen.Gateway.CapabilityFlood
import Lichen.Gateway.TrustRotation
import Lichen.Node.AnnounceTlv
import Lichen.Node.AnnounceWatch
import Lichen.Core.YggAddr
import Lichen.Core.ExtensionHeader
import Lichen.Rpl.RootSeqCache
import Lichen.Gateway.Handoff
import Lichen.Schc.SenderSession
