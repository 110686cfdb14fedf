import VeilNetwork.Anonymity.CircuitOrigin
import VeilNetwork.Anonymity.CircuitRegisterRun
import VeilNetwork.Anonymity.CircuitTableRun
import VeilNetwork.Dht.Closest
import VeilNetwork.Dht.StoreAccounting
import VeilNetwork.Dht.StoreLifetime
import VeilNetwork.App.Sessions
import VeilNetwork.Delivery.PendingAckRun
import VeilNetwork.Identity.AuthDeliver
import VeilNetwork.Identity.FloorRun
import VeilNetwork.Identity.Replica
import VeilNetwork.Ipc.Reaper
import VeilNetwork.Routing.DiscoveryReplay
import VeilNetwork.Abuse.BanList
import VeilNetwork.Anycast.Store
import VeilNetwork.E2e.SeedRing
import VeilNetwork.OnionStream.Credited
import VeilNetwork.OnionStream.EndOfStream
import VeilNetwork.OnionStream.HandedOff
import VeilNetwork.OnionStream.Timers
import VeilNetwork.Update.Apply
import VeilNetwork.Ratchet.Budget
import VeilNetwork.Ratchet.TreeRun
import VeilNetwork.Session.DatagramFlowRun
import VeilNetwork.Session.QueueRounds
import VeilNetwork.Session.RealtimeBooks
import VeilNetwork.Session.WarmSocket
import VeilNetwork.Dht.Diversity
import VeilNetwork.Dht.Topology
import VeilNetwork.Dht.StatedCaps
import VeilNetwork.Anonymity.CircuitReplay
import VeilNetwork.Dht.Pending
import VeilNetwork.Identity.DocumentCodec
import VeilNetwork.OnionStream.AnyPeer
