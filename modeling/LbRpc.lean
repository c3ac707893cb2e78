import LbRpc.Proof.ClientDecode
import LbRpc.Proof.ConfigReading
import LbRpc.Proof.ConnLimit
import LbRpc.Proof.Delivery
import LbRpc.Proof.DnsStream
import LbRpc.Proof.LoopTable
import LbRpc.Proof.Mirror
import LbRpc.Proof.OutputFifo
import LbRpc.Proof.OwnLoop
import LbRpc.Proof.OwnedClose
import LbRpc.Proof.PickRun
import LbRpc.Proof.PrivateBuffers
import LbRpc.Proof.PublishMap
import LbRpc.Proof.PushedRoutes
import LbRpc.Proof.ReadRoom
import LbRpc.Proof.Reconnects
import LbRpc.Proof.Recovery
import LbRpc.Proof.RegInit
import LbRpc.Proof.Registration
import LbRpc.Proof.RouteMaps
import LbRpc.Proof.Sharding
import LbRpc.Proof.Snapshots
import LbRpc.Proof.Streak
import LbRpc.Proof.WebEdits
import LbRpc.Proof.Window
import LbRpc.Proof.WriteEvent
