import ThunderboltStack.Cm.Approve
import ThunderboltStack.Cm.Available
import ThunderboltStack.Cm.Bandwidth
import ThunderboltStack.Cm.Credits
import ThunderboltStack.Cm.Discover
import ThunderboltStack.Cm.Retrain
import ThunderboltStack.Ctl.LateReply
import ThunderboltStack.Drom.Parse
import ThunderboltStack.Nhi.RingBooks
import ThunderboltStack.Nvm.Access
import ThunderboltStack.PropertyBlock.Bounds
import ThunderboltStack.PropertyBlock.Copy
import ThunderboltStack.PropertyBlock.Depth
import ThunderboltStack.Rxe.NdevName
import ThunderboltStack.Rxe.Receive
import ThunderboltStack.Rxe.Rto
import ThunderboltStack.Tbframe.Backlog
import ThunderboltStack.Tbframe.Bye
import ThunderboltStack.Tbframe.Codec
import ThunderboltStack.Tbframe.Delivery
import ThunderboltStack.Tbframe.Echo
import ThunderboltStack.Tbframe.FramePool
import ThunderboltStack.Tbframe.HwRings
import ThunderboltStack.Tbframe.Lifecycle
import ThunderboltStack.Tbframe.LinkUp
import ThunderboltStack.Tbframe.LossModel
import ThunderboltStack.Tbframe.Producer
import ThunderboltStack.Tbframe.ReadyAck
import ThunderboltStack.Tbframe.TxOrder
import ThunderboltStack.Tbnet.Reassembly
import ThunderboltStack.Tbnet.Session
import ThunderboltStack.Tbnet.TxBuffers
import ThunderboltStack.Xdomain.Advertised
import ThunderboltStack.Xdomain.Atomicity
import ThunderboltStack.Xdomain.Bonding
import ThunderboltStack.Xdomain.PeerSafety
import ThunderboltStack.Xdomain.ReadBack
import ThunderboltStack.Xdomain.Services
