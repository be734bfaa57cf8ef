import HmrRpc.Common.Run
import HmrRpc.Common.Ring
import HmrRpc.Common.Ledger
import HmrRpc.Common.Bytes
import HmrRpc.Types
import HmrRpc.Mempool
import HmrRpc.Transport
import HmrRpc.Task
import HmrRpc.Send
import HmrRpc.SendTaskHandler
import HmrRpc.Completion
import HmrRpc.CompletionResult
import HmrRpc.TransportRun
import HmrRpc.SendBounds
import HmrRpc.SendBuffers
import HmrRpc.FlushInterleaving
import HmrRpc.RemoteCursor
import HmrRpc.CompletionQueue
import HmrRpc.TaskOwnership
import HmrRpc.RecvRing
import HmrRpc.CmEvents
import HmrRpc.Lifecycle
import HmrRpc.TwoParty
import HmrRpc.RemoteKey
import HmrRpc.ExchangeView
import HmrRpc.MrExchange
import HmrRpc.StateOrder
import HmrRpc.CompletionChannel
import HmrRpc.Common.Chain
import HmrRpc.AcceptQueue
import HmrRpc.ConnectAttempt
import HmrRpc.Session
import HmrRpc.EventThread
import HmrRpc.MrOnce
import HmrRpc.MessageFlow
import HmrRpc.GracefulClose
import HmrRpc.Resources
import HmrRpc.Context
import HmrRpc.Registrations
import HmrRpc.Dispatch
import HmrRpc.ServerResources
import HmrRpc.SendOutcome
import HmrRpc.FlushChain
import HmrRpc.OneSided
import HmrRpc.SendSide
import HmrRpc.FlushArrays
import HmrRpc.Common.Extent
import HmrRpc.FlushFailure
import HmrRpc.Framing
import HmrRpc.FrameConfinement
import HmrRpc.PollLoop
import HmrRpc.Common.PinnedHeap
import HmrRpc.MempoolLedger
import HmrRpc.Common.Decimal
import HmrRpc.ConnectEndpoint
import HmrRpc.AllocWindow
import HmrRpc.Common.CircularList
import HmrRpc.LinuxList
import HmrRpc.Devices
import HmrRpc.DeviceRegistry
import HmrRpc.Common.Format
import HmrRpc.Log
import HmrRpc.Common.Lockstep
import HmrRpc.ListFrame
import HmrRpc.TaskIds
import HmrRpc.TaskList
import HmrRpc.TaskMemory
import HmrRpc.KeptBuffers
import HmrRpc.Delivery
import HmrRpc.OrderlyClose
import HmrRpc.Fabric
import HmrRpc.RemoteRegion
import HmrRpc.SendBudget
import HmrRpc.Scripts
