import CrazySnail.Library.Run
import CrazySnail.Library.SearchTree
import CrazySnail.Library.Decoder
import CrazySnail.CString
import CrazySnail.Cb
import CrazySnail.Reader
import CrazySnail.Client
import CrazySnail.Command
import CrazySnail.Dispatch
import CrazySnail.Callbacks
import CrazySnail.System
import CrazySnail.Subscribe
import CrazySnail.Verified.Footprint
import CrazySnail.Verified.ReaderRefinement
import CrazySnail.Verified.Resp
import CrazySnail.Verified.Reading
import CrazySnail.Verified.StreamSeparation
import CrazySnail.Verified.OtherReader
import CrazySnail.Verified.SameReading
import CrazySnail.Verified.Reconnect
import CrazySnail.Verified.Sending
import CrazySnail.Verified.Queue
import CrazySnail.Verified.FailedSend
import CrazySnail.Verified.Registry
import CrazySnail.Verified.Matching
import CrazySnail.Verified.ReplyMatching
import CrazySnail.Verified.Handling
import CrazySnail.Verified.NameTree
import CrazySnail.Verified.RefCounting
import CrazySnail.Verified.Wrappers
import CrazySnail.Verified.ReplyLoop
import CrazySnail.Verified.Confirming
import CrazySnail.Verified.Subscribing
import CrazySnail.Verified.Initialized
import CrazySnail.Verified.CommandFrame
import CrazySnail.Verified.Subscriptions
import CrazySnail.Verified.Assertions
import CrazySnail.Verified.SubscriptionRecords
import CrazySnail.Verified.ConfirmationOrder
import CrazySnail.Verified.SlotOrder
import CrazySnail.Verified.ConfirmationLoop
import CrazySnail.Verified.TreeOrder
import CrazySnail.Verified.LuaImages
import CrazySnail.Verified.ArgumentBounds
import CrazySnail.Verified.ReadBuffers
import CrazySnail.Verified.RequestBlocks
import CrazySnail.Verified.CommandBuffers
import CrazySnail.Verified.StackBalance
import CrazySnail.Verified.Rewriting
import CrazySnail.Verified.FailedSubscription
import CrazySnail.Verified.EventDispatch
import CrazySnail.Verified.GivenFunctions
import CrazySnail.Verified.ExactDelivery
import CrazySnail.Library.LinkedQueue
import CrazySnail.CallbackLists
import CrazySnail.Verified.CallbackQueue
import CrazySnail.Verified.Outstanding
import CrazySnail.Verified.SurplusReplies
import CrazySnail.Verified.HandleDiscipline
import CrazySnail.Verified.Notifications
import CrazySnail.Verified.MonitorMode
import CrazySnail.Verified.RequestPool
import CrazySnail.Verified.TimerNodes
import CrazySnail.Verified.TimerOwnership
import CrazySnail.Verified.TimerStarts
import CrazySnail.Verified.Records
import CrazySnail.Verified.TimerService
import CrazySnail.Sds
import CrazySnail.Verified.SdsContents
import CrazySnail.SdsReader
import CrazySnail.Verified.ReaderMemory
import CrazySnail.Verified.Conversation
import CrazySnail.Verified.References
import CrazySnail.Verified.Conservation
import CrazySnail.Verified.Faultless
import CrazySnail.Verified.Termination
import CrazySnail.SdsArgs
import CrazySnail.Verified.SplitArgs
import CrazySnail.Verified.SplitJoin
import CrazySnail.FrameBuffer
import CrazySnail.Verified.FrameBuffer
