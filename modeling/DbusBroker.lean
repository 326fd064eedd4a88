import DbusBroker.Lib.SearchTree
import DbusBroker.Lib.Run
import DbusBroker.Lib.RefIndex
import DbusBroker.Lib.Heap
import DbusBroker.Lib.Strongest
import DbusBroker.Lib.AlignedReader
import DbusBroker.Lib.ReaderLanguage
import DbusBroker.Lib.Compaction
import DbusBroker.Lib.RunningMean
import DbusBroker.Lib.RedBlack
import DbusBroker.Lib.TreeWalk
import DbusBroker.Util.User
import DbusBroker.Util.UserBooks
import DbusBroker.Util.UserBooksStep
import DbusBroker.Util.Accounting
import DbusBroker.Util.UserFairness
import DbusBroker.Util.UserCrowd
import DbusBroker.Util.Strings
import DbusBroker.Util.Systemd
import DbusBroker.Util.Dispatch
import DbusBroker.Util.Sampler
import DbusBroker.Dbus.Protocol
import DbusBroker.Dbus.ObjectPath
import DbusBroker.Dbus.NameGrammar
import DbusBroker.Dbus.Sasl
import DbusBroker.Dbus.SaslStream
import DbusBroker.Dbus.Address
import DbusBroker.Dbus.Message
import DbusBroker.Dbus.Dvar
import DbusBroker.Dbus.Utf8
import DbusBroker.Dbus.TypeGrammar
import DbusBroker.Dbus.TypeLayout
import DbusBroker.Dbus.Marshalling
import DbusBroker.Dbus.MarshalledHeader
import DbusBroker.Dbus.UniqueName
import DbusBroker.Dbus.UniqueId
import DbusBroker.Dbus.MessageParse
import DbusBroker.Dbus.MessageStitch
import DbusBroker.Dbus.MessageFields
import DbusBroker.Dbus.SenderField
import DbusBroker.Dbus.MessageWire
import DbusBroker.Dbus.StitchedSender
import DbusBroker.Dbus.StitchedSize
import DbusBroker.Bus.MatchKeys
import DbusBroker.Bus.MatchPaths
import DbusBroker.Bus.MatchValue
import DbusBroker.Bus.MatchGrammar
import DbusBroker.Bus.MatchParse
import DbusBroker.Bus.RuleString
import DbusBroker.Bus.MatchCompare
import DbusBroker.Lib.Terminated
import DbusBroker.Bus.MatchBuffer
import DbusBroker.Bus.MatchClone
import DbusBroker.Bus.MatchRegistry
import DbusBroker.Bus.MatchIndex
import DbusBroker.Bus.MatchScan
import DbusBroker.Lib.RefChecks
import DbusBroker.Bus.MatchRefs
import DbusBroker.Bus.MatchMeaning
import DbusBroker.Bus.Name
import DbusBroker.Bus.NameBooks
import DbusBroker.Bus.NameQueue
import DbusBroker.Bus.NameRequest
import DbusBroker.Bus.NameRun
import DbusBroker.Bus.Policy
import DbusBroker.Bus.PolicyVerdicts
import DbusBroker.Bus.PeerGroups
import DbusBroker.Bus.PolicyImport
import DbusBroker.Bus.PolicyOwn
import DbusBroker.Util.UserAccounts
import DbusBroker.Bus.MatchOwner
import DbusBroker.Bus.MatchCounts
import DbusBroker.Bus.Reply
import DbusBroker.Bus.ReplyBooks
import DbusBroker.Bus.Activation
import DbusBroker.Bus.NameActivation
import DbusBroker.Broker.Controller
import DbusBroker.Broker.QuotaFailure
import DbusBroker.Dbus.Connection
import DbusBroker.Dbus.SocketOut
import DbusBroker.Dbus.SocketStream
import DbusBroker.Dbus.IQueue
import DbusBroker.Dbus.Socket
import DbusBroker.Dbus.SocketLife
import DbusBroker.Dbus.SocketSides
import DbusBroker.Dbus.Framing
import DbusBroker.Dbus.FramingQueue
import DbusBroker.Dbus.FramingSocket
import DbusBroker.Dbus.FramingRun
import DbusBroker.Dbus.FramingFds
import DbusBroker.Bus.Bus
import DbusBroker.Bus.Peer
import DbusBroker.Bus.Driver
import DbusBroker.Bus.Dispatch
import DbusBroker.Bus.Sends
import DbusBroker.Bus.Core
import DbusBroker.Bus.Moves
import DbusBroker.Bus.Order
import DbusBroker.Bus.OrderRules
import DbusBroker.Bus.OrderNames
import DbusBroker.Bus.MovesNames
import DbusBroker.Bus.MovesReplies
import DbusBroker.Bus.MovesRules
import DbusBroker.Bus.MovesActivation
import DbusBroker.Bus.MovesGoodbye
import DbusBroker.Bus.MovesMethods
import DbusBroker.Bus.MovesDispatch
import DbusBroker.Broker.Broker
import DbusBroker.Broker.BrokerMoves
import DbusBroker.Broker.Goodbye
import DbusBroker.Lib.Budget
import DbusBroker.Util.Balances
import DbusBroker.Broker.Accounted
import DbusBroker.Broker.Bills
import DbusBroker.Broker.Fatal
import DbusBroker.Lib.Record
import DbusBroker.Broker.Record
import DbusBroker.Broker.NameLog
import DbusBroker.Broker.ActivationLog
import DbusBroker.Broker.ReplyLog
import DbusBroker.Broker.Queries
import DbusBroker.Launch.Service
import DbusBroker.Launch.ActivationProtocol
import DbusBroker.Launch.Policy
import DbusBroker.Launch.PolicyRules
import DbusBroker.Launch.PolicyExport
import DbusBroker.Launch.PolicyOptimize
import DbusBroker.Launch.PolicyRecords
import DbusBroker.Launch.PolicyConnect
import DbusBroker.Launch.NssCache
import DbusBroker.Launch.NssLookups
import DbusBroker.Launch.NssRuns
import DbusBroker.Launch.NssTeardown
import DbusBroker.Launch.ConsoleRanges
import DbusBroker.Lib.Forest
import DbusBroker.Lib.Worklist
import DbusBroker.Launch.ConfigParser
import DbusBroker.Launch.ConfigForest
import DbusBroker.Launch.ConfigFlatten
import DbusBroker.Launch.ConfigChains
import DbusBroker.Launch.Reload
import DbusBroker.Launch.ReloadEntries
import DbusBroker.Launch.ReloadRuns
import DbusBroker.Launch.TransientUnits
import DbusBroker.Rbtree.Memory
import DbusBroker.Rbtree.Held
import DbusBroker.Rbtree.Link
import DbusBroker.Rbtree.Rebalance
import DbusBroker.Rbtree.Unlink
import DbusBroker.Rbtree.Search
import DbusBroker.Rbtree.Runs
import DbusBroker.Rbtree.Traverse
