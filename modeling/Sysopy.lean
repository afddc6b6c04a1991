import Sysopy.Foundation.System
import Sysopy.Foundation.Tally
import Sysopy.Foundation.Ring
import Sysopy.Foundation.Framing
import Sysopy.Foundation.CString
import Sysopy.Foundation.Broadcast
import Sysopy.Foundation.Memory
import Sysopy.Foundation.Ints
import Sysopy.Foundation.Lines
import Sysopy.Foundation.FixedWidth
import Sysopy.Foundation.Mutex
import Sysopy.Foundation.Chain
import Sysopy.Foundation.Ascending
import Sysopy.Foundation.Bubble
import Sysopy.Foundation.Records
import Sysopy.Foundation.Signals
import Sysopy.Foundation.ProcessTree
import Sysopy.Foundation.RecordLocks
import Sysopy.Foundation.LockRanges
import Sysopy.Foundation.Channel
import Sysopy.Foundation.Pieces
import Sysopy.TaskQueue.Ipc
import Sysopy.TaskQueue.Accounting
import Sysopy.TaskQueue.Fifo
import Sysopy.TaskQueue.Startup
import Sysopy.TaskQueue.Interrupt
import Sysopy.TaskQueue.Timestamp
import Sysopy.TaskQueue.Primality
import Sysopy.TaskQueue.Progress
import Sysopy.StreamServer.Server
import Sysopy.StreamServer.Descriptors
import Sysopy.StreamServer.Relay
import Sysopy.ChatClient.Client
import Sysopy.ChatClient.Delivery
import Sysopy.ChatClient.Flush
import Sysopy.ChatClient.Buffer
import Sysopy.DatagramServer.Table
import Sysopy.DatagramServer.Server
import Sysopy.DatagramServer.Relay
import Sysopy.DatagramServer.Mirror
import Sysopy.DatagramServer.Expiry
import Sysopy.DatagramServer.Heard
import Sysopy.ChatClient.Typed
import Sysopy.ChatClient.Chat
import Sysopy.ChatClient.StreamChat
import Sysopy.DatagramServer.LocalAddress
import Sysopy.ChatClient.Incoming
import Sysopy.QueueChat.Slots
import Sysopy.QueueChat.SysV
import Sysopy.QueueChat.Posix
import Sysopy.QueueChat.Members
import Sysopy.QueueChat.Counting
import Sysopy.QueueChat.Connect
import Sysopy.QueueChat.Fields
import Sysopy.QueueChat.MessageType
import Sysopy.QueueChat.Exclusive
import Sysopy.QueueChat.SecondStart
import Sysopy.QueueChat.Sender
import Sysopy.QueueChat.Conversation
import Sysopy.QueueChat.Wedge
import Sysopy.QueueChat.OwnQueues
import Sysopy.QueueChat.OwnQueuesDelivery
import Sysopy.QueueChat.OwnQueuesWedge
import Sysopy.ChatClient.EndOfInput
import Sysopy.Philosophers.Dining
import Sysopy.Philosophers.Exclusion
import Sysopy.Philosophers.Progress
import Sysopy.Philosophers.Dinner
import Sysopy.ReadersWriters.Library
import Sysopy.ReadersWriters.Snapshot
import Sysopy.ReadersWriters.Atomic
import Sysopy.ReadersWriters.Progress
import Sysopy.ThreadedSearch.Search
import Sysopy.ThreadedSearch.Batches
import Sysopy.ThreadedSearch.Coverage
import Sysopy.ThreadedSearch.Matches
import Sysopy.ThreadedSearch.Cancel
import Sysopy.ThreadedSearch.End
import Sysopy.LinkedList.Functions
import Sysopy.LinkedList.Links
import Sysopy.LinkedList.Sequence
import Sysopy.LinkedList.Sort
import Sysopy.LinkedList.Handles
import Sysopy.LinkedList.Termination
import Sysopy.LinkedList.Walks
import Sysopy.LinkedList.Incomplete
import Sysopy.RecordSort.Backends
import Sysopy.RecordSort.Sort
import Sysopy.RecordSort.Failures
import Sysopy.RecordSort.Interchange
import Sysopy.RecordSort.Offsets
import Sysopy.FileLock.Commands
import Sysopy.FileLock.Release
import Sysopy.FileLock.Report
import Sysopy.FileLock.Access
import Sysopy.FileLock.Isolation
import Sysopy.FileLock.Parse
import Sysopy.FileLock.Lines
import Sysopy.FileLock.Language
import Sysopy.FileLock.Shell
import Sysopy.SignalExchange.Confirmed
import Sysopy.SignalExchange.ConfirmedHalves
import Sysopy.SignalExchange.ConfirmedParent
import Sysopy.SignalExchange.ConfirmedCount
import Sysopy.SignalExchange.ConfirmedWakeups
import Sysopy.SignalExchange.Unconfirmed
import Sysopy.SignalExchange.UnconfirmedCount
import Sysopy.SignalExchange.UnconfirmedEnd
import Sysopy.SignalExchange.ConfirmedCosts
import Sysopy.SignalExchange.ConfirmedEnd
import Sysopy.FileCounter.Program
import Sysopy.FileCounter.Runs
import Sysopy.FileCounter.Count
import Sysopy.FileCounter.Failures
import Sysopy.NamedPipe.Format
import Sysopy.NamedPipe.Reader
import Sysopy.NamedPipe.Bounds
import Sysopy.TreeCrawler.Crawlers
import Sysopy.TreeCrawler.Listing
import Sysopy.TreeCrawler.Unreadable
import Sysopy.TreeCrawler.Traversal
import Sysopy.TreeCrawler.Agreement
import Sysopy.DirectoryPipe.Processes
import Sysopy.DirectoryPipe.Count
import Sysopy.ProcessCreation.Loops
import Sysopy.ProcessCreation.Counters
import Sysopy.ThreadSignals.Tests
