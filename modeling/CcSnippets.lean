import CcSnippets.Core.Transition
import CcSnippets.Core.Simulation
import CcSnippets.Core.Termination
import CcSnippets.Core.Tally
import CcSnippets.Core.Recency
import CcSnippets.Core.Inclusion
import CcSnippets.Core.Ownership
import CcSnippets.Core.Timer
import CcSnippets.Core.Cyclic
import CcSnippets.Core.Family
import CcSnippets.Core.ReleaseAcquire
import CcSnippets.Core.Linearizability
import CcSnippets.Core.Relay
import CcSnippets.Core.Monitor
import CcSnippets.Core.Paging
import CcSnippets.Core.Strand
import CcSnippets.Null.BlockingQueue.Basic
import CcSnippets.Null.BlockingQueue.Steps
import CcSnippets.Null.BlockingQueue.Wakeups
import CcSnippets.Null.BlockingQueue.Fifo
import CcSnippets.Null.BlockingQueue.EndOfStream
import CcSnippets.Null.BlockingQueue.Exceptions
import CcSnippets.Null.BlockingQueue.Losses
import CcSnippets.Null.BlockingQueue.Observers
import CcSnippets.Null.BlockingQueue.Linearizable
import CcSnippets.Null.BlockingQueue.Closing
import CcSnippets.Null.LruCache.Basic
import CcSnippets.Null.LruCache.Corresponds
import CcSnippets.Null.LruCache.Refines
import CcSnippets.Null.LruCache.ClosedForm
import CcSnippets.Null.LruCache.Inclusion
import CcSnippets.Null.LruCache.Competitive
import CcSnippets.Null.LruCache.Pointers
import CcSnippets.Null.LruCache.Exceptions
import CcSnippets.Null.LruCache.Concurrent
import CcSnippets.Null.LruCache.Linearizable
import CcSnippets.Null.SpscRingBuffer.Basic
import CcSnippets.Null.SpscRingBuffer.Steps
import CcSnippets.Null.SpscRingBuffer.Delivery
import CcSnippets.Null.SpscRingBuffer.Observers
import CcSnippets.Null.SpscRingBuffer.Sequential
import CcSnippets.Null.SpscRingBuffer.Linearizable
import CcSnippets.Null.SpscRingBuffer.Orders
import CcSnippets.Null.SpscRingBuffer.RaceFree
import CcSnippets.Null.SpscRingBuffer.Unheard
import CcSnippets.Null.SharedPtr.ControlBlock
import CcSnippets.Null.SharedPtr.Protocol
import CcSnippets.Null.SharedPtr.Safety
import CcSnippets.Null.SharedPtr.Basic
import CcSnippets.Null.SharedPtr.Accounts
import CcSnippets.Null.SharedPtr.Balance
import CcSnippets.Null.SharedPtr.Sound
import CcSnippets.Null.SharedPtr.Steps
import CcSnippets.Null.SharedPtr.Unwinds
import CcSnippets.Null.SharedPtr.Calls
import CcSnippets.Null.SharedPtr.Counts
import CcSnippets.Null.SharedPtr.Cascade
import CcSnippets.Null.SharedPtr.Handles
import CcSnippets.Null.SharedPtr.Disposal
import CcSnippets.Null.SharedPtr.Orders
import CcSnippets.Null.SharedPtr.Releases
import CcSnippets.Null.SharedPtr.RaceFree
import CcSnippets.Null.SharedPtr.LockFree
import CcSnippets.Null.UniquePtr.Basic
import CcSnippets.Null.UniquePtr.Sound
import CcSnippets.Null.UniquePtr.Calls
import CcSnippets.Null.UniquePtr.Ownership
import CcSnippets.Null.UniquePtr.Deleters
import CcSnippets.Asio.Basic
import CcSnippets.Asio.Waits
import CcSnippets.Asio.WindDown
import CcSnippets.Asio.Printer.Basic
import CcSnippets.Asio.Printer.Steps
import CcSnippets.Asio.Printer.Strand
import CcSnippets.Asio.Printer.Runs
import CcSnippets.Asio.Proxy.Basic
import CcSnippets.Asio.Proxy.Steps
import CcSnippets.Asio.Proxy.Relay
import CcSnippets.Asio.Proxy.Close
import CcSnippets.Asio.Proxy.Watched
import CcSnippets.Asio.Proxy.Faithful
import CcSnippets.Asio.Proxy.Waits
import CcSnippets.Asio.Proxy.WindDown
import CcSnippets.Asio.Proxy.Paid
import CcSnippets.Asio.Proxy.Threads
import CcSnippets.Asio.Echo.Basic
import CcSnippets.Asio.Echo.Steps
import CcSnippets.Asio.Echo.Watched
import CcSnippets.Asio.Echo.Timeouts
import CcSnippets.Asio.Echo.Machine
import CcSnippets.Asio.Echo.Callbacks
import CcSnippets.Asio.Echo.Coroutine
import CcSnippets.Asio.Echo.Coroutine.Steps
import CcSnippets.Asio.Echo.Coroutines
import CcSnippets.Asio.Echo.Variants
import CcSnippets.Asio.Echo.WindDown
import CcSnippets.Asio.Echo.Coroutine.WindDown
import CcSnippets.Asio.Echo.Threads
import CcSnippets.Asio.Watchdogs
import CcSnippets.Asio.Sessions
import CcSnippets.Asio.Server
import CcSnippets.Asio.Client.Basic
import CcSnippets.Asio.Client.Counts
import CcSnippets.Asio.Client.Monitor
import CcSnippets.Asio.Client.Steps
import CcSnippets.Asio.Client.Stop
import CcSnippets.Asio.Client.Session
import CcSnippets.Asio.Relays
import CcSnippets.Asio.EndToEnd
