import Libam.Concurrency.Cells
import Libam.Stack.Invariant
import Libam.Stack.Progress
import Libam.CQueue.Invariant
import Libam.CQueue.Fifo
import Libam.CQueue.Linearizable
import Libam.CQueue.Progress
import Libam.LStack.Invariant
import Libam.LStack.Sequential
import Libam.LStack.Linearizable
import Libam.LStack.Progress
import Libam.AvlTree.Runs
import Libam.ITree.Runs
import Libam.ITree.Height
import Libam.ITree.Paired
import Libam.Stats.Combined
import Libam.Hash
import Libam.Pool.Calls
import Libam.Pool.Isolation
import Libam.Pool.Totals
import Libam.Pool.Hierarchy
import Libam.Pool.Lineage
import Libam.Pool.Exhaustion
import Libam.Pool.Diagnosis
import Libam.Pool.Validation
import Libam.Strhash.Locking
import Libam.Strhash.Refinement
import Libam.Strhash.Failure
import Libam.Strhash.Load
import Libam.Strhash.Values
import Libam.Strhash.Twins
import Libam.Strhash.NullKey
import Libam.Strhash.Linearizable
import Libam.Log.Messages
import Libam.Log.Report
import Libam.Log.Unregister
import Libam.Log.Hex
import Libam.Log.Layout
import Libam.ThreadPool.Admission
import Libam.ThreadPool.Drained
import Libam.ThreadPool.Leaks
import Libam.ThreadPool.Minimum
import Libam.ThreadPool.Statistics
import Libam.Opts.Numeric
import Libam.Opts.Reading
import Libam.Fdopers.Ports
import Libam.Fdopers.Files
import Libam.Fdopers.Descriptors
import Libam.Fdopers.FirstFit
import Libam.Fdopers.Contents
import Libam.Time.Stop
import Libam.Capacities
import Libam.ThreadPool.Teardown
