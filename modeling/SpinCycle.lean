import SpinCycle.Go
import SpinCycle.Chain.Basic
import SpinCycle.Chain.Graph
import SpinCycle.Chain.Done
import SpinCycle.Chain.Tries
import SpinCycle.Chain.Traverse
import SpinCycle.Chain.Suspend
import SpinCycle.Chain.Locks
import SpinCycle.Chain.Snapshot
import SpinCycle.Spinc.Find
import SpinCycle.Spinc.Run
import SpinCycle.Spinc.Table
