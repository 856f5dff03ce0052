import TsEngine.Store.SegmentRuns
import TsEngine.Store.LookupTotals
import TsEngine.Store.BucketIntersect
import TsEngine.Store.BitmapMemory
import TsEngine.Store.UnlockedReads
import TsEngine.Engine.Updates
import TsEngine.Engine.Cycles
import TsEngine.Engine.Handshake
import TsEngine.Engine.Release
import TsEngine.Engine.Migration
import TsEngine.Engine.Pointers
import TsEngine.Engine.Candidates
import TsEngine.Engine.Conservation
import TsEngine.Engine.LookupSafety
import TsEngine.Engine.Accounts
import TsEngine.Engine.LookupCalls
import TsEngine.Engine.Delivery
import TsEngine.Store.UthashRuns
import TsEngine.Store.SegmentTables
import TsEngine.Tasks.QueueFifo
import TsEngine.Tasks.SpinQueue
import TsEngine.Tasks.Wakeup
import TsEngine.Tasks.PoolLife
import TsEngine.Net.Lifecycle
import TsEngine.Net.Framing
import TsEngine.Net.Query
import TsEngine.Net.Acknowledge
