import ZephyrDB.Lib.LittleEndian
import ZephyrDB.Lib.Crc32
import ZephyrDB.Lib.Decimal
import ZephyrDB.Lib.Double
import ZephyrDB.Lib.Effect
import ZephyrDB.Lib.Noted
import ZephyrDB.Lib.Transition
import ZephyrDB.Lib.Walk
import ZephyrDB.Lib.FileSystem
import ZephyrDB.Lib.Drive
import ZephyrDB.Lib.IdStore
import ZephyrDB.Lib.SegLog
import ZephyrDB.Lib.Feed
import ZephyrDB.Lib.RingLog
import ZephyrDB.Lib.Ledger
import ZephyrDB.Core
import ZephyrDB.Ts.Record
import ZephyrDB.Ts.Codec
import ZephyrDB.Ts.Path
import ZephyrDB.Ts.Segment
import ZephyrDB.Ts.Stream
import ZephyrDB.Ts.Cursor
import ZephyrDB.Ts.Run
import ZephyrDB.Ts.Log
import ZephyrDB.Ts.Frame
import ZephyrDB.Ts.SegmentSpec
import ZephyrDB.Ts.SlotSpec
import ZephyrDB.Ts.AppendSpec
import ZephyrDB.Ts.Store
import ZephyrDB.Ts.World
import ZephyrDB.Ts.Recover
import ZephyrDB.Ts.Session
import ZephyrDB.Ts.Opening
import ZephyrDB.Ts.Ingest
import ZephyrDB.Ts.Ahead
import ZephyrDB.Ts.FlushSync
import ZephyrDB.Ts.FlushSyncSpec
import ZephyrDB.Ts.Reopen
import ZephyrDB.Ts.Fcb
import ZephyrDB.Ts.FcbSpec
import ZephyrDB.Ts.Reading
import ZephyrDB.Ts.Held
import ZephyrDB.Ts.Lifetime
import ZephyrDB.Ts.Diagnostics
import ZephyrDB.Ts.RecoveryStats
import ZephyrDB.Ts.Tail
import ZephyrDB.Ts.Salvage
import ZephyrDB.Ts.Staging
import ZephyrDB.Ts.Yield
import ZephyrDB.Ts.Opened
import ZephyrDB.Ts.Withheld
import ZephyrDB.Ts.Whole
import ZephyrDB.Ts.Observe
import ZephyrDB.Ts.Aggregate
import ZephyrDB.Ts.Batch
import ZephyrDB.Ts.Watermark
import ZephyrDB.Ts.Pool
import ZephyrDB.Ts.PoolSpec
import ZephyrDB.Ts.PoolErasure
import ZephyrDB.Ts.Desk
import ZephyrDB.Ts.Eventing
import ZephyrDB.Ts.Accounts
import ZephyrDB.Ts.EventingErasure
import ZephyrDB.Ts.EventingLog
import ZephyrDB.Ts.Drain
import ZephyrDB.Ts.Trail
import ZephyrDB.Ts.TrailErasure
import ZephyrDB.Ts.Calm
import ZephyrDB.Ts.TrailLaw
import ZephyrDB.Ts.Told
import ZephyrDB.Ts.Health
import ZephyrDB.Ts.SegmentCount
import ZephyrDB.Ts.Holdings
import ZephyrDB.Ts.Packing
import ZephyrDB.Ts.Taking
import ZephyrDB.Ts.Truthful
import ZephyrDB.Kv.Record
import ZephyrDB.Kv.Store
import ZephyrDB.Kv.Run
import ZephyrDB.Kv.Frame
import ZephyrDB.Kv.Collide
import ZephyrDB.Kv.Delivery
import ZephyrDB.Kv.Reset
import ZephyrDB.Kv.Spec
import ZephyrDB.Kv.Index
import ZephyrDB.Kv.Chart
import ZephyrDB.Kv.Steady
import ZephyrDB.Kv.Walk
import ZephyrDB.Kv.Thorough
import ZephyrDB.Kv.Crash
import ZephyrDB.Kv.Rollback
import ZephyrDB.Kv.Merge
import ZephyrDB.Kv.Clear
import ZephyrDB.Kv.Forget
import ZephyrDB.Kv.Iteration
import ZephyrDB.Kv.Text
import ZephyrDB.Doc.Document
import ZephyrDB.Doc.File
import ZephyrDB.Doc.Format
import ZephyrDB.Doc.Decode
import ZephyrDB.Doc.Save
import ZephyrDB.Doc.Fields
import ZephyrDB.Doc.Cut
import ZephyrDB.Doc.Flip
import ZephyrDB.Doc.Crash
import ZephyrDB.Doc.Isolation
import ZephyrDB.Doc.Query
import ZephyrDB.Doc.QuerySpec
import ZephyrDB.Doc.Filter
import ZephyrDB.Doc.Reported
import ZephyrDB.Ts.Answers
import ZephyrDB.Ts.Alone
import ZephyrDB.Ts.Shutdown
import ZephyrDB.Core.Alarm
import ZephyrDB.Ts.StatsExport
import ZephyrDB.Kv.Refine
import ZephyrDB.Doc.Cabinet
import ZephyrDB.Doc.History
import ZephyrDB.Doc.Refine
import ZephyrDB.Kv.Eventing
import ZephyrDB.Kv.Mirror
import ZephyrDB.Ts.Flipped
import ZephyrDB.Ts.Rewind
import ZephyrDB.Ts.Counted
