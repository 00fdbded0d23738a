import SegmentLog.Log
import SegmentLog.Main
import SegmentLog.Proofs.Concurrent.Fitting
import SegmentLog.Proofs.Concurrent.Growing
import SegmentLog.Proofs.Concurrent.InFlight
import SegmentLog.Proofs.Concurrent.Numbers
import SegmentLog.Proofs.Concurrent.Places
import SegmentLog.Proofs.Concurrent.Retention
import SegmentLog.Proofs.Concurrent.Waiting
import SegmentLog.Proofs.Frame.Truncation
import SegmentLog.Proofs.Inspection.Dumping
import SegmentLog.Proofs.Log.Finding
import SegmentLog.Proofs.Log.Leftovers
import SegmentLog.Proofs.Log.Lifecycle
import SegmentLog.Proofs.Log.Session
import SegmentLog.Proofs.Replay.Damage
import SegmentLog.Proofs.Replay.Floor
import SegmentLog.Proofs.Replay.Format
import SegmentLog.Proofs.Replay.Summary
import SegmentLog.Proofs.Replay.Torn
import SegmentLog.Proofs.Replay.Truncation
import SegmentLog.Proofs.Segment.Claiming
import SegmentLog.Proofs.Store.Ascending
import SegmentLog.Proofs.Store.Cleaning
import SegmentLog.Proofs.Store.Concealing
import SegmentLog.Proofs.Store.Failing
import SegmentLog.Proofs.Store.Mirrored
import SegmentLog.Proofs.Store.Ready
import SegmentLog.Proofs.Store.Reporting
import SegmentLog.Proofs.Store.Rolling
import SegmentLog.Proofs.Store.Stable
import SegmentLog.Proofs.Store.Tail
