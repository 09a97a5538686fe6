import OpenTams.Table
import OpenTams.Txn
import OpenTams.TxnSound
import OpenTams.Serial
import OpenTams.Timerange
import OpenTams.Calls
import OpenTams.History
import OpenTams.RefCount
import OpenTams.TimerangeSound
import OpenTams.TimerangeText
import OpenTams.DeleteFlowConc
import OpenTams.Freeze
import OpenTams.FirstUse
import OpenTams.KeyOnce
import OpenTams.Base64
import OpenTams.Batching
import OpenTams.CachedReplay
import OpenTams.Cursor
import OpenTams.DeleteSound
import OpenTams.FlowPages
import OpenTams.ObjectTimerange
import OpenTams.Retry
import OpenTams.Backend
import OpenTams.Deadlock
import OpenTams.EssenceFrozen
import OpenTams.FlowFormats
import OpenTams.FlowFresh
import OpenTams.SegmentDeadlock
import OpenTams.SourceLife
import OpenTams.ListFilters
import OpenTams.ListedAsSent
import OpenTams.RangeLanguage
import OpenTams.RegisterPartition
import OpenTams.RangeBuilt
import OpenTams.RangeExact
import OpenTams.ListRanges
import OpenTams.ObjectDelete
import OpenTams.ClientRange
import OpenTams.Fork
import OpenTams.Paginate
import OpenTams.DatasetCollections
import OpenTams.DatasetSegments
import OpenTams.LoadEngine
import OpenTams.UrlPool
import OpenTams.SegmentClient
import OpenTams.RegisterClient
import OpenTams.Gateway
import OpenTams.Playlist
import OpenTams.WriteRegions
import OpenTams.Perftest
import OpenTams.Allocate
import OpenTams.Authentication
