import RediSearch.Document.Types
import RediSearch.Document.SetDocument
import RediSearch.Document.SetDocumentSpec
import RediSearch.Document.Preprocess
import RediSearch.Index.Store
import RediSearch.Index.Bulk
import RediSearch.Ingest.World
import RediSearch.Ingest.Indexer
import RediSearch.Ingest.UpdateNoIndex
import RediSearch.Ingest.Submit
import RediSearch.GC.Collector
import RediSearch.GC.Pass
import RediSearch.GC.Reach
import RediSearch.GC.Records
import RediSearch.GC.Confine
import RediSearch.Ingest.Buffers
import RediSearch.GC.Iterator
import RediSearch.GC.Batches
import RediSearch.Ingest.Completion
import RediSearch.GC.Rate
import RediSearch.System.Isolation
import RediSearch.GC.Safety
import RediSearch.System.Retention
import RediSearch.System.Findable
import RediSearch.System.Concurrent
import RediSearch.System.Host
import RediSearch.GC.Termination
import RediSearch.GC.FieldTails
