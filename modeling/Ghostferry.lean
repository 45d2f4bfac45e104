import Ghostferry.Lib.Machine
import Ghostferry.Lib.Cas
import Ghostferry.Lib.Keyset
import Ghostferry.Lib.LittleEndian
import Ghostferry.Lib.Assoc
import Ghostferry.Lib.Batching
import Ghostferry.Cursor
import Ghostferry.Run
import Ghostferry.Value
import Ghostferry.Mysql.Lexer
import Ghostferry.Mysql.Dml
import Ghostferry.Mysql.Query
import Ghostferry.Literal
import Ghostferry.Config
import Ghostferry.Schema
import Ghostferry.TableSchemaCache
import Ghostferry.DmlEvents
import Ghostferry.RowBatch
import Ghostferry.BinlogEvents
import Ghostferry.BinlogWriter.Replay
import Ghostferry.Retries
import Ghostferry.Sharding.CopyFilter
import Ghostferry.Sharding.TableFilter
import Ghostferry.Sharding.ApplicableEvent
import Ghostferry.Verifier.Iterative
import Ghostferry.Verifier.Fingerprint
import Ghostferry.Verifier.ReverifyStore
import Ghostferry.DataIterator
import Ghostferry.DataIterator.Progress
import Ghostferry.DataIterator.Copy
import Ghostferry.Status
import Ghostferry.BinlogWriter.Run
import Ghostferry.WorkerPool
import Ghostferry.Verifier.VerifyStore
import Ghostferry.BinlogStreamer
import Ghostferry.Lib.Except
import Ghostferry.Verifier.VerifyOnce
import Ghostferry.Copydb.Filter
import Ghostferry.Sharding.Cutover
import Ghostferry.DataIterator.SpeedLog
import Ghostferry.Verifier.Checksum
import Ghostferry.Lib.WaitGroup
import Ghostferry.Verifier.Background
import Ghostferry.Copydb.Run
import Ghostferry.Mysql.Statement
