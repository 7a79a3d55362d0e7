import TcgLog.Bytes
import TcgLog.Io
import TcgLog.Types
import TcgLog.EventData
import TcgLog.SpecIdEvent
import TcgLog.Stream
import TcgLog.Log
import TcgLog.LogRuns
import TcgLog.Records
import TcgLog.RoundTrip
import TcgLog.Chunking
import TcgLog.ReaderSpec
import TcgLog.EventInvariant
import TcgLog.Accepted
import TcgLog.Faults
import TcgLog.Streaming
import TcgLog.Options
import TcgLog.FileSource
