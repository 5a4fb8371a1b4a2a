import PbEntityDb.Library.Buffer
import PbEntityDb.Library.Quoted
import PbEntityDb.Proto.Message
import PbEntityDb.Sql.Builder
import PbEntityDb.Sql.Tokens
import PbEntityDb.Engine.Bind
import PbEntityDb.Engine.Collect
import PbEntityDb.Engine.Parse
import PbEntityDb.Library.Calendar
import PbEntityDb.Zdb.Datetime
import PbEntityDb.Engine.Values
import PbEntityDb.Sql.Placeholders
import PbEntityDb.Engine.Agreement
import PbEntityDb.Library.Reader
import PbEntityDb.Sql.Query
import PbEntityDb.Sql.Table
import PbEntityDb.Engine.Load
import PbEntityDb.Engine.Save
import PbEntityDb.Proto.Descriptor
import PbEntityDb.Engine.Read
import PbEntityDb.Engine.RoundTrip
import PbEntityDb.Library.HandOff
import PbEntityDb.Library.Runs
import PbEntityDb.Service.Command
import PbEntityDb.Service.Machine
import PbEntityDb.Service.Progress
import PbEntityDb.Service.Once
import PbEntityDb.Service.Waiting
import PbEntityDb.Service.Shutdown
import PbEntityDb.Service.Order
import PbEntityDb.Service.Delivery
import PbEntityDb.Engine.Cached
import PbEntityDb.Engine.Isolation
import PbEntityDb.Engine.Missing
import PbEntityDb.Engine.Proc
import PbEntityDb.Engine.Execute
import PbEntityDb.Engine.Retry
import PbEntityDb.Engine.Raising
import PbEntityDb.Library.Checked
import PbEntityDb.Service.Stopping
import PbEntityDb.Engine.Failures
import PbEntityDb.Proto.Codec
import PbEntityDb.Service.StoredProc
import PbEntityDb.Engine.Answer
import PbEntityDb.Service.Fresh
import PbEntityDb.Engine.Walks
import PbEntityDb.Service.Limits
import PbEntityDb.Engine.Slots
import PbEntityDb.Engine.Distribution
import PbEntityDb.Engine.Lifetimes
import PbEntityDb.Engine.Integers
import PbEntityDb.Library.Segments
import PbEntityDb.Url.Code
import PbEntityDb.Url.Connection
import PbEntityDb.Url.Parser
import PbEntityDb.Service.Naming
import PbEntityDb.Proto.Manifest
import PbEntityDb.Engine.Attempts
import PbEntityDb.Service.History
import PbEntityDb.Format.Printer
import PbEntityDb.Format.Turns
import PbEntityDb.Library.Numerals
import PbEntityDb.Format.Integers
import PbEntityDb.Format.Conversions
import PbEntityDb.Format.Items
import PbEntityDb.Library.Padding
import PbEntityDb.Format.Layout
import PbEntityDb.Format.Bounds
import PbEntityDb.Format.Independence
import PbEntityDb.Library.Roster
import PbEntityDb.Zdb.Connection
import PbEntityDb.Zdb.ConnectionPool
import PbEntityDb.Zdb.Clients
import PbEntityDb.Zdb.Rules
import PbEntityDb.Zdb.Driver
import PbEntityDb.Format.Truncation
import PbEntityDb.Format.Statements
import PbEntityDb.Library.Varint
import PbEntityDb.Proto.CodedStream
import PbEntityDb.Library.Binary32
import PbEntityDb.Proto.WireFormatLite
import PbEntityDb.Proto.FieldLoop
import PbEntityDb.Proto.UnknownFieldSet
import PbEntityDb.Proto.MessageType
import PbEntityDb.Proto.WireFormat
import PbEntityDb.Proto.Merging
import PbEntityDb.Proto.Accepted
import PbEntityDb.Proto.Reparse
