import FastCgi.Lib.BoundedLoop
import FastCgi.Lib.ByteMem
import FastCgi.Lib.Runs
import FastCgi.Lib.Numeral
import FastCgi.Lib.Sprintf
import FastCgi.Protocol.Record
import FastCgi.Protocol.NameValue
import FastCgi.Protocol.Response
import FastCgi.App.Stream
import FastCgi.App.Reader
import FastCgi.App.ReaderView
import FastCgi.App.ReaderRefinement
import FastCgi.App.FillRefinement
import FastCgi.App.RecordSteps
import FastCgi.App.ReaderRun
import FastCgi.App.Reassembly
import FastCgi.App.Management
import FastCgi.App.RecordEnds
import FastCgi.App.Writer
import FastCgi.App.WriterSteps
import FastCgi.App.WriterSpec
import FastCgi.App.Request
import FastCgi.App.ReadInvariant
import FastCgi.App.WriteInvariant
import FastCgi.App.RequestData
import FastCgi.App.Accept
import FastCgi.App.Environment
import FastCgi.App.Respond
import FastCgi.App.Session
import FastCgi.App.FilterData
import FastCgi.App.RequestWire
import FastCgi.App.Padding
import FastCgi.App.KeepAlive
import FastCgi.App.ExitStatus
import FastCgi.App.Descriptors
import FastCgi.App.VFPrintF
import FastCgi.Os.OsAccept
import FastCgi.Os.AsyncIo
import FastCgi.Bridge.Relay
import FastCgi.Bridge.EventLoop
import FastCgi.Bridge.Stdin
import FastCgi.Bridge.Environ
import FastCgi.Os.PostedEvents
import FastCgi.App.WriterBounds
import FastCgi.App.Stdio
import FastCgi.Cxx.Streambuf
import FastCgi.App.QueryReads
import FastCgi.App.ReaderTotal
import FastCgi.App.UngetMark
import FastCgi.Java.OutputStream
import FastCgi.Java.SameRecords
import FastCgi.Java.InputStream
import FastCgi.Java.StreamScan
import FastCgi.Java.ReaderLaws
import FastCgi.Java.FillScan
import FastCgi.Java.EndsCleanly
import FastCgi.App.PrintfSpecifier
import FastCgi.App.PrintfBounds
import FastCgi.App.ByteCalls
import FastCgi.App.Pushback
import FastCgi.App.ParamsGrammar
import FastCgi.App.RefusedWrites
import FastCgi.App.QueryReply
import FastCgi.App.GetParam
import FastCgi.Perl.PopulateEnv
import FastCgi.Perl.Requests
import FastCgi.Perl.Changes
import FastCgi.Perl.Programs
import FastCgi.Perl.Handles
import FastCgi.Perl.Dialogues
import FastCgi.Os.CompletionPort
import FastCgi.Lib.Search
import FastCgi.Os.AddrCheck
import FastCgi.Bridge.CommandFile
import FastCgi.Bridge.OutputWrites
import FastCgi.Java.InsideRecord
import FastCgi.Java.ManagementReply
import FastCgi.Java.SecondBegin
import FastCgi.App.ItemCounts
import FastCgi.Java.Skip
import FastCgi.App.FailedConnections
import FastCgi.App.Unseen
import FastCgi.App.PrintfFormat
import FastCgi.App.PrintfOutput
import FastCgi.App.CoveredReplies
import FastCgi.App.StaleMemory
import FastCgi.Lib.BlockHeap
import FastCgi.App.ParamsVector
import FastCgi.App.ParamsMemory
import FastCgi.App.GrowingWire
import FastCgi.Bridge.Gateway
import FastCgi.App.Conversation
import FastCgi.App.SessionTotal
import FastCgi.Lib.Attempts
import FastCgi.Cxx.StreambufOutput
import FastCgi.Lib.Lines
import FastCgi.App.GetLine
import FastCgi.Os.AcceptLock
import FastCgi.Java.OwnRecords
import FastCgi.Java.Accept
