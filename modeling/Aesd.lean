import Aesd.Library.Exec
import Aesd.Library.Locate
import Aesd.Library.Machine
import Aesd.Library.Span
import Aesd.Library.StagedLog
import Aesd.Library.Window
import Aesd.Library.WriteAt
import Aesd.Driver.CircularBuffer.Positions
import Aesd.Driver.Bounds
import Aesd.Driver.Concurrent.Tasks
import Aesd.Driver.Conservation
import Aesd.Driver.ContentLaw
import Aesd.Driver.Device.Recorded
import Aesd.Driver.EndOfFile
import Aesd.Driver.EntryShape
import Aesd.Driver.LlseekLaw
import Aesd.Driver.Loading
import Aesd.Driver.OpenFiles
import Aesd.Driver.Ownership
import Aesd.Driver.ReadStream
import Aesd.Driver.Wedge
import Aesd.Driver.WriteAtomicity
import Aesd.Server.ConnectionList.MutexBalance
import Aesd.Server.ConnectionList.Receiver
import Aesd.Server.ConnectionReceiver
import Aesd.Server.FileMode
import Aesd.Server.FileSessions.Runs
import Aesd.Server.FullResidual
import Aesd.Server.Grammar
import Aesd.Server.LastCall
import Aesd.Server.ReceiverLoop
import Aesd.Server.Reply
import Aesd.Server.Isolation
import Aesd.Server.Sessions.Content
