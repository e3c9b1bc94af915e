import Talon.Buffer.Freshness
import Talon.Buffer.Values
import Talon.Handler.AnsweringProofs
import Talon.Handler.Stream
import Talon.Handler.Reordering
import Talon.Handler.Resubmission
import Talon.Handler.Rejection
import Talon.Handler.Failure
import Talon.Handler.Transfer
import Talon.Handler.Isolation
import Talon.Handler.ChainProofs
import Talon.Handler.Conservation
import Talon.Handler.Deletion
import Talon.Handler.Shutdown
import Talon.Handler.Signals
import Talon.Handler.Uninitialised
import Talon.Memory.StackProofs
import Talon.Memory.StackProgress
import Talon.Memory.Slabs
import Talon.Memory.Mutex
import Talon.Memory.Exits
import Talon.Memory.Carving
import Talon.Net.TcpClient
import Talon.Net.TcpServer
import Talon.Ring.CompletionProofs
import Talon.Ring.FillingProofs
import Talon.Ring.SubmissionProofs
import Talon.Ring.UserData
import Talon.Task.DoneStateProofs
import Talon.Task.InlineFunctionProofs
import Talon.Task.NextTask
import Talon.Waiting.Outcome
