import Susrv.Native.Proofs.OpenFailure
import Susrv.Native.Proofs.UniqueSession
import Susrv.Native.Proofs.Teardown
import Susrv.Native.Proofs.ShellDeath
import Susrv.Native.Proofs.Delivery
import Susrv.Native.Proofs.BrokenPipe
import Susrv.Native.Proofs.Inheritance
import Susrv.Java.Proofs.Instance
import Susrv.Java.Proofs.Notification
import Susrv.Native.Proofs.LogFile
import Susrv.Native.Proofs.SuLookup
import Susrv.Java.Proofs.Import
import Susrv.Native.Proofs.SessionPaths
import Susrv.Native.Proofs.Completeness
import Susrv.Native.Proofs.PrivateFs
import Susrv.Native.Proofs.LastRead
import Susrv.Native.Proofs.HandlerBuffer
import Susrv.Java.Proofs.PathArguments
import Susrv.Native.Proofs.JniText
import Susrv.Base.JobQueue
import Susrv.Base.Stdio
import Susrv.Java.LastTtyLine
import Susrv.Java.Proofs.NativeLibrary
import Susrv.Native.LogStream
import Susrv.Native.Proofs.CommandOrder
import Susrv.Native.Proofs.Progress
import Susrv.Native.Proofs.Wakeup
import Susrv.Native.Proofs.OpenAlone
import Susrv.Native.SignalMask
import Susrv.Base.Allocator
import Susrv.Native.Proofs.DescriptorView
import Susrv.Native.Proofs.HeapBalance
import Susrv.Native.ScanHeap
