import Lxp.Loader.Preflight
import Lxp.Execve.Refusal
import Lxp.Vfork.Window
import Lxp.Family.Queue
import Lxp.Clone.Abort
import Lxp.Tasks.Native
import Lxp.Scan.Deadline
import Lxp.Overlay.Listing
import Lxp.Stream.Instance
import Lxp.Stream.Writev
import Lxp.Display.Dma2d
import Lxp.Guest.Mpu
import Lxp.Netfs.Trace
import Lxp.Netfs.Fids
import Lxp.Stream.Records
import Lxp.Stream.Console
import Lxp.Overlay.Opens
import Lxp.Run.Sigpipe
import Lxp.Block.Lease
import Lxp.Overlay.Resolve
import Lxp.Run.Burst
import Lxp.Scan.Fairness
