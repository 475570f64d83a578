import Galio.Mm.PagingWalk
import Galio.Mm.Isolation
import Galio.Process.ElfImage
import Galio.Mm.ShmemRuns
import Galio.Fs.VfsStreams
import Galio.Fs.VfsMirror
import Galio.Fs.VfsLinks
import Galio.Security.OpenAccess
import Galio.Security.Account
import Galio.Fs.Ext2Names
import Galio.Fs.Canonical
import Galio.Net.TcpStream
import Galio.Net.TcpHandshake
import Galio.Net.TcpAccept
import Galio.Net.Reassembly
import Galio.Net.FrameReads
import Galio.Net.Socket
import Galio.Net.Dhcp
import Galio.Net.UdpSocket
import Galio.Net.Wifi
import Galio.Net.Route
import Galio.Kernel.Workqueue
import Galio.Kernel.Time
import Galio.Kernel.WallClock
import Galio.Drift.Truth
import Galio.Drift.Membership
import Galio.Gui.PngFilter
import Galio.Drift.Call
import Galio.Shell.Options
import Galio.Process.Table
import Galio.Syscall.Pipe
import Galio.Mm.PmemMap
