import Proninx.Kern.AddressSpace
import Proninx.Kern.AuthTable
import Proninx.Kern.BioCapacity
import Proninx.Kern.Boot.Reserved
import Proninx.Kern.Boot.UefiMem
import Proninx.Kern.Df
import Proninx.Kern.Elevation
import Proninx.Kern.Fat32
import Proninx.Kern.Foreground
import Proninx.Kern.FtableRun
import Proninx.Kern.LogCapacity
import Proninx.Kern.LogCrash
import Proninx.Kern.MkfsRun
import Proninx.Kern.Mp
import Proninx.Kern.Net.Dns
import Proninx.Kern.Net.TcpAccept
import Proninx.Kern.Net.TcpStream
import Proninx.Kern.Net.Udp
import Proninx.Kern.Printint
import Proninx.Kern.Signals
import Proninx.Kern.Sleeplock
import Proninx.Kern.Terminals
import Proninx.Kern.ReadBack
import Proninx.Kern.Storage.Completion
import Proninx.Kern.Storage.NvmeQueue
import Proninx.Kern.Storage.NvmeTransfer
import Proninx.Kern.Ufs2InodeRun
import Proninx.Kern.Ufs2Readdir
import Proninx.Kern.VfsReclaim
import Proninx.Kern.Vmem
import Proninx.Kern.Wait
