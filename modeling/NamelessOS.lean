import NamelessOS.TcpWireChecksum
import NamelessOS.TcpSendSpace
import NamelessOS.TcpCloseContract
import NamelessOS.SocketOrphans
import NamelessOS.SocketDrain
import NamelessOS.UdpSender
import NamelessOS.HeapBookkeeping
import NamelessOS.MultiFrameBlocks
import NamelessOS.CopyOut
import NamelessOS.CowAccess
import NamelessOS.MountEffect
import NamelessOS.RoundRobin
import NamelessOS.ProcessLineage
import NamelessOS.SyscallContext
import NamelessOS.ForkReturn
import NamelessOS.ElfImage
import NamelessOS.UserMalloc
import NamelessOS.ProcessLifetimes
import NamelessOS.E1000Rx
import NamelessOS.ArpCache
import NamelessOS.Ipv4Routes
import NamelessOS.PacketBuffers
import NamelessOS.NetChecksums
import NamelessOS.DhcpOptions
import NamelessOS.EchoReplies
import NamelessOS.SendResults
import NamelessOS.UdpRoundTrip
import NamelessOS.HandshakeAgreement
import NamelessOS.TcpReset
import NamelessOS.TcpWindow
import NamelessOS.TableEdits
import NamelessOS.FdCursors
import NamelessOS.Tty
import NamelessOS.BoundedStrings
import NamelessOS.HttpdRequest
import NamelessOS.Vga
