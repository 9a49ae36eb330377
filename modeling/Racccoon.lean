import Racccoon.PipeCounts
import Racccoon.FutexWakes
import Racccoon.Ipc.Bounces
import Racccoon.Ipc.Replies
import Racccoon.Ipc.Wakes
import Racccoon.Uids
import Racccoon.SectorCache
import Racccoon.Namespace.Provenance
import Racccoon.Namespace.Supervision
import Racccoon.AddressSpace.Ranges
import Racccoon.Fat32.Aliases
import Racccoon.Ext2.PathCache
import Racccoon.Tcp.Rearm
import Racccoon.Tcp.Stream
import Racccoon.Watchdog
import Racccoon.Deadlines
import Racccoon.Notes
import Racccoon.Tcp.Duplicates
import Racccoon.Tcp.OldSegments
import Racccoon.LinkRing
import Racccoon.Shell.Quoting
import Racccoon.Shell.Syntax
import Racccoon.Net.Handover
import Racccoon.Net.Losses
import Racccoon.Net.FileBounds
import Racccoon.Wifi.KeyReuse
import Racccoon.Env.Maps
import Racccoon.Libc.DescriptorRuns
import Racccoon.Libc.StreamRuns
import Racccoon.Paths.Requests
import Racccoon.Namespace.Creators
import Racccoon.PipeStreams
import Racccoon.Exec.Elf
import Racccoon.ForkCopy
import Racccoon.Ext2.PlainReads
import Racccoon.Ext2.HardLinks
import Racccoon.Ext2.Owners
import Racccoon.Ext2.Accounting
import Racccoon.Fat32.FreeChain
import Racccoon.Fat32.GroupMarks
import Racccoon.Fat32.Cursor
import Racccoon.Ext2.BlockTiles
import Racccoon.Tcp.Patience
import Racccoon.Tcp.Window
import Racccoon.Ext2.Append
import Racccoon.Fat32.LinkReads
import Racccoon.Shell.Patterns
import Racccoon.Exfat.Walks
import Racccoon.Exfat.EntrySets
import Racccoon.Env.Bounds
import Racccoon.Crypto.Aes
import Racccoon.Shell.Redirect
