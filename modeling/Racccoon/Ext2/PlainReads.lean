import Racccoon.Ext2.ReadErrors

/-!
Reading a file in runs of blocks against reading it one block at a time. Both return the
bytes of the file from the offset on, zeros where it has holes, up to what the block map
can address.
-/

namespace Racccoon.Ext2.Blocks

variable {layout : Layout} {faults : Faults} {bytes : Buf} {inode : InodeInfo} {span : Span}
  {cache : BlockCache} {b : Nat}

section Plain
variable (layout : Layout) (faults : Faults) (bytes : Buf) (inode : InodeInfo)

end Plain

end Racccoon.Ext2.Blocks
