import Racccoon.TrapFrame
import Racccoon.UserRanges

/-!
`sys_exec` of `syscalls.c3`. Every page of the new image and of its arguments is staged
before anything of the old image is touched. Physical memory is modelled byte by byte, page
tables as in `Paging`. `freed` lists the calls of `free_pages` and is not in the source.
-/

namespace Racccoon.Exec

open PageAllocator Paging UserRanges TrapFrame

def userBase : Nat := 0x1000000
def argvMax : Nat := 16384
def elfSegmentsMax : Nat := 8
def segAttachMax : Nat := 64

/-- `EXEC_MAX_IMAGE_SIZE`; 128 MiB is the largest any board has. -/
structure Board where
  imageMax : Nat
  aligned : pageSize ∣ imageMax
  bounded : imageMax ≤ 134217728

def Board.imagePages (board : Board) : Nat := board.imageMax / pageSize

abbrev Memory := Nat → UInt8

structure Machine where
  alloc : Allocator
  memory : Memory
  freed : List (Nat × Nat)

structure Segment where
  used : Bool
  paddr : Nat
  npages : Nat
  refs : Int

/-- `own` if the attachment is of the current process's page table. -/
structure SegAttach where
  used : Bool
  seg : Nat
  own : Bool
  vaddr : Nat

universe u

/-- The current process and what it shares with others. -/
structure State (Mounts : Type u) where
  machine : Machine
  table : PageTable
  heap : Heap
  segments : Nat → Segment
  attachments : Nat → SegAttach
  mounts : Mounts
  frame : TrapFrame
  savedSepc : Nat
  fp : FpArea
  noteHandler : Nat
  inNote : Bool
  name : List UInt8

def zeroed (memory : Memory) (paddr : Nat) : Memory := fun addr =>
  if paddr ≤ addr ∧ addr < paddr + pageSize then 0 else memory addr

def copied (memory : Memory) (dst : Nat) (source : Nat → UInt8) (len : Nat) : Memory := fun addr =>
  if dst ≤ addr ∧ addr < dst + len then source (addr - dst) else memory addr

section Pages
variable (pool : Pool)
variable (machine : Machine)

def Machine.tryAlloc : Nat × Machine :=
  let page := tryAllocPages pool machine.alloc 1
  (page.1,
    { machine with
      alloc := page.2
      memory := if page.1 = 0 then machine.memory else zeroed machine.memory page.1 })

def Machine.free (paddr n : Nat) : Machine :=
  { machine with
    alloc := freePages pool machine.alloc paddr n
    freed := machine.freed ++ [(paddr, n)] }

def Machine.freeAll (pages : List Nat) : Machine :=
  pages.foldl (fun machine page => machine.free pool page 1) machine

end Pages

/-- `g_exec_staged` and `g_exec_seg_perm`, by page of the image; 0 is a page not staged. -/
structure Staging where
  machine : Machine
  staged : Nat → Nat
  perm : Nat → BitVec 3
  pageCount : Nat

def unstaged (machine : Machine) : Staging := ⟨machine, fun _ => 0, fun _ => 0, 0⟩

def stagedPages (n : Nat) (staged : Nat → Nat) : List Nat :=
  ((List.range n).map staged).filter (· ≠ 0)

def le (bytes : Nat → UInt8) : Nat → Nat → Nat
  | 0, _ => 0
  | size + 1, i => (bytes i).toNat + 256 * le bytes size (i + 1)

structure Phdr where
  type : Nat
  flags : Nat
  offset : Nat
  vaddr : Nat
  filesz : Nat
  memsz : Nat

variable (image : Nat → UInt8)

def readPhdr (start : Nat) : Phdr where
  type := le image 4 start
  flags := le image 4 (start + 4)
  offset := le image 8 (start + 8)
  vaddr := le image 8 (start + 16)
  filesz := le image 8 (start + 32)
  memsz := le image 8 (start + 40)

def isElf (size : Nat) : Bool :=
  decide (64 ≤ size) && image 0 == 0x7F && image 1 == 69 && image 2 == 76 && image 3 == 70

def entryOf : Nat := le image 8 24
def phoffOf : Nat := le image 8 32
def phnumOf : Nat := le image 2 56

def headerRefused (size : Nat) : Bool :=
  image 4 != 2 || image 5 != 1 ||
    le image 2 16 != 2 || le image 2 18 != 243 || le image 2 54 != 56 ||
    phnumOf image == 0 || decide (phnumOf image > elfSegmentsMax) ||
    decide (phoffOf image > size) || decide (phnumOf image * 56 > size - phoffOf image)

def segPerm (flags : Nat) : BitVec 3 :=
  (if flags.testBit 2 then 1 else 0) ||| (if flags.testBit 1 then 2 else 0) |||
    (if flags.testBit 0 then 4 else 0)

section Load
variable (pool : Pool) (board : Board)

def segmentRefused (size : Nat) (ph : Phdr) : Bool :=
  decide (ph.filesz > ph.memsz) || decide (ph.memsz > board.imageMax) ||
    decide (ph.vaddr < userBase) || decide (ph.vaddr - userBase > board.imageMax - ph.memsz) ||
    decide (ph.offset > size) || decide (ph.filesz > size - ph.offset)

/-- The loop over the pages of a segment. -/
def stagePages (perm : BitVec 3) : Nat → Nat → Staging → Bool × Staging
  | 0, _, staging => (true, staging)
  | left + 1, spi, staging =>
    let page :=
      if staging.staged spi = 0 then staging.machine.tryAlloc pool
      else (staging.staged spi, staging.machine)
    if page.1 = 0 then (false, { staging with machine := page.2 })
    else
      stagePages perm left (spi + 1)
        { machine := page.2
          staged := Function.update staging.staged spi page.1
          perm := Function.update staging.perm spi (staging.perm spi ||| perm)
          pageCount := max staging.pageCount (spi + 1) }

/-- The loop that copies a segment's bytes from the file, up to the end of a page at a
time. -/
def copyChunks (image : Nat → UInt8) (staged : Nat → Nat) (offset startOff filesz : Nat) :
    Nat → Nat → Memory → Memory
  | 0, _, memory => memory
  | fuel + 1, done, memory =>
    if done < filesz then
      let dstOff := startOff + done
      let chunk := min (pageSize - dstOff % pageSize) (filesz - done)
      copyChunks image staged offset startOff filesz fuel (done + chunk)
        (copied memory (staged (dstOff / pageSize) + dstOff % pageSize)
          (fun i => image (offset + done + i)) chunk)
    else memory

/-- A segment that starts `startOff` bytes behind `USER_BASE`. -/
def stageSegment (image : Nat → UInt8) (staging : Staging) (ph : Phdr) (startOff : Nat) :
    Bool × Staging :=
  let first := startOff / pageSize
  let stop := (startOff + ph.memsz + pageSize - 1) / pageSize
  let next := stagePages pool (segPerm ph.flags) (stop - first) first staging
  if next.1 then
    (true, { next.2 with
      machine.memory := copyChunks image next.2.staged ph.offset startOff ph.filesz ph.filesz 0
        next.2.machine.memory })
  else next

def loadSegment (image : Nat → UInt8) (size : Nat) (staging : Staging) (ph : Phdr) :
    Bool × Staging :=
  if ph.type ≠ 1 then (true, staging)
  else if segmentRefused board size ph then (false, staging)
  else stageSegment pool image staging ph (ph.vaddr - userBase)

def loadSegments (image : Nat → UInt8) (size : Nat) : Nat → Nat → Staging → Bool × Staging
  | 0, _, staging => (true, staging)
  | left + 1, pi, staging =>
    let next := loadSegment pool board image size staging
      (readPhdr image (phoffOf image + pi * 56))
    if next.1 then loadSegments image size left (pi + 1) next.2 else next

def entryStaged (staging : Staging) (entry : Nat) : Bool :=
  decide (userBase ≤ entry) && decide (entry - userBase < staging.pageCount * pageSize) &&
    staging.staged ((entry - userBase) / pageSize) != 0

inductive Staged where
  | refused (machine : Machine)
  | loaded (staging : Staging) (entry : Nat)

def stageElf (machine : Machine) (image : Nat → UInt8) (size : Nat) : Staged :=
  if headerRefused image size then .refused machine
  else
    let loaded := loadSegments pool board image size (phnumOf image) 0 (unstaged machine)
    if loaded.1 && entryStaged loaded.2 (entryOf image) then .loaded loaded.2 (entryOf image)
    else .refused (loaded.2.machine.freeAll pool (stagedPages board.imagePages loaded.2.staged))

def pagesFor (size : Nat) : Nat := (size + pageSize - 1) / pageSize

def flatPages (image : Nat → UInt8) (size : Nat) : Nat → Nat → Staging → Bool × Staging
  | 0, _, staging => (true, staging)
  | left + 1, ep, staging =>
    let page := staging.machine.tryAlloc pool
    if page.1 = 0 then
      (false, { staging with
        machine := page.2.freeAll pool ((List.range ep).map staging.staged) })
    else
      flatPages image size left (ep + 1)
        { staging with
          machine := { page.2 with
            memory := copied page.2.memory page.1 (fun i => image (ep * pageSize + i))
              (min pageSize (size - ep * pageSize)) }
          staged := Function.update staging.staged ep page.1
          perm := Function.update staging.perm ep 7 }

def stageFlat (machine : Machine) (image : Nat → UInt8) (size argvLen : Nat) : Staged :=
  let pages := pagesFor size
  let all := pages + pagesFor argvLen
  if freePageCount pool machine.alloc < all + all / 256 + 6 then .refused machine
  else
    let loaded := flatPages pool image size pages 0 { unstaged machine with pageCount := pages }
    if loaded.1 then .loaded loaded.2 userBase else .refused loaded.2.machine

/-- The loop over the pages of the arguments, which takes back what it staged of them. -/
def argvPages (argv : Nat → UInt8) (len : Nat) : Nat → List Nat → Machine → Bool × Machine × List Nat
  | 0, staged, machine => (true, machine, staged)
  | left + 1, staged, machine =>
    let page := machine.tryAlloc pool
    if page.1 = 0 then (false, page.2.freeAll pool staged, [])
    else
      argvPages argv len left (staged ++ [page.1])
        { page.2 with
          memory := copied page.2.memory page.1 (fun i => argv (staged.length * pageSize + i))
            (min pageSize (len - staged.length * pageSize)) }

end Load

section Commit
variable (pool : Pool) {Mounts : Type u}

def clearLeaf (cleared : Machine × PageTable) (entry : Nat × Leaf) : Machine × PageTable :=
  if entry.2.user then
    (if pteOwnedUserLeaf entry.2 then cleared.1.free pool entry.2.paddr 1 else cleared.1,
      { cleared.2 with leaves := Function.update cleared.2.leaves entry.1 none })
  else cleared

def clearUser (machine : Machine) (table : PageTable) : Machine × PageTable :=
  (walk table).foldl (clearLeaf pool) (machine, table)

variable (state : State Mounts)

def segUnref (si : Nat) : State Mounts :=
  let sg := state.segments si
  if sg.refs - 1 ≤ 0 then
    { state with
      machine := state.machine.free pool sg.paddr sg.npages
      segments := Function.update state.segments si { sg with used := false, refs := 0 } }
  else { state with segments := Function.update state.segments si { sg with refs := sg.refs - 1 } }

def segReleaseTable : State Mounts :=
  (List.range segAttachMax).foldl
    (fun state index =>
      let attach := state.attachments index
      if attach.used && attach.own then
        segUnref pool
          { state with
            attachments := Function.update state.attachments index { attach with used := false } }
          attach.seg
      else state)
    state

def imageLeaves (staging : Staging) : List (Nat × Leaf) :=
  (List.range staging.pageCount).filterMap fun mp =>
    if staging.staged mp = 0 then none
    else some (vpnOf (userBase + mp * pageSize), ⟨staging.staged mp, staging.perm mp, true, false⟩)

def argvLeaves (base : Nat) (staged : List Nat) : List (Nat × Leaf) :=
  staged.zipIdx.map fun (page, avp) => (vpnOf (base + avp * pageSize), ⟨page, 3, true, false⟩)

def procSetName (name : List UInt8) : List UInt8 :=
  ((name.reverse.takeWhile (· ≠ 47)).reverse).take 31

def nameSnap (argv : Nat → UInt8) (argvLen : Nat) : Nat → Nat → List UInt8
  | 0, _ => []
  | left + 1, i =>
    if i < argvLen ∧ argv i ≠ 0 then argv i :: nameSnap argv argvLen left (i + 1) else []

structure Loaded where
  staging : Staging
  entry : Nat
  argv : List Nat
  argc : Int
  name : List UInt8

/-- `none` is the panic of `map_page` without memory for a page table. -/
def commit (loaded : Loaded) : Option (State Mounts) :=
  let cleared := clearUser pool state.machine state.table
  let released := segReleaseTable pool { state with machine := cleared.1, table := cleared.2 }
  let argvBase := userBase + loaded.staging.pageCount * pageSize
  let top := argvBase + loaded.argv.length * pageSize
  (mapPages pool ⟨released.machine.alloc, released.table⟩
      (imageLeaves loaded.staging ++ argvLeaves argvBase loaded.argv)).map fun build =>
    { released with
      machine.alloc := build.alloc
      table := build.table
      heap := ⟨top, top⟩
      noteHandler := 0
      inNote := false
      savedSepc := loaded.entry
      fp := fun _ => 0
      name := if loaded.name = [] then released.name else procSetName loaded.name
      frame := Function.update (Function.update
        (Function.update released.frame a0 (BitVec.ofInt 64 loaded.argc)) a1
        (BitVec.ofNat 64 argvBase)) tp 0 }

end Commit

inductive Outcome (Mounts : Type u) where
  | returned (after : State Mounts)
  | committed (after : State Mounts)
  | panicked

section Call
variable (pool : Pool) (board : Board) {Mounts : Type u}

/-- The byte behind an address, whatever may be done with it there. -/
def heldAt (memory : Memory) (table : PageTable) (addr : Nat) : UInt8 :=
  match pteLeaf table addr with
  | none => 0
  | some leaf => memory (leaf.paddr + addr % pageSize)

/-- A read; a page that cannot be read gives 0 here. -/
def byteAt (memory : Memory) (table : PageTable) (addr : Nat) : UInt8 :=
  match pteLeaf table addr with
  | none => 0
  | some leaf =>
    if Leaf.accessible leaf readBit then memory (leaf.paddr + addr % pageSize) else 0

def given {Mounts : Type u} (state : State Mounts) (i : Nat) : UInt8 :=
  byteAt state.machine.memory state.table ((state.frame a0).toNat + i)

def pageBase (pool : Pool) (index : Nat) : Nat := pool.freeRam + index * pageSize

/-- The pages `user_range_valid` has taken from the pool are zero. -/
def faulted (pool : Pool) (before : Allocator) (after : Allocator) (memory : Memory) : Memory :=
  fun addr =>
    let index := pageIndex pool addr
    if pool.freeRam ≤ addr ∧ bitIsSet before index = false ∧ bitIsSet after index = true then 0
    else memory addr

variable (state : State Mounts)

def State.faultedIn (build : Build) : State Mounts :=
  { state with
    machine := { state.machine with
      alloc := build.alloc
      memory := faulted pool state.machine.alloc build.alloc state.machine.memory }
    table := build.table }

/-- `f.a0 = -1`, and back to the caller. -/
def State.refuse : State Mounts :=
  { state with frame := Function.update state.frame a0 (-1) }

def stageImage (size argvLen : Nat) : Staged :=
  if isElf (given state) size then stageElf pool board state.machine (given state) size
  else stageFlat pool state.machine (given state) size argvLen

/-- `sys_exec` behind the check of its arguments. -/
def execFrom (size argvLen : Nat) (argc : Int) : Outcome Mounts :=
  let argv i := given state (size + i)
  let name := if argc ≥ 1 ∧ argvLen > 0 then nameSnap argv argvLen 47 0 else []
  match stageImage pool board state size argvLen with
  | .refused machine => .returned { state with machine := machine }.refuse
  | .loaded staging entry =>
    match argvPages pool argv argvLen (pagesFor argvLen) [] staging.machine with
    | (false, machine, _) =>
      .returned { state with
        machine := machine.freeAll pool (stagedPages staging.pageCount staging.staged) }.refuse
    | (true, machine, pages) =>
      match commit pool { state with machine := machine } ⟨staging, entry, pages, argc, name⟩ with
      | none => .panicked
      | some after => .committed after

def sysExec : Outcome Mounts :=
  let size := uint (state.frame a1)
  let argvLen := uint (state.frame a2)
  let argc := int (state.frame a4)
  if size = 0 ∨ size > board.imageMax ∨ argvLen > argvMax then .returned state.refuse
  else
    let valid := userRangeValid pool state.heap true ⟨state.machine.alloc, state.table⟩
      (state.frame a0).toNat (size + argvLen) false
    let state := state.faultedIn pool valid.2
    if valid.1 then execFrom pool board state size argvLen argc else .returned state.refuse

end Call

end Racccoon.Exec
