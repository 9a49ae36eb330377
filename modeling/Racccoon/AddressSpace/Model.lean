import Mathlib.Data.List.Range

/-!
User address spaces: page tables, the heap's bump pointer and the named segments of
`src/segment.c3`, with the teardown paths of `src/syscalls.c3`. Addresses and physical
pages are counted in pages. A page table is named by its root page; only the user's
leaves are kept. Which pages an allocation gets is an input, refused (`none`) unless the
pages are free.
-/

namespace Racccoon.AddressSpace

def segMax : Nat := 16
def segAttachMax : Nat := 64
def segNameMax : Nat := 16
def segMaxPages : Nat := 1024
def pageSize : Nat := 4096
def userBase : Nat := 0x1000000 / pageSize

/-- What a board fixes: the heap ceiling and the hole in the user range, in pages. -/
structure Board where
  procsMax : Nat
  heapMax : Nat
  holeStart : Nat
  holeEnd : Nat

abbrev Text := List Char

structure Leaf where
  page : Nat
  shared : Bool
  deriving DecidableEq

abbrev Space := List (Nat × Leaf)

structure Proc where
  used : Bool
  pageTable : Nat
  heapTop : Nat
  mapFloor : Nat
  uid : Nat
  deriving DecidableEq

/-- `serial` numbers the segments created, for the history. -/
structure Segment where
  used : Bool
  name : Text
  paddr : Nat
  npages : Nat
  refs : Int
  ownerUid : Nat
  serial : Nat
  deriving DecidableEq

structure SegAttach where
  used : Bool
  seg : Nat
  table : Nat
  vaddr : Nat
  deriving DecidableEq

/-- A range SYS_MAP or SYS_SEGATTACH has handed out. -/
structure Range where
  table : Nat
  base : Nat
  pages : Nat
  deriving DecidableEq

/-- The last four fields are history: how many segments there have been, the serials
whose pages went back to the allocator, the ranges handed out, and for each address
space the highest heap top of any process in it. -/
structure Kernel where
  procs : Nat → Proc
  spaces : Nat → Space
  segments : Nat → Segment
  attachments : Nat → SegAttach
  taken : Nat → Bool
  created : Nat
  returned : List Nat
  handed : List Range
  highWater : Nat → Nat

def boot : Kernel :=
  { procs := fun _ => ⟨false, 0, 0, 0, 0⟩
    spaces := fun _ => []
    segments := fun _ => ⟨false, [], 0, 0, 0, 0, 0⟩
    attachments := fun _ => ⟨false, 0, 0, 0⟩
    taken := fun _ => false
    created := 0
    returned := []
    handed := []
    highWater := fun _ => 0 }

def takePages (kernel : Kernel) (pages : List Nat) : Option Kernel :=
  if pages.Nodup ∧ ∀ page ∈ pages, kernel.taken page = false then
    some { kernel with taken := fun page => kernel.taken page || page ∈ pages }
  else none

def freePages (kernel : Kernel) (pages : List Nat) : Kernel :=
  { kernel with taken := fun page => kernel.taken page && page ∉ pages }

section
variable (kernel : Kernel) (pages : List Nat)
include kernel pages

@[simp] theorem freePages_attachments :
    (freePages kernel pages).attachments = kernel.attachments := rfl

end

def run (paddr npages : Nat) : List Nat := List.range' paddr npages

variable (space : Space)

def lookup (vpn : Nat) : Option Leaf :=
  (space.find? fun entry => entry.1 = vpn).map Prod.snd

def clearLeaf (vpn : Nat) : Space := space.filter fun entry => entry.1 ≠ vpn

def mapLeaf (vpn : Nat) (leaf : Leaf) : Space := (vpn, leaf) :: clearLeaf space vpn

def clearRange (base pages : Nat) : Space :=
  (run base pages).foldl clearLeaf space

/-- Consecutive leaves from `base` on, one for each page listed. -/
def mapLeaves (space : Space) (base : Nat) (shared : Bool) : List Nat → Space
  | [] => space
  | page :: rest => mapLeaves (mapLeaf space base ⟨page, shared⟩) (base + 1) shared rest

def ownedPages : List Nat :=
  space.filterMap fun entry => if entry.2.shared then none else some entry.2.page

/-- The copy an rfork makes: a fresh page for each the parent owns. -/
def copySpace : Space → List Nat → Space
  | [], _ => []
  | (vpn, leaf) :: rest, pages =>
    if leaf.shared then (vpn, leaf) :: copySpace rest pages
    else (vpn, ⟨pages.headD 0, false⟩) :: copySpace rest pages.tail

variable (board : Board)

def userMapPlace (top pages : Nat) : Option Nat :=
  if top = 0 then none
  else
    let open_ := board.holeStart < board.holeEnd
    let base := if open_ ∧ top < board.holeEnd ∧ top + pages > board.holeStart then board.holeEnd
      else top
    let hole := if open_ ∧ base ≥ board.holeEnd then board.holeEnd - board.holeStart else 0
    if base + pages - userBase - hole > board.heapMax then none else some base

variable (kernel : Kernel)

def segUnref (si : Nat) : Kernel :=
  let sg := kernel.segments si
  if sg.refs - 1 ≤ 0 then
    { freePages kernel (run sg.paddr sg.npages) with
      segments := Function.update kernel.segments si { sg with used := false, refs := 0 }
      returned := sg.serial :: kernel.returned }
  else
    { kernel with segments := Function.update kernel.segments si { sg with refs := sg.refs - 1 } }

def dropAttachment (index : Nat) : Kernel :=
  let attach := kernel.attachments index
  segUnref
    { kernel with
      attachments := Function.update kernel.attachments index { attach with used := false } }
    attach.seg

def attached (table index : Nat) : Bool :=
  (kernel.attachments index).used && (kernel.attachments index).table == table

def segAttachmentsOf (table : Nat) : Nat :=
  (List.range segAttachMax).countP (attached kernel table)

def segAttachFreeSlots : Nat :=
  (List.range segAttachMax).countP fun index => !(kernel.attachments index).used

def segReleaseTable (table : Nat) : Kernel :=
  (List.range segAttachMax).foldl
    (fun kernel index => if attached kernel table index then dropAttachment kernel index else kernel)
    kernel

def freeAttachment : Option Nat :=
  (List.range segAttachMax).find? fun index => !(kernel.attachments index).used

/-- A new attachment in the first free slot, and its reference. -/
def addAttachment (si table vaddr : Nat) : Kernel :=
  match freeAttachment kernel with
  | some index =>
    { kernel with
      attachments := Function.update kernel.attachments index ⟨true, si, table, vaddr⟩
      segments := Function.update kernel.segments si
        { kernel.segments si with refs := (kernel.segments si).refs + 1 } }
  | none => kernel

def segDupAttachments (parent child : Nat) : Kernel :=
  (List.range segAttachMax).foldl
    (fun kernel index =>
      let attach := kernel.attachments index
      if attached kernel parent index then addAttachment kernel attach.seg child attach.vaddr
      else kernel)
    kernel

/-- What a SYS_SEGATTACH comes to before it places anything. -/
inductive Lookup where
  | refused
  | existing (vaddr : Nat)
  | attach (si : Nat)
  | create (si pages : Nat)
  deriving DecidableEq

def segNamed (name : Text) : Option Nat :=
  (List.range segMax).find? fun si => (kernel.segments si).used && (kernel.segments si).name == name

def existingAttachment (si table : Nat) : Option Nat :=
  (List.range segAttachMax).find? fun index =>
    attached kernel table index && (kernel.attachments index).seg == si

def segLookup (caller : Nat) (name : Text) (size : Nat) : Lookup :=
  let proc := kernel.procs caller
  if name = [] ∨ segNameMax ≤ name.length then .refused
  else
    match segNamed kernel name with
    | some si =>
      let sg := kernel.segments si
      if proc.uid ≠ 0 ∧ proc.uid ≠ sg.ownerUid then .refused
      else if size > sg.npages * pageSize then .refused
      else
        match existingAttachment kernel si proc.pageTable with
        | some index => .existing (kernel.attachments index).vaddr
        | none => if segAttachFreeSlots kernel = 0 then .refused else .attach si
    | none =>
      if segAttachFreeSlots kernel = 0 then .refused
      else if size = 0 ∨ size > segMaxPages * pageSize then .refused
      else
        match (List.range segMax).find? fun si => !(kernel.segments si).used with
        | some si => .create si ((size + pageSize - 1) / pageSize)
        | none => .refused

/-- A segment fresh from the allocator, not attached yet. -/
def createSegment (caller si : Nat) (name : Text) (paddr npages : Nat) : Option Kernel :=
  (takePages kernel (run paddr npages)).map fun kernel =>
    { kernel with
      segments := Function.update kernel.segments si
        ⟨true, name, paddr, npages, 0, (kernel.procs caller).uid, kernel.created⟩
      created := kernel.created + 1 }

def undoCreate (si : Nat) (created : Bool) : Kernel :=
  if created then
    segUnref { kernel with
      segments := Function.update kernel.segments si { kernel.segments si with refs := 1 } } si
  else kernel

/-- The rest of SYS_SEGATTACH: `stop` is the page whose `try_map_page` finds no memory
for a page table. -/
def segPlace (caller si : Nat) (created : Bool) (stop : Option Nat) : Kernel :=
  let proc := kernel.procs caller
  let sg := kernel.segments si
  match userMapPlace board proc.heapTop sg.npages with
  | none => undoCreate kernel si created
  | some base =>
    if stop.any (· < sg.npages) then
      let space := mapLeaves (kernel.spaces proc.pageTable) base true
        (run sg.paddr (stop.getD 0))
      undoCreate
        { kernel with
          spaces := Function.update kernel.spaces proc.pageTable
            (clearRange space base (stop.getD 0)) }
        si created
    else
      let mapped :=
        { kernel with
          spaces := Function.update kernel.spaces proc.pageTable
            (mapLeaves (kernel.spaces proc.pageTable) base true (run sg.paddr sg.npages))
          procs := Function.update kernel.procs caller { proc with heapTop := base + sg.npages }
          handed := ⟨proc.pageTable, base, sg.npages⟩ :: kernel.handed
          highWater := Function.update kernel.highWater proc.pageTable
            (max (kernel.highWater proc.pageTable) (base + sg.npages)) }
      addAttachment mapped si proc.pageTable base

/-- `paddr` is the run a new segment gets, `none` where there is none. -/
def sysSegattach (caller : Nat) (name : Text) (size : Nat)
    (paddr stop : Option Nat) : Option Kernel :=
  match segLookup kernel caller name size with
  | .refused | .existing _ => some kernel
  | .attach si => some (segPlace board kernel caller si false stop)
  | .create si pages =>
    match paddr with
    | none => some kernel
    | some paddr => (createSegment kernel caller si name paddr pages).map fun kernel =>
      segPlace board kernel caller si true stop

def sysSegdetach (caller vaddr : Nat) : Kernel :=
  let table := (kernel.procs caller).pageTable
  match (List.range segAttachMax).find? fun index =>
      attached kernel table index && (kernel.attachments index).vaddr == vaddr with
  | some index =>
    let sg := kernel.segments (kernel.attachments index).seg
    dropAttachment
      { kernel with
        spaces := Function.update kernel.spaces table
          (clearRange (kernel.spaces table) vaddr sg.npages) }
      index
  | none => kernel

def unusedSlot : Option Nat :=
  (List.range board.procsMax).find? fun slot => !(kernel.procs slot).used

def tableShared (slot : Nat) : Bool :=
  (List.range board.procsMax).any fun other =>
    other ≠ slot && (kernel.procs other).used &&
      (kernel.procs other).pageTable == (kernel.procs slot).pageTable

def createProcess (root : Nat) (image : List Nat) : Option Kernel :=
  match unusedSlot board kernel with
  | none => some kernel
  | some slot =>
    (takePages kernel (root :: image)).map fun kernel =>
      let top := userBase + image.length
      { kernel with
        procs := Function.update kernel.procs slot ⟨true, root, top, top, 0⟩
        spaces := Function.update kernel.spaces root (mapLeaves [] userBase false image)
        handed := kernel.handed.filter fun range => range.table ≠ root
        highWater := Function.update kernel.highWater root top }

def rforkShared (caller : Nat) : Kernel :=
  match unusedSlot board kernel with
  | none => kernel
  | some slot =>
    { kernel with
      procs := Function.update kernel.procs slot { kernel.procs caller with used := true } }

/-- rfork without RFMEM; `copies` are the pages for what the parent owns. -/
def rforkCopy (caller root : Nat) (copies : List Nat) : Option Kernel :=
  let parent := kernel.procs caller
  match unusedSlot board kernel with
  | none => some kernel
  | some slot =>
    if segAttachFreeSlots kernel < segAttachmentsOf kernel parent.pageTable then some kernel
    else if copies.length ≠ (ownedPages (kernel.spaces parent.pageTable)).length then none
    else
      (takePages kernel (root :: copies)).map fun kernel =>
        segDupAttachments
          { kernel with
            procs := Function.update kernel.procs slot
              { parent with used := true, pageTable := root }
            spaces := Function.update kernel.spaces root
              (copySpace (kernel.spaces parent.pageTable) copies)
            handed := (kernel.handed.filter fun range => range.table ≠ root) ++
              ((kernel.handed.filter fun range => range.table = parent.pageTable).map
                fun range => { range with table := root })
            highWater := Function.update kernel.highWater root
              (kernel.highWater parent.pageTable) }
          parent.pageTable root

/-- `image` has `none` for a gap between the segments of an ELF file. -/
def sysExec (caller : Nat) (image : List (Option Nat)) (argv : List Nat) : Option Kernel :=
  let proc := kernel.procs caller
  (takePages kernel (image.filterMap id ++ argv)).map fun kernel =>
    let cleared := segReleaseTable
      { freePages kernel (ownedPages (kernel.spaces proc.pageTable)) with
        spaces := Function.update kernel.spaces proc.pageTable [] }
      proc.pageTable
    let top := userBase + image.length + argv.length
    let loaded := (image.zipIdx userBase).filterMap fun entry =>
      entry.1.map fun page => (entry.2, Leaf.mk page false)
    { cleared with
      spaces := Function.update cleared.spaces proc.pageTable
        (mapLeaves loaded (userBase + image.length) false argv)
      procs := Function.update cleared.procs caller { proc with heapTop := top, mapFloor := top }
      handed := if tableShared board kernel caller then cleared.handed
        else cleared.handed.filter fun range => range.table ≠ proc.pageTable
      highWater := Function.update cleared.highWater proc.pageTable
        (if tableShared board kernel caller then max (cleared.highWater proc.pageTable) top
          else top) }

def procDestroy (slot : Nat) : Kernel :=
  let proc := kernel.procs slot
  let torn :=
    if tableShared board kernel slot then kernel
    else
      let released := segReleaseTable kernel proc.pageTable
      { freePages released (proc.pageTable :: ownedPages (released.spaces proc.pageTable)) with
        spaces := Function.update released.spaces proc.pageTable [] }
  { torn with procs := Function.update torn.procs slot { proc with used := false } }

def sysMap (caller bytes : Nat) : Kernel :=
  let proc := kernel.procs caller
  if bytes = 0 ∨ bytes > board.heapMax * pageSize then kernel
  else
    let pages := (bytes + pageSize - 1) / pageSize
    match userMapPlace board proc.heapTop pages with
    | none => kernel
    | some base =>
      { kernel with
        procs := Function.update kernel.procs caller { proc with heapTop := base + pages }
        handed := ⟨proc.pageTable, base, pages⟩ :: kernel.handed
        highWater := Function.update kernel.highWater proc.pageTable
          (max (kernel.highWater proc.pageTable) (base + pages)) }

/-- A page of the heap touched, by the process (`fault`) or by the kernel for it. -/
def touch (caller vpn page : Nat) (fault : Bool) : Option Kernel :=
  let proc := kernel.procs caller
  if vpn < proc.mapFloor ∨ proc.heapTop ≤ vpn then some kernel
  else if fault = true ∧ board.holeStart ≤ vpn ∧ vpn < board.holeEnd then some kernel
  else if (lookup (kernel.spaces proc.pageTable) vpn).isSome then some kernel
  else
    (takePages kernel [page]).map fun kernel =>
      { kernel with
        spaces := Function.update kernel.spaces proc.pageTable
          (mapLeaf (kernel.spaces proc.pageTable) vpn ⟨page, false⟩) }

def sysSetuid (caller uid : Nat) : Kernel :=
  if (kernel.procs caller).uid = 0 then
    { kernel with
      procs := Function.update kernel.procs caller { kernel.procs caller with uid := uid } }
  else kernel

inductive Action where
  | create (root : Nat) (image : List Nat)
  | rforkShared (caller : Nat)
  | rforkCopy (caller root : Nat) (copies : List Nat)
  | exec (caller : Nat) (image : List (Option Nat)) (argv : List Nat)
  | destroy (slot : Nat)
  | map (caller bytes : Nat)
  | touch (caller vpn page : Nat) (fault : Bool)
  | segattach (caller : Nat) (name : Text) (size : Nat) (paddr stop : Option Nat)
  | segdetach (caller vaddr : Nat)
  | setuid (caller uid : Nat)
  deriving DecidableEq

/-- The process an action is of, if it is one's. -/
def Action.caller : Action → Option Nat
  | .create _ _ => none
  | .rforkShared caller | .rforkCopy caller _ _ | .exec caller _ _ | .destroy caller
  | .map caller _ | .touch caller _ _ _ | .segattach caller _ _ _ _ | .segdetach caller _
  | .setuid caller _ => some caller

def perform : Action → Option Kernel
  | .create root image => createProcess board kernel root image
  | .rforkShared caller => some (rforkShared board kernel caller)
  | .rforkCopy caller root copies => rforkCopy board kernel caller root copies
  | .exec caller image argv => sysExec board kernel caller image argv
  | .destroy slot => some (procDestroy board kernel slot)
  | .map caller bytes => some (sysMap board kernel caller bytes)
  | .touch caller vpn page fault => touch board kernel caller vpn page fault
  | .segattach caller name size paddr stop => sysSegattach board kernel caller name size paddr stop
  | .segdetach caller vaddr => some (sysSegdetach kernel caller vaddr)
  | .setuid caller uid => some (sysSetuid kernel caller uid)

def step (action : Action) : Option Kernel :=
  if ∀ caller ∈ action.caller, caller < board.procsMax ∧ (kernel.procs caller).used then
    perform board kernel action
  else none

end Racccoon.AddressSpace
