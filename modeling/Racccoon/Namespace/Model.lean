import Mathlib.Algebra.GroupWithZero.Nat
import Racccoon.Lib.Run
import Racccoon.Namespace.Translate

/-!
Namespaces, posted names and boot-server supervision: SYS_NS_MOUNT, SYS_NS_BIND and
SYS_NS_UNMOUNT of `src/syscalls.c3`, `ns_mount_try` and `create_process` of
`src/process.c3`, `sys_srv_post`, and `src/supervisor.c3`. A step is one system call,
the death of one process (exit, kill, fault or the watchdog), or one pass of
`supervisor_tick`'s loop. Whether a creation has the memory it needs is an argument
of the step; the hang watchdog only decides that a server dies.
-/

namespace Racccoon.Namespace

structure Proc where
  used : Bool
  pid : Nat
  generation : Nat
  uid : Int
  mounts : List Mount

/-- A zero `pid` marks an unused slot. -/
structure SrvEntry where
  name : Text
  pid : Nat
  generation : Nat
  deriving DecidableEq

structure Service where
  mountPrefix : Option Text
  pid : Nat
  generation : Nat
  restarts : Nat
  givenUp : Bool

structure Kernel where
  procs : Nat → Proc
  srvTable : List SrvEntry
  services : List Service

def srvMax : Nat := 8
def srvNameMax : Nat := 16
def svcMax : Nat := 16
def svcRestartLimit : Nat := 5

def strCopy (source : Text) (max : Nat) : Text := source.take (max - 1)

def Kernel.set (kernel : Kernel) (slot : Nat) (proc : Proc) : Kernel :=
  { kernel with procs := Function.update kernel.procs slot proc }

def Kernel.setMounts (kernel : Kernel) (slot : Nat) (mounts : List Mount) : Kernel :=
  kernel.set slot { kernel.procs slot with mounts := mounts }

variable (procsMax : Nat)
variable (kernel : Kernel)

def procByPid (pid : Nat) : Option Nat :=
  if 1 ≤ pid ∧ pid ≤ procsMax ∧ (kernel.procs (pid - 1)).pid = pid ∧
      (kernel.procs (pid - 1)).used then some (pid - 1)
  else none

def instances (pid : Nat) : Option Nat :=
  (procByPid procsMax kernel pid).map fun slot => (kernel.procs slot).generation

def mountGeneration (pid : Nat) : Nat := (instances procsMax kernel pid).getD 0

def taken (mountPrefix : Text) (mount : Mount) : Prop :=
  mount.serverPid ≠ 0 ∧ mount.mountPrefix = mountPrefix

instance (mountPrefix : Text) (mount : Mount) : Decidable (taken mountPrefix mount) :=
  inferInstanceAs (Decidable (_ ∧ _))

variable (table : List Mount) (mountPrefix : Text)

def takenSlot : Option Nat :=
  table.findIdx? fun mount => taken mountPrefix mount

def freeSlot : Option Nat :=
  table.findIdx? fun mount => mount.serverPid = 0

variable (pid generation : Nat)

/-- The second half of `ns_mount_try`: an entry with this very prefix is bound
again, else a free slot is filled. Target and flags are not written. -/
def mountTable : Option (List Mount) :=
  match takenSlot table mountPrefix with
  | some slot => some (table.modify slot fun mount =>
    { mount with serverPid := pid, serverGeneration := generation })
  | none => (freeSlot table).map fun slot => table.modify slot fun mount =>
    { mount with
      mountPrefix := strCopy mountPrefix nsPrefixMax
      serverPid := pid
      serverGeneration := generation }

def unmountTable : Option (List Mount) :=
  (takenSlot table mountPrefix).map fun slot =>
    table.modify slot fun mount => { mount with serverPid := 0 }

/-- What SYS_NS_BIND does to the entries already at its prefix. -/
def clearForBind (add create : Bool) (mount : Mount) : Mount :=
  if taken mountPrefix mount then
    if !add then { mount with serverPid := 0 }
    else if create then { mount with flags := mount.flags &&& ~~~mntCreate }
    else mount
  else mount

/-- The entry SYS_NS_BIND installs. -/
def boundMount (target : Text) (create : Bool) : Mount where
  mountPrefix := strCopy mountPrefix nsPrefixMax
  serverPid := pid
  serverGeneration := generation
  target := strCopy target nsTargetMax
  flags := if create then mntCreate else 0

/-- The second half of SYS_NS_BIND. Without a free slot it fails, with what it did
to the entries at the prefix done. -/
def bindTable (target : Text) (add create : Bool) : Int × List Mount :=
  let cleared := table.map (clearForBind mountPrefix add create)
  match freeSlot cleared with
  | none => (-1, cleared)
  | some slot => (0, cleared.set slot (boundMount mountPrefix pid generation target create))

def reseatMount (oldPid newPid newGeneration : Nat) (mount : Mount) : Mount :=
  if mount.serverPid = oldPid then
    { mount with serverPid := newPid, serverGeneration := newGeneration }
  else mount

/-- `seed_default_namespace`'s loops over a reused slot's table, and the reset of
target and flags after it. -/
def seedTable : List Mount → List (Text × Nat × Nat) → List Mount
  | [], _ => []
  | _ :: rest, (mountPrefix, pid, generation) :: more =>
    ⟨strCopy mountPrefix nsPrefixMax, pid, generation, [], 0⟩ :: seedTable rest more
  | old :: rest, [] => { old with serverPid := 0, target := [], flags := 0 } :: seedTable rest []

def srvLookup (srvName : Text) : Option (Nat × Nat) :=
  (kernel.srvTable.find? fun entry => entry.pid ≠ 0 ∧ entry.name = srvName).bind fun entry =>
    if instances procsMax kernel entry.pid = some entry.generation then
      some (entry.pid, entry.generation)
    else none

def sysNsMount (caller : Nat) (mountPrefix srvName : Text) : Int × Kernel :=
  match srvLookup procsMax kernel srvName with
  | none => (-1, kernel)
  | some (pid, generation) =>
    match mountTable (kernel.procs caller).mounts mountPrefix pid generation with
    | none => (-1, kernel)
    | some table => (0, kernel.setMounts caller table)

def sysNsUnmount (caller : Nat) (mountPrefix : Text) : Int × Kernel :=
  match unmountTable (kernel.procs caller).mounts mountPrefix with
  | none => (-1, kernel)
  | some table => (0, kernel.setMounts caller table)

def bindSource (caller : Nat) (source : Text) : Option (Nat × Nat × Text) :=
  (nsTranslateCore (instances procsMax kernel) (kernel.procs caller).mounts source 0
      nsTargetMax).bind fun (pid, target) =>
    (instances procsMax kernel pid).map fun generation => (pid, generation, target)

def sysNsBind (caller : Nat) (mountPrefix source : Text) (flags : BitVec 32) : Int × Kernel :=
  match bindSource procsMax kernel caller source with
  | none => (-1, kernel)
  | some (pid, generation, target) =>
    let bound := bindTable (kernel.procs caller).mounts mountPrefix pid generation target
      (flags &&& 1 ≠ 0) (flags &&& 4 ≠ 0)
    (bound.1, kernel.setMounts caller bound.2)

/-- The scan of `sys_srv_post`: the first entry with the name, else a free one. -/
def sysSrvPost (caller : Nat) (name : Text) : Int × Kernel :=
  let current := kernel.procs caller
  match kernel.srvTable.findIdx? fun entry => entry.pid ≠ 0 ∧ entry.name = name with
  | some index =>
    let holder := (kernel.srvTable[index]?.map SrvEntry.pid).getD 0
    match procByPid procsMax kernel holder with
    | some existing =>
      if current.uid ≠ 0 ∧ current.uid ≠ (kernel.procs existing).uid then (-1, kernel)
      else (0, { kernel with srvTable := kernel.srvTable.modify index fun entry =>
        { entry with pid := current.pid, generation := current.generation } })
    | none => (0, { kernel with srvTable := kernel.srvTable.modify index fun entry =>
      { entry with pid := current.pid, generation := current.generation } })
  | none =>
    match kernel.srvTable.findIdx? fun entry => entry.pid = 0 with
    | none => (-1, kernel)
    | some index => (0, { kernel with
        srvTable := kernel.srvTable.set index
          ⟨strCopy name srvNameMax, current.pid, current.generation⟩ })

def sysSetuid (caller : Nat) (uid : Int) : Int × Kernel :=
  if (kernel.procs caller).uid ≠ 0 then (-1, kernel)
  else (0, kernel.set caller { kernel.procs caller with uid := uid })

def unusedSlot : Option Nat :=
  (List.range procsMax).find? fun slot => (kernel.procs slot).used = false

def defaultMounts : List (Text × Nat × Nat) :=
  kernel.services.filterMap fun service =>
    service.mountPrefix.bind fun mountPrefix =>
      if service.pid = 0 then none
      else some (mountPrefix, service.pid, mountGeneration procsMax kernel service.pid)

variable (slot : Nat)

def bornProc : Proc where
  used := true
  pid := slot + 1
  generation := ((kernel.procs slot).generation + 1) % 2 ^ 32
  uid := 0
  mounts := seedTable (kernel.procs slot).mounts (defaultMounts procsMax kernel)

def createProcess (fits : Bool) : Option (Nat × Kernel) :=
  match unusedSlot procsMax kernel with
  | none => none
  | some slot =>
    if fits then some (slot, kernel.set slot (bornProc procsMax kernel slot)) else none

def sysRfork (caller : Nat) (fits : Bool) : Int × Kernel :=
  match unusedSlot procsMax kernel with
  | none => (-1, kernel)
  | some slot =>
    if fits then ((slot + 1 : Nat), kernel.set slot
      { kernel.procs caller with
        pid := slot + 1, generation := ((kernel.procs slot).generation + 1) % 2 ^ 32 })
    else (-1, kernel)

def procDestroy : Kernel :=
  kernel.set slot { kernel.procs slot with used := false, pid := 0 }

def reseatNamespaceMounts (oldPid newPid newGeneration : Nat) : Kernel :=
  if oldPid = 0 then kernel
  else { kernel with
    procs := fun slot =>
      if slot < procsMax ∧ (kernel.procs slot).used then
        { kernel.procs slot with
          mounts := (kernel.procs slot).mounts.map (reseatMount oldPid newPid newGeneration) }
      else kernel.procs slot }

def Kernel.setService (index : Nat) (change : Service → Service) : Kernel :=
  { kernel with services := kernel.services.modify index change }

/-- The service is not up while its new instance is created, so that the instance's
own namespace does not list it. -/
def serviceInstantiate (index : Nat) (fits : Bool) : Option (Nat × Kernel) :=
  (createProcess procsMax
      (kernel.setService index fun service => { service with pid := 0 }) fits).map
    fun (slot, created) => (slot, created.setService index fun service =>
      { service with
        pid := (created.procs slot).pid, generation := (created.procs slot).generation })

def supervisorSpawn (index oldPid : Nat) (fits : Bool) : Kernel :=
  match serviceInstantiate procsMax kernel index fits with
  | none => kernel
  | some (slot, spawned) =>
    reseatNamespaceMounts procsMax
      (spawned.setService index fun service => { service with restarts := service.restarts + 1 })
      oldPid (spawned.procs slot).pid (spawned.procs slot).generation

/-- One pass of `supervisor_tick`'s loop over a service that is not wedged. -/
def supervise (index : Nat) (fits : Bool) : Kernel :=
  match kernel.services[index]? with
  | none => kernel
  | some service =>
    if service.givenUp then kernel
    else if instances procsMax kernel service.pid = some service.generation then kernel
    else if service.restarts ≥ svcRestartLimit then
      kernel.setService index fun service => { service with givenUp := true }
    else supervisorSpawn procsMax kernel index service.pid fits

/-- `service_boot`, while the table of services has room. -/
def serviceBoot (mountPrefix : Option Text) (fits : Bool) : Option Kernel :=
  if kernel.services.length < svcMax then
    (createProcess procsMax kernel fits).map fun (slot, created) =>
      { created with services := created.services ++
        [⟨mountPrefix, (created.procs slot).pid, (created.procs slot).generation, 0, false⟩] }
  else none

inductive Action where
  | create
  | boot (mountPrefix : Option Text)
  | rfork (caller : Nat) (fits : Bool)
  | die (slot : Nat)
  | setuid (caller : Nat) (uid : Int)
  | srvPost (caller : Nat) (name : Text)
  | nsMount (caller : Nat) (mountPrefix srvName : Text)
  | nsBind (caller : Nat) (mountPrefix source : Text) (flags : BitVec 32)
  | nsUnmount (caller : Nat) (mountPrefix : Text)
  | tick (service : Nat) (fits : Bool)

def Action.caller : Action → Option Nat
  | .create | .boot _ | .tick .. => none
  | .rfork caller _ | .die caller | .setuid caller _ | .srvPost caller _
  | .nsMount caller .. | .nsBind caller .. | .nsUnmount caller _ => some caller

def running : Prop :=
  slot < procsMax ∧ (kernel.procs slot).used ∧ (kernel.procs slot).pid = slot + 1

instance : Decidable (running procsMax kernel slot) :=
  inferInstanceAs (Decidable (_ ∧ _))

def perform : Action → Option Kernel
  | .create => (createProcess procsMax kernel true).map Prod.snd
  | .boot mountPrefix => serviceBoot procsMax kernel mountPrefix true
  | .rfork caller fits => some (sysRfork procsMax kernel caller fits).2
  | .die slot => some (procDestroy kernel slot)
  | .setuid caller uid => some (sysSetuid kernel caller uid).2
  | .srvPost caller name => some (sysSrvPost procsMax kernel caller name).2
  | .nsMount caller mountPrefix srvName =>
    some (sysNsMount procsMax kernel caller mountPrefix srvName).2
  | .nsBind caller mountPrefix source flags =>
    some (sysNsBind procsMax kernel caller mountPrefix source flags).2
  | .nsUnmount caller mountPrefix => some (sysNsUnmount kernel caller mountPrefix).2
  | .tick service fits => some (supervise procsMax kernel service fits)

def step (action : Action) : Option Kernel :=
  if ∀ caller ∈ action.caller, running procsMax kernel caller then perform procsMax kernel action
  else none

/-- Boot: the idle process in slot 0, whose pid is taken away, and empty tables. -/
def boot : Kernel where
  procs slot := ⟨slot = 0, 0, if slot = 0 then 1 else 0, 0,
    List.replicate nsMountsMax ⟨[], 0, 0, [], 0⟩⟩
  srvTable := List.replicate srvMax ⟨[], 0, 0⟩
  services := []

end Racccoon.Namespace
