import Mathlib.Algebra.GroupWithZero.Nat
import Racccoon.Lib.Slots
import Racccoon.Lib.Splices

/-!
The server of the environment variables (`user/sys/envd.c3`): one flat table for all
processes, each entry keyed by the process instance that sent the request, and the kernel's
answers the server relies on. Each request is handled in one step.
-/

namespace Racccoon.Env

open Racccoon.Slots Racccoon.Splices

abbrev Byte := BitVec 8

abbrev Name := List Byte

abbrev Instance := Nat × Nat

def envMax : Nat := 256
def envNameMax : Nat := 32
def envValueMax : Nat := 64
def listPage : Nat := 31

def dot : Byte := 0x2E

/-- `.inherited`. -/
def inheritedMarker : Name := [0x2E, 0x69, 0x6E, 0x68, 0x65, 0x72, 0x69, 0x74, 0x65, 0x64]

/-- `pid` 0 marks an unused slot. The value is all of its 64 bytes. -/
structure Entry where
  pid : Nat
  generation : Nat
  name : Name
  value : List Byte
  deriving DecidableEq

abbrev Table := List Entry

def Entry.owner (e : Entry) : Option Instance :=
  if e.pid = 0 then none else some (e.pid, e.generation)

def Entry.key (e : Entry) : Option (Instance × Name) := e.owner.map fun i => (i, e.name)

def text (value : List Byte) : List Byte := value.takeWhile (· ≠ 0)

def reserved (name : Name) : Bool := name.head? == some dot

def envCopyName (src : Name) : Name := src.take (envNameMax - 1)

def envFind (table : Table) (i : Instance) (name : Name) : Option Nat :=
  table.findIdx? fun e => e.pid == i.1 && e.generation == i.2 && e.name == name

abbrev Live := Nat → Option Nat

variable (live : Live)

def dead (e : Entry) : Bool := live e.pid != some e.generation

def vacant (e : Entry) : Bool := e.pid == 0 || dead live e

variable (table : Table)

def envFindFreeOrReclaim : Option Nat :=
  match table.findIdx? (·.pid == 0) with
  | some slot => some slot
  | none => table.findIdx? (dead live)

def parentVar (parent : Instance) (e : Entry) : Bool :=
  e.pid == parent.1 && e.generation == parent.2 && e.name != inheritedMarker

/-- The copy loop over the table from index `i` on, with `count` slots to go. -/
def copyLoop (live : Live) (child parent : Instance) : Nat → Nat → Table → Table
  | 0, _, table => table
  | count + 1, i, table =>
    match table[i]? with
    | none => table
    | some e =>
      if parentVar parent e then
        match envFindFreeOrReclaim live table with
        | none => table
        | some slot =>
          copyLoop live child parent count (i + 1)
            (table.set slot ⟨child.1, child.2, envCopyName e.name, e.value⟩)
      else copyLoop live child parent count (i + 1) table

def copyVars (parent : Option Instance) (table : Table) (i : Instance) : Table :=
  match parent with
  | none => table
  | some parent => copyLoop live i parent envMax 0 table

def envMaybeInherit (parent : Option Instance) (table : Table) (i : Instance) : Table :=
  if (envFind table i inheritedMarker).isSome then table
  else
    let copied := copyVars live parent table i
    match envFindFreeOrReclaim live copied with
    | none => copied
    | some slot =>
      copied.set slot ⟨i.1, i.2, envCopyName inheritedMarker,
        ((copied[slot]?.map Entry.value).getD []).set 0 0⟩

inductive Verb where
  | read
  | write (data : List Byte)
  | writeAt (offset : Nat) (data : List Byte)
  | list (start : Nat)
  | delete
  /-- Any other verb of the file protocol. -/
  | other

structure Request where
  verb : Verb
  name : Name

inductive Reply where
  | result (n : Int)
  | value (bytes : List Byte)
  | names (page : List Name)
  deriving DecidableEq

variable (i : Instance) (name : Name)

def writeSlot (offset : Nat) : Option Nat :=
  if reserved name then none
  else
    match envFind table i name with
    | some slot => some slot
    | none => if offset = 0 then envFindFreeOrReclaim live table else none

def rawValue (slot : Nat) : List Byte :=
  (table[slot]?.map Entry.value).getD []

/-- The 64 bytes of a value after `data` is put at `offset` and a NUL behind it. -/
def putValue (old : List Byte) (offset : Nat) (data : List Byte) : List Byte :=
  (splice old offset data).set (offset + data.length) 0

def clearByte (field byte : Nat) : Nat := field - field / 256 ^ byte % 256 * 256 ^ byte

def entrySize : Nat := 104

/-- A zero byte behind the value of the entry at `slot`: it falls into a later entry, or
outside the table. -/
def strayZero (slot offset : Nat) : Table :=
  let place := slot * entrySize + 40 + offset
  let byte := place % entrySize
  table.modify (place / entrySize) fun e =>
    if byte < 4 then { e with pid := clearByte e.pid byte }
    else if byte < 8 then { e with generation := clearByte e.generation (byte - 4) }
    else if byte < 40 then { e with name := e.name.take (byte - 8) }
    else { e with value := e.value.set (byte - 40) 0 }

/-- `FS_WRITE`: the value is cut to what fits in front of its NUL. -/
def envWrite (data : List Byte) : Table × Reply :=
  let kept := data.take (envValueMax - 1)
  match writeSlot live table i name 0 with
  | none => (table, .result (-1))
  | some slot =>
    (table.set slot ⟨i.1, i.2, envCopyName name, putValue (rawValue table slot) 0 kept⟩,
      .result kept.length)

/-- The bytes `FS_WRITE_AT` stores: the loop stops in front of the last byte of the value. -/
def keptAt (offset : Nat) (data : List Byte) : List Byte :=
  data.take (envValueMax - 1 - offset)

/-- `FS_WRITE_AT`: the reply counts the bytes that were cut off, too. -/
def envWriteAt (offset : Nat) (data : List Byte) : Table × Reply :=
  match writeSlot live table i name offset with
  | none => (table, .result (-1))
  | some slot =>
    let kept := keptAt offset data
    let old := rawValue table slot
    -- Nothing is put behind nothing: an empty write at offset 0 keeps the old value.
    let value := if offset + kept.length > 0 then putValue old offset kept else old
    let named :=
      if offset = 0 then table.set slot ⟨i.1, i.2, envCopyName name, value⟩
      else table.modify slot fun e => { e with value := value }
    (if offset ≥ envValueMax then strayZero named slot offset else named,
      .result data.length)

def shownNames : List Name :=
  (table.filter fun e => e.pid == i.1 && e.generation == i.2 && !reserved e.name).map Entry.name

def envRead : Reply :=
  if reserved name then .result (-1)
  else
    match envFind table i name with
    | none => .result (-1)
    | some slot => .value (text (rawValue table slot))

def envDelete : Table × Reply :=
  if reserved name then (table, .result (-1))
  else
    match envFind table i name with
    | none => (table, .result (-1))
    | some slot => (table.modify slot fun e => { e with pid := 0 }, .result 0)

/-- What is done with a request once the sender has inherited. -/
def handle (request : Request) : Table × Reply :=
  match request.verb with
  | .read => (table, envRead table i request.name)
  | .write data => envWrite live table i request.name data
  | .writeAt offset data => envWriteAt live table i request.name offset data
  | .list start => (table, .names (((shownNames table i).drop start).take listPage))
  | .delete => envDelete table i request.name
  | .other => (table, .result (-1))

def serve (parent : Option Instance) (table : Table) (i : Instance)
    (request : Request) : Table × Reply :=
  match request.verb with
  | .other => (table, .result (-1))
  | _ => handle live (envMaybeInherit live parent table i) i request

end Racccoon.Env
