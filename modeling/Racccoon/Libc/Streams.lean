import Racccoon.Libc.Descriptors

/-!
The streams of the C library (`racccoon-libc/src/stdio.c`): one buffer for both directions
over a descriptor, or over the growing buffer of `open_memstream`. Beside them the stream
without a buffer: the bytes of the file and one position.
-/

namespace Racccoon.Libc

open Racccoon.FileServer Racccoon.Splices

/-- The file of the descriptor and the descriptor's offset. For `open_memstream` the bytes so
far, and their number. -/
structure Under where
  content : List Byte
  off : Nat

namespace Under
variable (u : Under) (server : Server)

/-- `read`: what it returns may be short. -/
def read (count : Nat) : Under × List Byte :=
  let got := (u.content.drop u.off).take (min count (server.give u.off + 1))
  ({ u with off := u.off + got.length }, got)

/-- `write`: there are no holes, and what is stored may be short. -/
def write (data : List Byte) : Under × Int :=
  if u.content.length < u.off then (u, -1)
  else
    let kept := data.take (server.accept u.off)
    (⟨splice u.content u.off kept, u.off + kept.length⟩, kept.length)

def lseek (off : Int) (whence : Whence) : Under × Int :=
  let target := whence.base u.off u.content.length + off
  if target < 0 then (u, -1) else ({ u with off := target.toNat }, target)

end Under

inductive BufMode where
  | full
  | line
  | none
  deriving DecidableEq

def newline : Byte := 0x0A

structure Stream where
  under : Under
  /-- A stream of `open_memstream`: there is no descriptor. -/
  mem : Bool
  /-- `stdout` or `stderr`. -/
  standard : Bool
  err : Bool
  eof : Bool
  bufmode : BufMode
  /-- All `bufcap` bytes of the buffer. -/
  buf : List Byte
  rpos : Nat
  rlen : Nat
  wlen : Nat
  pos : Nat
  ungot : Option Byte

namespace Stream
variable (f : Stream) (server : Server)

/-- The loop of `flush_write`, with as many rounds as bytes are pending. -/
def flushLoop (server : Server) : Nat → Under → List Byte → Under × Bool
  | 0, u, _ => (u, true)
  | rounds + 1, u, data =>
    if data = [] then (u, true)
    else
      let (u, w) := u.write server data
      if w ≤ 0 then (u, false) else flushLoop server rounds u (data.drop w.toNat)

def pending : List Byte := f.buf.take f.wlen

/-- The flag says whether it succeeded. -/
def flushWrite : Stream × Bool :=
  if f.wlen = 0 then (f, true)
  else if f.mem then
    ({ f with
        under := ⟨f.under.content ++ f.pending, f.under.off + f.wlen⟩
        pos := f.pos + f.wlen
        wlen := 0 }, true)
  else
    let (under, done) := flushLoop server f.wlen f.under f.pending
    if done then ({ f with under := under, pos := f.pos + f.wlen, wlen := 0 }, true)
    else ({ f with under := under, err := true }, false)

def dropRead : Stream :=
  { f with
    under := if f.rlen > f.rpos ∧ f.mem = false then (f.under.lseek (f.pos + f.rpos) .set).1
      else f.under
    rpos := 0
    rlen := 0 }

/-- The flag says whether there is a byte now. What the flush comes to is not looked at. -/
def refill : Stream × Bool :=
  let f := if f.wlen ≠ 0 then (f.flushWrite server).1 else f
  let f := { f with pos := f.pos + f.rlen, rpos := 0, rlen := 0 }
  if f.mem then ({ f with err := true }, false)
  else
    let (under, got) := f.under.read server f.buf.length
    if got = [] then ({ f with under := under, eof := true }, false)
    else
      ({ f with under := under, buf := got ++ f.buf.drop got.length, rlen := got.length }, true)

/-- `f->buf[f->rpos++]`. -/
def nextByte : Stream × Option Byte := ({ f with rpos := f.rpos + 1 }, f.buf[f.rpos]?)

def fgetc : Stream × Option Byte :=
  match f.ungot with
  | some c => ({ f with ungot := none }, some c)
  | none =>
    if f.rpos ≥ f.rlen then
      let (f, there) := f.refill server
      if there then f.nextByte else (f, none)
    else f.nextByte

def ungetc (c : Option Byte) : Stream × Option Byte :=
  match c with
  | none => (f, none)
  | some c =>
    if f.ungot.isSome then (f, none) else ({ f with ungot := some c, eof := false }, some c)

/-- The loop of `fread`, for the bytes still missing. -/
def freadLoop (server : Server) : Nat → Stream → Stream × List Byte
  | 0, f => (f, [])
  | missing + 1, f =>
    match f.fgetc server with
    | (f, none) => (f, [])
    | (f, some c) =>
      let (f, rest) := freadLoop server missing f
      (f, c :: rest)

def fread (size nmemb : Nat) : Stream × List Byte × Nat :=
  if size = 0 ∨ nmemb = 0 then (f, [], 0)
  else
    let (f, got) := freadLoop server (size * nmemb) f
    (f, got, got.length / size)

/-- The loop of `fgets`, for the bytes there is still room for. -/
def fgetsLoop (server : Server) : Nat → Stream → Stream × List Byte
  | 0, f => (f, [])
  | room + 1, f =>
    match f.fgetc server with
    | (f, none) => (f, [])
    | (f, some c) =>
      if c = newline then (f, [c])
      else
        let (f, rest) := fgetsLoop server room f
        (f, c :: rest)

def fgets (n : Int) : Stream × Option (List Byte) :=
  if n ≤ 0 then (f, none)
  else
    let (f, line) := fgetsLoop server (n - 1).toNat f
    (f, if line = [] ∧ n ≠ 1 then none else some line)

/-- The end of `fputc`: the byte goes to the buffer, or in unbuffered mode to the descriptor. -/
def putByte (c : Byte) : Stream × Option Byte :=
  if f.bufmode = .none then
    let (under, w) := if f.mem then (f.under, -1) else f.under.write server [c]
    if w ≠ 1 then ({ f with under := under, err := true }, none)
    else ({ f with under := under, pos := f.pos + 1 }, some c)
  else
    let f := { f with buf := f.buf.set f.wlen c, wlen := f.wlen + 1 }
    if f.wlen = f.buf.length ∨ f.bufmode = .line ∧ c = newline then
      let (f, done) := f.flushWrite server
      (f, if done then some c else none)
    else (f, some c)

def fputc (c : Byte) : Stream × Option Byte :=
  let f := if f.rlen > f.rpos ∨ f.ungot.isSome then { f.dropRead with ungot := none } else f
  f.putByte server c

/-- The loop of `fwrite`: how many bytes were put. -/
def fwriteLoop (server : Server) : List Byte → Stream → Stream × Nat
  | [], f => (f, 0)
  | c :: rest, f =>
    match f.fputc server c with
    | (f, none) => (f, 0)
    | (f, some _) =>
      let (f, put) := fwriteLoop server rest f
      (f, put + 1)

def fwrite (size nmemb : Nat) (data : List Byte) : Stream × Nat :=
  if size = 0 ∨ nmemb = 0 then (f, 0)
  else
    let (f, put) := fwriteLoop server (data.take (size * nmemb)) f
    (f, put / size)

def fseek (off : Int) (whence : Whence) : Stream × Int :=
  let (f, done) := f.flushWrite server
  if ¬ done then (f, -1)
  else
    let f := { f with ungot := none, rpos := 0, rlen := 0 }
    let (under, np) := if f.mem then (f.under, -1) else f.under.lseek off whence
    if np < 0 then ({ f with under := under }, -1)
    else ({ f with under := under, pos := np.toNat, eof := false }, 0)

def ftell : Int := if f.wlen ≠ 0 then f.pos + f.wlen else f.pos + f.rpos

def fflush : Stream × Int :=
  let (f, done) := f.flushWrite server
  (f, if done then 0 else -1)

/-- `fclose`; the descriptor is closed behind it. -/
def fclose : Stream × Int := f.fflush server

/-- `exit`: of all streams only `stdout` and `stderr` are flushed. -/
def exit : Stream := if f.standard then (f.flushWrite server).1 else f

end Stream

/-- A stream of `fdopen`, or with `mem` of `open_memstream`, with a buffer of its own. -/
def openStream (under : Under) (mem standard : Bool) (bufmode : BufMode) (buf : List Byte) :
    Stream where
  under := under
  mem := mem
  standard := standard
  err := false
  eof := false
  bufmode := bufmode
  buf := buf
  rpos := 0
  rlen := 0
  wlen := 0
  pos := 0
  ungot := none

/-- The bytes of the file, the position behind what was read of them, and a byte that was
pushed back. -/
structure Plain where
  content : List Byte
  place : Nat
  pushed : Option Byte

namespace Plain
variable (m : Plain)

def unread : List Byte := m.pushed.toList ++ m.content.drop m.place

def advance (count : Nat) : Plain :=
  if count = 0 then m
  else { m with place := m.place + (count - m.pushed.toList.length), pushed := none }

def fgetc : Plain × Option Byte :=
  match m.unread with
  | [] => (m, none)
  | c :: _ => (m.advance 1, some c)

def ungetc (c : Option Byte) : Plain × Option Byte :=
  match c with
  | none => (m, none)
  | some c => if m.pushed.isSome then (m, none) else ({ m with pushed := some c }, some c)

def fread (size nmemb : Nat) : Plain × List Byte × Nat :=
  let got := m.unread.take (size * nmemb)
  (m.advance got.length, got, if size = 0 then 0 else got.length / size)

def lineOf : List Byte → List Byte
  | [] => []
  | c :: rest => if c = newline then [c] else c :: lineOf rest

def fgets (n : Int) : Plain × Option (List Byte) :=
  if n ≤ 0 then (m, none)
  else
    let line := lineOf (m.unread.take (n - 1).toNat)
    (m.advance line.length, if line = [] ∧ n ≠ 1 then none else some line)

def put (data : List Byte) : Plain :=
  { m with content := splice m.content m.place data, place := m.place + data.length }

def fputc (c : Byte) : Plain × Option Byte := (m.put [c], some c)

def fwrite (size nmemb : Nat) (data : List Byte) : Plain × Nat :=
  (m.put (data.take (size * nmemb)), if size = 0 then 0 else nmemb)

def ftell : Int := m.place - m.pushed.toList.length

def target (off : Int) : Whence → Int
  | .set => off
  | .cur => m.ftell + off
  | .endOfFile => m.content.length + off

def fseek (off : Int) (whence : Whence) : Plain × Int :=
  if m.target off whence < 0 then (m, -1)
  else ({ m with place := (m.target off whence).toNat, pushed := none }, 0)

end Plain

end Racccoon.Libc
