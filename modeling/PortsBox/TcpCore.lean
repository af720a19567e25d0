import Mathlib.Data.List.Basic

/-!
# Copying a TCP stream

Any number of `copy_counted` runs on one thread, with the idle pipes they share. A
pipe carries the bytes that are in it, so that bytes left behind would reach the
next connection. What the sockets, the kernel and the quota answer is part of the
step; `splice` moves a prefix of the bytes and returns its length.
-/

set_option autoImplicit false

namespace PortsBox

def copyBuf : Nat := 64 * 1024
def minCapacity : Nat := 64 * 1024
def maxCapacity : Nat := 256 * 1024
def growAfter : Nat := 4
def maxIdle : Nat := 16

structure Pipe where
  content : List UInt8 := []
  capacity : Nat
  busy : Nat := 0
  deriving DecidableEq, Repr

namespace Pipe

/-- `pipe2` and `F_GETPIPE_SZ` answered with a capacity, or failed. -/
def create : Option Nat → Option Pipe
  | some capacity => if capacity < minCapacity then none else some { capacity }
  | none => none

/-- The pipe and what is left of the idle ones. -/
def acquire (idle : List Pipe) (created : Option Nat) : Option Pipe × List Pipe :=
  match idle with
  | pipe :: rest => (some pipe, rest)
  | [] => (create created, [])

/-- `F_SETPIPE_SZ` answered with a size. -/
def grow (p : Pipe) (size : Nat) : Pipe :=
  if size > p.capacity then { p with capacity := size } else p

def release (p : Pipe) (idle : List Pipe) : List Pipe :=
  if idle.length < maxIdle then { p with busy := 0 } :: idle else idle

/-- The pipe after `splice` has moved bytes into it. -/
def fillFrom (p : Pipe) (bytes : List UInt8) (size : Nat) : Pipe :=
  if bytes.length > 0 then
    let p := { p with content := p.content ++ bytes, busy := min (p.busy + 1) 255 }
    if p.busy = growAfter ∧ p.capacity < maxCapacity then p.grow size else p
  else p

/-- The pipe after `splice` has moved so many bytes out of it. -/
def drainTo (p : Pipe) (n : Nat) : Pipe := { p with content := p.content.drop n }

end Pipe

structure Lease where
  pipe : Option Pipe := none
  buffered : Nat := 0
  deriving DecidableEq, Repr

/-- The idle pipes after `give_back`, which leaves an empty lease. -/
def Lease.giveBack (lease : Lease) (idle : List Pipe) : List Pipe :=
  match lease.pipe with
  | some pipe => if lease.buffered = 0 then pipe.release idle else idle
  | none => idle

inductive CopyError where
  | io (e : String)
  | quotaExhausted
  | writeZero
  deriving DecidableEq, Repr

/-- Where a run of `copy_counted` is. -/
inductive CopyAt where
  /-- In `readable`. -/
  | waiting
  /-- About to `fill_from` the source. -/
  | filling
  /-- In `read`, without a pipe. -/
  | reading
  /-- About to `try_consume`. -/
  | counting (n : Nat)
  | draining
  /-- In `write_all`, without a pipe. -/
  | writing
  /-- Returned, or dropped by its caller. -/
  | ended (result : Option (Except CopyError Unit))
  deriving DecidableEq

/-- `buf` holds the bytes read without a pipe and not yet written. The last three fields say what
has happened: the bytes taken from the source, those given to the destination, and the number
that `try_consume` has accepted. -/
structure Copy where
  lease : Lease := {}
  canSplice : Bool := true
  buf : List UInt8 := []
  state : CopyAt := .waiting
  taken : List UInt8 := []
  written : List UInt8 := []
  counted : Nat := 0

/-- The bytes still buffered for the destination. -/
def Copy.pending (c : Copy) : List UInt8 :=
  match c.lease.pipe with
  | some pipe => pipe.content
  | none => c.buf

structure Thread where
  idle : List Pipe := []
  copies : List Copy := []

inductive Filled where
  /-- Nothing at the end of the stream; `size` is what growing the pipe would answer. -/
  | moved (bytes : List UInt8) (size : Nat)
  | wouldBlock
  | failed (e : String)
  deriving DecidableEq, Repr

inductive Drained where
  | moved (n : Nat)
  | wouldBlock
  | failed (e : String)
  deriving DecidableEq, Repr

inductive CopyStep where
  | readable (result : Except String Unit) (created : Option Nat)
  | fill (outcome : Filled)
  | read (result : Except String (List UInt8))
  | tryConsume (accepted : Bool)
  | drain (outcome : Drained)
  /-- One write of `write_all`. -/
  | write (result : Except String Nat)
  /-- The future is dropped where it waits. -/
  | cancel

namespace Copy

/-- `return`, which drops the lease. -/
def finish (c : Copy) (idle : List Pipe) (result : Option (Except CopyError Unit)) :
    Copy × List Pipe :=
  ({ c with lease := {}, buf := [], state := .ended result }, c.lease.giveBack idle)

/-- One step of a run, with the idle pipes of its thread. -/
def step (c : Copy) (idle : List Pipe) : CopyStep → Option (Copy × List Pipe)
  | .readable result created =>
    match c.state, result with
    | .waiting, .error e => some (c.finish idle (some (.error (.io e))))
    | .waiting, .ok () =>
      if c.lease.pipe.isNone && c.canSplice then
        let (pipe, idle) := Pipe.acquire idle created
        some
          ({ c with
              lease := { c.lease with pipe }
              canSplice := pipe.isSome
              state := if pipe.isSome then .filling else .reading },
            idle)
      else some ({ c with state := if c.lease.pipe.isSome then .filling else .reading }, idle)
    | _, _ => none
  | .fill outcome =>
    match c.state, c.lease.pipe, outcome with
    | .filling, some pipe, .moved bytes size =>
      if bytes.length > pipe.capacity then none
      else
        let c := { c with
          lease := { pipe := some (pipe.fillFrom bytes size), buffered := bytes.length }
          taken := c.taken ++ bytes }
        if bytes.length = 0 then some (c.finish idle (some (.ok ())))
        else some ({ c with state := .counting bytes.length }, idle)
    | .filling, some _, .wouldBlock =>
      some ({ c with lease := {}, state := .waiting }, c.lease.giveBack idle)
    | .filling, some _, .failed e => some (c.finish idle (some (.error (.io e))))
    | _, _, _ => none
  | .read result =>
    match c.state, result with
    | .reading, .error e => some (c.finish idle (some (.error (.io e))))
    | .reading, .ok bytes =>
      if bytes.length > copyBuf then none
      else if bytes.length = 0 then some (c.finish idle (some (.ok ())))
      else
        some
          ({ c with
              buf := bytes
              taken := c.taken ++ bytes
              state := .counting bytes.length },
            idle)
    | _, _ => none
  | .tryConsume accepted =>
    match c.state with
    | .counting n =>
      if !accepted then some (c.finish idle (some (.error .quotaExhausted)))
      else
        some
          ({ c with
              counted := c.counted + n
              state := if c.lease.pipe.isSome then .draining else .writing },
            idle)
    | _ => none
  | .drain outcome =>
    match c.state, c.lease.pipe, outcome with
    | .draining, some pipe, .moved sent =>
      if sent > c.lease.buffered ∨ sent > pipe.content.length then none
      else if sent = 0 then some (c.finish idle (some (.error .writeZero)))
      else
        some
          ({ c with
              lease := { pipe := some (pipe.drainTo sent), buffered := c.lease.buffered - sent }
              written := c.written ++ pipe.content.take sent
              state := if c.lease.buffered - sent > 0 then .draining else .waiting },
            idle)
    | .draining, some _, .wouldBlock => some (c, idle)
    | .draining, some _, .failed e => some (c.finish idle (some (.error (.io e))))
    | _, _, _ => none
  | .write result =>
    match c.state, result with
    | .writing, .error e => some (c.finish idle (some (.error (.io e))))
    | .writing, .ok sent =>
      if sent > c.buf.length then none
      else if sent = 0 then some (c.finish idle (some (.error .writeZero)))
      else
        some
          ({ c with
              buf := c.buf.drop sent
              written := c.written ++ c.buf.take sent
              state := if c.buf.length - sent > 0 then .writing else .waiting },
            idle)
    | _, _ => none
  | .cancel =>
    match c.state with
    | .waiting | .reading | .draining | .writing => some (c.finish idle none)
    | .filling | .counting _ | .ended _ => none

end Copy

namespace Thread

inductive Step where
  /-- A new run of `copy_counted`. -/
  | start
  | copy (i : Nat) (step : CopyStep)

def step (t : Thread) : Step → Option Thread
  | .start => some { t with copies := t.copies ++ [{}] }
  | .copy i step =>
    (t.copies[i]?).bind fun c => (c.step t.idle step).map fun (after, idle) =>
      { idle, copies := t.copies.set i after }

/-- Several steps in a row. -/
def steps (t : Thread) : List Step → Option Thread
  | [] => some t
  | step :: rest => (t.step step).bind fun next => next.steps rest

/-- The threads that any order of steps reaches. -/
inductive Reachable : Thread → Prop
  | start : Reachable {}
  | step {t next : Thread} {step : Step} (before : Reachable t) (hstep : t.step step = some next) :
      Reachable next

end Thread

end PortsBox
