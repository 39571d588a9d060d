import SpmMulti.Machine
import SpmMulti.Lib.OverlaidMemory

/- What handling a request reads and changes: console memory, the heap blocks it is given,
   the caller's response buffer, and a record of the effects in order. The mod's own
   buffers are not part of console memory, nor is a heap block from its start on; what lies in
   front of a block is. new char[n] obtains n bytes, none for a negative n, and is taken to
   succeed. -/
namespace SpmConsole
open SpmMachine OverlaidMemory

/-- What a command does, in order: bytes stored from response[0] on; memcpy out of console
    memory; new char[allocated] with what Base64decode stores from its start on; a NUL stored
    at an index from such a buffer's start; memcpy into console memory; a script started on the
    buffer. Indices and sizes are the ones the code computes, whether or not they fit what they
    are meant for. -/
inductive Effect where
  | respond (bytes : List UInt8)
  | load (ptr size : U32)
  | decode (allocated : Int) (stored : List UInt8)
  | terminate (allocated index : Int)
  | store (dest count : U32)
  | evtEntry (allocated : Int) (buffer : Nat → UInt8)

/-- A block as new hands it out: where it starts, and what it holds before it is written. -/
structure HeapBlock where
  address : U32
  holds : Nat → UInt8

/-- heap k is the k-th block handed out from now on. -/
structure Console where
  mem : Memory
  heap : Nat → HeapBlock
  response : List UInt8
  effects : List Effect

/-- An element access past the end of a vector, or an erase whose pointer is not into it. -/
inductive Fault where
  | vectorIndex (index size : Nat)
  | foreignIterator
  deriving DecidableEq

abbrev Outcome := Except Fault (U32 × Console)

def vectorAt {α : Type} (v : List α) (i : Nat) : Except Fault α :=
  match v[i]? with
  | some a => .ok a
  | none => .error (.vectorIndex i v.length)

def Console.respond (c : Console) (bytes : List UInt8) : Console :=
  { c with response := overlay c.response 0 bytes, effects := c.effects ++ [.respond bytes] }

/-- snprintf into the response, then the length of the text that is there. -/
def Console.report (lib : Snprintf) (c : Console) (responseSize : Nat) (format : String)
    (args : List U32) : U32 × Console :=
  let c := c.respond (lib.stored responseSize format args)
  (BitVec.ofNat 32 (strlen c.response), c)

def Console.copyOut (c : Console) (ptr size : U32) : Console :=
  let c := { c with effects := c.effects ++ [Effect.load ptr size] }
  c.respond (blockRead c.mem ptr size.toNat)

/-- The contents of the next block once some bytes are stored from its start on. -/
def Console.freshBlock (c : Console) (stored : List UInt8) : Nat → UInt8 :=
  fun i => stored.getD i ((c.heap 0).holds i)

def Console.decodeInto (c : Console) (allocated : Int) (stored : List UInt8) : Console :=
  { c with
    heap := fun k => c.heap (k + 1)
    effects := c.effects ++ [.decode allocated stored] }

def Console.copyIn (c : Console) (dest count : U32) (source : Nat → UInt8) : Console :=
  { c with
    mem := blockCopy c.mem dest count.toNat source
    effects := c.effects ++ [.store dest count] }

/-- What a buffer holds once a NUL is stored at this index of it, if it is in the buffer. -/
def terminated (buffer : Nat → UInt8) (index : Int) : Nat → UInt8 :=
  fun i => if (i : Int) = index then 0 else buffer i

theorem terminated_at {buffer : Nat → UInt8} {index : Int} {i : Nat} (same : (i : Int) = index) :
    terminated buffer index i = 0 := if_pos same

theorem terminated_beside {buffer : Nat → UInt8} {index : Int} {i : Nat}
    (differ : (i : Int) ≠ index) : terminated buffer index i = buffer i := if_neg differ

/-- The NUL is stored at an index from the buffer's address on, which a negative one takes in
    front of the buffer. -/
def Console.terminate (c : Console) (allocated : Int) (buffer : U32) (index : Int) : Console :=
  { c with
    mem := if index < 0 then Function.update c.mem (buffer + BitVec.ofInt 32 index) 0 else c.mem
    effects := c.effects ++ [.terminate allocated index] }

def Console.startEvt (c : Console) (allocated : Int) (buffer : Nat → UInt8) : Console :=
  { c with effects := c.effects ++ [.evtEntry allocated buffer] }

@[simp] theorem respond_mem (c : Console) (bytes : List UInt8) : (c.respond bytes).mem = c.mem :=
  rfl

@[simp] theorem respond_effects (c : Console) (bytes : List UInt8) :
    (c.respond bytes).effects = c.effects ++ [.respond bytes] := rfl

end SpmConsole
