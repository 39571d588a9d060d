import SpmMulti.EndToEnd

/- Any number of client programs served one after another: seen from the clients, the console
   is a memory that their operations read and write. The network may refuse connections in
   between and cut the requests as it likes. -/
namespace SpmClientSessions
open SpmMachine SpmStrtoul SpmSplit SpmConsole SpmCommandManager SpmCommands SpmHandling
open SpmReceive SpmReceiverLoop SpmReplies SpmClient SpmEndToEnd StepRuns PositionalNumeral
open SextetCode DelimitedWords OverlaidMemory
variable {lib : Snprintf}

inductive Operation where
  | read (addr size : Nat)
  | write (addr : Nat) (data : List UInt8)
  | msgbox (message : List Char)

def Operation.request : Operation → List UInt8
  | .read addr size => SpmClient.read addr size
  | .write addr data => SpmClient.write addr data
  | .msgbox message => SpmClient.msgbox message

/-- What the operation makes of memory, and its answer. -/
def Operation.perform : Operation → Memory → Memory × List UInt8
  | .read addr size, mem => (mem, peek mem addr size)
  | .write addr data, mem => (poke mem addr data, wordBytes (BitVec.ofNat 32 data.length))
  | .msgbox message, mem => (mem, wordBytes (BitVec.ofNat 32 message.length))

def performAll : List Operation → Memory → Memory × List (List UInt8)
  | [], mem => (mem, [])
  | op :: ops, mem =>
    let (mem, answer) := op.perform mem
    let (mem, answers) := performAll ops mem
    (mem, answer :: answers)

def reply : Call → Option (List UInt8 × U32)
  | .write _ data size => some (data, size)
  | .accept _ => none
  | .read _ _ => none
  | .parseAndExecute _ _ => none
  | .close _ => none

def replies (calls : List Call) : List (List UInt8 × U32) := calls.filterMap reply

/-- The words of an operation's request, the last one apart. -/
def Operation.words : Operation → List UInt8 × List (List UInt8) × List UInt8
  | .read addr size => (text "read", [numeral 16 addr], numeral 10 size)
  | .write addr data => (text "write", [numeral 16 addr, encode data], numeral 10 data.length)
  | .msgbox message => (text "msgbox", [encode (utf8 message)], numeral 10 message.length)

/-- Waiting for a connection, with this memory and these replies so far. -/
structure Waiting (lib : Snprintf) (s : Server) (mem : Memory)
    (sent : List (List UInt8 × U32)) : Prop where
  reached : Reached lib s
  place : s.pc = .accept
  mem : s.mem = mem
  sent : replies s.calls = sent

end SpmClientSessions
