import SpmMulti.Replies
import SpmMulti.Receive

/- receiverLoop (source/netmemoryaccess.cpp) once the socket listens, as a machine that takes
   one step for each call into the network: the call's answer is its input, and the step
   does what the code does up to its next such call. The answers to Mynet_write and
   Mynet_close are ignored, as the code ignores them. A request that faults stops the
   machine: nothing is said about what a console does afterwards. -/
namespace SpmReceiverLoop
open SpmMachine SpmConsole SpmCommandManager SpmCommands SpmReceive SpmReplies StepRuns
open OverlaidMemory
variable {lib : Snprintf}

def ENOMEM : Nat := 12

/-- What IOS answers to a call: a converted return value and the bytes of the buffer. -/
structure Answer where
  ret : Int
  message_buf : Fin READ_CHUNK_SIZE → UInt8

def Answer.result (answer : Answer) : ReadResult := Mynet_read answer.ret answer.message_buf

def Mynet_accept (addrlen : Nat) (ret : Int) : Int × Nat :=
  if addrlen < 8 then (-ENOMEM, addrlen) else (ret, 8)

inductive Call where
  | accept (connfd : Int)
  | read (connfd : Int) (result : ReadResult)
  | parseAndExecute (str : List UInt8) (invoked : List (List UInt8 × List (List UInt8)))
  | write (connfd : Int) (data : List UInt8) (size : U32)
  | close (connfd : Int)
  deriving DecidableEq

inductive Pc where
  | accept | read | write | close
  | stopped (fault : Fault)
  deriving DecidableEq

/-- recv holds recvBuff with the stack above it and the locals of the read loop. -/
structure Server where
  pc : Pc
  connfd : Int
  addrlen : Nat
  sendBuff : List UInt8
  recv : RecvState
  size : U32
  commandManager : CommandManager
  mem : Memory
  heap : Nat → HeapBlock
  calls : List Call

def Server.top (s : Server) : Server :=
  { s with
    pc := .accept
    sendBuff := overlay s.sendBuff 0 (List.replicate BUFSIZE 0)
    recv := recvStart (s.recv.stack.drop BUFSIZE) }

def Server.console (s : Server) : Console := ⟨s.mem, s.heap, s.sendBuff, []⟩

def Server.execute (lib : Snprintf) (s : Server) (str : List UInt8) : Server :=
  let handled := s.commandManager.parseAndExecute lib str BUFSIZE s.console
  let s := { s with calls := s.calls ++ [Call.parseAndExecute str handled.calls] }
  match handled.outcome with
  | .error fault => { s with pc := .stopped fault }
  | .ok (size, c) =>
    { s with pc := .write, size := size, mem := c.mem, heap := c.heap, sendBuff := c.response }

def Server.step (lib : Snprintf) (s : Server) (answer : Answer) : Server :=
  match s.pc with
  | .accept =>
    let (connfd, addrlen) := Mynet_accept s.addrlen answer.ret
    let s := { s with
      connfd := connfd, addrlen := addrlen, calls := s.calls ++ [Call.accept connfd] }
    if connfd < 0 then s else { s with pc := .read }
  | .read =>
    let s := { s with
      recv := recvStep s.recv answer.result
      calls := s.calls ++ [Call.read s.connfd answer.result] }
    if s.recv.ended = none then s
    else
      match handed s.recv with
      | none => { s with pc := .close }
      | some str => s.execute lib str
  | .write =>
    { s with
      pc := .close
      calls := s.calls ++ [Call.write s.connfd (s.sendBuff.take s.size.toNat) s.size] }
  | .close => { s with calls := s.calls ++ [Call.close s.connfd] }.top
  | .stopped _ => s

/-- The first pass of the loop: sizeof(serv_addr) is 16, connfd is 0, and initCommands has
    filled the registry. The stack above recvBuff holds anything. -/
def start (lib : Snprintf) (mem : Memory) (heap : Nat → HeapBlock) (above : List UInt8) :
    Server where
  pc := .accept
  connfd := 0
  addrlen := 16
  sendBuff := List.replicate BUFSIZE 0
  recv := recvStart above
  size := 0
  commandManager := initCommands lib none
  mem := mem
  heap := heap
  calls := []

def Starts (lib : Snprintf) (s : Server) : Prop := ∃ mem heap above, s = start lib mem heap above

abbrev Reached (lib : Snprintf) (s : Server) : Prop := Reachable (Starts lib) (Server.step lib) s

structure Sound (lib : Snprintf) (s : Server) : Prop where
  commands : s.commandManager = registry lib
  room : 8 ≤ s.addrlen
  cleared : s.pc = .accept → ∃ above, s.recv = recvStart above
  unfinished : s.pc = .read → s.recv.ended = none

theorem start_sound {s : Server} (starts : Starts lib s) : Sound lib s := by
  obtain ⟨mem, heap, above, rfl⟩ := starts
  exact ⟨rfl, by simp [start], fun _ => ⟨above, rfl⟩, by simp [start]⟩

theorem execute_pc (lib : Snprintf) (s : Server) (str : List UInt8) :
    (s.execute lib str).pc ≠ .accept ∧ (s.execute lib str).pc ≠ .read := by
  unfold Server.execute
  dsimp only
  split <;> simp

theorem execute_frame (lib : Snprintf) (s : Server) (str : List UInt8) :
    (s.execute lib str).commandManager = s.commandManager ∧
      (s.execute lib str).addrlen = s.addrlen ∧ (s.execute lib str).recv = s.recv ∧
      (s.execute lib str).connfd = s.connfd := by
  unfold Server.execute
  dsimp only
  split <;> exact ⟨rfl, rfl, rfl, rfl⟩

theorem accept_room {addrlen : Nat} (room : 8 ≤ addrlen) (ret : Int) :
    Mynet_accept addrlen ret = (ret, 8) := by
  rw [Mynet_accept, if_neg (by omega)]

theorem step_sound {s : Server} (sound : Sound lib s) (answer : Answer) :
    Sound lib (s.step lib answer) := by
  obtain ⟨commands, room, cleared, unfinished⟩ := sound
  cases place : s.pc with
  | accept =>
    obtain ⟨above, fresh⟩ := cleared place
    simp only [Server.step, place, accept_room room]
    split
    · exact ⟨commands, Nat.le_refl 8, fun _ => ⟨above, fresh⟩, by simp⟩
    · exact ⟨commands, Nat.le_refl 8, by simp, fun _ => by simp [fresh, recvStart]⟩
  | read =>
    simp only [Server.step, place]
    split
    · rename_i open_
      exact ⟨commands, room, by simp, fun _ => open_⟩
    · split
      · exact ⟨commands, room, by simp, by simp⟩
      · rename_i str _
        obtain ⟨notAccept, notRead⟩ := execute_pc lib _ str
        obtain ⟨sameCommands, sameRoom, _⟩ := execute_frame lib _ str
        exact ⟨sameCommands.trans commands, room.trans_eq sameRoom.symm,
          fun at_ => absurd at_ notAccept, fun at_ => absurd at_ notRead⟩
  | write =>
    simp only [Server.step, place]
    exact ⟨commands, room, by simp, by simp⟩
  | close =>
    simp only [Server.step, place]
    exact ⟨commands, room, fun _ => ⟨_, rfl⟩, by simp [Server.top]⟩
  | stopped fault =>
    simp only [Server.step, place]
    exact ⟨commands, room, by simp [place], by simp [place]⟩

theorem reached_sound {s : Server} (reached : Reached lib s) : Sound lib s := by
  refine reachable_invariant ?_ ?_ reached
  · intro s starts
    exact start_sound starts
  · intro s answer sound
    exact step_sound sound answer

/-- The reads of one connection: answers are taken while the loop reads, no longer. -/
def Server.readAll (lib : Snprintf) (s : Server) (reads : List Answer) : Server :=
  run (fun s answer => if s.pc = .read then s.step lib answer else s) s reads

def Delivers (reads : List Answer) (chunks : List Chunk) : Prop :=
  reads.map Answer.result = chunks.map .received

def Server.passed (s : Server) : Option (List UInt8 × U32) :=
  if s.pc = .write then some (s.sendBuff.take s.size.toNat, s.size) else none

def chunkAnswer (chunk : Chunk) : Answer := ⟨chunk.val.length, fun i => chunk.val.getD i 0⟩

theorem Mynet_read_chunk (chunk : Chunk) :
    Mynet_read chunk.val.length (fun i => chunk.val.getD i 0) = .received chunk := by
  obtain ⟨bytes, short⟩ := chunk
  have filled : (List.ofFn fun i : Fin READ_CHUNK_SIZE => bytes.getD i 0).take bytes.length =
      bytes := by
    apply List.ext_getElem
    · simpa using short
    · intro i _ inside
      simp [inside]
  have enough : ¬ (bytes.length : Int) > READ_CHUNK_SIZE := by omega
  rw [Mynet_read, dif_neg (Int.not_lt.mpr (Int.natCast_nonneg _)), if_neg enough]
  simp only [Int.toNat_natCast, filled]

theorem delivers_chunks (chunks : List Chunk) : Delivers (chunks.map chunkAnswer) chunks := by
  rw [Delivers, List.map_map]
  exact List.map_congr_left fun chunk _ => Mynet_read_chunk chunk

theorem step_accept {s : Server} (sound : Sound lib s) (waiting : s.pc = .accept)
    {opened : Answer} (accepted : 0 ≤ opened.ret) :
    ∃ above, s.recv = recvStart above ∧ s.step lib opened = { s with
      pc := .read, connfd := opened.ret, addrlen := 8,
      calls := s.calls ++ [Call.accept opened.ret] } := by
  obtain ⟨above, fresh⟩ := sound.cleared waiting
  refine ⟨above, fresh, ?_⟩
  simp only [Server.step, waiting, accept_room sound.room, if_neg (Int.not_lt.mpr accepted)]

/-- A connection whose reads end the read loop with a request runs that request, in the
    state the reads have left. -/
theorem readAll_request {s : Server} (reads : List Answer) {str : List UInt8}
    (place : s.pc = .read) (unfinished : s.recv.ended = none)
    (request : handed (run recvStep s.recv (reads.map Answer.result)) = some str) :
    ∃ made, made <+: reads ∧ s.readAll lib reads = Server.execute lib { s with
      recv := run recvStep s.recv (reads.map Answer.result)
      calls := s.calls ++ made.map fun answer : Answer => Call.read s.connfd answer.result }
        str := by
  induction reads generalizing s with
  | nil =>
    rw [List.map_nil, run_nil, handed, unfinished] at request
    contradiction
  | cons answer reads ih =>
    rw [List.map_cons, run_cons] at request
    rw [Server.readAll, run_cons, if_pos place]
    by_cases open_ : (recvStep s.recv answer.result).ended = none
    · have step : s.step lib answer = { s with
          recv := recvStep s.recv answer.result
          calls := s.calls ++ [Call.read s.connfd answer.result] } := by
        simp only [Server.step, place, if_pos open_]
      obtain ⟨made, before, same⟩ := ih (s := s.step lib answer) (by rw [step]; exact place)
        (by rw [step]; exact open_) (by rw [step]; exact request)
      refine ⟨answer :: made, List.cons_prefix_cons.mpr ⟨rfl, before⟩, ?_⟩
      rw [Server.readAll] at same
      rw [same, step]
      simp
    · have final := run_absorbed (recvStep_ended open_) (reads.map Answer.result)
      rw [final] at request
      refine ⟨[answer], List.cons_prefix_cons.mpr ⟨rfl, List.nil_prefix⟩, ?_⟩
      have step : s.step lib answer = { s with
          recv := recvStep s.recv answer.result
          calls := s.calls ++ [Call.read s.connfd answer.result] }.execute lib str := by
        simp only [Server.step, place, if_neg open_, request]
      rw [step, run_absorbed (fun i => if_neg (execute_pc lib _ str).2), List.map_cons, run_cons,
        final]
      rfl

theorem execute_ok {s : Server} {str : List UInt8} {calls : List (List UInt8 × List (List UInt8))}
    {size : U32} {c : Console} (commands : s.commandManager = registry lib)
    (handled : (registry lib).parseAndExecute lib str BUFSIZE s.console =
      ⟨calls, .ok (size, c)⟩) :
    s.execute lib str = { s with
      pc := .write, size := size, mem := c.mem, heap := c.heap, sendBuff := c.response,
      calls := s.calls ++ [Call.parseAndExecute str calls] } := by
  simp only [Server.execute, commands, handled]

theorem execute_passed {s : Server} {str : List UInt8} {result : U32 × Console} {size : U32}
    {bytes : List UInt8} (commands : s.commandManager = registry lib)
    (handled : ((registry lib).parseAndExecute lib str BUFSIZE s.console).outcome = .ok result)
    (replies : Replies result size bytes) :
    (s.execute lib str).passed = some (bytes, size) := by
  obtain ⟨rfl, rfl⟩ := replies
  simp only [Server.execute, Server.passed, commands, handled]
  rfl

/-- Where a request that is answered leaves the loop. -/
theorem execute_answers {s t : Server} {str : List UInt8}
    {calls : List (List UInt8 × List (List UInt8))} {result : U32 × Console} {size : U32}
    {bytes : List UInt8} (same : t = s.execute lib str) (commands : s.commandManager = registry lib)
    (handled : (registry lib).parseAndExecute lib str BUFSIZE s.console = ⟨calls, .ok result⟩)
    (replies : Replies result size bytes) :
    t.calls.getLast? = some (.parseAndExecute str calls) ∧ t.passed = some (bytes, size) ∧
      t.mem = result.2.mem ∧ t.recv = s.recv := by
  have passed := execute_passed commands (congrArg Handled.outcome handled) replies
  have done := same.trans (execute_ok commands handled)
  refine ⟨?_, same ▸ passed, ?_, ?_⟩
  · rw [done, List.getLast?_concat]
  · rw [done]
  · rw [done]

/-- From an accept to the request: a connection whose chunks hold one is handled on the
    memory that the accept found, by the commands registered at the start. -/
theorem connection_executes {s : Server} (reached : Reached lib s) (waiting : s.pc = .accept)
    {opened : Answer} (accepted : 0 ≤ opened.ret) {chunks : List Chunk} {reads : List Answer}
    (delivers : Delivers reads chunks) {str : List UInt8}
    (request : ∀ above,
      handed (run recvStep (recvStart above) (chunks.map .received)) = some str) :
    ∃ (u : Server) (above : List UInt8) (made : List Answer),
      (s.step lib opened).readAll lib reads = u.execute lib str ∧
      u.commandManager = registry lib ∧ u.mem = s.mem ∧
      u.recv = run recvStep (recvStart above) (chunks.map .received) ∧ made <+: reads ∧
      u.calls = s.calls ++ Call.accept opened.ret ::
        made.map fun answer : Answer => Call.read opened.ret answer.result := by
  have sound := reached_sound reached
  obtain ⟨above, fresh, step⟩ := step_accept sound waiting accepted
  have unfinished : (s.step lib opened).recv.ended = none := by
    rw [step]
    simp [fresh, recvStart]
  have handled := request above
  rw [← delivers, ← fresh] at handled
  obtain ⟨made, before, same⟩ := readAll_request (s := s.step lib opened) reads
    (by rw [step]) unfinished (by rw [step]; exact handled)
  refine ⟨_, above, made, same, ?_, ?_, ?_, before, ?_⟩
  · rw [step]; exact sound.commands
  · rw [step]
  · rw [step, ← delivers, ← fresh]
  · rw [step]; simp

end SpmReceiverLoop
