import SpmMulti.ReceiverLoop
import SpmMulti.Lib.DescriptorSessions

/- The calls of receiverLoop, cut into connections: as long as every request that is handed on
   has a token, the record of calls is a sequence of finished connections and the part of the
   one that is open, and this one is finished too once its read loop ends. A request without a
   token stops the console with the connection open. -/
namespace SpmConnectionLife
open SpmMachine SpmSplit SpmConsole SpmCommandManager SpmCommands SpmHandling SpmReceive
open SpmReceiverLoop
open StepRuns DescriptorSessions
variable {lib : Snprintf}

def opening (connfd : Int) (results : List ReadResult) : List Call :=
  .accept connfd :: results.map fun result => Call.read connfd result

def Arrived (results : List ReadResult) : Prop :=
  ∀ result ∈ results, ∃ chunk, result = .received chunk

/-- One or more reads, none of them failed, after which the read loop hands str on. -/
structure Requests (results : List ReadResult) (str : List UInt8) : Prop where
  some_ : results ≠ []
  arrived : Arrived results
  request : ∃ above, handed (run recvStep (recvStart above) results) = some str

def Executes (lib : Snprintf) (str : List UInt8) (invoked : List (List UInt8 × List (List UInt8)))
    (size : U32) (sendBuff : List UInt8) : Prop :=
  ∃ before after, (registry lib).parseAndExecute lib str BUFSIZE before =
    ⟨invoked, .ok (size, after)⟩ ∧ sendBuff = after.response

/-- The calls from an accept to the point where no connection is open. -/
inductive Finished (lib : Snprintf) : List Call → Prop where
  | refused {connfd : Int} (negative : connfd < 0) : Finished lib [.accept connfd]
  | failed {connfd : Int} {results : List ReadResult} (code : { n : Int // n < 0 })
      (accepted : 0 ≤ connfd) (arrived : Arrived results) :
      Finished lib (opening connfd (results ++ [.failed code]) ++ [.close connfd])
  | served {connfd : Int} {results : List ReadResult} {str sendBuff : List UInt8}
      {invoked : List (List UInt8 × List (List UInt8))} {size : U32} (accepted : 0 ≤ connfd)
      (requests : Requests results str) (executes : Executes lib str invoked size sendBuff) :
      Finished lib (opening connfd results ++ [.parseAndExecute str invoked,
        .write connfd (sendBuff.take size.toNat) size, .close connfd])

/-- The calls of the connection that is open, by the call that comes next. -/
inductive Unfinished (lib : Snprintf) (s : Server) : List Call → Prop where
  | accept (place : s.pc = .accept) : Unfinished lib s []
  | read {results : List ReadResult} (place : s.pc = .read) (accepted : 0 ≤ s.connfd)
      (arrived : Arrived results)
      (received : ∃ above, s.recv = run recvStep (recvStart above) results) :
      Unfinished lib s (opening s.connfd results)
  | write {results : List ReadResult} {str : List UInt8}
      {invoked : List (List UInt8 × List (List UInt8))} (place : s.pc = .write)
      (accepted : 0 ≤ s.connfd) (requests : Requests results str)
      (executes : Executes lib str invoked s.size s.sendBuff) :
      Unfinished lib s (opening s.connfd results ++ [.parseAndExecute str invoked])
  | close {part : List Call} (place : s.pc = .close)
      (finished : Finished lib (part ++ [.close s.connfd])) : Unfinished lib s part

/-- The text that the step is about to hand to parseAndExecute. -/
def requested (s : Server) (answer : Answer) : Option (List UInt8) :=
  match s.pc with
  | .read => handed (recvStep s.recv answer.result)
  | _ => none

def HasToken (s : Server) (answer : Answer) : Prop :=
  ∀ str ∈ requested s answer, split (cstr str) 32 ≠ []

instance (s : Server) (answer : Answer) : Decidable (HasToken s answer) :=
  inferInstanceAs (Decidable (∀ str ∈ requested s answer, split (cstr str) 32 ≠ []))

/-- The record of calls, cut where a connection has come to its end. -/
def Cut (lib : Snprintf) (s : Server) : Prop :=
  ∃ done rest, s.calls = List.flatten done ++ rest ∧ (∀ part ∈ done, Finished lib part) ∧
    Unfinished lib s rest

theorem recvStep_outcome {s : RecvState} (open_ : s.ended = none) (result : ReadResult) :
    (∃ code, result = .failed code ∧ (recvStep s result).ended ≠ none ∧
      handed (recvStep s result) = none) ∨
    (∃ chunk, result = .received chunk ∧
      ((recvStep s result).ended = none ∨ ∃ str, handed (recvStep s result) = some str)) := by
  cases result with
  | failed code =>
    refine Or.inl ⟨code, rfl, ?_⟩
    simp [recvStep, open_, recvEnd, handed, code.property]
  | received chunk =>
    refine Or.inr ⟨chunk, rfl, ?_⟩
    simp only [recvStep, open_]
    split
    · right
      simp only [handed, recvEnd_ended]
      rw [if_neg (Int.not_lt.mpr (Int.natCast_nonneg _))]
      exact ⟨_, rfl⟩
    · left
      rfl

theorem arrived_concat {results : List ReadResult} (arrived : Arrived results) (chunk : Chunk) :
    Arrived (results ++ [.received chunk]) := by
  intro result member
  rcases List.mem_append.mp member with earlier | last
  · exact arrived result earlier
  · exact ⟨chunk, List.mem_singleton.mp last⟩

theorem opening_concat (connfd : Int) (results : List ReadResult) (result : ReadResult) :
    opening connfd results ++ [.read connfd result] = opening connfd (results ++ [result]) := by
  simp [opening]

theorem finished_concat {done : List (List Call)} {part : List Call}
    (finished : ∀ other ∈ done, Finished lib other) (last : Finished lib part) :
    ∀ other ∈ done ++ [part], Finished lib other := by
  intro other member
  rcases List.mem_append.mp member with earlier | new
  · exact finished other earlier
  · exact List.mem_singleton.mp new ▸ last

theorem token_executes (lib : Snprintf) {str : List UInt8} (token : split (cstr str) 32 ≠ [])
    (c : Console) : ∃ invoked size after,
      (registry lib).parseAndExecute lib str BUFSIZE c = ⟨invoked, .ok (size, after)⟩ := by
  obtain ⟨body, _, runs⟩ := dispatched lib token BUFSIZE
  exact ⟨_, (body c).1, (body c).2, congrArg (Handled.mk _) (runs c)⟩

theorem execute_writes {s : Server} (commands : s.commandManager = registry lib)
    {str : List UInt8} (token : split (cstr str) 32 ≠ []) : (s.execute lib str).pc = .write := by
  obtain ⟨invoked, size, c, handled⟩ := token_executes lib token s.console
  rw [execute_ok commands handled]

theorem requested_read {s : Server} (place : s.pc = .read) (answer : Answer) :
    requested s answer = handed (recvStep s.recv answer.result) := by
  simp only [requested, place]

theorem execute_cut {s : Server} (commands : s.commandManager = registry lib)
    {done : List (List Call)} {results : List ReadResult} {str : List UInt8}
    (calls : s.calls = done.flatten ++ opening s.connfd results)
    (finished : ∀ part ∈ done, Finished lib part) (accepted : 0 ≤ s.connfd)
    (requests : Requests results str) (token : split (cstr str) 32 ≠ []) :
    Cut lib (s.execute lib str) := by
  obtain ⟨invoked, size, c, handled⟩ := token_executes lib token s.console
  rw [execute_ok commands handled]
  refine ⟨done, _, ?_, finished, .write rfl accepted requests ⟨s.console, c, handled, rfl⟩⟩
  simp [calls]

theorem start_cut (lib : Snprintf) {s : Server} (starts : Starts lib s) : Cut lib s := by
  obtain ⟨mem, heap, above, rfl⟩ := starts
  exact ⟨[], [], rfl, by simp, .accept rfl⟩

theorem accept_cut {s : Server} (sound : Sound lib s) (place : s.pc = .accept)
    {done : List (List Call)} (calls : s.calls = done.flatten)
    (finished : ∀ part ∈ done, Finished lib part) (answer : Answer) :
    Cut lib (s.step lib answer) := by
  obtain ⟨above, fresh⟩ := sound.cleared place
  simp only [Server.step, place, accept_room sound.room]
  split
  · rename_i negative
    exact ⟨done ++ [[.accept answer.ret]], [], by simp [calls],
      finished_concat finished (.refused negative), .accept rfl⟩
  · rename_i accepted
    exact ⟨done, opening answer.ret [], by simp [calls, opening], finished,
      .read rfl (Int.not_lt.mp accepted) (by simp [Arrived]) ⟨above, fresh⟩⟩

/-- A failed read leads to the close, the read that completes a request to its execution, and
    any other to the next read. -/
theorem read_cut {s : Server} (sound : Sound lib s) (place : s.pc = .read)
    {done : List (List Call)} {results : List ReadResult}
    (calls : s.calls = done.flatten ++ opening s.connfd results)
    (finished : ∀ part ∈ done, Finished lib part) (accepted : 0 ≤ s.connfd)
    (arrived : Arrived results)
    (received : ∃ above, s.recv = run recvStep (recvStart above) results) {answer : Answer}
    (token : HasToken s answer) : Cut lib (s.step lib answer) := by
  obtain ⟨above, runs⟩ := received
  have next : recvStep s.recv answer.result =
      run recvStep (recvStart above) (results ++ [answer.result]) := by
    rw [run_append, ← runs]
    rfl
  have longer : s.calls ++ [Call.read s.connfd answer.result] =
      done.flatten ++ opening s.connfd (results ++ [answer.result]) := by
    rw [calls, List.append_assoc, opening_concat]
  simp only [Server.step, place]
  rcases recvStep_outcome (sound.unfinished place) answer.result with
    ⟨code, failed, ended, nothing⟩ | ⟨chunk, chunked, outcome⟩
  · rw [if_neg ended, nothing]
    refine ⟨done, _, longer, finished, .close rfl ?_⟩
    rw [failed]
    exact .failed code accepted arrived
  · have more : Arrived (results ++ [answer.result]) := chunked ▸ arrived_concat arrived chunk
    rcases outcome with open_ | ⟨str, request⟩
    · rw [if_pos open_]
      exact ⟨done, _, longer, finished, .read rfl accepted more ⟨above, next⟩⟩
    · have ended : (recvStep s.recv answer.result).ended ≠ none := by
        intro open_
        rw [handed, open_] at request
        contradiction
      rw [if_neg ended, request]
      have handedOn : str ∈ requested s answer := (requested_read place answer).trans request
      refine execute_cut ?_ longer finished ?_ ⟨by simp, more, above, next ▸ request⟩
        (token str handedOn)
      · exact sound.commands
      · exact accepted

theorem step_cut {s : Server} (sound : Sound lib s) (cut : Cut lib s) {answer : Answer}
    (token : HasToken s answer) : Cut lib (s.step lib answer) := by
  obtain ⟨done, rest, calls, finished, unfinished⟩ := cut
  cases unfinished with
  | accept place => exact accept_cut sound place (by simp [calls]) finished answer
  | read place accepted arrived received =>
    exact read_cut sound place calls finished accepted arrived received token
  | @write results str invoked place accepted requests executes =>
    simp only [Server.step, place]
    refine ⟨done, opening s.connfd results ++ [.parseAndExecute str invoked,
      .write s.connfd (s.sendBuff.take s.size.toNat) s.size], by simp [calls], finished,
      .close rfl ?_⟩
    rw [List.append_assoc]
    exact .served accepted requests executes
  | close place closes =>
    simp only [Server.step, place]
    exact ⟨done ++ [rest ++ [.close s.connfd]], [], by simp [calls, Server.top],
      finished_concat finished closes, .accept rfl⟩

def Call.event : Call → Option (Event Int)
  | .accept connfd => if connfd < 0 then none else some (.opened connfd)
  | .read connfd _ => some (.used connfd)
  | .parseAndExecute _ _ => none
  | .write connfd _ _ => some (.used connfd)
  | .close connfd => some (.closed connfd)

def events (calls : List Call) : List (Event Int) := calls.filterMap Call.event

/-- The descriptor that is open where the loop stands. -/
def openDescriptor (s : Server) : Option Int :=
  match s.pc with
  | .accept => none
  | _ => some s.connfd

theorem opening_followed {connfd : Int} (accepted : 0 ≤ connfd) (results : List ReadResult) :
    follow none (events (opening connfd results)) = some (some connfd) := by
  have first : events (opening connfd results) =
      .opened connfd :: (results.map fun _ => Event.used connfd) := by
    simp only [events, opening, List.filterMap_cons, Call.event, if_neg (Int.not_lt.mpr accepted),
      List.filterMap_map]
    congr 1
    exact congrFun (List.filterMap_eq_map (f := fun _ : ReadResult => Event.used connfd)) results
  rw [first, follow_opened]
  apply follow_uses
  intro e member
  obtain ⟨_, _, rfl⟩ := List.mem_map.mp member
  rfl

theorem finished_followed {part : List Call} (finished : Finished lib part) :
    follow none (events part) = some none := by
  cases finished with
  | refused negative => simp [events, Call.event, negative]
  | @failed connfd results code accepted arrived =>
    rw [events, List.filterMap_append, follow_append, ← events, opening_followed accepted]
    exact follow_closed connfd []
  | @served connfd results str sendBuff invoked size accepted requests executes =>
    rw [events, List.filterMap_append, follow_append, ← events, opening_followed accepted]
    exact (follow_used connfd [.closed connfd]).trans (follow_closed connfd [])

theorem unfinished_followed {s : Server} {rest : List Call}
    (unfinished : Unfinished lib s rest) :
    follow none (events rest) = some (openDescriptor s) := by
  cases unfinished with
  | accept place => simp [events, openDescriptor, place]
  | read place accepted arrived received =>
    rw [opening_followed accepted, openDescriptor, place]
  | write place accepted requests executes =>
    rw [events, List.filterMap_append, follow_append, ← events, opening_followed accepted,
      openDescriptor, place]
    rfl
  | close place finished =>
    have closes := finished_followed finished
    rw [events, List.filterMap_append] at closes
    rw [events, follow_before_close closes, openDescriptor, place]

theorem cut_followed {s : Server} (cut : Cut lib s) :
    follow none (events s.calls) = some (openDescriptor s) := by
  obtain ⟨done, rest, calls, finished, unfinished⟩ := cut
  have sessions : follow none (done.map events).flatten = some none := by
    apply follow_sessions
    intro session member
    obtain ⟨part, among, rfl⟩ := List.mem_map.mp member
    exact finished_followed (finished part among)
  have parts : events s.calls = (done.map events).flatten ++ events rest := by
    rw [calls, events, List.filterMap_append, List.filterMap_flatten]
    rfl
  rw [parts, follow_append, sessions]
  exact unfinished_followed unfinished

/-- No connection is open, and every one that was opened has come to its end. -/
def Closed (lib : Snprintf) (s : Server) : Prop :=
  s.pc = .accept ∧ ∃ done, s.calls = List.flatten done ∧ ∀ part ∈ done, Finished lib part

theorem accept_closed {s : Server} (cut : Cut lib s) (place : s.pc = .accept) : Closed lib s := by
  obtain ⟨done, rest, calls, finished, unfinished⟩ := cut
  refine ⟨place, done, ?_, finished⟩
  cases unfinished with
  | accept _ => simp [calls]
  | read at_ accepted arrived received => rw [place] at at_; contradiction
  | write at_ accepted requests executes => rw [place] at at_; contradiction
  | close at_ finished => rw [place] at at_; contradiction

theorem stopped_not_cut {s : Server} {fault : Fault} (place : s.pc = .stopped fault) :
    ¬ Cut lib s := by
  rintro ⟨done, rest, calls, finished, unfinished⟩
  cases unfinished with
  | accept at_ => rw [place] at at_; contradiction
  | read at_ accepted arrived received => rw [place] at at_; contradiction
  | write at_ accepted requests executes => rw [place] at at_; contradiction
  | close at_ finished => rw [place] at at_; contradiction

/-- The read that ends the loop leads to the write, or after a failure to the close. -/
theorem ended_pc {s : Server} (sound : Sound lib s) (place : s.pc = .read) {answer : Answer}
    (ended : (recvStep s.recv answer.result).ended ≠ none) (token : HasToken s answer) :
    (s.step lib answer).pc = .write ∨ (s.step lib answer).pc = .close := by
  simp only [Server.step, place, if_neg ended]
  cases request : handed (recvStep s.recv answer.result) with
  | none => exact Or.inr rfl
  | some str =>
    have handedOn : str ∈ requested s answer := (requested_read place answer).trans request
    left
    apply execute_writes
    · exact sound.commands
    · exact token str handedOn

theorem write_pc {s : Server} (place : s.pc = .write) (answer : Answer) :
    (s.step lib answer).pc = .close := by
  simp only [Server.step, place]

theorem close_pc {s : Server} (place : s.pc = .close) (answer : Answer) :
    (s.step lib answer).pc = .accept := by
  simp only [Server.step, place, Server.top]

theorem step_calls (s : Server) (answer : Answer) : s.calls <+: (s.step lib answer).calls := by
  cases place : s.pc with
  | accept =>
    simp only [Server.step, place]
    split <;> exact List.prefix_append _ _
  | read =>
    simp only [Server.step, place]
    split
    · exact List.prefix_append _ _
    · split
      · exact List.prefix_append _ _
      · unfold Server.execute
        dsimp only
        split <;> exact (List.prefix_append _ _).trans (List.prefix_append _ _)
  | write =>
    simp only [Server.step, place]
    exact List.prefix_append _ _
  | close =>
    simp only [Server.step, place]
    exact List.prefix_append _ _
  | stopped fault =>
    simp only [Server.step, place]
    exact List.prefix_refl _

section Runs
variable {s : Server} {answers : Nat → Answer}

/-- Whenever the loop reads, a read that ends its read loop is yet to come. -/
def ReadLoopsEnd (lib : Snprintf) (s : Server) (answers : Nat → Answer) : Prop :=
  ∀ n, (trace (Server.step lib) s answers n).pc = .read → ∃ m, n ≤ m ∧
    (trace (Server.step lib) s answers m).pc = .read ∧
    (recvStep (trace (Server.step lib) s answers m).recv (answers m).result).ended ≠ none

theorem trace_cut (starts : Starts lib s) {n : Nat}
    (tokens : ∀ k < n, HasToken (trace (Server.step lib) s answers k) (answers k)) :
    Sound lib (trace (Server.step lib) s answers n) ∧
      Cut lib (trace (Server.step lib) s answers n) := by
  refine @trace_invariant _ _ (Server.step lib) HasToken (fun s => Sound lib s ∧ Cut lib s)
    ?_ s ⟨start_sound starts, start_cut lib starts⟩ answers n tokens
  intro s answer token held
  exact ⟨step_sound held.1 answer, step_cut held.1 held.2 token⟩

theorem trace_accepts (starts : Starts lib s)
    (tokens : ∀ k, HasToken (trace (Server.step lib) s answers k) (answers k))
    (ends : ReadLoopsEnd lib s answers) (n : Nat) :
    ∃ m, n ≤ m ∧ (trace (Server.step lib) s answers m).pc = .accept := by
  have cut (n : Nat) := trace_cut starts (n := n) fun k _ => tokens k
  obtain ⟨_, done, rest, _, _, unfinished⟩ := cut n
  cases unfinished with
  | accept place => exact ⟨n, le_rfl, place⟩
  | read place accepted arrived received =>
    obtain ⟨m, later, place, ended⟩ := ends n place
    rcases ended_pc (cut m).1 place ended (tokens m) with writes | closes
    · exact ⟨m + 3, by omega, close_pc (write_pc writes _) _⟩
    · exact ⟨m + 2, by omega, close_pc closes _⟩
  | write place accepted requests executes =>
    exact ⟨n + 2, by omega, close_pc (write_pc place _) _⟩
  | close place finished => exact ⟨n + 1, by omega, close_pc place _⟩

end Runs

/-- Of every run whose requests so far have a token, the calls are those of finished
    connections, in turn, and of at most one more; the descriptors among them are used only
    while they are open, closed once, and at most one is open. If all requests have a token
    and the read loops end, every connection is finished some time. -/
theorem connection_life (lib : Snprintf) (mem : Memory) (heap : Nat → HeapBlock)
    (above : List UInt8) (answers : Nat → Answer) :
    let s := trace (Server.step lib) (start lib mem heap above) answers
    (∀ n, (∀ k < n, HasToken (s k) (answers k)) →
      Cut lib (s n) ∧ follow none (events (s n).calls) = some (openDescriptor (s n))) ∧
    ((∀ k, HasToken (s k) (answers k)) → ReadLoopsEnd lib (start lib mem heap above) answers →
      ∀ n, ∃ m, n ≤ m ∧ (s n).calls <+: (s m).calls ∧ Closed lib (s m)) := by
  intro s
  have starts : Starts lib (start lib mem heap above) := ⟨mem, heap, above, rfl⟩
  constructor
  · intro n tokens
    have cut := (trace_cut starts tokens).2
    exact ⟨cut, cut_followed cut⟩
  · intro tokens ends n
    obtain ⟨m, later, place⟩ := trace_accepts starts tokens ends n
    refine ⟨m, later, @trace_grows _ _ _ _ Server.calls step_calls _ _ _ _ later, ?_⟩
    exact accept_closed (trace_cut starts fun k _ => tokens k).2 place

/-- A refused accept, a connection whose read fails, and one that is answered; then nobody
    connects any more. -/
def threeConnections (n : Nat) : Answer :=
  [⟨-1, fun _ => 0⟩, ⟨3, fun _ => 0⟩, ⟨-5, fun _ => 0⟩, ⟨0, fun _ => 0⟩, ⟨3, fun _ => 0⟩,
    chunkAnswer ⟨text "read 800", by decide⟩, chunkAnswer ⟨text "00000 1\n", by decide⟩,
    ⟨1, fun _ => 0⟩, ⟨0, fun _ => 0⟩].getD n ⟨-1, fun _ => 0⟩

theorem connection_life_three_connections :
    let start_ := start mslSnprintf (fun _ => 7) (fun _ => ⟨0, fun _ => 0⟩) []
    let s := trace (Server.step mslSnprintf) start_ threeConnections
    Cut mslSnprintf (s 9) ∧
      follow none (events (s 9).calls) = some (openDescriptor (s 9)) ∧
      (s 9).calls = [.accept (-1), .accept 3, .read 3 (.failed ⟨-5, by decide⟩), .close 3,
        .accept 3, .read 3 (.received ⟨text "read 800", by decide⟩),
        .read 3 (.received ⟨text "00000 1\n", by decide⟩),
        .parseAndExecute (text "read 80000000 1")
          [(text "read", [text "80000000", text "1"])], .write 3 [7] 1, .close 3] ∧
      ∃ m, 7 ≤ m ∧ (s 7).calls <+: (s m).calls ∧ Closed mslSnprintf (s m) := by
  intro start_ s
  have idle : ∀ n, 9 ≤ n → (s n).pc = .accept ∧ (s n).addrlen = 8 := by
    intro n later
    induction n, later using Nat.le_induction with
    | base => decide +kernel
    | succ n later ih =>
      have nobody : (threeConnections n).ret = -1 := by
        rw [threeConnections, List.getD_eq_default _ _ later]
      have step : s (n + 1) = (s n).step mslSnprintf (threeConnections n) := trace_succ _ _ _ n
      simp [step, Server.step, ih.1, ih.2, Mynet_accept, nobody]
  have tokens : ∀ k, HasToken (s k) (threeConnections k) := by
    intro k
    by_cases early : k < 9
    · interval_cases k <;> decide +kernel
    · intro str member
      simp [requested, (idle k (by omega)).1] at member
  have ends : ReadLoopsEnd mslSnprintf start_ threeConnections := by
    intro n reads
    by_cases first : n ≤ 2
    · exact ⟨2, first, by decide +kernel, by decide +kernel⟩
    · by_cases second : n ≤ 6
      · exact ⟨6, second, by decide +kernel, by decide +kernel⟩
      · by_cases last : n < 9
        · have elsewhere : (s 7).pc ≠ .read ∧ (s 8).pc ≠ .read := by decide +kernel
          interval_cases n
          · exact absurd reads elsewhere.1
          · exact absurd reads elsewhere.2
        · exact absurd ((idle n (by omega)).1.symm.trans reads) (by decide)
  obtain ⟨life, finishes⟩ := connection_life mslSnprintf (fun _ => 7)
    (fun _ => ⟨0, fun _ => 0⟩) [] threeConnections
  obtain ⟨cut, followed⟩ := life 9 fun k _ => tokens k
  exact ⟨cut, followed, by decide +kernel, finishes tokens ends 7⟩

/-- The newline is handed on as the empty text, which has no token. -/
theorem newline_leaks_connection :
    let start_ := start mslSnprintf (fun _ => 0) (fun _ => ⟨0, fun _ => 0⟩) []
    let answers : Nat → Answer := fun n =>
      if n = 0 then ⟨3, fun _ => 0⟩ else chunkAnswer ⟨text "\n", by decide⟩
    let s := trace (Server.step mslSnprintf) start_ answers
    ReadLoopsEnd mslSnprintf start_ answers ∧ ∀ n, 2 ≤ n →
      (s n).calls = [.accept 3, .read 3 (.received ⟨text "\n", by decide⟩),
        .parseAndExecute [] []] ∧ ¬ Cut mslSnprintf (s n) := by
  intro start_ answers s
  have stopped : (s 2).pc = .stopped (.vectorIndex 0 0) := by
    decide +kernel
  have stays : ∀ n, 2 ≤ n → s n = s 2 := by
    intro n later
    induction n, later using Nat.le_induction with
    | base => rfl
    | succ n _ ih =>
      have step : s (n + 1) = (s n).step mslSnprintf (answers n) := trace_succ _ _ _ n
      rw [step, ih, Server.step, stopped]
  constructor
  · intro n reads
    by_cases early : n ≤ 1
    · exact ⟨1, early, by decide +kernel, by decide +kernel⟩
    · have place : (s n).pc = .read := reads
      rw [stays n (by omega), stopped] at place
      contradiction
  · intro n later
    rw [stays n later]
    exact ⟨by decide +kernel, stopped_not_cut stopped⟩

end SpmConnectionLife
