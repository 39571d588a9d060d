import SpmMulti.StartupGuarantees

/- receiverLoop (source/netmemoryaccess.cpp) up to its loop: the network is initialised, then a
   socket is opened, bound and listened on. What is recorded of the socket calls is the socket
   and what the call returned. -/
namespace SpmServerStart
open SpmMachine SpmNetworkStartup SpmStartupGuarantees DescriptorSessions WaitingPrograms

def ENXIO : Nat := 6
def IOCTL_SO_BIND : Nat := 2
def IOCTL_SO_CLOSE : Nat := 3
def IOCTL_SO_LISTEN : Nat := 0xa
def IOCTL_SO_SOCKET : Nat := 0xf

inductive SocketCall where
  | socket (ret : Int)
  | bind (s ret : Int)
  | listen (s ret : Int)
  | close (s ret : Int)

abbrev Setup := World × List SocketCall

variable (beyond : UInt8)

/-- Every socket call asks net_ip_top_fd, and says what came of it. -/
def socketIoctl (command : Nat) : Program Int := do
  let w ← get
  if w.net_ip_top_fd < 0 then return - ENXIO
  let ret ← IOS_Ioctl w.net_ip_top_fd command
  return _net_convert_error beyond ret

def socketCall (command : Nat) (call : Int → SocketCall) : Waiting Setup Int := do
  let ret ← onFirst (socketIoctl beyond command)
  modify fun s => (s.1, s.2 ++ [call ret])
  return ret

def Mynet_socket : Waiting Setup Int := socketCall beyond IOCTL_SO_SOCKET .socket

def Mynet_bind (s : Int) : Waiting Setup Int := socketCall beyond IOCTL_SO_BIND (.bind s)

def Mynet_listen (s : Int) : Waiting Setup Int := socketCall beyond IOCTL_SO_LISTEN (.listen s)

def Mynet_close (s : Int) : Waiting Setup Int := socketCall beyond IOCTL_SO_CLOSE (.close s)

/-- The socket that the loop accepts on, or none where receiverLoop returns. -/
def receiverLoopStart : Waiting Setup (Option Int) := do
  let res ← onFirst (initializeNetwork beyond)
  if res < 0 then return none
  let listenfd ← Mynet_socket beyond
  if listenfd < 0 then return none
  let bound ← Mynet_bind beyond listenfd
  if bound ≠ 0 then
    let _ ← Mynet_close beyond listenfd
    return none
  let listens ← Mynet_listen beyond listenfd
  if listens ≠ 0 then
    let _ ← Mynet_close beyond listenfd
    return none
  return some listenfd

def socketEvent : SocketCall → Option (Event Int)
  | .socket ret => if ret < 0 then none else some (.opened ret)
  | .bind s _ => some (.used s)
  | .listen s _ => some (.used s)
  | .close s _ => some (.closed s)

def socketEvents (calls : List SocketCall) : List (Event Int) := calls.filterMap socketEvent

/-- The network is up, and its handle is the only one open. -/
def Up (w : World) : Prop := 0 ≤ w.net_ip_top_fd ∧ openHandles w = some {w.net_ip_top_fd}

def Spent (w : World) : Prop := Accounted w ∧ w.answers = []

variable {beyond}

theorem Up.accounted {w : World} (up : Up w) : Accounted w :=
  SpmStartupGuarantees.accounted (by simp [up.2])

theorem Up.asked {w : World} (up : Up w) (command : Nat) (ret : Int) (answers : List Answer) :
    Up { w with
      answers := answers
      calls := w.calls ++ [.IOS_Ioctl w.net_ip_top_fd command ret] } := by
  refine ⟨up.1, ?_⟩
  rw [openHandles_call, up.2]
  simp [handleEvent, OpenHandles.account]

theorem socketIoctl_ensures (command : Nat) :
    Ensures Up (socketIoctl beyond command) (fun _ => Up) Spent := by
  refine ensures_get fun w up => ?_
  rw [if_neg (Int.not_lt.mpr up.1)]
  have ioctl : Ensures (· = w) (IOS_Ioctl w.net_ip_top_fd command) (fun _ => Up) Spent := by
    refine answered_ensures ?_ ?_
    · intro v ret answers same _
      subst same
      exact up.asked command ret answers
    · intro v same spent
      subst same
      exact ⟨up.accounted, spent⟩
  exact ensures_bind ioctl fun ret => ensures_pure fun _ done => done

theorem socketCall_ensures (command : Nat) (call : Int → SocketCall) (calls : List SocketCall) :
    Ensures (fun s => Up s.1 ∧ s.2 = calls) (socketCall beyond command call)
      (fun ret s => Up s.1 ∧ s.2 = calls ++ [call ret]) (fun s => Spent s.1 ∧ s.2 = calls) := by
  refine ensures_bind (ensures_onFirst (· = calls) (socketIoctl_ensures command)) fun ret => ?_
  have recorded : Ensures (fun s : Setup => Up s.1 ∧ s.2 = calls)
      (modify fun s => (s.1, s.2 ++ [call ret]))
      (fun _ s => Up s.1 ∧ s.2 = calls ++ [call ret]) (fun s => Spent s.1 ∧ s.2 = calls) := by
    refine ensures_modify fun s done => ⟨done.1, ?_⟩
    rw [done.2]
  exact ensures_bind recorded fun _ => ensures_pure fun _ done => done

/-- The loop is entered over a network that is up, with a socket that is bound and listened on. -/
structure Listens (listenfd : Int) (s : Setup) : Prop where
  nonneg : 0 ≤ listenfd
  up : Up s.1
  calls : s.2 = [.socket listenfd, .bind listenfd 0, .listen listenfd 0]

/-- receiverLoop returns: a socket that it opened is closed, and no handle is open but that of a
    network that is up. -/
structure GivesUp (s : Setup) : Prop where
  network : Up s.1 ∨ s.1.net_ip_top_fd < 0 ∧ openHandles s.1 = some 0
  closed : follow none (socketEvents s.2) = some none

/-- IOS does not answer any more. -/
structure Stalled (s : Setup) : Prop where
  spent : Spent s.1
  used : (follow none (socketEvents s.2)).isSome

/-- What is found at the end of a run, at its return, at the loop or where it waits. -/
def Started : Option (Option Int) × Setup → Prop
  | (some (some listenfd), s) => Listens listenfd s
  | (some none, s) => GivesUp s
  | (none, s) => Stalled s

theorem call_ensures (command : Nat) (call : Int → SocketCall) {calls : List SocketCall}
    (used : (follow none (socketEvents calls)).isSome) :
    Ensures (fun s => Up s.1 ∧ s.2 = calls) (socketCall beyond command call)
      (fun ret s => Up s.1 ∧ s.2 = calls ++ [call ret]) Stalled := by
  refine (socketCall_ensures command call calls).waiting fun s waits => ⟨waits.1, ?_⟩
  rw [waits.2]
  exact used

theorem closing_ensures {listenfd : Int} {calls : List SocketCall}
    (opened : follow none (socketEvents calls) = some (some listenfd)) :
    Ensures (fun s => Up s.1 ∧ s.2 = calls)
      (do
        let _ ← Mynet_close beyond listenfd
        return none)
      (fun listens s => Started (some listens, s)) Stalled := by
  refine ensures_bind (call_ensures _ _ (by rw [opened]; rfl)) fun ret => ?_
  refine ensures_pure fun s done => ⟨.inl done.1, ?_⟩
  rw [done.2, socketEvents, List.filterMap_append, follow_append]
  rw [socketEvents] at opened
  rw [opened]
  simp [socketEvent]

theorem receiverLoopStart_ensures :
    Ensures (fun s => Between False (MAX_INIT_RETRIES * attemptCalls) 0 (-1) [] s.1 ∧ s.2 = [])
      (receiverLoopStart beyond) (fun listens s => Started (some listens, s)) Stalled := by
  have network := ensures_onFirst (fun calls : List SocketCall => calls = [])
    (@initializeNetwork_ensures beyond False False.elim)
  refine ensures_bind (network.waiting fun s waits => ?_) fun res => ?_
  · refine ⟨⟨waits.1.1.accounted, waits.1.2.1⟩, ?_⟩
    rw [waits.2]
    rfl
  by_cases failed : res < 0
  · rw [if_pos failed]
    refine ensures_pure fun s done => ⟨.inr (done.1.failed failed), ?_⟩
    rw [done.2]
    rfl
  rw [if_neg failed]
  have up : ∀ s : Setup, Returned res s.1 ∧ s.2 = [] → Up s.1 ∧ s.2 = [] := by
    intro s done
    have zero := le_antisymm done.1.sign (Int.not_lt.mp failed)
    exact ⟨done.1.connected zero, done.2⟩
  have socket := @call_ensures beyond IOCTL_SO_SOCKET .socket [] rfl
  refine ensures_bind (socket.enter up) fun listenfd => ?_
  by_cases unopened : listenfd < 0
  · rw [if_pos unopened]
    refine ensures_pure fun s done => ⟨.inl done.1, ?_⟩
    rw [done.2]
    simp [socketEvents, socketEvent, unopened]
  rw [if_neg unopened]
  have opened : follow none (socketEvents [.socket listenfd]) = some (some listenfd) := by
    simp [socketEvents, socketEvent, unopened]
  have bind := @call_ensures beyond IOCTL_SO_BIND (.bind listenfd) [.socket listenfd]
    (by rw [opened]; rfl)
  refine ensures_bind bind fun bound => ?_
  have named : follow none (socketEvents [.socket listenfd, .bind listenfd bound]) =
      some (some listenfd) := by
    simp [socketEvents, socketEvent, unopened]
  by_cases unbound : bound ≠ 0
  · rw [if_pos unbound]
    exact closing_ensures named
  rw [if_neg unbound]
  have listen := @call_ensures beyond IOCTL_SO_LISTEN (.listen listenfd)
    [.socket listenfd, .bind listenfd bound] (by rw [named]; rfl)
  refine ensures_bind listen fun listens => ?_
  have used : follow none (socketEvents
      [.socket listenfd, .bind listenfd bound, .listen listenfd listens]) =
      some (some listenfd) := by
    simp [socketEvents, socketEvent, unopened]
  by_cases deaf : listens ≠ 0
  · rw [if_pos deaf]
    exact closing_ensures used
  rw [if_neg deaf]
  refine ensures_pure fun s done => ⟨Int.not_lt.mp unopened, done.1, ?_⟩
  rw [done.2, not_not.mp unbound, not_not.mp deaf]
  rfl

/-- From power-up, whatever IOS answers: the loop is entered with a network that is up and a
    socket that is listened on, or receiverLoop returns with every socket closed that it opened. -/
theorem server_starts (beyond : UInt8) (answers : List Answer) :
    Started ((receiverLoopStart beyond).run.run (start answers, [])) := by
  have began : Between False (MAX_INIT_RETRIES * attemptCalls) 0 (-1) [] (start answers) :=
    start_between False.elim
  have ensured := @receiverLoopStart_ensures beyond (start answers, []) ⟨began, rfl⟩
  revert ensured
  rcases (receiverLoopStart beyond).run.run (start answers, []) with ⟨_ | listens, s⟩
  · exact id
  · exact id

end SpmServerStart
