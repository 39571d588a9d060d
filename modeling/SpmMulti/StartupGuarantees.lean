import SpmMulti.NetworkStartup
import SpmMulti.Lib.OpenHandles

/- The handles that are open while the network is started up. Each part of the start-up gives
   back the handles it opened for itself, on every path; only net_ip_top_fd stays open. -/
namespace SpmStartupGuarantees
open SpmMachine SpmNetworkStartup DescriptorSessions OpenHandles WaitingPrograms

def handleEvent : IosCall → Option (Event Int)
  | .IOS_Open _ ret => if 0 ≤ ret then some (.opened ret) else none
  | .IOS_Ioctl fd _ _ => some (.used fd)
  | .IOS_Ioctlv fd _ _ => some (.used fd)
  | .IOS_Close fd => some (.closed fd)

/-- None once a handle was used or closed that was not open. -/
def openHandles (w : World) : Option (Multiset Int) := balance (w.calls.filterMap handleEvent)

/-- After which initializeNetwork tries again. -/
def Again (res : Int) : Prop := res = -EAGAIN ∨ res = -ETIMEDOUT

def rounds (results : List Int) : List Attempt :=
  results.flatMap fun res => [.started, .returned res]

/-- With enough answers there are so many left. -/
structure Between (enough : Prop) (left : Nat) (held : Multiset Int) (top : Int)
    (attempts : List Attempt) (w : World) : Prop where
  answers : enough → left ≤ w.answers.length
  held : openHandles w = some held
  top : w.net_ip_top_fd = top
  attempts : w.attempts = attempts

structure Waits (enough : Prop) (attempts : List Attempt) (w : World) : Prop where
  answers : w.answers = []
  few : ¬ enough
  balanced : (openHandles w).isSome
  attempts : w.attempts = attempts

variable {beyond : UInt8} {enough : Prop} {left : Nat} {held : Multiset Int} {top : Int}
  {attempts : List Attempt} {answers : List Answer}

theorem Between.weaken {more : Nat} {w : World}
    (between : Between enough (left + more) held top attempts w) :
    Between enough left held top attempts w :=
  { between with answers := fun many => (Nat.le_add_right left more).trans (between.answers many) }

theorem Between.waits {w : World} (between : Between enough (left + 1) held top attempts w)
    (spent : w.answers = []) : Waits enough attempts w where
  answers := spent
  few many := by
    have some_ := between.answers many
    rw [spent] at some_
    exact absurd some_ (by simp)
  balanced := by simp [between.held]
  attempts := between.attempts

theorem openHandles_call (w : World) (call : IosCall) (answers : List Answer) :
    openHandles { w with answers := answers, calls := w.calls ++ [call] } =
      (handleEvent call).elim (openHandles w) fun e => (openHandles w).bind (account · e) := by
  rw [openHandles, List.filterMap_append]
  cases handled : handleEvent call with
  | none => simp [openHandles, handled]
  | some e => simp [openHandles, handled, balance_snoc]

theorem answered_ensures {before : World → Prop} {call : Int → IosCall}
    {after : Int → World → Prop} {waits : World → Prop}
    (returns : ∀ w ret answers, before w → w.answers = ret :: answers →
      after ret { w with answers := answers, calls := w.calls ++ [call ret] })
    (stops : ∀ w, before w → w.answers = [] → waits w) :
    Ensures before (answered call) after waits := by
  refine ensures_get fun _ holds => ?_
  rintro w rfl
  cases some_ : w.answers with
  | nil =>
    exact stops w holds some_
  | cons ret answers =>
    exact returns w ret answers holds some_

/-- What is held after IOS_Open. -/
def gained (ret : Int) (held : Multiset Int) : Multiset Int :=
  if 0 ≤ ret then ret ::ₘ held else held

theorem Between.called {w : World} (between : Between enough (left + 1) held top attempts w)
    {ret : Answer} {answers : List Answer} (some_ : w.answers = ret :: answers) {call : IosCall}
    {after : Multiset Int}
    (accounted : (handleEvent call).elim (some held) (account held) = some after) :
    Between enough left after top attempts
      { w with answers := answers, calls := w.calls ++ [call] } where
  answers many := by simpa [some_] using between.answers many
  held := by
    rw [openHandles_call, between.held]
    exact accounted
  top := between.top
  attempts := between.attempts

theorem Between.opened {w : World} (between : Between enough (left + 1) held top attempts w)
    {ret : Answer} {answers : List Answer} (some_ : w.answers = ret :: answers)
    (filepath : String) :
    Between enough left (gained ret held) top attempts
      { w with answers := answers, calls := w.calls ++ [.IOS_Open filepath ret] } := by
  refine between.called some_ ?_
  by_cases opened : (0 : Int) ≤ ret
  · simp [handleEvent, account, gained, opened]
  · simp [handleEvent, gained, opened]

theorem IOS_Open_ensures (filepath : String) :
    Ensures (Between enough (left + 1) held top attempts) (IOS_Open filepath)
      (fun ret => Between enough left (gained ret held) top attempts) (Waits enough attempts) :=
  answered_ensures (fun _ _ _ between some_ => between.opened some_ filepath)
    fun _ between spent => between.waits spent

theorem Between.used {w : World} (between : Between enough (left + 1) held top attempts w)
    {ret : Answer} {answers : List Answer} (some_ : w.answers = ret :: answers) {fd : Int}
    (member : fd ∈ held) {call : IosCall} (uses : handleEvent call = some (.used fd)) :
    Between enough left held top attempts
      { w with answers := answers, calls := w.calls ++ [call] } := by
  refine between.called some_ ?_
  rw [uses, Option.elim_some, account, if_pos member]

theorem IOS_Ioctl_ensures {fd : Int} (member : fd ∈ held) (command : Nat) :
    Ensures (Between enough (left + 1) held top attempts) (IOS_Ioctl fd command)
      (fun _ => Between enough left held top attempts) (Waits enough attempts) :=
  answered_ensures (fun _ _ _ between some_ => between.used some_ member rfl)
    fun _ between spent => between.waits spent

theorem IOS_Ioctlv_ensures {fd : Int} (member : fd ∈ held) (command : Nat) :
    Ensures (Between enough (left + 1) held top attempts) (IOS_Ioctlv fd command)
      (fun _ => Between enough left held top attempts) (Waits enough attempts) :=
  answered_ensures (fun _ _ _ between some_ => between.used some_ member rfl)
    fun _ between spent => between.waits spent

theorem IOS_Close_ensures {fd : Int} {waits : World → Prop} :
    Ensures (Between enough left (fd ::ₘ held) top attempts) (IOS_Close fd)
      (fun _ => Between enough left held top attempts) waits := by
  refine ensures_modify fun w between => { between with held := ?_ }
  rw [openHandles_call, between.held]
  simp [handleEvent, account]

theorem setTop_ensures (fd : Int) {waits : World → Prop} :
    Ensures (Between enough left held top attempts) (setTop fd)
      (fun _ => Between enough left held fd attempts) waits :=
  ensures_modify fun _ between => { between with top := rfl }

theorem convert_nonneg {ret : Int} (some_ : 0 ≤ ret) : _net_convert_error beyond ret = ret := by
  simp [_net_convert_error, some_]

theorem convert_negative {ret : Int} (failed : ret < 0) : _net_convert_error beyond ret < 0 := by
  simp only [_net_convert_error]
  split_ifs with nonneg unknown
  · omega
  · simp only [NET_UNKNOWN_ERROR_OFFSET]
    omega
  · push Not at unknown
    omega

theorem gained_convert (beyond : UInt8) (ret : Int) (held : Multiset Int) :
    gained (_net_convert_error beyond ret) held = gained ret held := by
  by_cases opened : 0 ≤ ret
  · rw [convert_nonneg opened]
  · have failed := @convert_negative beyond ret (Int.lt_of_not_ge opened)
    simp [gained, opened, Int.not_le.mpr failed]

theorem gained_failed {fd : Int} (failed : fd < 0) : gained fd held = held := by
  simp [gained, failed]

theorem gained_handle {fd : Int} (opened : ¬ fd < 0) : gained fd held = fd ::ₘ held := by
  simp [gained, Int.not_lt.mp opened]

/-- Only the byte behind the table can be taken for IPC_ENOENT. -/
theorem convert_enoent {ret : Int} (again : _net_convert_error beyond ret = IPC_ENOENT) :
    beyond = 6 := by
  have listed : ∀ code ∈ _net_error_code_map, code ≠ 6 := by decide
  simp only [_net_convert_error, IPC_ENOENT, NET_UNKNOWN_ERROR_OFFSET] at again
  split_ifs at again with nonneg unknown
  · omega
  · omega
  · push Not at unknown
    have inside : (-ret).toNat < (_net_error_code_map ++ [beyond.toNat]).length := by
      rw [List.length_append, List.length_singleton]
      omega
    rw [List.getD_eq_getElem _ _ inside] at again
    have code := List.getElem_mem inside
    rcases List.mem_append.mp code with known | last
    · exact absurd (by omega) (listed _ known)
    · rw [List.mem_singleton] at last
      have six : beyond.toNat = 6 := by omega
      exact UInt8.toNat_inj.mp six

theorem openManageLoop_ensures (settles : enough → beyond ≠ 6) (turns : Nat) :
    Ensures (fun w => Between enough (left + 1) held top attempts w ∧ w.answers.length < turns)
      (openManageLoop beyond turns)
      (fun fd => Between enough left (gained fd held) top attempts) (Waits enough attempts) := by
  induction turns with
  | zero => exact fun w ⟨_, few⟩ => absurd few (by omega)
  | succ turns ih =>
    rw [openManageLoop]
    have first : Ensures
        (fun w => Between enough (left + 1) held top attempts w ∧ w.answers.length < turns + 1)
        (IOS_Open "/dev/net/ncd/manage")
        (fun ret w => Between enough left (gained ret held) top attempts w ∧
          w.answers.length < turns) (Waits enough attempts) := by
      refine answered_ensures (fun w ret answers holds some_ => ?_)
        fun w holds spent => holds.1.waits spent
      exact ⟨holds.1.opened some_ _, by simpa [some_] using holds.2⟩
    refine ensures_bind first fun ret => ?_
    by_cases again : _net_convert_error beyond ret = IPC_ENOENT
    · simp only [again, if_true]
      have unknown := gained_convert beyond ret held
      rw [again, gained_failed (by decide)] at unknown
      rw [← unknown]
      exact ih.enter fun w ⟨between, few⟩ =>
        ⟨{ between with answers := fun many => absurd (convert_enoent again) (settles many) }, few⟩
    · simp only [again, if_false]
      exact ensures_pure fun w holds => by simpa [gained_convert] using holds.1

theorem openManage_ensures (settles : enough → beyond ≠ 6) :
    Ensures (Between enough (left + 1) held top attempts) (_open_manage_fd beyond)
      (fun fd => Between enough left (gained fd held) top attempts) (Waits enough attempts) := by
  refine ensures_get fun w between => ?_
  refine (openManageLoop_ensures settles (w.answers.length + 1)).enter ?_
  rintro _ rfl
  exact ⟨between, by omega⟩

/-- A device of the start-up is opened, called once, and closed. -/
theorem device_ensures {fd : Int} {call : Program Int} {result : Int → Int}
    (calls : Ensures (Between enough (left + 1) (fd ::ₘ held) top attempts) call
      (fun _ => Between enough left (fd ::ₘ held) top attempts) (Waits enough attempts)) :
    Ensures (Between enough (left + 1) (gained fd held) top attempts)
      (if fd < 0 then return fd else do
        let ret ← call
        IOS_Close fd
        return result ret)
      (fun _ => Between enough left held top attempts) (Waits enough attempts) := by
  by_cases failed : fd < 0
  · rw [if_pos failed, gained_failed failed]
    exact ensures_pure fun _ between => between.weaken
  · rw [if_neg failed, gained_handle failed]
    refine ensures_bind calls fun ret => ?_
    exact ensures_bind IOS_Close_ensures fun _ => ensures_pure fun _ => id

theorem linkStatus_ensures (settles : enough → beyond ≠ 6) :
    Ensures (Between enough (left + 2) held top attempts) (MyNCDGetLinkStatus beyond)
      (fun _ => Between enough left held top attempts) (Waits enough attempts) :=
  ensures_bind (openManage_ensures settles) fun _ =>
    device_ensures (IOS_Ioctlv_ensures (Multiset.mem_cons_self _ _) _)

theorem startupSocket_ensures :
    Ensures (Between enough (left + 2) held top attempts) (MyNWC24iStartupSocket beyond)
      (fun _ => Between enough left held top attempts) (Waits enough attempts) := by
  refine ensures_bind (IOS_Open_ensures _) fun ret => ?_
  rw [← gained_convert beyond]
  exact device_ensures (IOS_Ioctl_ensures (Multiset.mem_cons_self _ _) _)

theorem gethostidLoop_ensures (member : top ∈ held) (retries : Nat) (ip_addr : U32) :
    Ensures (Between enough (left + retries) held top attempts) (gethostidLoop retries ip_addr)
      (fun _ => Between enough left held top attempts) (Waits enough attempts) := by
  induction retries generalizing ip_addr with
  | zero => exact ensures_pure fun _ => id
  | succ retries ih =>
    rw [gethostidLoop]
    by_cases none_ : ip_addr = 0#32
    · rw [if_pos none_]
      refine ensures_get fun w between => ?_
      rw [between.top]
      exact Ensures.here (ensures_bind (IOS_Ioctl_ensures member _) fun ret => ih _) between
    · rw [if_neg none_]
      exact ensures_pure fun _ between => between.weaken

theorem gethostip_ensures (member : top ∈ held) :
    Ensures (Between enough (left + MAX_IP_RETRIES) held top attempts) Mynet_gethostip
      (fun _ => Between enough left held top attempts) (Waits enough attempts) := by
  refine ensures_get fun w between => Ensures.here ?_ between
  by_cases closed : w.net_ip_top_fd < 0
  · simp only [closed, if_true]
    exact ensures_pure fun _ between => between.weaken
  · simp only [closed, if_false]
    exact gethostidLoop_ensures member _ _

/-- The most answers an attempt takes. -/
def attemptCalls : Nat := 6 + MAX_IP_RETRIES

inductive Ended (enough : Prop) (left : Nat) (attempts : List Attempt) (res : Int) (w : World) :
    Prop where
  | connected (zero : res = 0) (fd : Int) (nonneg : 0 ≤ fd)
      (between : Between enough left {fd} fd attempts w)
  | failed (negative : res < 0) (fd : Int) (none_ : fd < 0)
      (between : Between enough left 0 fd attempts w)

theorem error_ensures {ret : Int} (negative : ret < 0) {waits : World → Prop} :
    Ensures (Between enough left {top} top attempts) (Mynet_init_error ret)
      (Ended enough left attempts) waits := by
  refine ensures_get fun w between => ?_
  rw [between.top]
  refine Ensures.here (ensures_bind IOS_Close_ensures fun _ => ?_) between
  refine ensures_bind (setTop_ensures (-1)) fun _ => ?_
  exact ensures_pure fun _ done => .failed negative (-1) (by decide) done

theorem Mynet_init_opened_ensures (opened : 0 ≤ top) :
    Ensures (Between enough (left + MAX_IP_RETRIES + 1 + 2) {top} top attempts)
      (Mynet_init_opened beyond) (Ended enough left attempts) (Waits enough attempts) := by
  have member := Multiset.mem_singleton_self top
  refine ensures_bind startupSocket_ensures fun ret => ?_
  by_cases refused : ret < 0
  · rw [if_pos refused]
    exact (error_ensures refused).enter fun _ between => between.weaken.weaken
  rw [if_neg refused]
  refine ensures_get fun w between => ?_
  rw [between.top]
  refine Ensures.here (ensures_bind (IOS_Ioctl_ensures member _) fun ret => ?_) between
  by_cases unstarted : _net_convert_error beyond ret < 0
  · simp only [unstarted, if_true]
    exact (error_ensures unstarted).enter fun _ between => between.weaken
  simp only [unstarted, if_false]
  refine ensures_bind (gethostip_ensures member) fun ip_addr => ?_
  by_cases none_ : ip_addr = 0#32
  · rw [if_pos none_]
    exact error_ensures (by decide)
  · rw [if_neg none_]
    exact ensures_pure fun _ between => .connected rfl top opened between

theorem Mynet_init_ensures (settles : enough → beyond ≠ 6) (none_ : top < 0) :
    Ensures (Between enough (left + attemptCalls) 0 top attempts) (Mynet_init beyond)
      (Ended enough left attempts) (Waits enough attempts) := by
  have calls : left + attemptCalls = left + MAX_IP_RETRIES + 1 + 2 + 1 + 2 := by
    simp only [attemptCalls]
    omega
  rw [calls]
  refine ensures_get fun w between => Ensures.here ?_ between
  rw [between.top]
  simp only [ge_iff_le, Int.not_le.mpr none_, if_false]
  refine ensures_bind (linkStatus_ensures settles) fun ret => ?_
  by_cases unlinked : ret < 0
  · simp only [unlinked, if_true]
    exact ensures_pure fun _ between =>
      .failed unlinked top none_ between.weaken.weaken
  simp only [unlinked, if_false]
  refine ensures_bind (IOS_Open_ensures _) fun ret => ?_
  rw [← gained_convert beyond]
  generalize _net_convert_error beyond ret = fd
  refine ensures_bind (setTop_ensures fd) fun _ => ensures_get fun w between => ?_
  rw [between.top]
  refine Ensures.here ?_ between
  by_cases unopened : fd < 0
  · simp only [unopened, if_true, gained_failed unopened]
    exact ensures_pure fun _ between => .failed unopened fd unopened between.weaken.weaken
  · simp only [unopened, if_false, gained_handle unopened]
    exact Mynet_init_opened_ensures (Int.not_lt.mp unopened)

theorem Between.recorded {w : World} (between : Between enough left held top attempts w)
    (a : Attempt) :
    Between enough left held top (attempts ++ [a]) { w with attempts := w.attempts ++ [a] } :=
  { between with attempts := by rw [between.attempts] }

theorem attempt_ensures (settles : enough → beyond ≠ 6) (none_ : top < 0) :
    Ensures (Between enough (left + attemptCalls) 0 top attempts) (attempt beyond)
      (fun res => Ended enough left (attempts ++ [.started] ++ [.returned res]) res)
      (Waits enough (attempts ++ [.started])) := by
  have began : Ensures (Between enough (left + attemptCalls) 0 top attempts) (record .started)
      (fun _ => Between enough (left + attemptCalls) 0 top (attempts ++ [.started]))
      (Waits enough (attempts ++ [.started])) :=
    ensures_modify fun _ between => between.recorded _
  refine ensures_bind began fun _ => ensures_bind (Mynet_init_ensures settles none_) fun res => ?_
  have returned : Ensures (Ended enough left (attempts ++ [.started]) res)
      (record (.returned res))
      (fun _ => Ended enough left (attempts ++ [.started] ++ [.returned res]) res)
      (Waits enough (attempts ++ [.started])) := by
    refine ensures_modify fun w ended => ?_
    obtain ⟨zero, fd, nonneg, between⟩ | ⟨negative, fd, none_, between⟩ := ended
    · exact .connected zero fd nonneg (between.recorded _)
    · exact .failed negative fd none_ (between.recorded _)
  exact ensures_bind returned fun _ => ensures_pure fun _ => id

theorem rounds_snoc (results : List Int) (res : Int) :
    rounds (results ++ [res]) = rounds results ++ [.started] ++ [.returned res] := by
  simp [rounds]

/-- One more attempt than these can have been made. -/
structure Tried (results : List Int) : Prop where
  few : results.length < MAX_INIT_RETRIES
  again : ∀ res ∈ results, Again res

/-- Up to every call, only handles were used and closed that were open. -/
def Accounted (w : World) : Prop :=
  ∀ before, before <+: w.calls → (balance (before.filterMap handleEvent)).isSome

structure Returned (res : Int) (w : World) : Prop where
  accounted : Accounted w
  attempts : ∃ results, Tried results ∧ w.attempts = rounds (results ++ [res])
  sign : res ≤ 0
  connected : res = 0 → 0 ≤ w.net_ip_top_fd ∧ openHandles w = some {w.net_ip_top_fd}
  failed : res < 0 → w.net_ip_top_fd < 0 ∧ openHandles w = some 0

structure Unfinished (w : World) : Prop where
  accounted : Accounted w
  attempts : ∃ results, Tried results ∧ w.attempts = rounds results ++ [.started]

theorem accounted {w : World} (balanced : (openHandles w).isSome) : Accounted w := by
  rintro before ⟨after, calls⟩
  rw [openHandles, ← calls, List.filterMap_append] at balanced
  exact balance_before balanced

theorem Ended.returned {results : List Int} {res : Int} {w : World} (tried : Tried results)
    (ended : Ended enough left (rounds (results ++ [res])) res w) : Returned res w := by
  obtain ⟨zero, fd, nonneg, between⟩ | ⟨negative, fd, none_, between⟩ := ended
  · refine ⟨accounted (by simp [between.held]), ⟨results, tried, between.attempts⟩, zero.le,
      fun _ => ?_, fun negative => absurd zero negative.ne⟩
    rw [between.top]
    exact ⟨nonneg, between.held⟩
  · refine ⟨accounted (by simp [between.held]), ⟨results, tried, between.attempts⟩, negative.le,
      fun zero => absurd zero negative.ne, fun _ => ?_⟩
    rw [between.top]
    exact ⟨none_, between.held⟩

/-- A failure after which there is another attempt leaves nothing open. -/
theorem Ended.closed {res : Int} {w : World} (ended : Ended enough left attempts res w)
    (retry : Again res) : ∃ fd < 0, Between enough left 0 fd attempts w := by
  obtain ⟨zero, fd, nonneg, between⟩ | ⟨negative, fd, none_, between⟩ := ended
  · rw [zero] at retry
    exact absurd retry (by simp [Again, EAGAIN, ETIMEDOUT])
  · exact ⟨fd, none_, between⟩

theorem round_ensures (settles : enough → beyond ≠ 6) (none_ : top < 0) {results : List Int}
    (tried : Tried results) :
    Ensures (Between enough (left + attemptCalls) 0 top (rounds results)) (attempt beyond)
      (fun res => Ended enough left (rounds (results ++ [res])) res)
      (fun w => Unfinished w ∧ w.answers = [] ∧ ¬ enough) := by
  simp only [rounds_snoc]
  refine (attempt_ensures settles none_).waiting fun w waits => ?_
  have unfinished : Unfinished w := ⟨accounted waits.balanced, results, tried, waits.attempts⟩
  exact ⟨unfinished, waits.answers, waits.few⟩

theorem initializeLoop_ensures (settles : enough → beyond ≠ 6) (turns : Nat) {results : List Int}
    (count : results.length + (turns + 1) = MAX_INIT_RETRIES) (again : ∀ res ∈ results, Again res)
    (none_ : top < 0) (before : Int) :
    Ensures (Between enough ((turns + 1) * attemptCalls) 0 top (rounds results))
      (initializeLoop beyond (turns + 1) before) Returned
      (fun w => Unfinished w ∧ w.answers = [] ∧ ¬ enough) := by
  have tried : Tried results := ⟨by omega, again⟩
  induction turns generalizing results top before with
  | zero =>
    rw [Nat.succ_mul, initializeLoop]
    refine ensures_bind (round_ensures settles none_ tried) fun res => ?_
    simp only [initializeLoop, ite_self]
    exact ensures_pure fun w ended => ended.returned tried
  | succ turns ih =>
    rw [Nat.succ_mul, initializeLoop]
    refine ensures_bind (round_ensures settles none_ tried) fun res => ?_
    by_cases retry : res = -EAGAIN ∨ res = -ETIMEDOUT
    · rw [if_pos retry]
      intro w ended
      obtain ⟨fd, closed, between⟩ := ended.closed retry
      have more : ∀ r ∈ results ++ [res], Again r := by
        intro r member
        rcases List.mem_append.mp member with earlier | last
        · exact again r earlier
        · rw [List.mem_singleton.mp last]
          exact retry
      have counted : (results ++ [res]).length + (turns + 1) = MAX_INIT_RETRIES := by
        rw [List.length_append, List.length_singleton]
        omega
      exact ih counted more closed res ⟨by omega, more⟩ w between
    · rw [if_neg retry]
      exact ensures_pure fun w ended => ended.returned tried

theorem initializeNetwork_ensures (settles : enough → beyond ≠ 6) :
    Ensures (Between enough (MAX_INIT_RETRIES * attemptCalls) 0 (-1) []) (initializeNetwork beyond)
      Returned (fun w => Unfinished w ∧ w.answers = [] ∧ ¬ enough) :=
  @initializeLoop_ensures beyond enough (-1) settles 31 [] rfl (by simp) (by decide) 0

theorem start_between (many : enough → MAX_INIT_RETRIES * attemptCalls ≤ answers.length) :
    Between enough (MAX_INIT_RETRIES * attemptCalls) 0 (-1) [] (start answers) :=
  ⟨many, rfl, rfl, rfl⟩

/-- What is found at the end of a run, at its return or where it waits. -/
def StartedUp : Option Int × World → Prop
  | (some res, w) => Returned res w
  | (none, w) => Unfinished w

theorem StartedUp.connected {run : Option Int × World} (started : StartedUp run)
    (zero : run.1 = some 0) : openHandles run.2 = some {run.2.net_ip_top_fd} := by
  obtain ⟨_, w⟩ := run
  obtain rfl := zero
  exact (Returned.connected started rfl).2

/-- The handles of the start-up are closed once each, and none but net_ip_top_fd is left. -/
theorem startup_leaks_no_handle (beyond : UInt8) (answers : List Answer) :
    StartedUp ((initializeNetwork beyond).run.run (start answers)) := by
  have ensured := @initializeNetwork_ensures beyond False (fun never => never.elim)
    (start answers) (start_between fun never => never.elim)
  revert ensured
  rcases (initializeNetwork beyond).run.run (start answers) with ⟨_ | res, w⟩
  · exact fun waits => waits.1
  · exact id

/-- The link is up at the second attempt only. -/
def upSecond : List Answer :=
  [⟨3, by decide⟩, ⟨-6, by decide⟩, ⟨3, by decide⟩, ⟨0, by decide⟩, ⟨4, by decide⟩, ⟨5, by decide⟩,
    ⟨0, by decide⟩, ⟨0, by decide⟩, ⟨0x0a000001, by decide⟩]

theorem startup_leaks_no_handle_retried :
    ((initializeNetwork 0).run.run (start upSecond)).1 = some 0 ∧
      ((initializeNetwork 0).run.run (start upSecond)).2.attempts = rounds [-EAGAIN, 0] ∧
      openHandles ((initializeNetwork 0).run.run (start upSecond)).2 = some {4} := by
  have started := startup_leaks_no_handle 0 upSecond
  have result : ((initializeNetwork 0).run.run (start upSecond)).1 = some 0 := by decide +kernel
  have tries : ((initializeNetwork 0).run.run (start upSecond)).2.attempts =
      rounds [-EAGAIN, 0] := by
    decide +kernel
  have top : ((initializeNetwork 0).run.run (start upSecond)).2.net_ip_top_fd = 4 := by
    decide +kernel
  exact ⟨result, tries, by rw [started.connected result, top]⟩

/-- Unless the byte behind the table is taken for IPC_ENOENT, so many answers are enough. -/
theorem initializeNetwork_returns (settles : beyond ≠ 6)
    (many : MAX_INIT_RETRIES * attemptCalls ≤ answers.length) :
    ((initializeNetwork beyond).run.run (start answers)).1.isSome := by
  have ensured := @initializeNetwork_ensures beyond True (fun _ => settles)
    (start answers) (start_between fun _ => many)
  revert ensured
  rcases (initializeNetwork beyond).run.run (start answers) with ⟨_ | res, w⟩
  · exact fun waits => absurd trivial waits.2.2
  · exact fun _ => rfl

end SpmStartupGuarantees
