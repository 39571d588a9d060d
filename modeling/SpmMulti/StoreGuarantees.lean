import SpmMulti.ReceiverLoop
import SpmMulti.EffectConfinement
import SpmMulti.Lib.BlockHistory

/- Console memory over whole runs of the loop, whoever connects: every byte of it, and so every
   byte that a read is answered, is that of the last store that was carried out there. Writes
   store, and so does a msgbox of negative length. -/
namespace SpmStoreGuarantees
open SpmMachine SpmStrtoul SpmSplit SpmBase64 SpmConsole SpmCommandManager SpmCommands
open SpmHandling SpmReceive SpmReceiverLoop SpmReplies SpmEffectConfinement StepRuns
open OverlaidMemory BlockHistory
variable {lib : Snprintf}

def executedText : Call → Option (List UInt8)
  | .parseAndExecute str _ => some str
  | .accept _ => none
  | .read _ _ => none
  | .write _ _ _ => none
  | .close _ => none

def executed (calls : List Call) : List (List UInt8) := calls.filterMap executedText

/-- What a text stores at x when new hands it this block: a write its data, and behind it what
    the block held; a msgbox of negative length its NUL. -/
inductive Stores (str : List UInt8) (block : HeapBlock) (x : U32) : UInt8 → Prop where
  | write {address b64data size : List UInt8}
      (tokens : split (cstr str) 32 = [text "write", address, b64data, size])
      (passes : WritePasses (strtoul address 16) b64data (strtoul size 10))
      (inside : (x - strtoul address 16).toNat < (strtoul size 10).toNat) :
      Stores str block x ((Base64decode b64data).1.getD (x - strtoul address 16).toNat
        (block.holds (x - strtoul address 16).toNat))
  | msgbox {length : U32} (negative : NegativeMsgbox str length)
      (front : x = block.address + length) : Stores str block x 0

def Spares (str : List UInt8) (block : HeapBlock) (x : U32) : Prop := ∀ b, ¬ Stores str block x b

/-- A write and a msgbox that pass their checks take a block each. -/
def Allocates (str : List UInt8) : Prop := WriteAccepted str ∨ MsgboxAccepted str

open Classical in
noncomputable def allocate (heap : Nat → HeapBlock) (str : List UInt8) : Nat → HeapBlock :=
  if Allocates str then fun k => heap (k + 1) else heap

theorem allocate_taken {str : List UInt8} (allocates : Allocates str) (heap : Nat → HeapBlock) :
    allocate heap str = fun k => heap (k + 1) := if_pos allocates

theorem allocate_none {str : List UInt8} (allocates : ¬ Allocates str)
    (heap : Nat → HeapBlock) : allocate heap str = heap := if_neg allocates

/-- Each text with the block that is the next one when it is executed. -/
noncomputable def dealt (heap : Nat → HeapBlock) :
    List (List UInt8) → List (List UInt8 × HeapBlock)
  | [] => []
  | str :: texts => (str, heap 0) :: dealt (allocate heap str) texts

/-- The byte that x holds after these texts. -/
def Holds (mem : Memory) (handed : List (List UInt8 × HeapBlock)) (x : U32) (b : UInt8) : Prop :=
  (b = mem x ∧ ∀ p ∈ handed, Spares p.1 p.2 x) ∨
  ∃ earlier str block later, handed = earlier ++ (str, block) :: later ∧ Stores str block x b ∧
    ∀ p ∈ later, Spares p.1 p.2 x

/-- What the text stores, as a block of memory. -/
structure WrittenBlock (p : List UInt8 × HeapBlock) (written : Block U32 UInt8) : Prop where
  stored : ∀ x b, Stores p.1 p.2 x b → written x = some b
  rest : ∀ x, Spares p.1 p.2 x → written x = none

theorem quiet_block {str : List UInt8} (rejects : ¬ WriteAccepted str)
    (none_ : ∀ length, ¬ NegativeMsgbox str length) (block : HeapBlock) :
    WrittenBlock (str, block) fun _ => none where
  stored x b stores := by
    cases stores with
    | write tokens passes inside => exact absurd ⟨_, _, _, tokens, passes⟩ rejects
    | msgbox negative front => exact absurd negative (none_ _)
  rest _ _ := rfl

theorem accepted_block {str address b64data size : List UInt8}
    (tokens : split (cstr str) 32 = [text "write", address, b64data, size])
    (passes : WritePasses (strtoul address 16) b64data (strtoul size 10)) (c : Console) :
    WrittenBlock (str, c.heap 0) fun x =>
      if (x - strtoul address 16).toNat < (strtoul size 10).toNat then
        some (c.freshBlock (Base64decode b64data).1 (x - strtoul address 16).toNat)
      else none where
  stored x b stores := by
    cases stores with
    | @write address' b64data' size' tokens' passes' inside =>
      obtain ⟨rfl, rfl, rfl⟩ : address' = address ∧ b64data' = b64data ∧ size' = size := by
        simpa using tokens'.symm.trans tokens
      rw [if_pos inside]
      rfl
    | msgbox negative front =>
      exact absurd ⟨_, _, _, tokens, passes⟩ (negative_rejects negative)
  rest x spares := if_neg fun inside => spares _ (.write tokens passes inside)

theorem negative_block {str : List UInt8} {length : U32} (negative : NegativeMsgbox str length)
    (block : HeapBlock) :
    WrittenBlock (str, block) fun x => if x = block.address + length then some 0 else none where
  stored x b stores := by
    cases stores with
    | write tokens passes inside =>
      exact absurd ⟨_, _, _, tokens, passes⟩ (negative_rejects negative)
    | msgbox negative' front => rw [front, negative_unique negative' negative, if_pos rfl]
  rest x spares := if_neg fun front => spares _ (.msgbox negative front)

section Handled
variable {str : List UInt8} {responseSize : Nat} {c : Console} {result : U32 × Console}

theorem handled_block
    (handled : ((registry lib).parseAndExecute lib str responseSize c).outcome = .ok result) :
    ∃ written, WrittenBlock (str, c.heap 0) written ∧ result.2.mem = apply c.mem written := by
  by_cases accepted : WriteAccepted str
  · obtain ⟨address, b64data, size, tokens, passes⟩ := accepted
    rw [handled_write lib tokens, Except.ok.injEq] at handled
    rcases writeBody_cases lib (strtoul address 16) b64data (strtoul size 10) responseSize c
      with ⟨_, body⟩ | ⟨fails, _⟩
    · refine ⟨_, accepted_block tokens passes c, ?_⟩
      rw [← handled, body]
      funext x
      show blockCopy c.mem _ _ _ x = _
      simp only [blockCopy, apply]
      split <;> rfl
    · exact absurd passes fails
  · by_cases negative : ∃ length, NegativeMsgbox str length
    · obtain ⟨length, msgbox⟩ := negative
      refine ⟨_, negative_block msgbox (c.heap 0), ?_⟩
      rw [negative_memory handled msgbox]
      funext x
      simp only [Function.update_apply, apply]
      split <;> rfl
    · have none_ := not_exists.mp negative
      refine ⟨_, quiet_block accepted none_ (c.heap 0), ?_⟩
      rw [answers_memory (answers handled) accepted none_]
      rfl

theorem handled_heap
    (handled : ((registry lib).parseAndExecute lib str responseSize c).outcome = .ok result) :
    result.2.heap = allocate c.heap str := by
  by_cases write : WriteAccepted str
  · rw [allocate_taken (Or.inl write)]
    obtain ⟨address, b64data, size, tokens, passes⟩ := write
    rw [handled_write lib tokens, Except.ok.injEq] at handled
    rcases writeBody_cases lib (strtoul address 16) b64data (strtoul size 10) responseSize c
      with ⟨_, body⟩ | ⟨fails, _⟩
    · rw [← handled, body]
      rfl
    · exact absurd passes fails
  · by_cases msgbox : MsgboxAccepted str
    · rw [allocate_taken (Or.inr msgbox)]
      obtain ⟨b64data, size, tokens, valid⟩ := msgbox
      rw [handled_msgbox lib tokens, Except.ok.injEq] at handled
      rcases msgboxBody_cases lib b64data (strtoul size 10) responseSize c
        with ⟨_, body⟩ | ⟨fails, _⟩
      · rw [← handled, body]
        rfl
      · exact absurd valid fails
    · rw [allocate_none (not_or.mpr ⟨write, msgbox⟩)]
      cases answers handled with
      | unknown tokens missing => rfl
      | rejected registered tokens reply =>
        obtain ⟨format, _, args, rfl⟩ := reply
        rfl
      | read tokens passes => rfl
      | write tokens passes => exact absurd ⟨_, _, _, tokens, passes⟩ write
      | msgbox tokens valid => exact absurd ⟨_, _, tokens, valid⟩ msgbox

/-- A text that faults has no token, so it stores nothing and takes no block. -/
theorem faulted_empty {fault : Fault}
    (faulted : ((registry lib).parseAndExecute lib str responseSize c).outcome = .error fault) :
    split (cstr str) 32 = [] := by
  by_contra some_
  obtain ⟨body, _, runs⟩ := dispatched lib some_ responseSize
  exact absurd ((runs c).symm.trans faulted) (by simp)

end Handled

theorem empty_block {str : List UInt8} (empty : split (cstr str) 32 = []) (block : HeapBlock) :
    WrittenBlock (str, block) fun _ => none := by
  apply quiet_block
  · rintro ⟨address, b64data, size, tokens, _⟩
    exact absurd (empty.symm.trans tokens) (by simp)
  · rintro length ⟨b64data, size, tokens, _⟩
    exact absurd (empty.symm.trans tokens) (by simp)

theorem empty_allocate {str : List UInt8} (empty : split (cstr str) 32 = [])
    (heap : Nat → HeapBlock) : allocate heap str = heap := by
  refine allocate_none ?_ heap
  rintro (⟨address, b64data, size, tokens, _⟩ | ⟨b64data, size, tokens, _⟩) <;>
    exact absurd (empty.symm.trans tokens) (by simp)

/-- Memory and heap are what the texts executed so far make of those of the start. -/
def Replayed (mem : Memory) (heap : Nat → HeapBlock) (s : Server) : Prop :=
  (∃ blocks, List.Forall₂ WrittenBlock (dealt heap (executed s.calls)) blocks ∧
    s.mem = replay mem blocks) ∧ s.heap = (executed s.calls).foldl allocate heap

theorem executed_other {call : Call} (other : executedText call = none) (calls : List Call) :
    executed (calls ++ [call]) = executed calls := by
  simp [executed, other]

theorem executed_text (calls : List Call) (str : List UInt8)
    (invoked : List (List UInt8 × List (List UInt8))) :
    executed (calls ++ [.parseAndExecute str invoked]) = executed calls ++ [str] := by
  simp [executed, executedText]

theorem dealt_snoc (heap : Nat → HeapBlock) (texts : List (List UInt8)) (str : List UInt8) :
    dealt heap (texts ++ [str]) =
      dealt heap texts ++ [(str, texts.foldl allocate heap 0)] := by
  induction texts generalizing heap with
  | nil => rfl
  | cons first texts ih => simp [dealt, ih]

theorem written_snoc {heap : Nat → HeapBlock} {texts : List (List UInt8)}
    {blocks : List (Block U32 UInt8)}
    (written : List.Forall₂ WrittenBlock (dealt heap texts) blocks) {str : List UInt8}
    {block : Block U32 UInt8} (last : WrittenBlock (str, texts.foldl allocate heap 0) block) :
    List.Forall₂ WrittenBlock (dealt heap (texts ++ [str])) (blocks ++ [block]) := by
  rw [dealt_snoc]
  exact List.rel_append written (.cons last .nil)

theorem execute_replayed {mem : Memory} {heap : Nat → HeapBlock} {s : Server}
    (commands : s.commandManager = registry lib) (replayed : Replayed mem heap s)
    (str : List UInt8) : Replayed mem heap (s.execute lib str) := by
  obtain ⟨⟨blocks, written, same⟩, next⟩ := replayed
  unfold Server.execute
  simp only [commands]
  cases handled : ((registry lib).parseAndExecute lib str BUFSIZE s.console).outcome with
  | error fault =>
    have empty := faulted_empty handled
    simp only [Replayed, executed_text, List.foldl_append, List.foldl_cons, List.foldl_nil,
      empty_allocate empty]
    refine ⟨⟨_, written_snoc written (empty_block empty _), ?_⟩, next⟩
    exact same.trans (replay_snoc mem blocks fun _ => none).symm
  | ok result =>
    obtain ⟨block, writes, after⟩ := handled_block handled
    have heap_ : result.2.heap = allocate s.heap str := handled_heap handled
    simp only [Replayed, executed_text, List.foldl_append, List.foldl_cons, List.foldl_nil,
      ← next]
    refine ⟨⟨_, written_snoc written (by rw [← next]; exact writes), ?_⟩, heap_⟩
    rw [replay_snoc, ← same]
    exact after

theorem step_replayed {mem : Memory} {heap : Nat → HeapBlock} {s : Server}
    (sound : Sound lib s) (replayed : Replayed mem heap s) (answer : Answer) :
    Replayed mem heap (s.step lib answer) := by
  cases place : s.pc with
  | accept =>
    simp only [Server.step, place]
    split <;> simpa only [Replayed, @executed_other (.accept _) rfl] using replayed
  | read =>
    simp only [Server.step, place]
    split
    · simpa only [Replayed, @executed_other (.read _ _) rfl] using replayed
    · split
      · simpa only [Replayed, @executed_other (.read _ _) rfl] using replayed
      · apply execute_replayed
        · exact sound.commands
        · simpa only [Replayed, @executed_other (.read _ _) rfl] using replayed
  | write =>
    simp only [Server.step, place]
    simpa only [Replayed, @executed_other (.write _ _ _) rfl] using replayed
  | close =>
    simp only [Server.step, place]
    simpa only [Replayed, Server.top, @executed_other (.close _) rfl] using replayed
  | stopped fault =>
    simp only [Server.step, place]
    exact replayed

theorem run_replayed (lib : Snprintf) (mem : Memory) (heap : Nat → HeapBlock)
    (above : List UInt8) (inputs : List Answer) :
    Replayed mem heap (run (Server.step lib) (start lib mem heap above) inputs) := by
  have both := @run_invariant _ _ (Server.step lib) (fun s => Sound lib s ∧ Replayed mem heap s)
    (fun s answer held => ⟨step_sound held.1 answer, step_replayed held.1 held.2 answer⟩)
    (start lib mem heap above)
    ⟨start_sound ⟨mem, heap, above, rfl⟩, ⟨[], .nil, rfl⟩, rfl⟩ inputs
  exact both.2

theorem replay_holds {mem : Memory} {handed : List (List UInt8 × HeapBlock)}
    {blocks : List (Block U32 UInt8)} (written : List.Forall₂ WrittenBlock handed blocks)
    (x : U32) : Holds mem handed x (replay mem blocks x) := by
  induction written generalizing mem with
  | nil => exact .inl ⟨rfl, by simp⟩
  | @cons p block handed blocks first _ ih =>
    rcases @ih (apply mem block) with
      ⟨same, spared⟩ | ⟨earlier, str, last, later, cut, stores, rest⟩
    · replace same : replay mem (block :: blocks) x = apply mem block x := same
      by_cases stores : ∃ b, Stores p.1 p.2 x b
      · obtain ⟨b, stores⟩ := stores
        rw [apply, first.stored x b stores, Option.getD_some] at same
        exact .inr ⟨[], p.1, p.2, handed, rfl, same ▸ stores, spared⟩
      · have spares := not_exists.mp stores
        rw [apply, first.rest x spares, Option.getD_none] at same
        exact .inl ⟨same, List.forall_mem_cons.mpr ⟨spares, spared⟩⟩
    · exact .inr ⟨p :: earlier, str, last, later, by rw [cut]; rfl, stores, rest⟩

/-- What a read that was just executed is answered. -/
def ReadAnswered (mem : Memory) (heap : Nat → HeapBlock) (s : Server) : Prop :=
  ∀ str invoked address n, s.calls.getLast? = some (.parseAndExecute str invoked) →
    split (cstr str) 32 = [text "read", address, n] →
    ReadPasses (strtoul address 16) (strtoul n 10) BUFSIZE →
    ∃ bytes, s.passed = some (bytes, strtoul n 10) ∧ bytes.length = (strtoul n 10).toNat ∧
      ∀ i (inside : i < bytes.length), Holds mem (dealt heap (executed s.calls))
        (strtoul address 16 + BitVec.ofNat 32 i) bytes[i]

/-- While the last call is the execution of a text, the state is the one it left. -/
def Executing (lib : Snprintf) (s : Server) : Prop :=
  ∀ str invoked, s.calls.getLast? = some (.parseAndExecute str invoked) →
    ∃ u : Server, u.commandManager = registry lib ∧ s = u.execute lib str

theorem execute_last (s : Server) (str : List UInt8) :
    ∃ invoked, (s.execute lib str).calls = s.calls ++ [.parseAndExecute str invoked] := by
  unfold Server.execute
  dsimp only
  split <;> exact ⟨_, rfl⟩

theorem execute_executing {s : Server} (commands : s.commandManager = registry lib)
    (str : List UInt8) : Executing lib (s.execute lib str) := by
  intro other invoked last
  obtain ⟨invoked', calls⟩ := @execute_last lib s str
  rw [calls, List.getLast?_concat, Option.some_inj, Call.parseAndExecute.injEq] at last
  exact ⟨s, commands, last.1 ▸ rfl⟩

theorem executing_other {s : Server} {calls : List Call} {call : Call}
    (same : s.calls = calls ++ [call]) (other : executedText call = none) :
    Executing lib s := by
  intro str invoked last
  rw [same, List.getLast?_concat, Option.some_inj] at last
  rw [last] at other
  contradiction

theorem step_executing {s : Server} (sound : Sound lib s) (executing : Executing lib s)
    (answer : Answer) : Executing lib (s.step lib answer) := by
  cases place : s.pc with
  | accept =>
    simp only [Server.step, place]
    split <;> exact executing_other rfl rfl
  | read =>
    simp only [Server.step, place]
    split
    · exact executing_other rfl rfl
    · split
      · exact executing_other rfl rfl
      · apply execute_executing
        exact sound.commands
  | write =>
    simp only [Server.step, place]
    exact executing_other rfl rfl
  | close =>
    simp only [Server.step, place]
    exact executing_other rfl rfl
  | stopped fault =>
    simp only [Server.step, place]
    exact executing

theorem read_answered {u : Server} (commands : u.commandManager = registry lib)
    {str address n : List UInt8} (tokens : split (cstr str) 32 = [text "read", address, n])
    (passes : ReadPasses (strtoul address 16) (strtoul n 10) BUFSIZE) :
    let s := u.execute lib str
    s.passed = some (blockRead s.mem (strtoul address 16) (strtoul n 10).toNat, strtoul n 10) := by
  intro s
  have handled := handled_read lib tokens BUFSIZE u.console
  rcases readBody_cases lib (strtoul address 16) (strtoul n 10) BUFSIZE u.console
    with ⟨_, body⟩ | ⟨fails, _⟩
  · rw [body] at handled
    obtain ⟨_, passed, mem, _⟩ := execute_answers (t := s) rfl commands handled
      (copyOut_replies u.console (strtoul address 16) (strtoul n 10))
    rw [passed, mem]
    rfl
  · exact absurd passes fails

theorem executing_answers {mem : Memory} {heap : Nat → HeapBlock} {s : Server}
    (executing : Executing lib s)
    (holds : ∀ x, Holds mem (dealt heap (executed s.calls)) x (s.mem x)) :
    ReadAnswered mem heap s := by
  intro str invoked address n last tokens passes
  obtain ⟨u, commands, same⟩ := executing str invoked last
  have passed := read_answered commands tokens passes
  rw [← same] at passed
  refine ⟨_, passed, blockRead_length _ _ _, fun i inside => ?_⟩
  have byte : (blockRead s.mem (strtoul address 16) (strtoul n 10).toNat)[i] =
      s.mem (strtoul address 16 + BitVec.ofNat 32 i) := by
    simp [blockRead]
  rw [byte]
  exact holds _

/-- At every point of every run an address holds what the last store there put into it, or what
    it held at the start, and a read is answered with just these bytes. -/
theorem last_write_holds (lib : Snprintf) (mem : Memory) (heap : Nat → HeapBlock)
    (above : List UInt8) (inputs : List Answer) :
    let s := run (Server.step lib) (start lib mem heap above) inputs
    (∀ x, Holds mem (dealt heap (executed s.calls)) x (s.mem x)) ∧ ReadAnswered mem heap s := by
  intro s
  obtain ⟨⟨blocks, written, same⟩, _⟩ := run_replayed lib mem heap above inputs
  have holds : ∀ x, Holds mem (dealt heap (executed s.calls)) x (s.mem x) := fun x =>
    same ▸ replay_holds written x
  have both := @run_invariant _ _ (Server.step lib) (fun s => Sound lib s ∧ Executing lib s)
    (fun s answer held => ⟨step_sound held.1 answer, step_executing held.1 held.2 answer⟩)
    (start lib mem heap above)
    ⟨start_sound ⟨mem, heap, above, rfl⟩, fun str invoked last => by simp [start] at last⟩ inputs
  exact ⟨holds, executing_answers both.2 holds⟩

end SpmStoreGuarantees
