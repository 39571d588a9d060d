import SpmMulti.Handling

/- What handling a request may change outside the mod: console memory, and the scripts the
   event engine is asked to run. Both stay as they are unless the tokens are those of a
   write or a msgbox whose checks pass. Only a msgbox of negative length does more than it
   may: it passes its check, and its NUL is stored in front of its buffer. -/
namespace SpmEffectConfinement
open SpmMachine SpmStrtoul SpmSplit SpmBase64 SpmConsole SpmCommandManager SpmCommands
open SpmHandling OverlaidMemory
variable {lib : Snprintf} {str : List UInt8} {responseSize : Nat} {c : Console}
  {result : U32 × Console}

def WriteAccepted (str : List UInt8) : Prop :=
  ∃ address b64data size, split (cstr str) 32 = [text "write", address, b64data, size] ∧
    WritePasses (strtoul address 16) b64data (strtoul size 10)

def MsgboxAccepted (str : List UInt8) : Prop :=
  ∃ b64data size, split (cstr str) 32 = [text "msgbox", b64data, size] ∧
    isValidBase64 b64data (strtoul size 10).toInt = true

/-- A msgbox with two arguments, the second of them negative as an s32. -/
def NegativeMsgbox (str : List UInt8) (length : U32) : Prop :=
  ∃ b64data size, split (cstr str) 32 = [text "msgbox", b64data, size] ∧
    length = strtoul size 10 ∧ length.toInt < 0

/-- The NUL of a negative length replaces a byte that is none. -/
def ClobbersFront (str : List UInt8) (c : Console) : Prop :=
  ∃ length, NegativeMsgbox str length ∧ c.mem ((c.heap 0).address + length) ≠ 0

/-- Unknown name, wrong number of arguments, or a check of the command that fails. -/
def Rejected (lib : Snprintf) (str : List UInt8) (responseSize : Nat) : Prop :=
  (∃ name args, split (cstr str) 32 = name :: args ∧
    ∀ cmd ∈ (registry lib).commands, cmd.name = name → cmd.argc ≠ args.length) ∨
  (∃ address n, split (cstr str) 32 = [text "read", address, n] ∧
    ¬ ReadPasses (strtoul address 16) (strtoul n 10) responseSize) ∨
  (∃ address b64data size, split (cstr str) 32 = [text "write", address, b64data, size] ∧
    ¬ WritePasses (strtoul address 16) b64data (strtoul size 10)) ∨
  (∃ b64data size, split (cstr str) 32 = [text "msgbox", b64data, size] ∧
    ¬ isValidBase64 b64data (strtoul size 10).toInt = true)

def isEvtEntry : Effect → Bool
  | .evtEntry _ _ => true
  | _ => false

def started (c : Console) : List Effect := c.effects.filter isEvtEntry

/-- The block is that of the memcpy: its count is decodedLen as a size_t, and its addresses
    are 32-bit sums. -/
structure Confined (lib : Snprintf) (str : List UInt8) (responseSize : Nat)
    (before after : Console) : Prop where
  memory : ¬ WriteAccepted str → after.mem = before.mem
  block : ∀ address b64data size,
    split (cstr str) 32 = [text "write", address, b64data, size] →
    ∀ x, (∀ i < (strtoul size 10).toNat, x ≠ strtoul address 16 + BitVec.ofNat 32 i) →
      after.mem x = before.mem x
  events : ¬ MsgboxAccepted str → started after = started before
  rejected : Rejected lib str responseSize →
    after.mem = before.mem ∧ started after = started before

theorem started_of_effects {before after : Console} {added : List Effect}
    (effects : after.effects = before.effects ++ added) (quiet : added.filter isEvtEntry = []) :
    started after = started before := by
  simp [started, effects, quiet]

theorem errorReply_quiet (reply : ErrorReply lib responseSize c result) :
    result.2.mem = c.mem ∧ started result.2 = started c := by
  obtain ⟨mem, bytes, _, effects⟩ := errorReply_effects reply
  exact ⟨mem, started_of_effects effects rfl⟩

theorem answers_memory (answered : Answers lib str responseSize c result)
    (rejects : ¬ WriteAccepted str) (none_ : ∀ length, ¬ NegativeMsgbox str length) :
    result.2.mem = c.mem := by
  cases answered with
  | unknown tokens missing => rfl
  | rejected registered tokens reply => exact (errorReply_quiet reply).1
  | read tokens passes => rfl
  | write tokens passes => exact absurd ⟨_, _, _, tokens, passes⟩ rejects
  | msgbox tokens valid =>
    rw [shown_mem, if_neg fun negative => none_ _ ⟨_, _, tokens, rfl, negative⟩]

theorem negative_valid {b64data : List UInt8} {length : Int} (negative : length < 0) :
    isValidBase64 b64data length = true := by
  rw [isValidBase64, Int.toNat_of_nonpos (by omega), validLoop]

theorem negative_rejects {length : U32} (msgbox : NegativeMsgbox str length) :
    ¬ WriteAccepted str := by
  rintro ⟨address, b64data, size, tokens, _⟩
  obtain ⟨b64data', size', tokens', _⟩ := msgbox
  exact absurd (tokens.symm.trans tokens') (by simp)

theorem negative_unique {first second : U32} (msgbox : NegativeMsgbox str first)
    (again : NegativeMsgbox str second) : first = second := by
  obtain ⟨b64data, size, tokens, rfl, _⟩ := msgbox
  obtain ⟨b64data', size', tokens', rfl, _⟩ := again
  obtain ⟨-, rfl⟩ : b64data = b64data' ∧ size = size' := by
    simpa using tokens.symm.trans tokens'
  rfl

/-- The check looks at no character of the text, so the NUL is stored whatever the text is. -/
theorem negative_memory
    (handled : ((registry lib).parseAndExecute lib str responseSize c).outcome = .ok result)
    {length : U32} (msgbox : NegativeMsgbox str length) :
    result.2.mem = Function.update c.mem ((c.heap 0).address + length) 0 := by
  obtain ⟨b64data, size, tokens, rfl, negative⟩ := msgbox
  rw [handled_msgbox lib tokens, Except.ok.injEq] at handled
  rcases msgboxBody_cases lib b64data (strtoul size 10) responseSize c
    with ⟨_, body⟩ | ⟨fails, _⟩
  · rw [← handled, body, shown_mem, if_pos negative]
  · exact absurd (negative_valid negative) fails

theorem spared_memory
    (handled : ((registry lib).parseAndExecute lib str responseSize c).outcome = .ok result)
    (spares : ¬ ClobbersFront str c) (rejects : ¬ WriteAccepted str) :
    result.2.mem = c.mem := by
  by_cases negative : ∃ length, NegativeMsgbox str length
  · obtain ⟨length, msgbox⟩ := negative
    have nul : c.mem ((c.heap 0).address + length) = 0 :=
      by_contra fun nonzero => spares ⟨length, msgbox, nonzero⟩
    have same := Function.update_eq_self ((c.heap 0).address + length) c.mem
    rw [nul] at same
    rw [negative_memory handled msgbox, same]
  · exact answers_memory (answers handled) rejects (not_exists.mp negative)

theorem answers_events (answered : Answers lib str responseSize c result)
    (rejects : ¬ MsgboxAccepted str) : started result.2 = started c := by
  cases answered with
  | unknown tokens missing => rfl
  | rejected registered tokens reply => exact (errorReply_quiet reply).2
  | read tokens passes => exact started_of_effects (copyOut_effects c _ _) rfl
  | write tokens passes => exact started_of_effects (written_effects c _ _ _) rfl
  | msgbox tokens valid => exact absurd ⟨_, _, tokens, valid⟩ rejects

theorem answers_block (answered : Answers lib str responseSize c result)
    {address b64data size : List UInt8}
    (tokens : split (cstr str) 32 = [text "write", address, b64data, size]) {x : U32}
    (outside : ∀ i < (strtoul size 10).toNat, x ≠ strtoul address 16 + BitVec.ofNat 32 i) :
    result.2.mem x = c.mem x := by
  cases answered with
  | unknown tokens' missing => rfl
  | rejected registered tokens' reply => rw [(errorReply_quiet reply).1]
  | read tokens' passes => rfl
  | @write address' b64data' size' tokens' passes =>
    obtain ⟨rfl, rfl, rfl⟩ : address = address' ∧ b64data = b64data' ∧ size = size' := by
      simpa using tokens.symm.trans tokens'
    exact blockCopy_outside c.mem _ outside
  | msgbox tokens' valid => exact absurd (tokens.symm.trans tokens') (by simp)

theorem rejected_not_accepted (rejects : Rejected lib str responseSize) :
    ¬ WriteAccepted str ∧ ¬ MsgboxAccepted str := by
  constructor
  · rintro ⟨address, b64data, size, tokens, passes⟩
    rcases rejects with ⟨name, args, tokens', fails⟩ | ⟨_, _, tokens', _⟩ |
      ⟨_, _, _, tokens', fails⟩ | ⟨_, _, tokens', _⟩
    · obtain ⟨rfl, rfl⟩ := List.cons.inj (tokens.symm.trans tokens')
      exact fails _ (write_registered lib) rfl rfl
    · exact absurd (tokens.symm.trans tokens') (by simp)
    · obtain ⟨rfl, rfl, rfl⟩ := by simpa using tokens.symm.trans tokens'
      exact fails passes
    · exact absurd (tokens.symm.trans tokens') (by simp)
  · rintro ⟨b64data, size, tokens, valid⟩
    rcases rejects with ⟨name, args, tokens', fails⟩ | ⟨_, _, tokens', _⟩ |
      ⟨_, _, _, tokens', _⟩ | ⟨_, _, tokens', fails⟩
    · obtain ⟨rfl, rfl⟩ := List.cons.inj (tokens.symm.trans tokens')
      exact fails _ (msgbox_registered lib) rfl rfl
    · exact absurd (List.cons.inj (tokens.symm.trans tokens')).1 (by decide)
    · exact absurd (tokens.symm.trans tokens') (by simp)
    · obtain ⟨rfl, rfl⟩ := by simpa using tokens.symm.trans tokens'
      exact fails valid

theorem spared_confined
    (handled : ((registry lib).parseAndExecute lib str responseSize c).outcome = .ok result)
    (spares : ¬ ClobbersFront str c) : Confined lib str responseSize c result.2 where
  memory rejects := spared_memory handled spares rejects
  block address b64data size tokens x outside := answers_block (answers handled) tokens outside
  events rejects := answers_events (answers handled) rejects
  rejected rejects := by
    obtain ⟨noWrite, noMsgbox⟩ := rejected_not_accepted rejects
    exact ⟨spared_memory handled spares noWrite, answers_events (answers handled) noMsgbox⟩

theorem clobbered_not_confined
    (handled : ((registry lib).parseAndExecute lib str responseSize c).outcome = .ok result)
    (clobbers : ClobbersFront str c) : ¬ Confined lib str responseSize c result.2 := by
  intro confined
  obtain ⟨length, msgbox, nonzero⟩ := clobbers
  have same := confined.memory (negative_rejects msgbox)
  rw [negative_memory handled msgbox] at same
  have nul := congrFun same ((c.heap 0).address + length)
  rw [Function.update_self] at nul
  exact nonzero nul.symm

/-- Every text with a token is handled to its end, and it is confined exactly when it is no
    msgbox whose NUL goes over another byte in front of its buffer. -/
theorem effects_confined_iff (lib : Snprintf) (some_ : split (cstr str) 32 ≠ [])
    (responseSize : Nat) (c : Console) :
    ∃ result, ((registry lib).parseAndExecute lib str responseSize c).outcome = .ok result ∧
      (Confined lib str responseSize c result.2 ↔ ¬ ClobbersFront str c) := by
  obtain ⟨body, _, runs⟩ := dispatched lib some_ responseSize
  refine ⟨body c, runs c, fun confined clobbers => ?_, spared_confined (runs c)⟩
  exact clobbered_not_confined (runs c) clobbers confined

theorem effects_confined_iff_three_bytes :
    let str := text "write 80000000 QUJD 3"
    let c : Console := ⟨fun _ => 1, fun _ => ⟨0x80500000, fun _ => 0⟩, [], []⟩
    ∃ result, ((registry mslSnprintf).parseAndExecute mslSnprintf str 1024 c).outcome =
      .ok result ∧ (Confined mslSnprintf str 1024 c result.2 ↔ ¬ ClobbersFront str c) :=
  effects_confined_iff mslSnprintf (by decide) 1024 _

/-- The NUL of a length of -1 goes to the byte before the block that new handed out. -/
theorem negative_length_clobbers :
    let str := text "msgbox QQ== 4294967295"
    let c : Console := ⟨fun _ => 1, fun _ => ⟨0x80500000, fun _ => 0⟩, [], []⟩
    split (cstr str) 32 ≠ [] ∧ ∃ result,
      ((registry mslSnprintf).parseAndExecute mslSnprintf str 1024 c).outcome = .ok result ∧
      ¬ Confined mslSnprintf str 1024 c result.2 := by
  intro str c
  have tokens : split (cstr str) 32 = [text "msgbox", text "QQ==", text "4294967295"] := by
    decide
  have handled := congrArg Handled.outcome (handled_msgbox mslSnprintf tokens 1024 c)
  refine ⟨by simp [tokens], _, handled, clobbered_not_confined handled ?_⟩
  exact ⟨_, ⟨_, _, tokens, rfl, by decide⟩, by decide⟩

end SpmEffectConfinement
