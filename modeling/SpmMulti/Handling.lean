import SpmMulti.Commands

/- Inversion of request handling: which of the ways through parseAndExecute and the three
   callbacks a text takes, and what comes out. Every later result about a request is a
   case analysis of these, and unfolds no callback again. -/
namespace SpmHandling
open SpmMachine SpmStrtoul SpmSplit SpmBase64 SpmConsole SpmCommandManager SpmCommands
open OverlaidMemory SextetCode
variable {lib : Snprintf}

def InMem1 (a : Nat) : Prop := 0x80000000 ≤ a ∧ a ≤ 0x817fffff

theorem isWithinMem1Range_iff (ptr : U32) : isWithinMem1Range ptr = true ↔ InMem1 ptr.toNat := by
  simp [isWithinMem1Range, InMem1, BitVec.le_def]

def errorFormats : List String :=
  ["Error: expected %d arguments, got %d\n",
   "Error: Requested more bytes (%d) than the allocated buffer's size (%d).\n",
   rangeError, base64Error]

/-- Only the response buffer is touched, and it holds one of the error texts. -/
def ErrorReply (lib : Snprintf) (responseSize : Nat) (c : Console) (result : U32 × Console) :
    Prop :=
  ∃ format ∈ errorFormats, ∃ args, result = c.report lib responseSize format args

/-- Both checks of read pass; the end of the range is the wrapped 32-bit sum. -/
def ReadPasses (ptr size : U32) (responseSize : Nat) : Prop :=
  size.toNat ≤ responseSize ∧ 0x80000000 ≤ ptr.toNat ∧ (ptr + size).toNat ≤ 0x817fffff

def WritePasses (dest : U32) (b64data : List UInt8) (decodedLen : U32) : Prop :=
  isValidBase64 b64data decodedLen.toInt = true ∧ InMem1 dest.toNat ∧
    InMem1 (dest + decodedLen).toNat

def written (c : Console) (dest : U32) (b64data : List UInt8) (decodedLen : U32) : Console :=
  let stored := (Base64decode b64data).1
  (((c.decodeInto decodedLen.toInt stored).copyIn dest decodedLen (c.freshBlock stored)).respond
    (wordBytes decodedLen))

def shown (c : Console) (b64data : List UInt8) (msgboxTextLen : U32) : Console :=
  let allocated := (msgboxTextLen + 1).toInt
  let stored := (Base64decode b64data).1
  (((c.decodeInto allocated stored).terminate allocated (c.heap 0).address
    msgboxTextLen.toInt).startEvt allocated
      (terminated (c.freshBlock stored) msgboxTextLen.toInt)).respond (wordBytes msgboxTextLen)

theorem readBody_cases (lib : Snprintf) (ptr size : U32) (responseSize : Nat) (c : Console) :
    (ReadPasses ptr size responseSize ∧
      readBody lib ptr size responseSize c = (size, c.copyOut ptr size)) ∨
    (¬ ReadPasses ptr size responseSize ∧
      ErrorReply lib responseSize c (readBody lib ptr size responseSize c)) := by
  unfold readBody
  by_cases large : responseSize < size.toNat
  · rw [if_pos large]
    exact Or.inr ⟨fun passes => by have := passes.1; omega, _, by simp [errorFormats], _, rfl⟩
  · rw [if_neg large]
    by_cases outside : ptr < 0x80000000#32 ∨ 0x817fffff#32 < ptr + size
    · rw [if_pos outside]
      refine Or.inr ⟨fun passes => ?_, _, by simp [errorFormats], _, rfl⟩
      obtain ⟨_, low, high⟩ := passes
      simp only [BitVec.lt_def, BitVec.toNat_ofNat] at outside
      omega
    · rw [if_neg outside]
      simp only [BitVec.lt_def, BitVec.toNat_ofNat, not_or, Nat.not_lt] at outside
      exact Or.inl ⟨⟨by omega, by omega, by omega⟩, rfl⟩

theorem writeBody_cases (lib : Snprintf) (dest : U32) (b64data : List UInt8)
    (decodedLen : U32) (responseSize : Nat) (c : Console) :
    (WritePasses dest b64data decodedLen ∧
      writeBody lib dest b64data decodedLen responseSize c =
        (4, written c dest b64data decodedLen)) ∨
    (¬ WritePasses dest b64data decodedLen ∧
      ErrorReply lib responseSize c (writeBody lib dest b64data decodedLen responseSize c)) := by
  unfold writeBody
  by_cases valid : isValidBase64 b64data decodedLen.toInt = true
  · rw [if_neg (by simp [valid])]
    by_cases inside : isWithinMem1Range dest = true ∧ isWithinMem1Range (dest + decodedLen) = true
    · rw [if_neg (by simp [inside.1, inside.2])]
      exact Or.inl ⟨⟨valid, (isWithinMem1Range_iff _).mp inside.1,
        (isWithinMem1Range_iff _).mp inside.2⟩, rfl⟩
    · rw [if_pos (by simp only [Bool.or_eq_true, Bool.not_eq_true']; rw [← Bool.not_eq_true,
        ← Bool.not_eq_true]; tauto)]
      refine Or.inr ⟨fun passes => inside ?_, _, by simp [errorFormats], _, rfl⟩
      exact ⟨(isWithinMem1Range_iff _).mpr passes.2.1, (isWithinMem1Range_iff _).mpr passes.2.2⟩
  · rw [if_pos (by simp [valid])]
    exact Or.inr ⟨fun passes => valid passes.1, _, by simp [errorFormats], _, rfl⟩

theorem msgboxBody_cases (lib : Snprintf) (b64data : List UInt8) (msgboxTextLen : U32)
    (responseSize : Nat) (c : Console) :
    (isValidBase64 b64data msgboxTextLen.toInt = true ∧
      msgboxBody lib b64data msgboxTextLen responseSize c =
        (4, shown c b64data msgboxTextLen)) ∨
    (¬ isValidBase64 b64data msgboxTextLen.toInt = true ∧
      ErrorReply lib responseSize c (msgboxBody lib b64data msgboxTextLen responseSize c)) := by
  unfold msgboxBody
  by_cases valid : isValidBase64 b64data msgboxTextLen.toInt = true
  · rw [if_neg (by simp [valid])]
    exact Or.inl ⟨valid, rfl⟩
  · rw [if_pos (by simp [valid])]
    exact Or.inr ⟨valid, _, by simp [errorFormats], _, rfl⟩

theorem read_registered (lib : Snprintf) : SpmCommands.read lib ∈ (registry lib).commands := by
  simp [registry_commands]

theorem write_registered (lib : Snprintf) : write lib ∈ (registry lib).commands := by
  simp [registry_commands]

theorem msgbox_registered (lib : Snprintf) : msgbox lib ∈ (registry lib).commands := by
  simp [registry_commands]

theorem registered_cases {cmd : Command} (registered : cmd ∈ (registry lib).commands) :
    cmd = read lib ∨ cmd = write lib ∨ cmd = msgbox lib := by
  simpa [registry_commands] using registered

theorem registered_fixed {cmd : Command} (registered : cmd ∈ (registry lib).commands) :
    cmd.argc ≠ ANY_ARGC := by
  rcases registered_cases registered with rfl | rfl | rfl <;>
    simp [SpmCommands.read, write, msgbox, ANY_ARGC]

theorem handled_read (lib : Snprintf) {str address n : List UInt8}
    (tokens : split (cstr str) 32 = [text "read", address, n]) (responseSize : Nat)
    (c : Console) :
    (registry lib).parseAndExecute lib str responseSize c =
      ⟨[(text "read", [address, n])],
        .ok (readBody lib (strtoul address 16) (strtoul n 10) responseSize c)⟩ := by
  rw [parseAndExecute_tokens (read_registered lib) tokens, execute_matching lib rfl]
  rfl

theorem handled_write (lib : Snprintf) {str address b64data size : List UInt8}
    (tokens : split (cstr str) 32 = [text "write", address, b64data, size]) (responseSize : Nat)
    (c : Console) :
    (registry lib).parseAndExecute lib str responseSize c =
      ⟨[(text "write", [address, b64data, size])],
        .ok (writeBody lib (strtoul address 16) b64data (strtoul size 10) responseSize c)⟩ := by
  rw [parseAndExecute_tokens (write_registered lib) tokens, execute_matching lib rfl]
  rfl

theorem handled_msgbox (lib : Snprintf) {str b64data size : List UInt8}
    (tokens : split (cstr str) 32 = [text "msgbox", b64data, size]) (responseSize : Nat)
    (c : Console) :
    (registry lib).parseAndExecute lib str responseSize c =
      ⟨[(text "msgbox", [b64data, size])],
        .ok (msgboxBody lib b64data (strtoul size 10) responseSize c)⟩ := by
  rw [parseAndExecute_tokens (msgbox_registered lib) tokens, execute_matching lib rfl]
  rfl

theorem handled_nothing {str : List UInt8} (tokens : split (cstr str) 32 = [])
    (responseSize : Nat) (c : Console) :
    (registry lib).parseAndExecute lib str responseSize c = ⟨[], .error (.vectorIndex 0 0)⟩ := by
  simp [CommandManager.parseAndExecute, tokens, vectorAt]

/-- What a text with a token makes of the console, by its tokens and before any check of a
    command is decided. -/
inductive Dispatched (lib : Snprintf) (str : List UInt8) (responseSize : Nat) :
    (Console → U32 × Console) → Prop where
  | unknown {name : List UInt8} {args : List (List UInt8)}
      (tokens : split (cstr str) 32 = name :: args)
      (missing : (registry lib).findCommand name = none) :
      Dispatched lib str responseSize fun c => (0, c)
  | mismatch {cmd : Command} {args : List (List UInt8)}
      (registered : cmd ∈ (registry lib).commands)
      (tokens : split (cstr str) 32 = cmd.name :: args) (differ : cmd.argc ≠ args.length) :
      Dispatched lib str responseSize fun c =>
        c.report lib responseSize "Error: expected %d arguments, got %d\n"
          [BitVec.ofInt 32 cmd.argc, BitVec.ofInt 32 args.length]
  | read {address n : List UInt8} (tokens : split (cstr str) 32 = [text "read", address, n]) :
      Dispatched lib str responseSize
        (readBody lib (strtoul address 16) (strtoul n 10) responseSize)
  | write {address b64data size : List UInt8}
      (tokens : split (cstr str) 32 = [text "write", address, b64data, size]) :
      Dispatched lib str responseSize
        (writeBody lib (strtoul address 16) b64data (strtoul size 10) responseSize)
  | msgbox {b64data size : List UInt8}
      (tokens : split (cstr str) 32 = [text "msgbox", b64data, size]) :
      Dispatched lib str responseSize (msgboxBody lib b64data (strtoul size 10) responseSize)

/-- A text with a token is handled to its end, in one of these ways. -/
theorem dispatched (lib : Snprintf) {str : List UInt8} (some_ : split (cstr str) 32 ≠ [])
    (responseSize : Nat) :
    ∃ body, Dispatched lib str responseSize body ∧
      ∀ c, ((registry lib).parseAndExecute lib str responseSize c).outcome = .ok (body c) := by
  obtain ⟨name, args, tokens⟩ := List.exists_cons_of_ne_nil some_
  cases found : (registry lib).findCommand name with
  | none =>
    refine ⟨_, .unknown tokens found, fun c => ?_⟩
    simp [CommandManager.parseAndExecute, tokens, vectorAt, found]
  | some cmd =>
    obtain ⟨registered, rfl⟩ := findCommand_name found
    by_cases arity : cmd.argc = args.length
    · rcases registered_cases registered with rfl | rfl | rfl
      · obtain ⟨address, n, rfl⟩ := List.length_eq_two.mp (Int.ofNat_inj.mp arity).symm
        exact ⟨_, .read tokens, fun c => by rw [handled_read lib tokens]⟩
      · obtain ⟨address, b64data, size, rfl⟩ :=
          List.length_eq_three.mp (Int.ofNat_inj.mp arity).symm
        exact ⟨_, .write tokens, fun c => by rw [handled_write lib tokens]⟩
      · obtain ⟨b64data, size, rfl⟩ := List.length_eq_two.mp (Int.ofNat_inj.mp arity).symm
        exact ⟨_, .msgbox tokens, fun c => by rw [handled_msgbox lib tokens]⟩
    · refine ⟨_, .mismatch registered tokens arity, fun c => ?_⟩
      rw [parseAndExecute_tokens registered tokens, Command.execute,
        if_pos ⟨Ne.symm arity, registered_fixed registered⟩]

/-- What comes of a text that is handled to its end, with the checks decided. -/
inductive Answers (lib : Snprintf) (str : List UInt8) (responseSize : Nat) (c : Console) :
    U32 × Console → Prop where
  | unknown {name : List UInt8} {args : List (List UInt8)}
      (tokens : split (cstr str) 32 = name :: args)
      (missing : (registry lib).findCommand name = none) :
      Answers lib str responseSize c (0, c)
  | rejected {cmd : Command} {args : List (List UInt8)} {result : U32 × Console}
      (registered : cmd ∈ (registry lib).commands)
      (tokens : split (cstr str) 32 = cmd.name :: args)
      (reply : ErrorReply lib responseSize c result) :
      Answers lib str responseSize c result
  | read {address n : List UInt8} (tokens : split (cstr str) 32 = [text "read", address, n])
      (passes : ReadPasses (strtoul address 16) (strtoul n 10) responseSize) :
      Answers lib str responseSize c
        (strtoul n 10, c.copyOut (strtoul address 16) (strtoul n 10))
  | write {address b64data size : List UInt8}
      (tokens : split (cstr str) 32 = [text "write", address, b64data, size])
      (passes : WritePasses (strtoul address 16) b64data (strtoul size 10)) :
      Answers lib str responseSize c
        (4, written c (strtoul address 16) b64data (strtoul size 10))
  | msgbox {b64data size : List UInt8}
      (tokens : split (cstr str) 32 = [text "msgbox", b64data, size])
      (valid : isValidBase64 b64data (strtoul size 10).toInt = true) :
      Answers lib str responseSize c (4, shown c b64data (strtoul size 10))

theorem answers {str : List UInt8} {responseSize : Nat} {c : Console} {result : U32 × Console}
    (handled : ((registry lib).parseAndExecute lib str responseSize c).outcome = .ok result) :
    Answers lib str responseSize c result := by
  have some_ : split (cstr str) 32 ≠ [] := by
    intro none_
    rw [handled_nothing none_] at handled
    simp at handled
  obtain ⟨body, kind, runs⟩ := dispatched lib some_ responseSize
  obtain rfl := Except.ok.inj ((runs c).symm.trans handled)
  cases kind with
  | unknown tokens missing => exact .unknown tokens missing
  | mismatch registered tokens differ =>
    exact .rejected registered tokens ⟨_, by simp [errorFormats], _, rfl⟩
  | @read address n tokens =>
    rcases readBody_cases lib (strtoul address 16) (strtoul n 10) responseSize c
      with ⟨passes, body⟩ | ⟨_, reply⟩
    · exact body ▸ .read tokens passes
    · exact .rejected (read_registered lib) tokens reply
  | @write address b64data size tokens =>
    rcases writeBody_cases lib (strtoul address 16) b64data (strtoul size 10) responseSize c
      with ⟨passes, body⟩ | ⟨_, reply⟩
    · exact body ▸ .write tokens passes
    · exact .rejected (write_registered lib) tokens reply
  | @msgbox b64data size tokens =>
    rcases msgboxBody_cases lib b64data (strtoul size 10) responseSize c
      with ⟨valid, body⟩ | ⟨_, reply⟩
    · exact body ▸ .msgbox tokens valid
    · exact .rejected (msgbox_registered lib) tokens reply

/-- An error reply leaves memory and heap alone and stores within the response. -/
theorem errorReply_effects {responseSize : Nat} {c : Console} {result : U32 × Console}
    (reply : ErrorReply lib responseSize c result) :
    result.2.mem = c.mem ∧ ∃ bytes, bytes.length ≤ responseSize ∧
      result.2.effects = c.effects ++ [.respond bytes] := by
  obtain ⟨format, _, args, rfl⟩ := reply
  exact ⟨rfl, _, stored_length_le lib responseSize format args, rfl⟩

theorem copyOut_effects (c : Console) (ptr size : U32) :
    (c.copyOut ptr size).effects =
      c.effects ++ [.load ptr size, .respond (blockRead c.mem ptr size.toNat)] := by
  simp [Console.copyOut]

theorem written_effects (c : Console) (dest : U32) (b64data : List UInt8) (decodedLen : U32) :
    (written c dest b64data decodedLen).effects =
      c.effects ++ [.decode decodedLen.toInt (Base64decode b64data).1, .store dest decodedLen,
        .respond (wordBytes decodedLen)] := by
  simp [written, Console.decodeInto, Console.copyIn]

/-- The text of the message box, a NUL put behind as many characters as are declared. -/
def shownText (c : Console) (b64data : List UInt8) (msgboxTextLen : U32) : Nat → UInt8 :=
  terminated (c.freshBlock (Base64decode b64data).1) msgboxTextLen.toInt

theorem shown_effects (c : Console) (b64data : List UInt8) (msgboxTextLen : U32) :
    (shown c b64data msgboxTextLen).effects =
      c.effects ++ [.decode (msgboxTextLen + 1).toInt (Base64decode b64data).1,
        .terminate (msgboxTextLen + 1).toInt msgboxTextLen.toInt,
        .evtEntry (msgboxTextLen + 1).toInt (shownText c b64data msgboxTextLen),
        .respond (wordBytes msgboxTextLen)] := by
  simp only [shown, shownText, Console.decodeInto, Console.terminate, Console.startEvt,
    Console.respond, List.append_assoc, List.cons_append, List.nil_append]

/-- A message box leaves memory alone but for the NUL of a negative length. -/
theorem shown_mem (c : Console) (b64data : List UInt8) (msgboxTextLen : U32) :
    (shown c b64data msgboxTextLen).mem =
      if msgboxTextLen.toInt < 0 then
        Function.update c.mem ((c.heap 0).address + msgboxTextLen) 0
      else c.mem := by
  simp only [shown, Console.decodeInto, Console.terminate, Console.startEvt, Console.respond,
    BitVec.ofInt_toInt]

/-- A write of the code of some bytes passes when the bytes end below MEM1's last address. -/
theorem code_passes {dest count : U32} {d : List UInt8} (size : count.toNat = d.length)
    (low : 0x80000000 ≤ dest.toNat) (high : dest.toNat + d.length ≤ 0x817fffff) :
    WritePasses dest (encode d) count := by
  have signed : count.toInt = d.length := by
    rw [BitVec.toInt_eq_toNat_cond, size, if_pos (by omega)]
  have longer : d.length ≤ (encode d).length := by
    rw [encode_length]
    omega
  rw [WritePasses, signed, InMem1, InMem1, BitVec.toNat_add, size, Nat.mod_eq_of_lt (by omega)]
  exact ⟨code_is_valid d (by omega), ⟨low, by omega⟩, by omega, high⟩

theorem written_code (c : Console) {dest count : U32} {d : List UInt8}
    (size : count.toNat = d.length) (fits : dest.toNat + d.length ≤ 2 ^ 32) :
    (written c dest (encode d) count).mem = poke c.mem dest.toNat d := by
  have copied : (written c dest (encode d) count).mem =
      blockCopy c.mem dest d.length (c.freshBlock (d ++ [0])) := by
    rw [← size, written, decode_code]
    rfl
  rw [copied]
  apply blockCopy_eq_poke c.mem dest _ d fits
  intro i inside
  simp [Console.freshBlock, List.getElem?_append_left, inside]

end SpmHandling
