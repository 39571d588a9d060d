import SpmMulti.GuardGuarantees
import SpmMulti.Replies

/- What the checks of the commands let through: whether the length that is declared is the
   length of the data, and whether every range inside MEM1 is served. -/
namespace SpmAcceptanceGuarantees
open SpmMachine SpmStrtoul SpmSplit SpmBase64 SpmConsole SpmCommandManager SpmCommands
open SpmHandling SpmGuardGuarantees SpmReplies OverlaidMemory SextetCode
variable {lib : Snprintf} {str : List UInt8} {responseSize : Nat} {c : Console}
  {result : U32 × Console}

/-- The answer is an error text, and storing it is all that was done. -/
def Refused (lib : Snprintf) (responseSize : Nat) (c : Console) (result : U32 × Console) : Prop :=
  ErrorReply lib responseSize c result ∧ result.2.mem = c.mem ∧
    ∃ bytes, result.2.effects = c.effects ++ [.respond bytes]

theorem refused_of_error (reply : ErrorReply lib responseSize c result) :
    Refused lib responseSize c result := by
  obtain ⟨mem, bytes, _, effects⟩ := errorReply_effects reply
  exact ⟨reply, mem, bytes, effects⟩

theorem not_refused {added : List Effect} (effects : result.2.effects = c.effects ++ added)
    (several : 1 < added.length) : ¬ Refused lib responseSize c result := by
  rintro ⟨_, _, bytes, one⟩
  have same := congrArg List.length (List.append_cancel_left (effects.symm.trans one))
  simp only [List.length_singleton] at same
  omega

section DeclaredLength

/-- All of the text is Base64, and it decodes to these bytes, as many as declared. -/
structure Decodes (b64data : List UInt8) (declared : U32) (decoded : List UInt8) : Prop where
  alphabet : ∀ ch ∈ b64data, isBase64Char ch = true
  stored : (Base64decode b64data).1 = decoded ++ [0]
  returned : (Base64decode b64data).2 = declared.toInt
  length : decoded.length = declared.toNat

/-- A write or msgbox request is refused, or its text decodes to as many bytes as it
    declares, and these are what is copied to memory or shown. -/
def DeclaredLengthAgrees (lib : Snprintf) (str : List UInt8) : Prop :=
  ∀ responseSize c,
    (∀ address b64data size, split (cstr str) 32 = [text "write", address, b64data, size] →
      ∃ result, ((registry lib).parseAndExecute lib str responseSize c).outcome = .ok result ∧
        (Refused lib responseSize c result ∨
          ∃ decoded, Decodes b64data (strtoul size 10) decoded ∧
            ∀ i (inside : i < decoded.length),
              result.2.mem (strtoul address 16 + BitVec.ofNat 32 i) = decoded[i])) ∧
    (∀ b64data size, split (cstr str) 32 = [text "msgbox", b64data, size] →
      ∃ result, ((registry lib).parseAndExecute lib str responseSize c).outcome = .ok result ∧
        (Refused lib responseSize c result ∨
          ∃ decoded, Decodes b64data (strtoul size 10) decoded ∧
            ∀ allocated buffer,
              .evtEntry allocated buffer ∈ result.2.effects.drop c.effects.length →
              ∀ i (inside : i < decoded.length), buffer i = decoded[i]))

/-- The characters the validator does not look at are Base64 as well, and the letters in
    front of the padding are as many as that number of bytes takes. -/
def LengthFits (b64data : List UInt8) (declared : Int) : Prop :=
  (∀ ch ∈ b64data.drop declared.toNat, isBase64Char ch = true) ∧
    4 * declared ≤ 3 * alphabetRun b64data ∧ 3 * (alphabetRun b64data : Int) < 4 * declared + 4

theorem valid_prefix {b64data : List UInt8} {declared : Int}
    (valid : isValidBase64 b64data declared = true) :
    ∀ ch ∈ b64data.take declared.toNat, isBase64Char ch = true :=
  (validLoop_iff.mp valid).2

theorem fits_of_decodes {b64data decoded : List UInt8} {declared : U32}
    (decodes : Decodes b64data declared decoded) : LengthFits b64data declared.toInt := by
  have returned := decodes.returned
  rw [decode_returns] at returned
  refine ⟨fun ch member => decodes.alphabet ch (List.mem_of_mem_drop member), ?_, ?_⟩
  · omega
  · omega

theorem decodes_of_fits {b64data : List UInt8} {declared : U32}
    (valid : isValidBase64 b64data declared.toInt = true)
    (fits : LengthFits b64data declared.toInt) : ∃ decoded, Decodes b64data declared decoded := by
  obtain ⟨rest, low, high⟩ := fits
  obtain ⟨decoded, stored, count⟩ := decode_decoded b64data
  have returned : (Base64decode b64data).2 = declared.toInt := by
    rw [decode_returns]
    omega
  refine ⟨decoded, ⟨fun ch member => ?_, stored, returned, ?_⟩⟩
  · rw [← List.take_append_drop declared.toInt.toNat b64data, List.mem_append] at member
    rcases member with checked | unchecked
    · exact valid_prefix valid ch checked
    · exact rest ch unchecked
  · have small := declared.isLt
    rw [count, BitVec.toInt_eq_toNat_cond] at returned
    split at returned <;> omega

theorem freshBlock_decoded (c : Console) {b64data decoded : List UInt8}
    (stored : (Base64decode b64data).1 = decoded ++ [0]) {i : Nat} (inside : i < decoded.length) :
    c.freshBlock (Base64decode b64data).1 i = decoded[i] := by
  simp [Console.freshBlock, stored, List.getElem?_append_left, inside]

theorem written_decoded (c : Console) (dest : U32) {declared : U32} {b64data decoded : List UInt8}
    (decodes : Decodes b64data declared decoded) {i : Nat} (inside : i < decoded.length) :
    (written c dest b64data declared).mem (dest + BitVec.ofNat 32 i) = decoded[i] := by
  have count := decodes.length
  have small := declared.isLt
  have copied := blockCopy_inside c.mem dest (c.freshBlock (Base64decode b64data).1)
    (show i < declared.toNat by omega) (show i < 2 ^ 32 by omega)
  exact copied.trans (freshBlock_decoded c decodes.stored inside)

theorem shown_decoded (c : Console) {declared : U32} {b64data decoded : List UInt8}
    (decodes : Decodes b64data declared decoded) {allocated : Int} {buffer : Nat → UInt8}
    (event : .evtEntry allocated buffer ∈
      (shown c b64data declared).effects.drop c.effects.length) {i : Nat}
    (inside : i < decoded.length) : buffer i = decoded[i] := by
  simp only [shown_effects, List.drop_left, List.mem_cons, Effect.evtEntry.injEq, reduceCtorEq,
    List.not_mem_nil, or_false, false_or] at event
  obtain ⟨-, rfl⟩ := event
  have returned := decodes.returned
  obtain ⟨_, stored, count⟩ := decode_decoded b64data
  have same := List.append_cancel_right (stored.symm.trans decodes.stored)
  rw [count, same] at returned
  rw [shownText, terminated_beside (by omega)]
  exact freshBlock_decoded c decodes.stored inside

theorem written_not_refused (c : Console) (dest : U32) (b64data : List UInt8) (declared : U32) :
    ¬ Refused lib responseSize c (4, written c dest b64data declared) :=
  not_refused (written_effects c dest b64data declared) (by simp)

theorem shown_not_refused (c : Console) (b64data : List UInt8) (declared : U32) :
    ¬ Refused lib responseSize c (4, shown c b64data declared) :=
  not_refused (shown_effects c b64data declared) (by simp)

theorem accepted_write_disagrees {address b64data size : List UInt8}
    (tokens : split (cstr str) 32 = [text "write", address, b64data, size])
    (passes : WritePasses (strtoul address 16) b64data (strtoul size 10))
    (misfit : ¬ LengthFits b64data (strtoul size 10).toInt) : ¬ DeclaredLengthAgrees lib str := by
  intro agrees
  obtain ⟨result, handled, outcome⟩ :=
    (agrees SpmReceive.BUFSIZE blank).1 address b64data size tokens
  have handles : Handles lib str blank _ := handles_write tokens passes
  obtain rfl := Except.ok.inj (handled.symm.trans handles)
  rcases outcome with refused | ⟨decoded, decodes, _⟩
  · exact written_not_refused _ _ _ _ refused
  · exact misfit (fits_of_decodes decodes)

theorem accepted_msgbox_disagrees {b64data size : List UInt8}
    (tokens : split (cstr str) 32 = [text "msgbox", b64data, size])
    (valid : isValidBase64 b64data (strtoul size 10).toInt = true)
    (misfit : ¬ LengthFits b64data (strtoul size 10).toInt) : ¬ DeclaredLengthAgrees lib str := by
  intro agrees
  obtain ⟨result, handled, outcome⟩ := (agrees SpmReceive.BUFSIZE blank).2 b64data size tokens
  have handles : Handles lib str blank _ := handles_msgbox tokens valid
  obtain rfl := Except.ok.inj (handled.symm.trans handles)
  rcases outcome with refused | ⟨decoded, decodes, _⟩
  · exact shown_not_refused _ _ _ refused
  · exact misfit (fits_of_decodes decodes)

/-- The declared length agrees with the data exactly for the texts of which every write or
    msgbox that passes its checks fits its declared length. -/
theorem declared_length_agrees_iff (lib : Snprintf) (str : List UInt8) :
    DeclaredLengthAgrees lib str ↔
      (∀ address b64data size, split (cstr str) 32 = [text "write", address, b64data, size] →
        WritePasses (strtoul address 16) b64data (strtoul size 10) →
        LengthFits b64data (strtoul size 10).toInt) ∧
      (∀ b64data size, split (cstr str) 32 = [text "msgbox", b64data, size] →
        isValidBase64 b64data (strtoul size 10).toInt = true →
        LengthFits b64data (strtoul size 10).toInt) := by
  constructor
  · intro agrees
    refine ⟨fun address b64data size tokens passes => ?_, fun b64data size tokens valid => ?_⟩
    · by_contra misfit
      exact accepted_write_disagrees tokens passes misfit agrees
    · by_contra misfit
      exact accepted_msgbox_disagrees tokens valid misfit agrees
  · rintro ⟨writes, msgboxes⟩ responseSize c
    refine ⟨fun address b64data size tokens => ?_, fun b64data size tokens => ?_⟩
    · refine ⟨_, congrArg Handled.outcome (handled_write lib tokens responseSize c), ?_⟩
      rcases writeBody_cases lib (strtoul address 16) b64data (strtoul size 10) responseSize c
        with ⟨passes, body⟩ | ⟨_, reply⟩
      · obtain ⟨decoded, decodes⟩ :=
          decodes_of_fits passes.1 (writes address b64data size tokens passes)
        rw [body]
        exact Or.inr ⟨decoded, decodes, fun i inside => written_decoded c _ decodes inside⟩
      · exact Or.inl (refused_of_error reply)
    · refine ⟨_, congrArg Handled.outcome (handled_msgbox lib tokens responseSize c), ?_⟩
      rcases msgboxBody_cases lib b64data (strtoul size 10) responseSize c
        with ⟨valid, body⟩ | ⟨_, reply⟩
      · obtain ⟨decoded, decodes⟩ := decodes_of_fits valid (msgboxes b64data size tokens valid)
        rw [body]
        exact Or.inr ⟨decoded, decodes,
          fun allocated buffer event i inside => shown_decoded c decodes event inside⟩
      · exact Or.inl (refused_of_error reply)

/-- One byte is decoded and four are copied. -/
theorem declared_length_exceeds_data :
    ¬ DeclaredLengthAgrees mslSnprintf (text "write 80000000 QQ== 4") :=
  accepted_write_disagrees
    (show split (cstr (text "write 80000000 QQ== 4")) 32 =
      [text "write", text "80000000", text "QQ==", text "4"] by decide)
    ⟨by decide, by unfold InMem1; decide, by unfold InMem1; decide⟩
    (fun fits => absurd fits.2.1 (by decide))

end DeclaredLength

section Completeness

/-- A block of at least one byte, all of it in the range that the error text names. -/
def InsideMem1 (ptr size : U32) : Prop :=
  0 < size.toNat ∧ ∀ i < size.toNat, InMem1 (ptr.toNat + i)

def RangeError (lib : Snprintf) (responseSize : Nat) (c : Console) (result : U32 × Console) :
    Prop := ∃ args, result = c.report lib responseSize rangeError args

def ReadServed (lib : Snprintf) (str : List UInt8) (responseSize : Nat) (ptr size : U32) : Prop :=
  ∀ c : Console, ∃ result,
    ((registry lib).parseAndExecute lib str responseSize c).outcome = .ok result ∧
      Replies result size (peek c.mem ptr.toNat size.toNat) ∧
      ¬ RangeError lib responseSize c result

def WriteServed (lib : Snprintf) (str : List UInt8) (responseSize : Nat) (dest : U32)
    (d : List UInt8) : Prop :=
  ∀ c : Console, ∃ result,
    ((registry lib).parseAndExecute lib str responseSize c).outcome = .ok result ∧
      result.2.mem = poke c.mem dest.toNat d ∧
      Replies result 4 (wordBytes (BitVec.ofNat 32 d.length)) ∧
      ¬ RangeError lib responseSize c result

theorem inside_bounds {ptr size : U32} (inside : InsideMem1 ptr size) :
    0x80000000 ≤ ptr.toNat ∧ ptr.toNat ≤ 0x817fffff ∧ ptr.toNat + size.toNat ≤ 0x81800000 := by
  obtain ⟨positive, within⟩ := inside
  have first := within 0 positive
  have last := within (size.toNat - 1) (by omega)
  simp only [InMem1] at first last
  omega

theorem not_rangeError {added : List Effect} (effects : result.2.effects = c.effects ++ added)
    (several : 1 < added.length) : ¬ RangeError lib responseSize c result := by
  rintro ⟨args, rfl⟩
  exact not_refused effects several
    (refused_of_error ⟨rangeError, by simp [errorFormats], args, rfl⟩)

theorem read_past_last {ptr size : U32} (small : size.toNat ≤ responseSize)
    (past : 0x817fffff < (ptr + size).toNat) (c : Console) :
    RangeError lib responseSize c (readBody lib ptr size responseSize c) := by
  refine ⟨[ptr, ptr + size], ?_⟩
  rw [readBody, if_neg (by omega), if_pos]
  right
  simpa [BitVec.lt_def] using past

theorem write_past_last {dest count : U32} {b64data : List UInt8}
    (valid : isValidBase64 b64data count.toInt = true)
    (past : 0x817fffff < (dest + count).toNat) (c : Console) :
    RangeError lib responseSize c (writeBody lib dest b64data count responseSize c) := by
  refine ⟨[dest, dest + count], ?_⟩
  have outside : isWithinMem1Range (dest + count) = false := by
    rw [← Bool.not_eq_true, isWithinMem1Range_iff, InMem1]
    omega
  rw [writeBody, if_neg (by simp [valid]), if_pos (by simp [outside])]

theorem read_served_iff {address n : List UInt8}
    (tokens : split (cstr str) 32 = [text "read", address, n])
    (inside : InsideMem1 (strtoul address 16) (strtoul n 10))
    (small : (strtoul n 10).toNat ≤ responseSize) :
    ReadServed lib str responseSize (strtoul address 16) (strtoul n 10) ↔
      (strtoul address 16).toNat + (strtoul n 10).toNat ≤ 0x817fffff := by
  obtain ⟨low, high, end_⟩ := inside_bounds inside
  have sum : (strtoul address 16 + strtoul n 10).toNat =
      (strtoul address 16).toNat + (strtoul n 10).toNat := by
    rw [BitVec.toNat_add, Nat.mod_eq_of_lt (by omega)]
  constructor
  · intro served
    by_contra past
    obtain ⟨result, handled, _, noError⟩ := served blank
    rw [handled_read lib tokens] at handled
    obtain rfl := Except.ok.inj handled
    exact noError (read_past_last small (by omega) blank)
  · intro before c
    refine ⟨_, congrArg Handled.outcome (handled_read lib tokens responseSize c), ?_⟩
    rcases readBody_cases lib (strtoul address 16) (strtoul n 10) responseSize c
      with ⟨_, body⟩ | ⟨fails, _⟩
    · rw [body, ← blockRead_eq_peek]
      exact ⟨copyOut_replies c _ _, not_rangeError (copyOut_effects c _ _) (by simp)⟩
    · exact absurd ⟨small, low, by omega⟩ fails

theorem write_served_iff {address size d : List UInt8}
    (tokens : split (cstr str) 32 = [text "write", address, encode d, size])
    (inside : InsideMem1 (strtoul address 16) (strtoul size 10))
    (count : (strtoul size 10).toNat = d.length) :
    WriteServed lib str responseSize (strtoul address 16) d ↔
      (strtoul address 16).toNat + d.length ≤ 0x817fffff := by
  obtain ⟨low, high, end_⟩ := inside_bounds inside
  have word : BitVec.ofNat 32 d.length = strtoul size 10 := by
    rw [← count, BitVec.ofNat_toNat, BitVec.setWidth_eq]
  have sum : (strtoul address 16 + strtoul size 10).toNat =
      (strtoul address 16).toNat + (strtoul size 10).toNat := by
    rw [BitVec.toNat_add, Nat.mod_eq_of_lt (by omega)]
  constructor
  · intro served
    by_contra past
    obtain ⟨result, handled, _, _, noError⟩ := served blank
    rw [handled_write lib tokens] at handled
    obtain rfl := Except.ok.inj handled
    have longer : d.length ≤ (encode d).length := by
      rw [encode_length]
      omega
    have valid : isValidBase64 (encode d) (strtoul size 10).toInt = true := by
      apply code_is_valid
      rw [BitVec.toInt_eq_toNat_cond, if_pos (by omega)]
      omega
    exact noError (write_past_last valid (by omega) blank)
  · intro before c
    refine ⟨_, congrArg Handled.outcome (handled_write lib tokens responseSize c), ?_⟩
    rcases writeBody_cases lib (strtoul address 16) (encode d) (strtoul size 10) responseSize c
      with ⟨_, body⟩ | ⟨fails, _⟩
    · rw [body, word]
      exact ⟨written_code c count (by omega), word_replies _ _,
        not_rangeError (written_effects c _ _ _) (by simp)⟩
    · exact absurd (code_passes count low before) fails

/-- A request for a block inside MEM1 is served: a read of no more bytes than the reply may
    have, a write of the code of as many bytes as it declares. -/
def GuardComplete (lib : Snprintf) (str : List UInt8) (responseSize : Nat) : Prop :=
  (∀ address n, split (cstr str) 32 = [text "read", address, n] →
    InsideMem1 (strtoul address 16) (strtoul n 10) → (strtoul n 10).toNat ≤ responseSize →
    ReadServed lib str responseSize (strtoul address 16) (strtoul n 10)) ∧
  (∀ address size d, split (cstr str) 32 = [text "write", address, encode d, size] →
    InsideMem1 (strtoul address 16) (strtoul size 10) → (strtoul size 10).toNat = d.length →
    WriteServed lib str responseSize (strtoul address 16) d)

/-- Every block inside MEM1 is served exactly as long as none holds MEM1's last byte. -/
theorem guard_complete_iff (lib : Snprintf) (str : List UInt8) (responseSize : Nat) :
    GuardComplete lib str responseSize ↔
      (∀ address n, split (cstr str) 32 = [text "read", address, n] →
        InsideMem1 (strtoul address 16) (strtoul n 10) → (strtoul n 10).toNat ≤ responseSize →
        (strtoul address 16).toNat + (strtoul n 10).toNat ≤ 0x817fffff) ∧
      (∀ address size d, split (cstr str) 32 = [text "write", address, encode d, size] →
        InsideMem1 (strtoul address 16) (strtoul size 10) → (strtoul size 10).toNat = d.length →
        (strtoul address 16).toNat + d.length ≤ 0x817fffff) := by
  constructor
  · rintro ⟨reads, writes⟩
    refine ⟨fun address n tokens inside small => ?_,
      fun address size d tokens inside count => ?_⟩
    · exact (read_served_iff tokens inside small).mp (reads address n tokens inside small)
    · exact (write_served_iff tokens inside count).mp (writes address size d tokens inside count)
  · rintro ⟨reads, writes⟩
    refine ⟨fun address n tokens inside small => ?_,
      fun address size d tokens inside count => ?_⟩
    · exact (read_served_iff tokens inside small).mpr (reads address n tokens inside small)
    · exact (write_served_iff tokens inside count).mpr (writes address size d tokens inside count)

theorem last_byte_inside : InsideMem1 0x817fffff 1 := by
  refine ⟨by decide, fun i first => ?_⟩
  obtain rfl : i = 0 := Nat.lt_one_iff.mp first
  unfold InMem1
  decide

theorem last_byte_not_served :
    ¬ GuardComplete mslSnprintf (text "read 817fffff 1") 1024 ∧
      ¬ GuardComplete mslSnprintf (text "write 817fffff QQ== 1") 1024 := by
  have inside : InsideMem1 (strtoul (text "817fffff") 16) (strtoul (text "1") 10) :=
    last_byte_inside
  constructor
  · rintro ⟨reads, _⟩
    have tokens : split (cstr (text "read 817fffff 1")) 32 =
        [text "read", text "817fffff", text "1"] := by decide
    have served := reads _ _ tokens inside (by decide)
    exact absurd ((read_served_iff tokens inside (by decide)).mp served) (by decide)
  · rintro ⟨_, writes⟩
    have tokens : split (cstr (text "write 817fffff QQ== 1")) 32 =
        [text "write", text "817fffff", encode [65], text "1"] := by decide
    have served := writes _ _ _ tokens inside (by decide)
    exact absurd ((write_served_iff tokens inside (by decide)).mp served) (by decide)

end Completeness

end SpmAcceptanceGuarantees
