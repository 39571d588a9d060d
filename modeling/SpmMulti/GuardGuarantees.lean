import SpmMulti.Handling
import SpmMulti.Receive

/- What the guards of the three commands keep out, for every request text. Addresses are
   counted as natural numbers here, so that a block running past the end of the address
   space is not taken for one at its start. -/
namespace SpmGuardGuarantees
open SpmMachine SpmStrtoul SpmSplit SpmBase64 SpmConsole SpmCommandManager SpmCommands SpmReceive
open SpmHandling
variable {lib : Snprintf} {str : List UInt8} {c : Console} {result : U32 × Console}

def blank : Console := ⟨fun _ => 0, fun _ => ⟨0, fun _ => 0⟩, [], []⟩

def Handles (lib : Snprintf) (str : List UInt8) (c : Console) (result : U32 × Console) : Prop :=
  ((registry lib).parseAndExecute lib str BUFSIZE c).outcome = .ok result

theorem handles_read {address n : List UInt8}
    (tokens : split (cstr str) 32 = [text "read", address, n])
    (passes : ReadPasses (strtoul address 16) (strtoul n 10) BUFSIZE) :
    Handles lib str c (strtoul n 10, c.copyOut (strtoul address 16) (strtoul n 10)) := by
  rcases readBody_cases lib (strtoul address 16) (strtoul n 10) BUFSIZE c
    with ⟨_, body⟩ | ⟨fails, _⟩
  · rw [Handles, handled_read lib tokens, body]
  · exact absurd passes fails

theorem handles_write {address b64data size : List UInt8}
    (tokens : split (cstr str) 32 = [text "write", address, b64data, size])
    (passes : WritePasses (strtoul address 16) b64data (strtoul size 10)) :
    Handles lib str c (4, written c (strtoul address 16) b64data (strtoul size 10)) := by
  rcases writeBody_cases lib (strtoul address 16) b64data (strtoul size 10) BUFSIZE c
    with ⟨_, body⟩ | ⟨fails, _⟩
  · rw [Handles, handled_write lib tokens, body]
  · exact absurd passes fails

theorem handles_msgbox {b64data size : List UInt8}
    (tokens : split (cstr str) 32 = [text "msgbox", b64data, size])
    (valid : isValidBase64 b64data (strtoul size 10).toInt = true) :
    Handles lib str c (4, shown c b64data (strtoul size 10)) := by
  rcases msgboxBody_cases lib b64data (strtoul size 10) BUFSIZE c
    with ⟨_, body⟩ | ⟨fails, _⟩
  · rw [Handles, handled_msgbox lib tokens, body]
  · exact absurd valid fails

theorem fresh_error {responseSize : Nat} (fresh : c.effects = [])
    (reply : ErrorReply lib responseSize c result) :
    result.2.mem = c.mem ∧ ∃ bytes, bytes.length ≤ responseSize ∧
      result.2.effects = [.respond bytes] := by
  have effects := errorReply_effects reply
  rwa [fresh] at effects

/-- The effects of a request on a fresh record, by the way it went. -/
theorem fresh_effects (handles : Handles lib str c result) (fresh : c.effects = []) :
    (∃ bytes, result.2.effects ⊆ [.respond bytes]) ∨
    (∃ address n bytes, split (cstr str) 32 = [text "read", address, n] ∧
      ReadPasses (strtoul address 16) (strtoul n 10) BUFSIZE ∧
      result.2.effects = [.load (strtoul address 16) (strtoul n 10), .respond bytes]) ∨
    (∃ address b64data size bytes,
      split (cstr str) 32 = [text "write", address, b64data, size] ∧
      WritePasses (strtoul address 16) b64data (strtoul size 10) ∧
      result.2.effects = [.decode (strtoul size 10).toInt (Base64decode b64data).1,
        .store (strtoul address 16) (strtoul size 10), .respond bytes]) ∨
    (∃ b64data size index buffer bytes, split (cstr str) 32 = [text "msgbox", b64data, size] ∧
      isValidBase64 b64data (strtoul size 10).toInt = true ∧
      result.2.effects = [.decode (strtoul size 10 + 1).toInt (Base64decode b64data).1,
        .terminate (strtoul size 10 + 1).toInt index,
        .evtEntry (strtoul size 10 + 1).toInt buffer, .respond bytes]) := by
  cases answers handles with
  | unknown tokens missing => exact Or.inl ⟨[], by simp [fresh]⟩
  | rejected registered tokens reply =>
    obtain ⟨_, bytes, _, effects⟩ := fresh_error fresh reply
    exact Or.inl ⟨bytes, by simp [effects]⟩
  | @read address n tokens passes =>
    have effects := copyOut_effects c (strtoul address 16) (strtoul n 10)
    rw [fresh, List.nil_append] at effects
    exact Or.inr (Or.inl ⟨address, n, _, tokens, passes, effects⟩)
  | @write address b64data size tokens passes =>
    have effects := written_effects c (strtoul address 16) b64data (strtoul size 10)
    rw [fresh, List.nil_append] at effects
    exact Or.inr (Or.inr (Or.inl ⟨address, b64data, size, _, tokens, passes, effects⟩))
  | @msgbox b64data size tokens valid =>
    have effects := shown_effects c b64data (strtoul size 10)
    rw [fresh, List.nil_append] at effects
    exact Or.inr (Or.inr (Or.inr ⟨b64data, size, _, _, _, tokens, valid, effects⟩))

theorem load_effect {ptr size : U32} (handles : Handles lib str c result)
    (fresh : c.effects = []) (loaded : .load ptr size ∈ result.2.effects) :
    ∃ address n, split (cstr str) 32 = [text "read", address, n] ∧ ptr = strtoul address 16 ∧
      size = strtoul n 10 ∧ ReadPasses ptr size BUFSIZE := by
  rcases fresh_effects handles fresh with ⟨bytes, few⟩ |
    ⟨address, n, bytes, tokens, passes, effects⟩ | ⟨_, _, _, _, _, _, effects⟩ |
    ⟨_, _, _, _, _, _, _, effects⟩
  · simpa using few loaded
  · simp only [effects, List.mem_cons, Effect.load.injEq, reduceCtorEq, List.not_mem_nil,
      or_false] at loaded
    obtain ⟨rfl, rfl⟩ := loaded
    exact ⟨address, n, tokens, rfl, rfl, passes⟩
  · simp [effects] at loaded
  · simp [effects] at loaded

theorem store_effect {dest count : U32} (handles : Handles lib str c result)
    (fresh : c.effects = []) (stored : .store dest count ∈ result.2.effects) :
    ∃ address b64data size, split (cstr str) 32 = [text "write", address, b64data, size] ∧
      dest = strtoul address 16 ∧ count = strtoul size 10 ∧ WritePasses dest b64data count := by
  rcases fresh_effects handles fresh with ⟨bytes, few⟩ | ⟨_, _, _, _, _, effects⟩ |
    ⟨address, b64data, size, bytes, tokens, passes, effects⟩ | ⟨_, _, _, _, _, _, _, effects⟩
  · simpa using few stored
  · simp [effects] at stored
  · simp only [effects, List.mem_cons, Effect.store.injEq, reduceCtorEq, List.not_mem_nil,
      or_false, false_or] at stored
    obtain ⟨rfl, rfl⟩ := stored
    exact ⟨address, b64data, size, tokens, rfl, rfl, passes⟩
  · simp [effects] at stored

theorem decode_effect {allocated : Int} {stored : List UInt8}
    (handles : Handles lib str c result) (fresh : c.effects = [])
    (decoded : .decode allocated stored ∈ result.2.effects) :
    (∃ address b64data size, split (cstr str) 32 = [text "write", address, b64data, size] ∧
      WritePasses (strtoul address 16) b64data (strtoul size 10) ∧
      allocated = (strtoul size 10).toInt ∧ stored = (Base64decode b64data).1) ∨
    (∃ b64data size, split (cstr str) 32 = [text "msgbox", b64data, size] ∧
      isValidBase64 b64data (strtoul size 10).toInt = true ∧
      allocated = (strtoul size 10 + 1).toInt ∧ stored = (Base64decode b64data).1) := by
  rcases fresh_effects handles fresh with ⟨bytes, few⟩ | ⟨_, _, _, _, _, effects⟩ |
    ⟨address, b64data, size, bytes, tokens, passes, effects⟩ |
    ⟨b64data, size, index, buffer, bytes, tokens, valid, effects⟩
  · simpa using few decoded
  · simp [effects] at decoded
  · simp only [effects, List.mem_cons, Effect.decode.injEq, reduceCtorEq, List.not_mem_nil,
      or_false] at decoded
    exact Or.inl ⟨address, b64data, size, tokens, passes, decoded⟩
  · simp only [effects, List.mem_cons, Effect.decode.injEq, reduceCtorEq, List.not_mem_nil,
      or_false] at decoded
    exact Or.inr ⟨b64data, size, tokens, valid, decoded⟩

section Read

/-- Every byte copied out lies in MEM1, and a read request that copies nothing out gets an
    error text and changes nothing but the reply buffer. -/
def ReadGuarded (lib : Snprintf) (str : List UInt8) : Prop :=
  ∀ c : Console, c.effects = [] →
    (∀ result, Handles lib str c result → ∀ ptr size, .load ptr size ∈ result.2.effects →
      ∀ i < size.toNat, InMem1 (ptr.toNat + i)) ∧
    (∀ args, split (cstr str) 32 = text "read" :: args → ∃ result, Handles lib str c result ∧
      ((∀ ptr size, .load ptr size ∉ result.2.effects) →
        ErrorReply lib BUFSIZE c result ∧ result.2.mem = c.mem ∧
          ∃ bytes, bytes.length ≤ BUFSIZE ∧ result.2.effects = [.respond bytes]))

theorem found_read : (registry lib).findCommand (text "read") = some (SpmCommands.read lib) :=
  findCommand_registered (read_registered lib)

theorem read_answered {args : List (List UInt8)} (fresh : c.effects = [])
    (tokens : split (cstr str) 32 = text "read" :: args) :
    ∃ result, Handles lib str c result ∧
      ((∀ ptr size, .load ptr size ∉ result.2.effects) →
        ErrorReply lib BUFSIZE c result ∧ result.2.mem = c.mem ∧
          ∃ bytes, bytes.length ≤ BUFSIZE ∧ result.2.effects = [.respond bytes]) := by
  obtain ⟨body, _, runs⟩ := dispatched lib (show split (cstr str) 32 ≠ [] by simp [tokens]) BUFSIZE
  have handles : Handles lib str c (body c) := runs c
  refine ⟨body c, handles, fun quiet => ?_⟩
  generalize body c = result at handles quiet ⊢
  cases answers handles with
  | unknown other missing =>
    obtain ⟨rfl, -⟩ := List.cons.inj (tokens.symm.trans other)
    rw [found_read] at missing
    contradiction
  | rejected registered other reply => exact ⟨reply, fresh_error fresh reply⟩
  | @read address n other passes =>
    refine absurd ?_ (quiet (strtoul address 16) (strtoul n 10))
    rw [copyOut_effects]
    simp
  | write other passes =>
    have name := (List.cons.inj (tokens.symm.trans other)).1
    exact absurd name (by decide)
  | msgbox other valid =>
    have name := (List.cons.inj (tokens.symm.trans other)).1
    exact absurd name (by decide)

theorem passing_read_inside {ptr size : U32} (passes : ReadPasses ptr size BUFSIZE) :
    (∀ i < size.toNat, InMem1 (ptr.toNat + i)) ↔ ptr.toNat + size.toNat < 2 ^ 32 := by
  obtain ⟨small, low, high⟩ := passes
  have address := ptr.isLt
  rw [BitVec.toNat_add] at high
  simp only [BUFSIZE] at small
  constructor
  · intro inside
    by_contra wraps
    have first := (inside 0 (by omega)).2
    omega
  · intro straight i bound
    rw [Nat.mod_eq_of_lt straight] at high
    exact ⟨by omega, by omega⟩

theorem passing_read_wraps {ptr size : U32} (small : size.toNat ≤ BUFSIZE)
    (wraps : 2 ^ 32 ≤ ptr.toNat + size.toNat) : ReadPasses ptr size BUFSIZE := by
  have address := ptr.isLt
  simp only [BUFSIZE] at small
  refine ⟨small, by omega, ?_⟩
  rw [BitVec.toNat_add]
  omega

theorem wrapping_read_unguarded {address n : List UInt8}
    (tokens : split (cstr str) 32 = [text "read", address, n])
    (small : (strtoul n 10).toNat ≤ BUFSIZE)
    (wraps : 2 ^ 32 ≤ (strtoul address 16).toNat + (strtoul n 10).toNat) :
    ¬ ReadGuarded lib str := by
  intro guarded
  have passes := passing_read_wraps small wraps
  have inside := (guarded blank rfl).1 _ (handles_read tokens passes) (strtoul address 16)
    (strtoul n 10) (by rw [copyOut_effects]; simp)
  have straight := (passing_read_inside passes).mp inside
  omega

/-- The read guard holds exactly of the texts whose range, of at most BUFSIZE bytes, does
    not run past the end of the address space. -/
theorem read_guarded_iff (lib : Snprintf) (str : List UInt8) :
    ReadGuarded lib str ↔
      ∀ address n, split (cstr str) 32 = [text "read", address, n] →
        (strtoul n 10).toNat ≤ BUFSIZE →
        (strtoul address 16).toNat + (strtoul n 10).toNat < 2 ^ 32 := by
  constructor
  · intro guarded address n tokens small
    by_contra wraps
    exact wrapping_read_unguarded tokens small (by omega) guarded
  · intro straight c fresh
    refine ⟨fun result handles ptr size loaded => ?_, fun args => read_answered fresh⟩
    obtain ⟨address, n, tokens, rfl, rfl, passes⟩ := load_effect handles fresh loaded
    exact (passing_read_inside passes).mpr (straight address n tokens passes.1)

theorem read_unguarded_at_end : ¬ ReadGuarded mslSnprintf (text "read ffffffff 1") :=
  wrapping_read_unguarded
    (show split (cstr (text "read ffffffff 1")) 32 = [text "read", text "ffffffff", text "1"] by
      decide) (by decide) (by decide)

end Read

section Write

/-- The size handed to memcpy is a non-negative s32, and every byte written lies in MEM1. -/
def WriteGuarded (lib : Snprintf) (str : List UInt8) : Prop :=
  ∀ c : Console, c.effects = [] → ∀ result, Handles lib str c result →
    ∀ dest count, .store dest count ∈ result.2.effects →
      0 ≤ count.toInt ∧ ∀ i < count.toNat, InMem1 (dest.toNat + i)

theorem passing_write_inside {dest count : U32} {b64data : List UInt8}
    (passes : WritePasses dest b64data count) :
    (0 ≤ count.toInt ∧ ∀ i < count.toNat, InMem1 (dest.toNat + i)) ↔
      dest.toNat + count.toNat < 2 ^ 32 + 2 ^ 31 := by
  obtain ⟨_, ⟨low, high⟩, low', high'⟩ := passes
  have address := dest.isLt
  have size := count.isLt
  rw [BitVec.toNat_add] at low' high'
  rw [BitVec.toInt_eq_toNat_cond]
  constructor
  · rintro ⟨positive, inside⟩
    split at positive <;> omega
  · intro straight
    refine ⟨by split <;> omega, fun i bound => ⟨by omega, ?_⟩⟩
    omega

/-- A size that is negative as an s32 skips the Base64 check, and the end of the range it
    gives lies below its start. -/
theorem passing_write_wraps {dest count : U32} (b64data : List UInt8)
    (high : dest.toNat ≤ 0x817fffff) (wraps : 2 ^ 32 + 2 ^ 31 ≤ dest.toNat + count.toNat) :
    WritePasses dest b64data count := by
  have address := dest.isLt
  have size := count.isLt
  refine ⟨?_, ⟨by omega, high⟩, ?_⟩
  · have negative : count.toInt.toNat = 0 := by
      rw [BitVec.toInt_eq_toNat_cond]
      split <;> omega
    rw [isValidBase64, negative]
    cases b64data <;> rfl
  · rw [InMem1, BitVec.toNat_add]
    omega

theorem wrapping_write_unguarded {address b64data size : List UInt8}
    (tokens : split (cstr str) 32 = [text "write", address, b64data, size])
    (high : (strtoul address 16).toNat ≤ 0x817fffff)
    (wraps : 2 ^ 32 + 2 ^ 31 ≤ (strtoul address 16).toNat + (strtoul size 10).toNat) :
    ¬ WriteGuarded lib str := by
  intro guarded
  have passes := passing_write_wraps b64data high wraps
  have inside := guarded blank rfl _ (handles_write tokens passes) (strtoul address 16)
    (strtoul size 10) (by rw [written_effects]; simp)
  have straight := (passing_write_inside passes).mp inside
  omega

/-- The write guard holds exactly of the texts whose declared size, taken as unsigned, does
    not lead from an address up to MEM1's end around the address space and back into MEM1. -/
theorem write_guarded_iff (lib : Snprintf) (str : List UInt8) :
    WriteGuarded lib str ↔
      ∀ address b64data size, split (cstr str) 32 = [text "write", address, b64data, size] →
        (strtoul address 16).toNat ≤ 0x817fffff →
        (strtoul address 16).toNat + (strtoul size 10).toNat < 2 ^ 32 + 2 ^ 31 := by
  constructor
  · intro guarded address b64data size tokens high
    by_contra wraps
    exact wrapping_write_unguarded tokens high (by omega) guarded
  · intro straight c fresh result handles dest count stored
    obtain ⟨address, b64data, size, tokens, rfl, rfl, passes⟩ :=
      store_effect handles fresh stored
    exact (passing_write_inside passes).mpr (straight address b64data size tokens passes.2.1.2)

theorem write_unguarded_negative :
    ¬ WriteGuarded mslSnprintf (text "write 80000001 QQ== 4294967295") :=
  wrapping_write_unguarded
    (show split (cstr (text "write 80000001 QQ== 4294967295")) 32 =
      [text "write", text "80000001", text "QQ==", text "4294967295"] by decide)
    (by decide) (by decide)

end Write

section Decode

def DecodeBounded (lib : Snprintf) (str : List UInt8) : Prop :=
  ∀ c : Console, c.effects = [] → ∀ result, Handles lib str c result →
    ∀ allocated stored, .decode allocated stored ∈ result.2.effects →
      (stored.length : Int) ≤ allocated

/-- The decoded bytes and the NUL, three for every four characters, fit exactly when the
    characters come to less than four thirds of the room. -/
theorem decode_fits_iff (b64data : List UInt8) (allocated : Int) :
    ((Base64decode b64data).1.length : Int) ≤ allocated ↔
      3 * (alphabetRun b64data : Int) < 4 * allocated := by
  rw [decode_stored_length]
  omega

theorem long_write_overruns {address b64data size : List UInt8}
    (tokens : split (cstr str) 32 = [text "write", address, b64data, size])
    (passes : WritePasses (strtoul address 16) b64data (strtoul size 10))
    (long : ¬ 3 * (alphabetRun b64data : Int) < 4 * (strtoul size 10).toInt) :
    ¬ DecodeBounded lib str := by
  intro bounded
  refine long ((decode_fits_iff b64data _).mp ?_)
  refine bounded blank rfl _ (handles_write tokens passes) _ _ ?_
  rw [written_effects]
  simp

theorem long_msgbox_overruns {b64data size : List UInt8}
    (tokens : split (cstr str) 32 = [text "msgbox", b64data, size])
    (valid : isValidBase64 b64data (strtoul size 10).toInt = true)
    (long : ¬ 3 * (alphabetRun b64data : Int) < 4 * (strtoul size 10 + 1).toInt) :
    ¬ DecodeBounded lib str := by
  intro bounded
  refine long ((decode_fits_iff b64data _).mp ?_)
  refine bounded blank rfl _ (handles_msgbox tokens valid) _ _ ?_
  rw [shown_effects]
  simp

/-- No decoding overruns its buffer exactly when the Base64 characters at the start of the
    text come to less than four thirds of the bytes allocated for them. -/
theorem decode_bounded_iff (lib : Snprintf) (str : List UInt8) :
    DecodeBounded lib str ↔
      (∀ address b64data size, split (cstr str) 32 = [text "write", address, b64data, size] →
        WritePasses (strtoul address 16) b64data (strtoul size 10) →
        3 * (alphabetRun b64data : Int) < 4 * (strtoul size 10).toInt) ∧
      (∀ b64data size, split (cstr str) 32 = [text "msgbox", b64data, size] →
        isValidBase64 b64data (strtoul size 10).toInt = true →
        3 * (alphabetRun b64data : Int) < 4 * (strtoul size 10 + 1).toInt) := by
  constructor
  · intro bounded
    refine ⟨fun address b64data size tokens passes => ?_, fun b64data size tokens valid => ?_⟩
    · by_contra long
      exact long_write_overruns tokens passes long bounded
    · by_contra long
      exact long_msgbox_overruns tokens valid long bounded
  · rintro ⟨writes, msgboxes⟩ c fresh result handles allocated stored decoded
    rcases decode_effect handles fresh decoded with
      ⟨address, b64data, size, tokens, passes, rfl, rfl⟩ | ⟨b64data, size, tokens, valid, rfl, rfl⟩
    · exact (decode_fits_iff b64data _).mpr (writes address b64data size tokens passes)
    · exact (decode_fits_iff b64data _).mpr (msgboxes b64data size tokens valid)

theorem decode_overruns_one_byte :
    ¬ DecodeBounded mslSnprintf (text "write 80000000 QQ== 1") :=
  long_write_overruns
    (show split (cstr (text "write 80000000 QQ== 1")) 32 =
      [text "write", text "80000000", text "QQ==", text "1"] by decide)
    ⟨by decide, by unfold InMem1; decide, by unfold InMem1; decide⟩ (by decide)

end Decode

end SpmGuardGuarantees
