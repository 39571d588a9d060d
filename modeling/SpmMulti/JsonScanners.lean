import SpmMulti.CoreJson
import SpmMulti.Lib.JsonText

/- What each scanner of coreJSON skips, against the grammar of JSON texts: a scanner that
   succeeds has skipped a text of its kind, and it skips such a text whatever stands behind it,
   as far as the text ends there. -/
namespace SpmJsonScanners
open SpmMachine SpmCoreJson JsonText

theorem isspace_iff (b : UInt8) : isspace_ b = true ↔ IsBlank b := by
  simp [isspace_, IsBlank, or_assoc]

theorem skipSpace_blank {gap : List UInt8} (blank : Blank gap) (s : List UInt8) :
    skipSpace (gap ++ s) = skipSpace s := by
  induction gap with
  | nil => rfl
  | cons b gap ih =>
    obtain ⟨first, rest⟩ := List.forall_mem_cons.1 blank
    simp only [List.cons_append, skipSpace, (isspace_iff b).2 first, if_true]
    exact ih rest

theorem skipSpace_skips (s : List UInt8) : ∃ gap, Blank gap ∧ s = gap ++ skipSpace s := by
  induction s with
  | nil => exact ⟨[], by simp [Blank], rfl⟩
  | cons b s ih =>
    obtain ⟨gap, blank, eq⟩ := ih
    simp only [skipSpace]
    split
    · rename_i space
      refine ⟨b :: gap, List.forall_mem_cons.2 ⟨(isspace_iff b).1 space, blank⟩, ?_⟩
      rw [List.cons_append, ← eq]
    · exact ⟨[], by simp [Blank], rfl⟩

theorem skipSpace_solid {b : UInt8} (solid : ¬ IsBlank b) (s : List UInt8) :
    skipSpace (b :: s) = b :: s := by
  rw [skipSpace, if_neg (mt (isspace_iff b).1 solid)]

theorem skipSpace_head {s r : List UInt8} {b : UInt8} (skipped : skipSpace s = b :: r) :
    ¬ IsBlank b := by
  induction s with
  | nil => simp [skipSpace] at skipped
  | cons c s ih =>
    simp only [skipSpace] at skipped
    split at skipped
    · exact ih skipped
    · rename_i solid
      obtain ⟨rfl, _⟩ := List.cons.inj skipped
      exact mt (isspace_iff c).2 solid

theorem skipSpace_idem (s : List UInt8) : skipSpace (skipSpace s) = skipSpace s := by
  cases skipped : skipSpace s with
  | nil => rfl
  | cons b r => exact skipSpace_solid (skipSpace_head skipped) r

theorem highBits_table : ∀ n < 256, 0xc1 < n → n < 0xf5 →
    countHighBits (UInt8.ofNat n) = if n < 0xe0 then 2 else if n < 0xf0 then 3 else 4 := by
  decide +kernel

theorem continuation_table : ∀ n < 256,
    (UInt8.ofNat n &&& 0xc0 = 0x80 ↔ 0x80 ≤ n ∧ n < 0xc0) ∧
      (UInt8.ofNat n &&& 0x3f).toNat = n % 64 := by
  decide +kernel

theorem highBits_eq {c : UInt8} (low : 0xc1 < c.toNat) (high : c.toNat < 0xf5) :
    countHighBits c = if c.toNat < 0xe0 then 2 else if c.toNat < 0xf0 then 3 else 4 := by
  simpa using highBits_table c.toNat c.toNat_lt low high

def IsContinuation (c : UInt8) : Prop := 0x80 ≤ c.toNat ∧ c.toNat < 0xc0

theorem continuation_iff (c : UInt8) : c &&& 0xc0 = 0x80 ↔ IsContinuation c := by
  simpa [IsContinuation] using (continuation_table c.toNat c.toNat_lt).1

theorem continuation_bits (value : Nat) (c : UInt8) :
    value <<< 6 ||| (c &&& 0x3f).toNat = value * 64 + c.toNat % 64 := by
  have bits : (c &&& 0x3f).toNat = c.toNat % 64 := by
    simpa using (continuation_table c.toNat c.toNat_lt).2
  rw [bits, ← Nat.shiftLeft_add_eq_or_of_lt (i := 6) (Nat.mod_lt _ (by decide)), Nat.shiftLeft_eq]

theorem continuationBytes_iff (j value w : Nat) (buf rest : List UInt8) :
    continuationBytes j value buf = some (w, rest) ↔
      ∃ cs, cs.length = j ∧ (∀ c ∈ cs, IsContinuation c) ∧ buf = cs ++ rest ∧
        w = cs.foldl (fun v c => v * 64 + c.toNat % 64) value := by
  induction j generalizing value buf with
  | zero =>
    simp only [continuationBytes, Option.some.injEq, Prod.mk.injEq, List.length_eq_zero_iff]
    constructor
    · rintro ⟨rfl, rfl⟩
      exact ⟨[], rfl, by simp, rfl, rfl⟩
    · rintro ⟨cs, rfl, _, eq, sum⟩
      exact ⟨sum.symm, eq⟩
  | succ j ih =>
    cases buf with
    | nil =>
      simp only [continuationBytes, reduceCtorEq, false_iff, not_exists]
      rintro cs ⟨length, _, eq, _⟩
      obtain ⟨rfl, _⟩ := List.append_eq_nil_iff.1 eq.symm
      cases length
    | cons c buf =>
      simp only [continuationBytes, continuation_bits, ne_eq, continuation_iff, ite_not,
        Option.ite_none_right_eq_some, ih]
      constructor
      · rintro ⟨first, cs, length, others, eq, sum⟩
        exact ⟨c :: cs, by simp [length], List.forall_mem_cons.2 ⟨first, others⟩, by simp [eq], sum⟩
      · rintro ⟨cs, length, all, eq, sum⟩
        obtain ⟨d, cs, rfl⟩ := List.exists_cons_of_length_eq_add_one length
        obtain ⟨rfl, rfl⟩ := List.cons.inj eq
        obtain ⟨first, others⟩ := List.forall_mem_cons.1 all
        exact ⟨first, cs, by simpa using length, others, rfl, sum⟩

theorem multiByte_iff (c : UInt8) (buf rest : List UInt8) :
    skipUTF8MultiByte (c :: buf) = some rest ↔
      (0xc1 < c.toNat ∧ c.toNat < 0xf5) ∧ ∃ cs w, cs.length = countHighBits c - 1 ∧
        (∀ c ∈ cs, IsContinuation c) ∧ buf = cs ++ rest ∧
        w = cs.foldl (fun v c => v * 64 + c.toNat % 64) (c.toNat % 2 ^ (7 - countHighBits c)) ∧
        shortestUTF8 (countHighBits c) w = true := by
  have bits : c.toNat &&& (1 <<< (7 - countHighBits c) - 1) =
      c.toNat % 2 ^ (7 - countHighBits c) := by
    rw [Nat.one_shiftLeft, Nat.and_two_pow_sub_one_eq_mod]
  have range : (c > 0xc1 && c < 0xf5) = true ↔ 0xc1 < c.toNat ∧ c.toNat < 0xf5 := by
    simp [UInt8.lt_iff_toNat_lt]
  simp only [skipUTF8MultiByte, bits, range, Option.ite_none_right_eq_some]
  refine and_congr_right fun _ => ?_
  constructor
  · intro scanned
    split at scanned
    · rename_i w rest' continued
      obtain ⟨cs, length, all, eq, sum⟩ := (continuationBytes_iff _ _ _ _ _).1 continued
      split at scanned
      · rename_i shortest
        obtain rfl := Option.some.inj scanned
        exact ⟨cs, w, length, all, eq, sum, shortest⟩
      · cases scanned
    · cases scanned
  · rintro ⟨cs, w, length, all, eq, sum, shortest⟩
    rw [(continuationBytes_iff _ _ _ _ _).2 ⟨cs, length, all, eq, sum⟩]
    exact if_pos shortest

theorem shortest_iff (length w : Nat) : shortestUTF8 length w = true ↔
    (if length = 2 then 0x80 ≤ w ∧ w ≤ 0x7ff
      else if length = 3 then 0x800 ≤ w ∧ w ≤ 0xffff else 0x10000 ≤ w ∧ w ≤ 0x10ffff) ∧
      (w < 0xd800 ∨ 0xdfff < w) := by
  simp only [shortestUTF8]
  split
  · simp
  · simp
  · rename_i two three
    rw [if_neg two, if_neg three]
    simp

theorem isascii_iff (b : UInt8) : isascii_ b = true ↔ b.toNat ≤ 0x7f := by
  simp [isascii_, UInt8.le_iff_toNat_le]

theorem ofNat_toNat {n : Nat} (small : n < 256) : (UInt8.ofNat n).toNat = n :=
  UInt8.toNat_ofNat_of_lt' small

theorem skipUTF8_wide {c : UInt8} (wide : 0x7f < c.toNat) (buf : List UInt8) :
    skipUTF8 (c :: buf) = skipUTF8MultiByte (c :: buf) := by
  rw [skipUTF8, if_neg (by rw [isascii_iff]; omega)]

theorem skipUTF8_char (ch : Char) (rest : List UInt8) :
    skipUTF8 (String.utf8EncodeChar ch ++ rest) = some rest := by
  have valid : ch.val.toNat < 0xd800 ∨ 0xdfff < ch.val.toNat ∧ ch.val.toNat < 0x110000 := ch.valid
  simp only [String.utf8EncodeChar]
  generalize ch.val.toNat = v at valid
  split
  · have ascii : isascii_ (UInt8.ofNat v) = true := by
      rw [isascii_iff, ofNat_toNat (by omega)]
      omega
    exact if_pos ascii
  split
  · have lead := @ofNat_toNat (v / 64 % 32 + 0xc0) (by omega)
    have second := @ofNat_toNat (v % 64 + 0x80) (by omega)
    rw [List.cons_append, skipUTF8_wide (by omega), multiByte_iff,
      highBits_eq (by omega) (by omega), if_pos (by omega)]
    refine ⟨by omega, [_], v, rfl, ?_, rfl, ?_, ?_⟩
    · simp only [List.mem_singleton, forall_eq, IsContinuation]
      omega
    · simp only [List.foldl_cons, List.foldl_nil]
      omega
    · rw [shortest_iff]
      simp
      omega
  split
  · have lead := @ofNat_toNat (v / 4096 % 16 + 0xe0) (by omega)
    have second := @ofNat_toNat (v / 64 % 64 + 0x80) (by omega)
    have third := @ofNat_toNat (v % 64 + 0x80) (by omega)
    rw [List.cons_append, skipUTF8_wide (by omega), multiByte_iff,
      highBits_eq (by omega) (by omega), if_neg (by omega), if_pos (by omega)]
    refine ⟨by omega, [_, _], v, rfl, ?_, rfl, ?_, ?_⟩
    · simp only [List.mem_cons, List.not_mem_nil, or_false, forall_eq_or_imp, forall_eq,
        IsContinuation]
      omega
    · simp only [List.foldl_cons, List.foldl_nil]
      omega
    · rw [shortest_iff]
      simp
      omega
  · have lead := @ofNat_toNat (v / 262144 % 8 + 0xf0) (by omega)
    have second := @ofNat_toNat (v / 4096 % 64 + 0x80) (by omega)
    have third := @ofNat_toNat (v / 64 % 64 + 0x80) (by omega)
    have fourth := @ofNat_toNat (v % 64 + 0x80) (by omega)
    rw [List.cons_append, skipUTF8_wide (by omega), multiByte_iff,
      highBits_eq (by omega) (by omega), if_neg (by omega), if_neg (by omega)]
    refine ⟨by omega, [_, _, _], v, rfl, ?_, rfl, ?_, ?_⟩
    · simp only [List.mem_cons, List.not_mem_nil, or_false, forall_eq_or_imp, forall_eq,
        IsContinuation]
      omega
    · simp only [List.foldl_cons, List.foldl_nil]
      omega
    · rw [shortest_iff]
      simp
      omega

/-- A byte is the one with its value. -/
theorem byte_eq {c : UInt8} {n : Nat} (eq : c.toNat = n) : UInt8.ofNat n = c := by
  rw [← eq, UInt8.ofNat_toNat]

theorem encoded_two {w : Nat} (valid : w.isValidChar) (low : 0x7f < w) (high : w ≤ 0x7ff) :
    String.utf8EncodeChar (Char.ofNatAux w valid) =
      [UInt8.ofNat (w / 64 % 32 + 0xc0), UInt8.ofNat (w % 64 + 0x80)] :=
  (if_neg (Nat.not_le.2 low)).trans (if_pos high)

theorem encoded_three {w : Nat} (valid : w.isValidChar) (low : 0x7ff < w) (high : w ≤ 0xffff) :
    String.utf8EncodeChar (Char.ofNatAux w valid) =
      [UInt8.ofNat (w / 4096 % 16 + 0xe0), UInt8.ofNat (w / 64 % 64 + 0x80),
        UInt8.ofNat (w % 64 + 0x80)] :=
  (if_neg (Nat.not_le.2 (by omega : 0x7f < w))).trans ((if_neg (Nat.not_le.2 low)).trans
    (if_pos high))

theorem encoded_four {w : Nat} (valid : w.isValidChar) (low : 0xffff < w) :
    String.utf8EncodeChar (Char.ofNatAux w valid) =
      [UInt8.ofNat (w / 262144 % 8 + 0xf0), UInt8.ofNat (w / 4096 % 64 + 0x80),
        UInt8.ofNat (w / 64 % 64 + 0x80), UInt8.ofNat (w % 64 + 0x80)] :=
  (if_neg (Nat.not_le.2 (by omega : 0x7f < w))).trans
    ((if_neg (Nat.not_le.2 (by omega : 0x7ff < w))).trans (if_neg (Nat.not_le.2 low)))

theorem multiByte_skips {c : UInt8} {buf rest : List UInt8}
    (skipped : skipUTF8MultiByte (c :: buf) = some rest) :
    ∃ ch, c :: buf = String.utf8EncodeChar ch ++ rest := by
  obtain ⟨⟨low, high⟩, cs, w, length, all, rfl, sum, shortest⟩ := (multiByte_iff _ _ _).1 skipped
  rw [shortest_iff] at shortest
  rw [highBits_eq low high] at length sum shortest
  obtain ⟨range, scalar⟩ := shortest
  by_cases two : c.toNat < 0xe0
  · simp only [if_pos two, if_true] at length sum range
    obtain ⟨d, rfl⟩ := List.length_eq_one_iff.1 length
    simp only [List.mem_singleton, forall_eq, IsContinuation] at all
    simp only [List.foldl_cons, List.foldl_nil] at sum
    refine ⟨Char.ofNatAux w (Or.inl (by omega)), ?_⟩
    rw [encoded_two _ (by omega) (by omega), @byte_eq c _ (by omega), @byte_eq d _ (by omega)]
    rfl
  by_cases three : c.toNat < 0xf0
  · simp only [if_neg two, if_pos three, if_true, reduceIte, Nat.reduceEqDiff] at length sum range
    obtain ⟨d, e, rfl⟩ := List.length_eq_two.1 length
    simp only [List.mem_cons, List.not_mem_nil, or_false, forall_eq_or_imp, forall_eq,
      IsContinuation] at all
    simp only [List.foldl_cons, List.foldl_nil] at sum
    refine ⟨Char.ofNatAux w (scalar.imp id fun above => ⟨above, by omega⟩), ?_⟩
    rw [encoded_three _ (by omega) (by omega), @byte_eq c _ (by omega), @byte_eq d _ (by omega),
      @byte_eq e _ (by omega)]
    rfl
  · simp only [if_neg two, if_neg three, reduceIte, Nat.reduceEqDiff] at length sum range
    obtain ⟨d, e, f, rfl⟩ := List.length_eq_three.1 length
    simp only [List.mem_cons, List.not_mem_nil, or_false, forall_eq_or_imp, forall_eq,
      IsContinuation] at all
    simp only [List.foldl_cons, List.foldl_nil] at sum
    refine ⟨Char.ofNatAux w (Or.inr ⟨by omega, by omega⟩), ?_⟩
    rw [encoded_four _ (by omega), @byte_eq c _ (by omega), @byte_eq d _ (by omega),
      @byte_eq e _ (by omega), @byte_eq f _ (by omega)]
    rfl

theorem skipUTF8_skips {s rest : List UInt8} (skipped : skipUTF8 s = some rest) :
    ∃ ch, s = String.utf8EncodeChar ch ++ rest := by
  cases s with
  | nil => cases skipped
  | cons c buf =>
    simp only [skipUTF8] at skipped
    split at skipped
    · rename_i ascii
      rw [isascii_iff] at ascii
      obtain rfl := Option.some.inj skipped
      refine ⟨Char.ofNatAux c.toNat (Or.inl (by omega)), ?_⟩
      exact congrArg (· ++ buf) ((congrArg (fun b => [b]) (byte_eq rfl).symm).trans
        (if_pos ascii).symm)
    · exact multiByte_skips skipped

theorem hex_table : ∀ n < 256, hexToInt (UInt8.ofNat n) ≤ NOT_A_HEX_CHAR ∧
    hexDigit (UInt8.ofNat n) =
      if hexToInt (UInt8.ofNat n) = NOT_A_HEX_CHAR then none
      else some (hexToInt (UInt8.ofNat n)).toNat := by
  decide +kernel

theorem hexDigit_iff (b : UInt8) (n : Nat) :
    hexDigit b = some n ↔ hexToInt b ≠ NOT_A_HEX_CHAR ∧ n = (hexToInt b).toNat := by
  have table := (hex_table b.toNat b.toNat_lt).2
  rw [UInt8.ofNat_toNat] at table
  rw [table]
  split <;> simp_all [eq_comm]

theorem hexToInt_lt {b : UInt8} (digit : hexToInt b ≠ NOT_A_HEX_CHAR) : (hexToInt b).toNat < 16 := by
  have small := (hex_table b.toNat b.toNat_lt).1
  rw [UInt8.ofNat_toNat] at small
  exact UInt8.lt_iff_toNat_lt.1 (UInt8.lt_of_le_of_ne small digit)

theorem hexValue_cons (b : UInt8) (digits : List UInt8) (value w : Nat) :
    hexValue (b :: digits) value = some w ↔
      ∃ n, hexDigit b = some n ∧ hexValue digits (value * 16 + n) = some w := by
  simp only [hexValue, hexDigit_iff]
  constructor
  · intro scanned
    split at scanned
    · cases scanned
    · rename_i digit
      refine ⟨_, ⟨digit, rfl⟩, ?_⟩
      rwa [← Nat.shiftLeft_add_eq_or_of_lt (i := 4) (hexToInt_lt digit), Nat.shiftLeft_eq]
        at scanned
  · rintro ⟨_, ⟨digit, rfl⟩, scanned⟩
    rwa [if_neg digit, ← Nat.shiftLeft_add_eq_or_of_lt (i := 4) (hexToInt_lt digit),
      Nat.shiftLeft_eq]

theorem hexValue_escape (i j k l : UInt8) (value : Nat) :
    hexValue [i, j, k, l] 0 = some value ↔
      HexEscape ['\\'.toUInt8, 'u'.toUInt8, i, j, k, l] value := by
  rw [hexValue_cons]
  simp only [hexValue_cons j, hexValue_cons k, hexValue_cons l]
  constructor
  · rintro ⟨_, first, _, second, _, third, _, fourth, sum⟩
    obtain rfl := Option.some.inj sum
    simpa using HexEscape.mk first second third fourth
  · rintro ⟨first, second, third, fourth⟩
    exact ⟨_, first, _, second, _, third, _, fourth, by simp [hexValue]⟩

theorem HexEscape.digits {item : List UInt8} {value : Nat} (escape : HexEscape item value) :
    ∃ i j k l, item = ['\\'.toUInt8, 'u'.toUInt8, i, j, k, l] := by
  cases escape
  exact ⟨_, _, _, _, rfl⟩

theorem skipOneHexEscape_iff (buf rest : List UInt8) (value : Nat) :
    skipOneHexEscape buf = some (value, rest) ↔
      ∃ item, HexEscape item value ∧ 0 < value ∧ buf = item ++ rest ∧ rest ≠ [] := by
  constructor
  · intro scanned
    simp only [skipOneHexEscape] at scanned
    split at scanned
    · rename_i room
      obtain ⟨long, opens⟩ := room
      split at scanned
      · rename_i w digits
        split at scanned
        · rename_i positive
          obtain ⟨rfl, rfl⟩ : w = value ∧ buf.drop HEX_ESCAPE_LENGTH = rest := by
            simpa using scanned
          match buf, long, opens, digits with
          | b :: u :: i :: j :: k :: l :: s :: buf, _, opens, digits =>
            obtain ⟨rfl, rfl⟩ : b = '\\'.toUInt8 ∧ u = 'u'.toUInt8 := by simpa using opens
            exact ⟨_, (hexValue_escape i j k l w).1 digits, positive, rfl, List.cons_ne_nil _ _⟩
        · cases scanned
      · cases scanned
    · cases scanned
  · rintro ⟨item, escape, positive, rfl, more⟩
    obtain ⟨s, buf, rfl⟩ := List.exists_cons_of_ne_nil more
    obtain ⟨i, j, k, l, rfl⟩ := HexEscape.digits escape
    have value := (hexValue_escape i j k l value).2 escape
    simp only [skipOneHexEscape]
    rw [if_pos ⟨by simp [HEX_ESCAPE_LENGTH], rfl⟩]
    simp [HEX_ESCAPE_LENGTH, value, positive]

/-- The escapes of a string: a control character may be escaped by itself, NUL not at all, and
    surrogates stand in pairs. -/
inductive CoreEscape : List UInt8 → Prop
  | simple {c : UInt8} : c ∈ simpleEscapes → CoreEscape ['\\'.toUInt8, c]
  | control {c : UInt8} : c ≠ 0 → iscntrl_ c = true → CoreEscape ['\\'.toUInt8, c]
  | hex {item : List UInt8} {value : Nat} : HexEscape item value → 0 < value →
      isHighSurrogate value = false → isLowSurrogate value = false → CoreEscape item
  | pair {high low : List UInt8} {value lower : Nat} : HexEscape high value →
      isHighSurrogate value = true → HexEscape low lower → isLowSurrogate lower = true →
      CoreEscape (high ++ low)

def coreJSON : Dialect := ⟨CoreEscape, True⟩

theorem surrogates_positive {value : Nat}
    (surrogate : isHighSurrogate value = true ∨ isLowSurrogate value = true) : 0 < value := by
  simp only [isHighSurrogate, isLowSurrogate, Bool.and_eq_true, decide_eq_true_eq] at surrogate
  omega

theorem skipHexEscape_skips {buf rest : List UInt8} (skipped : skipHexEscape buf = some rest) :
    ∃ item, CoreEscape item ∧ buf = item ++ rest := by
  simp only [skipHexEscape] at skipped
  split at skipped
  · cases skipped
  · rename_i value behind first
    obtain ⟨item, escape, positive, rfl, _⟩ := (skipOneHexEscape_iff _ _ _).1 first
    split at skipped
    · rename_i high
      split at skipped
      · cases skipped
      · rename_i lower behind second
        obtain ⟨item', escape', _, rfl, _⟩ := (skipOneHexEscape_iff _ _ _).1 second
        split at skipped
        · rename_i low
          obtain rfl := Option.some.inj skipped
          exact ⟨_, .pair escape high escape' low, (List.append_assoc _ _ _).symm⟩
        · cases skipped
    · rename_i high
      split at skipped
      · cases skipped
      · rename_i low
        obtain rfl := Option.some.inj skipped
        exact ⟨_, .hex escape positive (by simpa using high) (by simpa using low), rfl⟩

theorem skipHexEscape_hex {item rest : List UInt8} {value : Nat} (escape : HexEscape item value)
    (positive : 0 < value) (high : isHighSurrogate value = false)
    (low : isLowSurrogate value = false) (more : rest ≠ []) :
    skipHexEscape (item ++ rest) = some rest := by
  simp only [skipHexEscape]
  rw [(skipOneHexEscape_iff _ _ _).2 ⟨item, escape, positive, rfl, more⟩]
  simp [high, low]

theorem skipHexEscape_pair {high low rest : List UInt8} {value lower : Nat}
    (escape : HexEscape high value) (first : isHighSurrogate value = true)
    (escape' : HexEscape low lower) (second : isLowSurrogate lower = true) (more : rest ≠ []) :
    skipHexEscape (high ++ (low ++ rest)) = some rest := by
  have middle : low ++ rest ≠ [] := List.append_ne_nil_of_right_ne_nil _ more
  have positive := surrogates_positive (.inl first)
  have positive' := surrogates_positive (.inr second)
  simp only [skipHexEscape]
  rw [(skipOneHexEscape_iff _ _ _).2 ⟨high, escape, positive, rfl, middle⟩]
  simp only [first, if_true]
  rw [(skipOneHexEscape_iff _ _ _).2 ⟨low, escape', positive', rfl, more⟩]
  simp [second]

theorem skipEscape_skips {buf rest : List UInt8} (skipped : skipEscape buf = some rest) :
    ∃ item, CoreEscape item ∧ buf = item ++ rest := by
  simp only [skipEscape] at skipped
  split at skipped
  · rename_i b c behind
    split_ifs at skipped with slash nul hex simple control
    · exact skipHexEscape_skips skipped
    · obtain rfl := Option.some.inj skipped
      exact ⟨_, .simple simple, by simp [slash]⟩
    · obtain rfl := Option.some.inj skipped
      exact ⟨_, .control nul control, by simp [slash]⟩
  · cases skipped

theorem skipEscape_hex {buf : List UInt8} :
    skipEscape ('\\'.toUInt8 :: 'u'.toUInt8 :: buf) =
      skipHexEscape ('\\'.toUInt8 :: 'u'.toUInt8 :: buf) := by
  simp only [skipEscape, if_true]
  rw [if_neg (by decide)]

theorem skipEscape_escape {item rest : List UInt8} (escape : CoreEscape item) (more : rest ≠ []) :
    skipEscape (item ++ rest) = some rest := by
  cases escape with
  | @simple c simple =>
    have all : ∀ c ∈ simpleEscapes, c ≠ 0 ∧ c ≠ 'u'.toUInt8 := by
      decide +kernel
    obtain ⟨nul, hex⟩ := all c simple
    simp [skipEscape, nul, hex, simple]
  | @control c nul control =>
    have hex : c ≠ 'u'.toUInt8 := by
      rintro rfl
      exact absurd control (by decide)
    simp [skipEscape, nul, hex, control]
  | hex escape positive high low =>
    obtain ⟨i, j, k, l, rfl⟩ := HexEscape.digits escape
    exact skipEscape_hex.trans (skipHexEscape_hex escape positive high low more)
  | @pair high low value lower escape first escape' second =>
    rw [List.append_assoc]
    have pair := skipHexEscape_pair escape first escape' second more
    obtain ⟨i, j, k, l, rfl⟩ := HexEscape.digits escape
    exact skipEscape_hex.trans pair

/-- The first byte of a character is the character, or lies above all ASCII ones. -/
theorem utf8_head (ch : Char) : ∃ b rest, String.utf8EncodeChar ch = b :: rest ∧
    (b.toNat = ch.toNat ∨ 0x7f < b.toNat ∧ 0x7f < ch.toNat) := by
  simp only [String.utf8EncodeChar, Char.toNat]
  split
  · exact ⟨_, _, rfl, Or.inl (ofNat_toNat (by omega))⟩
  split
  · exact ⟨_, _, rfl, Or.inr ⟨by rw [ofNat_toNat (by omega)]; omega, by omega⟩⟩
  split
  · exact ⟨_, _, rfl, Or.inr ⟨by rw [ofNat_toNat (by omega)]; omega, by omega⟩⟩
  · exact ⟨_, _, rfl, Or.inr ⟨by rw [ofNat_toNat (by omega)]; omega, by omega⟩⟩

theorem iscntrl_iff (b : UInt8) : iscntrl_ b = true ↔ b.toNat < 0x20 := by
  have space : ' '.toUInt8.toNat = 0x20 := rfl
  simp only [iscntrl_, Bool.and_eq_true, isascii_iff, decide_eq_true_eq, UInt8.lt_iff_toNat_lt,
    space]
  omega

/-- A byte that neither ends the string nor begins an escape, and is no control character. -/
def Ordinary (b : UInt8) : Prop :=
  b ≠ '"'.toUInt8 ∧ b ≠ '\\'.toUInt8 ∧ iscntrl_ b = false

theorem ordinary_iff {ch : Char} {b : UInt8} {rest : List UInt8}
    (head : String.utf8EncodeChar ch = b :: rest) :
    Ordinary b ↔ 0x20 ≤ ch.toNat ∧ ch ≠ '"' ∧ ch ≠ '\\' := by
  obtain ⟨b', rest', head', same⟩ := utf8_head ch
  obtain ⟨rfl, rfl⟩ := List.cons.inj (head.symm.trans head')
  have quote : '"'.toUInt8.toNat = 34 ∧ '"'.toNat = 34 := ⟨rfl, rfl⟩
  have slash : '\\'.toUInt8.toNat = 92 ∧ '\\'.toNat = 92 := ⟨rfl, rfl⟩
  rw [Ordinary, ← Bool.not_eq_true, iscntrl_iff, Ne, Ne, ← UInt8.toNat_inj, ← UInt8.toNat_inj,
    Ne, Ne, ← Char.toNat_inj, ← Char.toNat_inj, quote.1, quote.2, slash.1, slash.2]
  omega

theorem stringLoop_skips {turns : Nat} {s rest : List UInt8}
    (skipped : stringLoop turns s = some rest) :
    ∃ body, StringBody coreJSON body ∧ s = body ++ '"'.toUInt8 :: rest := by
  induction turns generalizing s with
  | zero => cases skipped
  | succ turns ih =>
    cases s with
    | nil => cases skipped
    | cons b buf =>
      simp only [stringLoop] at skipped
      split_ifs at skipped with quote slash control
      · obtain rfl := Option.some.inj skipped
        exact ⟨[], .empty, by rw [quote]; rfl⟩
      · obtain ⟨behind, escaped, skipped⟩ := Option.bind_eq_some_iff.1 skipped
        obtain ⟨item, escape, eq⟩ := skipEscape_skips escaped
        obtain ⟨body, inside, rfl⟩ := ih skipped
        exact ⟨item ++ body, .item (Or.inr escape) inside, by rw [eq, List.append_assoc]⟩
      · obtain ⟨behind, scanned, skipped⟩ := Option.bind_eq_some_iff.1 skipped
        obtain ⟨ch, eq⟩ := skipUTF8_skips scanned
        obtain ⟨body, inside, rfl⟩ := ih skipped
        obtain ⟨c, others, head, _⟩ := utf8_head ch
        obtain rfl : b = c := by
          rw [head] at eq
          exact (List.cons.inj eq).1
        have ordinary := (ordinary_iff head).1 ⟨quote, slash, by simpa using control⟩
        refine ⟨String.utf8EncodeChar ch ++ body, .item (Or.inl ?_) inside, ?_⟩
        · exact .mk ordinary.1 ordinary.2.1 ordinary.2.2
        · rw [eq, List.append_assoc]

theorem escape_head {item : List UInt8} (escape : CoreEscape item) :
    ∃ rest, item = '\\'.toUInt8 :: rest := by
  cases escape with
  | simple _ => exact ⟨_, rfl⟩
  | control _ _ => exact ⟨_, rfl⟩
  | hex escape _ _ _ =>
    obtain ⟨i, j, k, l, rfl⟩ := HexEscape.digits escape
    exact ⟨_, rfl⟩
  | pair escape _ _ _ =>
    obtain ⟨i, j, k, l, rfl⟩ := HexEscape.digits escape
    exact ⟨_, rfl⟩

theorem stringLoop_body {body : List UInt8} (inside : StringBody coreJSON body) {turns : Nat}
    (enough : body.length < turns) (rest : List UInt8) :
    stringLoop turns (body ++ '"'.toUInt8 :: rest) = some rest := by
  induction inside generalizing turns with
  | empty =>
    obtain ⟨turns, rfl⟩ := Nat.exists_eq_add_one_of_ne_zero (Nat.ne_of_gt enough)
    simp [stringLoop]
  | @item item body kind inside ih =>
    obtain ⟨turns, rfl⟩ := Nat.exists_eq_add_one_of_ne_zero (Nat.ne_zero_of_lt enough)
    rw [List.append_assoc]
    rcases kind with plain | escape
    · obtain ⟨printable, quote, slash⟩ := plain
      rename_i ch
      obtain ⟨b, others, head, _⟩ := utf8_head ch
      obtain ⟨quote, slash, control⟩ := (ordinary_iff head).2 ⟨printable, quote, slash⟩
      have scanned := skipUTF8_char ch (body ++ '"'.toUInt8 :: rest)
      rw [head] at enough scanned ⊢
      rw [List.cons_append] at scanned ⊢
      simp only [stringLoop, if_neg quote, if_neg slash, control, Bool.false_eq_true, if_false,
        scanned, Option.bind_some]
      exact ih (by simp at enough; omega)
    · have more : body ++ '"'.toUInt8 :: rest ≠ [] := by simp
      have scanned := skipEscape_escape escape more
      obtain ⟨others, rfl⟩ := escape_head escape
      rw [List.cons_append] at scanned ⊢
      have quote : '\\'.toUInt8 ≠ '"'.toUInt8 := by decide
      simp only [stringLoop, if_neg quote, if_true, scanned, Option.bind_some]
      exact ih (by simp at enough; omega)

theorem skipString_iff (s rest : List UInt8) :
    skipString s = some rest ↔ ∃ body, StringBody coreJSON body ∧ s = quoted body ++ rest := by
  constructor
  · intro skipped
    cases s with
    | nil => cases skipped
    | cons b buf =>
      obtain ⟨rfl, skipped⟩ := Option.ite_none_right_eq_some.1 skipped
      obtain ⟨body, inside, rfl⟩ := stringLoop_skips skipped
      exact ⟨body, inside, by simp [quoted]⟩
  · rintro ⟨body, inside, rfl⟩
    simp only [quoted, List.cons_append, List.append_assoc, skipString, if_true]
    exact stringLoop_body inside (by simp) rest

theorem skipLiteral_iff (literal buf rest : List UInt8) :
    skipLiteral literal buf = some rest ↔ buf = literal ++ rest := by
  constructor
  · intro skipped
    obtain ⟨⟨_, opens⟩, eq⟩ := Option.ite_none_right_eq_some.1 skipped
    rw [← Option.some.inj eq]
    nth_rewrite 1 [← opens]
    exact (List.take_append_drop _ _).symm
  · rintro rfl
    simp [skipLiteral]

theorem skipAnyLiteral_skips {buf rest : List UInt8} (skipped : skipAnyLiteral buf = some rest) :
    ∃ literal ∈ literals, buf = literal ++ rest := by
  simp only [skipAnyLiteral] at skipped
  split at skipped
  · rename_i first
    obtain rfl := Option.some.inj skipped
    exact ⟨text "true", .head _, (skipLiteral_iff _ _ _).1 first⟩
  split at skipped
  · rename_i second
    obtain rfl := Option.some.inj skipped
    exact ⟨text "false", .tail _ (.head _), (skipLiteral_iff _ _ _).1 second⟩
  · exact ⟨text "null", .tail _ (.tail _ (.head _)), (skipLiteral_iff _ _ _).1 skipped⟩

/-- No literal begins as another one. -/
theorem skipLiteral_other {literal other : List UInt8} (member : literal ∈ literals)
    (member' : other ∈ literals) (differ : literal ≠ other) (rest : List UInt8) :
    skipLiteral other (literal ++ rest) = none := by
  have heads : ∀ l ∈ literals, ∀ k ∈ literals, l ≠ k → l.head? ≠ k.head? := by decide +kernel
  have filled : ∀ l ∈ literals, l ≠ [] := by decide +kernel
  rw [← Option.not_isSome_iff_eq_none, Option.isSome_iff_exists]
  rintro ⟨after, skipped⟩
  have eq := congrArg List.head? ((skipLiteral_iff _ _ _).1 skipped)
  rw [List.head?_append_of_ne_nil _ (filled _ member),
    List.head?_append_of_ne_nil _ (filled _ member')] at eq
  exact heads _ member _ member' differ eq

theorem skipAnyLiteral_literal {literal : List UInt8} (member : literal ∈ literals)
    (rest : List UInt8) : skipAnyLiteral (literal ++ rest) = some rest := by
  have other := fun k (member' : k ∈ literals) (differ : literal ≠ k) =>
    skipLiteral_other member member' differ rest
  have first : text "true" ∈ literals := .head _
  have second : text "false" ∈ literals := .tail _ (.head _)
  simp only [skipAnyLiteral]
  by_cases one : literal = text "true"
  · rw [one, (skipLiteral_iff _ _ rest).2 rfl]
  rw [other _ first one]
  by_cases two : literal = text "false"
  · rw [two, (skipLiteral_iff _ _ rest).2 rfl]
  rw [other _ second two]
  have three : literal = text "null" := by
    have all : ∀ l ∈ literals, l = text "true" ∨ l = text "false" ∨ l = text "null" := by
      decide +kernel
    rcases all literal member with eq | eq | eq
    · exact absurd eq one
    · exact absurd eq two
    · exact eq
  rw [three, (skipLiteral_iff _ _ rest).2 rfl]

theorem isdigit_iff (b : UInt8) : isdigit_ b = true ↔ IsDigit b := by
  simp [isdigit_, IsDigit]

theorem digitLoop_rest (value : Int) (s : List UInt8) :
    (digitLoop value s).2 = s.dropWhile isdigit_ := by
  induction s generalizing value with
  | nil => rfl
  | cons b s ih =>
    simp only [digitLoop, List.dropWhile_cons]
    split
    · exact ih _
    · rfl

theorem skipDigits_skips {s rest : List UInt8} {value : Int}
    (skipped : skipDigits s = some (value, rest)) : ∃ digits, Digits digits ∧ s = digits ++ rest := by
  obtain ⟨shorter, eq⟩ := Option.ite_none_right_eq_some.1 skipped
  obtain ⟨rfl, rfl⟩ := Prod.mk.inj (Option.some.inj eq)
  rw [digitLoop_rest] at shorter ⊢
  refine ⟨s.takeWhile isdigit_, ⟨?_, ?_⟩, List.takeWhile_append_dropWhile.symm⟩
  · intro none
    have whole := congrArg List.length (@List.takeWhile_append_dropWhile _ isdigit_ s)
    rw [none] at whole
    exact Nat.ne_of_lt shorter whole
  · intro b member
    exact (isdigit_iff b).1 (List.mem_takeWhile_imp member)

theorem dropWhile_digits {digits rest : List UInt8} (all : ∀ b ∈ digits, IsDigit b)
    (ends : ∀ b ∈ rest.head?, ¬ IsDigit b) : (digits ++ rest).dropWhile isdigit_ = rest := by
  rw [List.dropWhile_append_of_pos fun b member => (isdigit_iff b).2 (all b member)]
  cases rest with
  | nil => rfl
  | cons b rest => exact List.dropWhile_cons_of_neg (mt (isdigit_iff b).1 (ends b rfl))

theorem skipDigits_digits {digits rest : List UInt8} (number : Digits digits)
    (ends : ∀ b ∈ rest.head?, ¬ IsDigit b) :
    skipDigits (digits ++ rest) = some ((digitLoop 0 (digits ++ rest)).1, rest) := by
  have behind := (digitLoop_rest 0 (digits ++ rest)).trans (dropWhile_digits number.digits ends)
  have filled := List.length_pos_iff.2 number.nonempty
  simp only [skipDigits, behind, List.length_append]
  rw [if_pos (by omega)]

theorem Digits.first {digits : List UInt8} (number : Digits digits) :
    ∃ b rest, digits = b :: rest ∧ IsDigit b := by
  obtain ⟨b, rest, rfl⟩ := List.exists_cons_of_ne_nil number.nonempty
  exact ⟨b, rest, rfl, number.digits b (.head _)⟩

theorem digit_other {b : UInt8} (digit : IsDigit b) : b ≠ '-'.toUInt8 ∧ b ≠ '+'.toUInt8 ∧
    b ≠ '.'.toUInt8 ∧ b ≠ 'e'.toUInt8 ∧ b ≠ 'E'.toUInt8 := by
  refine ⟨?_, ?_, ?_, ?_, ?_⟩ <;> rintro rfl <;> revert digit <;> simp only [IsDigit] <;> decide

/-- A byte that lengthens the number it stands behind. -/
def Extends (b : UInt8) : Prop :=
  IsDigit b ∨ b = '.'.toUInt8 ∨ b = 'e'.toUInt8 ∨ b = 'E'.toUInt8

instance (b : UInt8) : Decidable (Extends b) :=
  inferInstanceAs (Decidable (IsDigit b ∨ b = '.'.toUInt8 ∨ b = 'e'.toUInt8 ∨ b = 'E'.toUInt8))

theorem skipMinus_skips (s : List UInt8) : ∃ minus, Minus minus ∧ s = minus ++ skipMinus s := by
  cases s with
  | nil => exact ⟨[], .absent, rfl⟩
  | cons b s =>
    simp only [skipMinus]
    split
    · rename_i minus
      exact ⟨_, .present, by rw [minus]; rfl⟩
    · exact ⟨[], .absent, rfl⟩

theorem skipMinus_minus {minus rest : List UInt8} (sign : Minus minus)
    (ends : ∀ b ∈ rest.head?, b ≠ '-'.toUInt8) : skipMinus (minus ++ rest) = rest := by
  cases sign with
  | absent =>
    cases rest with
    | nil => rfl
    | cons b rest => exact if_neg (ends b rfl)
  | present => simp [skipMinus]

theorem skipInteger_skips {s rest : List UInt8} (skipped : skipInteger s = some rest) :
    ∃ integer, Integer integer ∧ s = integer ++ rest := by
  cases s with
  | nil => cases skipped
  | cons b s =>
    simp only [skipInteger] at skipped
    split at skipped
    · rename_i zero
      obtain rfl := Option.some.inj skipped
      exact ⟨_, .zero, by rw [zero]; rfl⟩
    · rename_i nonzero
      obtain ⟨⟨value, _⟩, digits, rfl⟩ := Option.map_eq_some_iff.1 skipped
      obtain ⟨text, number, eq⟩ := skipDigits_skips digits
      obtain ⟨c, others, rfl, _⟩ := Digits.first number
      obtain ⟨rfl, _⟩ := List.cons.inj eq
      exact ⟨_, .digits number nonzero, eq⟩

theorem skipInteger_integer {integer rest : List UInt8} (number : Integer integer)
    (ends : ∀ b ∈ rest.head?, ¬ IsDigit b) : skipInteger (integer ++ rest) = some rest := by
  cases number with
  | zero => simp [skipInteger]
  | digits number nonzero =>
    simp only [List.cons_append, skipInteger, if_neg nonzero]
    rw [← List.cons_append, skipDigits_digits number ends]
    rfl

theorem skipDecimals_skips (s : List UInt8) :
    ∃ fraction, Fraction fraction ∧ s = fraction ++ skipDecimals s := by
  cases s with
  | nil => exact ⟨[], .absent, rfl⟩
  | cons b s =>
    simp only [skipDecimals]
    split
    · rename_i point
      split
      · rename_i digits
        obtain ⟨text, number, rfl⟩ := skipDigits_skips digits
        exact ⟨_, .present number, by rw [point]; rfl⟩
      · exact ⟨[], .absent, rfl⟩
    · exact ⟨[], .absent, rfl⟩

theorem skipDecimals_fraction {fraction rest : List UInt8} (number : Fraction fraction)
    (ends : ∀ b ∈ rest.head?, ¬ IsDigit b ∧ b ≠ '.'.toUInt8) :
    skipDecimals (fraction ++ rest) = rest := by
  cases number with
  | absent =>
    cases rest with
    | nil => rfl
    | cons b rest => exact if_neg (ends b rfl).2
  | present number =>
    simp only [List.cons_append, skipDecimals, if_true]
    rw [skipDigits_digits number fun b head => (ends b head).1]

theorem skipSign_skips (s : List UInt8) : ∃ sign, Sign sign ∧ s = sign ++ skipSign s := by
  cases s with
  | nil => exact ⟨[], .absent, rfl⟩
  | cons b s =>
    simp only [skipSign]
    split
    · rename_i sign
      rcases Bool.or_eq_true_iff.1 sign with minus | plus
      · exact ⟨_, .minus, by rw [of_decide_eq_true minus]; rfl⟩
      · exact ⟨_, .plus, by rw [of_decide_eq_true plus]; rfl⟩
    · exact ⟨[], .absent, rfl⟩

theorem skipSign_sign {sign digits : List UInt8} (signed : Sign sign) (number : Digits digits)
    (rest : List UInt8) : skipSign (sign ++ (digits ++ rest)) = digits ++ rest := by
  cases signed with
  | absent =>
    obtain ⟨b, others, rfl, digit⟩ := Digits.first number
    obtain ⟨minus, plus, _⟩ := digit_other digit
    simp [skipSign, minus, plus]
  | minus => simp [skipSign]
  | plus => simp [skipSign]

theorem skipExponent_skips (s : List UInt8) :
    ∃ exponent, Exponent exponent ∧ s = exponent ++ skipExponent s := by
  cases s with
  | nil => exact ⟨[], .absent, rfl⟩
  | cons b s =>
    simp only [skipExponent]
    split
    · rename_i e
      split
      · rename_i digits
        obtain ⟨sign, signed, eq⟩ := skipSign_skips s
        obtain ⟨text, number, eq'⟩ := skipDigits_skips digits
        refine ⟨_, .present (by simpa using e) signed number, ?_⟩
        rw [List.cons_append, List.append_assoc, ← eq', ← eq]
      · exact ⟨[], .absent, rfl⟩
    · exact ⟨[], .absent, rfl⟩

theorem skipExponent_exponent {exponent rest : List UInt8} (number : Exponent exponent)
    (ends : ∀ b ∈ rest.head?, ¬ Extends b) : skipExponent (exponent ++ rest) = rest := by
  cases number with
  | absent =>
    cases rest with
    | nil => rfl
    | cons b rest =>
      refine if_neg fun e => ends b rfl ?_
      simp only [Bool.or_eq_true, decide_eq_true_eq] at e
      exact Or.inr (Or.inr e)
  | @present e sign digits letter signed number =>
    have enters : (e = 'e'.toUInt8 || e = 'E'.toUInt8) = true := by simpa using letter
    simp only [List.cons_append, List.append_assoc, skipExponent, enters, if_true]
    rw [skipSign_sign signed number, skipDigits_digits number fun b head digit =>
      ends b head (Or.inl digit)]

theorem skipNumber_skips {s rest : List UInt8} (skipped : skipNumber s = some rest) :
    ∃ number, IsNumber number ∧ s = number ++ rest := by
  obtain ⟨behind, found, rfl⟩ := Option.map_eq_some_iff.1 skipped
  obtain ⟨minus, signed, first⟩ := skipMinus_skips s
  obtain ⟨integer, whole, second⟩ := skipInteger_skips found
  obtain ⟨fraction, decimals, third⟩ := skipDecimals_skips behind
  obtain ⟨exponent, power, fourth⟩ := skipExponent_skips (skipDecimals behind)
  refine ⟨_, .mk signed whole decimals power, ?_⟩
  rw [List.append_assoc, List.append_assoc, List.append_assoc, ← fourth, ← third, ← second,
    ← first]

theorem Integer.first {integer : List UInt8} (number : Integer integer) :
    ∃ b rest, integer = b :: rest ∧ IsDigit b := by
  cases number with
  | zero => exact ⟨_, _, rfl, by simp only [IsDigit]; decide⟩
  | digits number _ => exact ⟨_, _, rfl, number.digits _ (.head _)⟩

theorem Exponent.first {exponent : List UInt8} (number : Exponent exponent) (rest : List UInt8) :
    ∀ b ∈ (exponent ++ rest).head?, b ∈ rest.head? ∨ b = 'e'.toUInt8 ∨ b = 'E'.toUInt8 := by
  intro b head
  cases number with
  | absent => exact Or.inl head
  | present letter _ _ =>
    obtain rfl := Option.some.inj head
    exact Or.inr letter

theorem Fraction.first {fraction : List UInt8} (number : Fraction fraction) (rest : List UInt8) :
    ∀ b ∈ (fraction ++ rest).head?, b ∈ rest.head? ∨ b = '.'.toUInt8 := by
  intro b head
  cases number with
  | absent => exact Or.inl head
  | present _ => exact Or.inr (Option.some.inj head).symm

theorem skipNumber_number {number rest : List UInt8} (text : IsNumber number)
    (ends : ∀ b ∈ rest.head?, ¬ Extends b) : skipNumber (number ++ rest) = some rest := by
  obtain ⟨signed, whole, decimals, power⟩ := text
  rename_i minus integer fraction exponent
  have behindFraction : ∀ b ∈ (exponent ++ rest).head?, ¬ IsDigit b ∧ b ≠ '.'.toUInt8 := by
    intro b head
    rcases Exponent.first power rest b head with head | rfl | rfl
    · exact ⟨fun digit => ends b head (Or.inl digit), fun point =>
        ends b head (Or.inr (Or.inl point))⟩
    · exact ⟨fun digit => (digit_other digit).2.2.2.1 rfl, by decide⟩
    · exact ⟨fun digit => (digit_other digit).2.2.2.2 rfl, by decide⟩
  have behindInteger : ∀ b ∈ (fraction ++ (exponent ++ rest)).head?, ¬ IsDigit b := by
    intro b head digit
    rcases Fraction.first decimals _ b head with head | rfl
    · exact (behindFraction b head).1 digit
    · exact (digit_other digit).2.2.1 rfl
  have behindMinus : ∀ b ∈ (integer ++ (fraction ++ (exponent ++ rest))).head?,
      b ≠ '-'.toUInt8 := by
    obtain ⟨c, others, rfl, digit⟩ := Integer.first whole
    intro b head
    obtain rfl := Option.some.inj head
    exact (digit_other digit).1
  simp only [skipNumber, List.append_assoc]
  rw [skipMinus_minus signed behindMinus, skipInteger_integer whole behindInteger, Option.map_some,
    skipDecimals_fraction decimals behindFraction, skipExponent_exponent power ends]

/-- What a scalar may begin with. -/
def ScalarHead (b : UInt8) : Prop :=
  b = '"'.toUInt8 ∨ b = '-'.toUInt8 ∨ IsDigit b ∨ b = 't'.toUInt8 ∨ b = 'f'.toUInt8 ∨
    b = 'n'.toUInt8

instance (b : UInt8) : Decidable (ScalarHead b) :=
  inferInstanceAs (Decidable (b = '"'.toUInt8 ∨ b = '-'.toUInt8 ∨ IsDigit b ∨ b = 't'.toUInt8 ∨
    b = 'f'.toUInt8 ∨ b = 'n'.toUInt8))

theorem literal_head {literal : List UInt8} (member : literal ∈ literals) :
    ∃ b rest, literal = b :: rest ∧
      (b = 't'.toUInt8 ∨ b = 'f'.toUInt8 ∨ b = 'n'.toUInt8) := by
  have all : ∀ l ∈ literals, ∃ b ∈ l.head?, b = 't'.toUInt8 ∨ b = 'f'.toUInt8 ∨ b = 'n'.toUInt8 := by
    decide +kernel
  obtain ⟨b, head, letter⟩ := all literal member
  obtain ⟨rest, eq⟩ := List.head?_eq_some_iff.1 head
  exact ⟨b, rest, eq, letter⟩

theorem number_head {number : List UInt8} (text : IsNumber number) :
    ∃ b rest, number = b :: rest ∧ (b = '-'.toUInt8 ∨ IsDigit b) := by
  obtain ⟨signed, whole, _, _⟩ := text
  obtain ⟨b, others, rfl, digit⟩ := Integer.first whole
  cases signed with
  | absent => exact ⟨_, _, rfl, Or.inr digit⟩
  | present => exact ⟨_, _, rfl, Or.inl rfl⟩

theorem scalar_head {D : Dialect} {item : List UInt8} (scalar : Scalar D item) :
    ∃ b rest, item = b :: rest ∧ ScalarHead b := by
  cases scalar with
  | string _ => exact ⟨_, _, rfl, Or.inl rfl⟩
  | literal member =>
    obtain ⟨b, rest, eq, letter⟩ := literal_head member
    exact ⟨b, rest, eq, Or.inr (Or.inr (Or.inr letter))⟩
  | number text =>
    obtain ⟨b, rest, eq, minus | digit⟩ := number_head text
    · exact ⟨b, rest, eq, Or.inr (Or.inl minus)⟩
    · exact ⟨b, rest, eq, Or.inr (Or.inr (Or.inl digit))⟩

theorem skipAnyScalar_skips {s rest : List UInt8} (skipped : skipAnyScalar s = some rest) :
    ∃ item, Scalar coreJSON item ∧ s = item ++ rest := by
  simp only [skipAnyScalar] at skipped
  split at skipped
  · rename_i string
    obtain rfl := Option.some.inj skipped
    obtain ⟨body, inside, eq⟩ := (skipString_iff _ _).1 string
    exact ⟨_, .string inside, eq⟩
  split at skipped
  · rename_i literal
    obtain rfl := Option.some.inj skipped
    obtain ⟨text, member, eq⟩ := skipAnyLiteral_skips literal
    exact ⟨text, .literal member, eq⟩
  · obtain ⟨text, number, eq⟩ := skipNumber_skips skipped
    exact ⟨text, .number number, eq⟩

theorem skipAnyScalar_none {b : UInt8} (other : ¬ ScalarHead b) (s : List UInt8) :
    skipAnyScalar (b :: s) = none := by
  rw [← Option.not_isSome_iff_eq_none, Option.isSome_iff_exists]
  rintro ⟨rest, skipped⟩
  obtain ⟨item, scalar, eq⟩ := skipAnyScalar_skips skipped
  obtain ⟨c, others, rfl, head⟩ := scalar_head scalar
  obtain ⟨rfl, _⟩ := List.cons.inj eq
  exact other head

theorem skipString_none {b : UInt8} (other : b ≠ '"'.toUInt8) (s : List UInt8) :
    skipString (b :: s) = none :=
  if_neg other

theorem skipAnyLiteral_none {b : UInt8}
    (other : ¬ (b = 't'.toUInt8 ∨ b = 'f'.toUInt8 ∨ b = 'n'.toUInt8)) (s : List UInt8) :
    skipAnyLiteral (b :: s) = none := by
  rw [← Option.not_isSome_iff_eq_none, Option.isSome_iff_exists]
  rintro ⟨rest, skipped⟩
  obtain ⟨literal, member, eq⟩ := skipAnyLiteral_skips skipped
  obtain ⟨c, others, rfl, head⟩ := literal_head member
  obtain ⟨rfl, _⟩ := List.cons.inj eq
  exact other head

theorem skipAnyScalar_scalar {item rest : List UInt8} (scalar : Scalar coreJSON item)
    (ends : ∀ b ∈ rest.head?, ¬ Extends b) : skipAnyScalar (item ++ rest) = some rest := by
  simp only [skipAnyScalar]
  cases scalar with
  | string inside => rw [(skipString_iff _ _).2 ⟨_, inside, rfl⟩]
  | literal member =>
    have skipped := skipAnyLiteral_literal member rest
    obtain ⟨b, others, rfl, letter⟩ := literal_head member
    have quote : b ≠ '"'.toUInt8 := by
      rintro rfl
      revert letter
      decide
    rw [List.cons_append] at skipped ⊢
    rw [skipString_none quote, skipped]
  | number text =>
    have skipped := skipNumber_number text ends
    obtain ⟨b, others, rfl, head⟩ := number_head text
    have quote : b ≠ '"'.toUInt8 := by
      rintro rfl
      revert head
      simp only [IsDigit]
      decide
    have letter : ¬ (b = 't'.toUInt8 ∨ b = 'f'.toUInt8 ∨ b = 'n'.toUInt8) := by
      rintro (rfl | rfl | rfl) <;> revert head <;> simp only [IsDigit] <;> decide
    rw [List.cons_append] at skipped ⊢
    rw [skipString_none quote, skipAnyLiteral_none letter, skipped]

end SpmJsonScanners
