import SpmMulti.Machine
import SpmMulti.Lib.SextetCode

/- source/base64.c. A coded text is a C string: its octets without the NUL that ends it.
   The decoder reads the run of alphabet characters at its start; every index it uses lies
   in that run. The validator looks at a number of characters its caller gives. -/
namespace SpmBase64
open SpmMachine SextetCode

def pr2sixTable : List Nat :=
  [64, 64, 64, 64, 64, 64, 64, 64, 64, 64, 64, 64, 64, 64, 64, 64,
   64, 64, 64, 64, 64, 64, 64, 64, 64, 64, 64, 64, 64, 64, 64, 64,
   64, 64, 64, 64, 64, 64, 64, 64, 64, 64, 64, 62, 64, 64, 64, 63,
   52, 53, 54, 55, 56, 57, 58, 59, 60, 61, 64, 64, 64, 64, 64, 64,
   64,  0,  1,  2,  3,  4,  5,  6,  7,  8,  9, 10, 11, 12, 13, 14,
   15, 16, 17, 18, 19, 20, 21, 22, 23, 24, 25, 64, 64, 64, 64, 64,
   64, 26, 27, 28, 29, 30, 31, 32, 33, 34, 35, 36, 37, 38, 39, 40,
   41, 42, 43, 44, 45, 46, 47, 48, 49, 50, 51, 64, 64, 64, 64, 64,
   64, 64, 64, 64, 64, 64, 64, 64, 64, 64, 64, 64, 64, 64, 64, 64,
   64, 64, 64, 64, 64, 64, 64, 64, 64, 64, 64, 64, 64, 64, 64, 64,
   64, 64, 64, 64, 64, 64, 64, 64, 64, 64, 64, 64, 64, 64, 64, 64,
   64, 64, 64, 64, 64, 64, 64, 64, 64, 64, 64, 64, 64, 64, 64, 64,
   64, 64, 64, 64, 64, 64, 64, 64, 64, 64, 64, 64, 64, 64, 64, 64,
   64, 64, 64, 64, 64, 64, 64, 64, 64, 64, 64, 64, 64, 64, 64, 64,
   64, 64, 64, 64, 64, 64, 64, 64, 64, 64, 64, 64, 64, 64, 64, 64,
   64, 64, 64, 64, 64, 64, 64, 64, 64, 64, 64, 64, 64, 64, 64, 64]

/-- The table is indexed by an unsigned char, so the default is never taken. -/
def pr2six (c : UInt8) : Nat := pr2sixTable.getD c.toNat 64

def alphabetRun (bufcoded : List UInt8) : Nat :=
  (bufcoded.takeWhile fun c => pr2six c ≤ 63).length

def firstByte (a b : UInt8) : UInt8 := UInt8.ofNat (pr2six a <<< 2 ||| pr2six b >>> 4)
def secondByte (b c : UInt8) : UInt8 := UInt8.ofNat (pr2six b <<< 4 ||| pr2six c >>> 2)
def thirdByte (c d : UInt8) : UInt8 := UInt8.ofNat (pr2six c <<< 6 ||| pr2six d)

/-- What the three tests after the loop store for the last one to four characters, and the
    NUL. A single character left over stores nothing of its own. -/
def decodeTail (nprbytes : Nat) (bufin : List UInt8) : List UInt8 :=
  let at_ i := bufin.getD i 0
  (if 1 < nprbytes then [firstByte (at_ 0) (at_ 1)] else []) ++
  (if 2 < nprbytes then [secondByte (at_ 1) (at_ 2)] else []) ++
  (if 3 < nprbytes then [thirdByte (at_ 2) (at_ 3)] else []) ++ [0]

/-- The loop while more than four characters are left: the bytes stored from here on, and
    the value of nprbytes after the loop. -/
def decodeLoop (nprbytes : Nat) : List UInt8 → List UInt8 × Nat
  | a :: b :: c :: d :: rest =>
    if 4 < nprbytes then
      let (out, left) := decodeLoop (nprbytes - 4) rest
      (firstByte a b :: secondByte b c :: thirdByte c d :: out, left)
    else (decodeTail nprbytes (a :: b :: c :: d :: rest), nprbytes)
  | bufin => (decodeTail nprbytes bufin, nprbytes)

/-- The bytes stored from bufplain on, the NUL included, and the returned length. -/
def Base64decode (bufcoded : List UInt8) : List UInt8 × Int :=
  let nprbytes := alphabetRun bufcoded
  let nbytesdecoded : Nat := ((nprbytes + 3) / 4) * 3
  let (stored, left) := decodeLoop nprbytes bufcoded
  (stored, (nbytesdecoded : Int) - ((4 - left) &&& 3 : Nat))

def isBase64Char (c : UInt8) : Bool :=
  ('A'.toNat ≤ c.toNat && c.toNat ≤ 'Z'.toNat) || ('a'.toNat ≤ c.toNat && c.toNat ≤ 'z'.toNat) ||
  ('0'.toNat ≤ c.toNat && c.toNat ≤ '9'.toNat) ||
  (c.toNat = '+'.toNat || c.toNat = '/'.toNat) || c.toNat = '='.toNat

/-- The loop over i < len; past the last character it meets the NUL, which is not valid. -/
def validLoop : List UInt8 → Nat → Bool
  | _, 0 => true
  | [], _ + 1 => false
  | c :: encoded, len + 1 => if isBase64Char c then validLoop encoded len else false

/-- A negative len makes no round of the loop. -/
def isValidBase64 (encoded : List UInt8) (len : Int) : Bool := validLoop encoded len.toNat

theorem alphabetRun_le_length (bufcoded : List UInt8) :
    alphabetRun bufcoded ≤ bufcoded.length := (List.takeWhile_prefix _).length_le

theorem decodeTail_length (nprbytes : Nat) (bufin : List UInt8) (few : nprbytes ≤ 4) :
    (decodeTail nprbytes bufin).length = 3 * nprbytes / 4 + 1 := by
  interval_cases nprbytes <;> rfl

theorem short_of_no_group {bufin : List UInt8}
    (short : ∀ a b c d rest, bufin = a :: b :: c :: d :: rest → False) : bufin.length < 4 := by
  by_contra long
  obtain ⟨a, b, c, d, rest, group⟩ : ∃ a b c d rest, bufin = a :: b :: c :: d :: rest := by
    rcases bufin with _ | ⟨a, _ | ⟨b, _ | ⟨c, _ | ⟨d, rest⟩⟩⟩⟩
    · exact absurd (Nat.zero_lt_succ 3) long
    · exact absurd (show 1 < 4 by omega) long
    · exact absurd (show 2 < 4 by omega) long
    · exact absurd (show 3 < 4 by omega) long
    · exact ⟨a, b, c, d, rest, rfl⟩
  exact short a b c d rest group

/-- What the loop stores, and how many characters it leaves to the tests behind it. -/
theorem decodeLoop_length (nprbytes : Nat) (bufin : List UInt8)
    (inside : nprbytes ≤ bufin.length) :
    (decodeLoop nprbytes bufin).1.length = 3 * nprbytes / 4 + 1 ∧
      (decodeLoop nprbytes bufin).2 = if nprbytes = 0 then 0 else (nprbytes - 1) % 4 + 1 := by
  fun_induction decodeLoop nprbytes bufin with
  | case1 nprbytes a b c d rest more out left eq ih =>
    simp only [List.length_cons] at inside
    obtain ⟨tail, remains⟩ := ih (by omega)
    rw [eq] at tail remains
    rw [if_neg (by omega)] at remains
    rw [if_neg (by omega)]
    simp only [List.length_cons] at tail remains ⊢
    omega
  | case2 nprbytes a b c d rest few =>
    refine ⟨decodeTail_length nprbytes _ (by omega), ?_⟩
    split <;> omega
  | case3 nprbytes bufin short =>
    have few := short_of_no_group short
    refine ⟨decodeTail_length nprbytes _ (by omega), ?_⟩
    split <;> omega

/-- The decoder stores three bytes for each four characters of the run, rounded down, and
    one NUL, whatever follows the run. -/
theorem decode_stored_length (bufcoded : List UInt8) :
    (Base64decode bufcoded).1.length = 3 * alphabetRun bufcoded / 4 + 1 := by
  have stored := (decodeLoop_length _ bufcoded (alphabetRun_le_length bufcoded)).1
  simpa [Base64decode] using stored

theorem decoded_count {n : Nat} (positive : 0 < n) :
    (n + 3) / 4 * 3 = 3 * n / 4 + (4 - ((n - 1) % 4 + 1)) % 4 := by
  obtain ⟨q, one | two | three | four⟩ :
      ∃ q, n = 4 * q + 1 ∨ n = 4 * q + 2 ∨ n = 4 * q + 3 ∨ n = 4 * q + 4 :=
    ⟨(n - 1) / 4, by omega⟩
  · omega
  · omega
  · omega
  · omega

/-- The returned length is the number of bytes stored before the NUL. -/
theorem decode_returns (bufcoded : List UInt8) :
    (Base64decode bufcoded).2 = (3 * alphabetRun bufcoded / 4 : Nat) := by
  have fill : ∀ k, k ≤ 4 → (4 - k) &&& 3 = (4 - k) % 4 := by decide
  simp only [Base64decode,
    (decodeLoop_length _ bufcoded (alphabetRun_le_length bufcoded)).2]
  rw [fill _ (by split <;> omega)]
  split
  · rename_i empty
    simp [empty]
  · rename_i some_
    rw [decoded_count (Nat.pos_of_ne_zero some_)]
    omega

theorem decodeLoop_terminated (nprbytes : Nat) (bufin : List UInt8) :
    ∃ decoded, (decodeLoop nprbytes bufin).1 = decoded ++ [0] := by
  fun_induction decodeLoop nprbytes bufin with
  | case1 nprbytes a b c d rest more out left eq ih =>
    obtain ⟨decoded, tail⟩ := ih
    rw [eq] at tail
    refine ⟨firstByte a b :: secondByte b c :: thirdByte c d :: decoded, ?_⟩
    simp only [List.cons_append, ← tail]
  | case2 nprbytes a b c d rest few => exact ⟨_, rfl⟩
  | case3 nprbytes bufin short => exact ⟨_, rfl⟩

/-- The decoded bytes are those stored before a NUL, and their number is returned. -/
theorem decode_decoded (bufcoded : List UInt8) :
    ∃ decoded, (Base64decode bufcoded).1 = decoded ++ [0] ∧
      (Base64decode bufcoded).2 = decoded.length := by
  obtain ⟨decoded, stored⟩ := decodeLoop_terminated (alphabetRun bufcoded) bufcoded
  have count := decode_stored_length bufcoded
  refine ⟨decoded, stored, ?_⟩
  rw [show (Base64decode bufcoded).1 = decoded ++ [0] from stored, List.length_append,
    List.length_singleton] at count
  rw [decode_returns, Nat.add_right_cancel count]

theorem pr2six_letter {v : Nat} (sextet : v < 64) : pr2six (letter v) = v := by
  have table : ∀ v : Fin 64, pr2six (letter v.val) = v.val := by decide
  exact table ⟨v, sextet⟩

theorem isBase64Char_code {ds : List UInt8} {c : UInt8} (member : c ∈ encode ds) :
    isBase64Char c = true := by
  rcases encode_mem member with rfl | ⟨v, sextet, rfl⟩
  · decide
  · have table : ∀ v : Fin 64, isBase64Char (letter v.val) = true := by decide
    exact table ⟨v, sextet⟩

theorem validLoop_iff {encoded : List UInt8} {len : Nat} :
    validLoop encoded len = true ↔
      len ≤ encoded.length ∧ ∀ c ∈ encoded.take len, isBase64Char c = true := by
  fun_induction validLoop encoded len with
  | case1 => simp
  | case2 len => simp
  | case3 c encoded len valid ih => simp [ih, valid]
  | case4 c encoded len invalid => simp [invalid]

theorem code_is_valid (ds : List UInt8) {len : Int} (short : len ≤ (encode ds).length) :
    isValidBase64 (encode ds) len = true :=
  validLoop_iff.mpr
    ⟨by omega, fun _ member => isBase64Char_code (List.mem_of_mem_take member)⟩

@[simp] theorem firstByte_letters (a : UInt8) {b : Nat} (small : b < 256) :
    firstByte (letter (a.toNat / 4)) (letter (a.toNat % 4 * 16 + b / 16)) = a := by
  have := a.toNat_lt
  rw [firstByte, pr2six_letter (by omega), pr2six_letter (by omega), first_octet a small]

@[simp] theorem secondByte_letters (x : Nat) (b : UInt8) {c : Nat} (small : c < 256) :
    secondByte (letter (x % 4 * 16 + b.toNat / 16)) (letter (b.toNat % 16 * 4 + c / 64)) = b := by
  have := b.toNat_lt
  rw [secondByte, pr2six_letter (by omega), pr2six_letter (by omega), second_octet x b small]

@[simp] theorem thirdByte_letters (x : Nat) (c : UInt8) :
    thirdByte (letter (x % 16 * 4 + c.toNat / 64)) (letter (c.toNat % 64)) = c := by
  have := c.toNat_lt
  rw [thirdByte, pr2six_letter (by omega), pr2six_letter (by omega), third_octet x c]

theorem alphabetRun_code (ds : List UInt8) : alphabetRun (encode ds) = letters ds.length := by
  have stop : ¬ pr2six pad ≤ 63 := by decide
  unfold alphabetRun
  fun_induction encode ds with
  | case1 a b c rest ih =>
    have ha := a.toNat_lt; have hb := b.toNat_lt; have hc := c.toNat_lt
    simp only [List.takeWhile_cons, List.length_cons, letters] at ih ⊢
    repeat rw [pr2six_letter (by omega)]
    rw [if_pos (by simp; omega), if_pos (by simp; omega), if_pos (by simp; omega),
      if_pos (by simp; omega)]
    simp only [List.length_cons, ih]
    omega
  | case2 a b =>
    have ha := a.toNat_lt; have hb := b.toNat_lt
    simp only [List.takeWhile_cons, stop]
    repeat rw [pr2six_letter (by omega)]
    rw [if_pos (by simp; omega), if_pos (by simp; omega), if_pos (by simp; omega)]
    simp [letters]
  | case3 a =>
    have ha := a.toNat_lt
    simp only [List.takeWhile_cons, stop]
    repeat rw [pr2six_letter (by omega)]
    rw [if_pos (by simp; omega), if_pos (by simp; omega)]
    simp [letters]
  | case4 => simp [letters]

theorem decodeLoop_code (ds : List UInt8) :
    (decodeLoop (letters ds.length) (encode ds)).1 = ds ++ [0] := by
  fun_induction encode ds with
  | case1 a b c rest ih =>
    have hb := b.toNat_lt; have hc := c.toNat_lt
    cases rest with
    | nil =>
      simp [decodeLoop, decodeTail, letters, encode, firstByte_letters a hb,
        secondByte_letters a.toNat b hc]
    | cons d rest =>
      have more : 4 < letters (d :: rest).length + 4 := by
        simp only [letters, List.length_cons]
        omega
      have shift : letters (a :: b :: c :: d :: rest).length = letters (d :: rest).length + 4 := by
        simp only [letters, List.length_cons]; omega
      simp only [shift, decodeLoop, if_pos more, Nat.add_sub_cancel, ih,
        firstByte_letters a hb, secondByte_letters a.toNat b hc, thirdByte_letters]
      simp only [List.cons_append]
  | case2 a b =>
    have hb := b.toNat_lt
    have second := secondByte_letters a.toNat b (show 0 < 256 by omega)
    simp only [Nat.zero_div, Nat.add_zero] at second
    simp [decodeLoop, decodeTail, letters, firstByte_letters a hb, second]
  | case3 a =>
    have first := firstByte_letters a (show 0 < 256 by omega)
    simp only [Nat.zero_div, Nat.add_zero] at first
    simp [decodeLoop, decodeTail, letters, first]
  | case4 => rfl

/-- Decoding undoes the padded code: the octets, one NUL, and their number. -/
theorem decode_code (ds : List UInt8) :
    Base64decode (encode ds) = (ds ++ [0], (ds.length : Int)) := by
  apply Prod.ext
  · simp only [Base64decode, alphabetRun_code, decodeLoop_code]
  · rw [decode_returns, alphabetRun_code, letters]
    simp only [Nat.cast_inj]
    omega

theorem decodeLoop_few {nprbytes : Nat} (few : nprbytes ≤ 4) (bufin : List UInt8) :
    decodeLoop nprbytes bufin = (decodeTail nprbytes bufin, nprbytes) := by
  fun_cases decodeLoop nprbytes bufin with
  | case1 a b c d rest more => omega
  | case2 => rfl
  | case3 => rfl

theorem decodeTail_prefix {nprbytes : Nat} {front : List UInt8} (rest : List UInt8)
    (inside : nprbytes ≤ front.length) :
    decodeTail nprbytes (front ++ rest) = decodeTail nprbytes front := by
  have same : ∀ i < nprbytes, (front ++ rest).getD i 0 = front.getD i 0 := by
    intro i less
    exact List.getD_append _ _ _ _ (by omega)
  simp only [decodeTail]
  congr 1
  congr 1
  · congr 1
    · split
      · rw [same 0 (by omega), same 1 (by omega)]
      · rfl
    · split
      · rw [same 1 (by omega), same 2 (by omega)]
      · rfl
  · split
    · rw [same 2 (by omega), same 3 (by omega)]
    · rfl

/-- The decoder looks at the characters of the run and at no others. -/
theorem decodeLoop_prefix {nprbytes : Nat} {front : List UInt8} (rest : List UInt8)
    (inside : nprbytes ≤ front.length) :
    decodeLoop nprbytes (front ++ rest) = decodeLoop nprbytes front := by
  fun_induction decodeLoop nprbytes front with
  | case1 nprbytes a b c d front more out left eq ih =>
    simp only [List.length_cons] at inside
    simp only [List.cons_append, decodeLoop, if_pos more, ih (by omega), eq]
  | case2 nprbytes a b c d front few =>
    rw [decodeLoop_few (Nat.not_lt.mp few), decodeTail_prefix rest inside]
  | case3 nprbytes front short =>
    have fewer := short_of_no_group short
    rw [decodeLoop_few (by omega), decodeTail_prefix rest inside]

theorem alphabetRun_append_nul (bufcoded rest : List UInt8) :
    alphabetRun (bufcoded ++ 0 :: rest) = alphabetRun bufcoded := by
  have stop : ¬ pr2six 0 ≤ 63 := by decide
  simp only [alphabetRun, List.takeWhile_append, List.takeWhile_cons, decide_eq_true_eq, stop,
    if_false]
  split
  · rename_i whole
    simp [whole]
  · rfl

theorem decode_append_nul (bufcoded rest : List UInt8) :
    Base64decode (bufcoded ++ 0 :: rest) = Base64decode bufcoded := by
  simp only [Base64decode, alphabetRun_append_nul,
    decodeLoop_prefix _ (alphabetRun_le_length bufcoded)]

theorem valid_append {encoded : List UInt8} {len : Int} (valid : isValidBase64 encoded len = true)
    (rest : List UInt8) : isValidBase64 (encoded ++ rest) len = true := by
  obtain ⟨inside, letters⟩ := validLoop_iff.mp valid
  refine validLoop_iff.mpr ⟨?_, ?_⟩
  · rw [List.length_append]
    omega
  · rw [List.take_append_of_le_length inside]
    exact letters

/-- The client's code of d, a NUL, and whatever is behind it: every length up to that of the
    code passes the validator, the decoder stores d and a NUL, and the sums of its int counters
    do not overflow. -/
theorem code_agrees {d : List UInt8} (short : d.length < 2 ^ 29) (rest : List UInt8) :
    (∀ n : Nat, n ≤ (encode d).length → isValidBase64 (encode d ++ 0 :: rest) n = true) ∧
      Base64decode (encode d ++ 0 :: rest) = (d ++ [0], (d.length : Int)) ∧
      (encode d).length < 2 ^ 31 ∧ alphabetRun (encode d ++ 0 :: rest) + 3 < 2 ^ 31 := by
  have size := encode_length d
  have run := alphabetRun_le_length (encode d)
  refine ⟨?_, ?_, ?_, ?_⟩
  · intro n inside
    exact valid_append (code_is_valid d (by omega)) (0 :: rest)
  · rw [decode_append_nul, decode_code]
  · omega
  · rw [alphabetRun_append_nul]
    omega

theorem code_agrees_two_bytes :
    Base64decode (text "w6k=" ++ 0 :: [65]) = ([0xc3, 0xa9, 0], 2) := by
  have code : encode [0xc3, 0xa9] = text "w6k=" := by decide
  have agrees := @code_agrees [0xc3, 0xa9] (by decide) [65]
  rw [code] at agrees
  exact agrees.2.1

end SpmBase64
