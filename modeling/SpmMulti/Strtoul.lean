import SpmMulti.Machine

/- source/strtoul.c. Every caller passes NULL for endptr and none reads errno, so only the
   returned value is kept. Characters are read as int, so as the numbers of their octets. -/
namespace SpmStrtoul
open SpmMachine PositionalNumeral

def ULONG_MAX : Nat := 2 ^ 32 - 1

def isdigit (c : Nat) : Bool := '0'.toNat ≤ c && c ≤ '9'.toNat
def isupper (c : Nat) : Bool := 'A'.toNat ≤ c && c ≤ 'Z'.toNat
def islower (c : Nat) : Bool := 'a'.toNat ≤ c && c ≤ 'z'.toNat
def isalpha (c : Nat) : Bool := isupper c || islower c

/-- The value the digit loop takes from a character, or none where it breaks. -/
def digitValue (c : Nat) : Option Nat :=
  if isdigit c then some (c - '0'.toNat)
  else if isalpha c then some (c - if isupper c then 'A'.toNat - 10 else 'a'.toNat - 10)
  else none

/-- The digit loop from its current c on; the text ends with the NUL that stops it. -/
def digitLoop (base : Nat) (cutoff : U32) (cutlim : Nat) :
    List UInt8 → U32 → Int → U32 × Int
  | [], acc, any => (acc, any)
  | ch :: s, acc, any =>
    match digitValue ch.toNat with
    | none => (acc, any)
    | some c =>
      if base ≤ c then (acc, any)
      else if any < 0 ∨ cutoff < acc ∨ (acc = cutoff ∧ cutlim < c) then
        digitLoop base cutoff cutlim s acc (-1)
      else digitLoop base cutoff cutlim s (acc * BitVec.ofNat 32 base + BitVec.ofNat 32 c) 1

def takeSign : List UInt8 → Bool × List UInt8
  | c :: s =>
    if c.toNat = '-'.toNat then (true, s)
    else if c.toNat = '+'.toNat then (false, s) else (false, c :: s)
  | [] => (false, [])

def takePrefix (base : Nat) : List UInt8 → Nat × List UInt8
  | c :: x :: s =>
    if (base = 0 ∨ base = 16) ∧ c.toNat = '0'.toNat ∧
        (x.toNat = 'x'.toNat ∨ x.toNat = 'X'.toNat) then (16, s)
    else (base, c :: x :: s)
  | s => (base, s)

def defaultBase (base : Nat) (s : List UInt8) : Nat :=
  if base = 0 then (if (s.headD 0).toNat = '0'.toNat then 8 else 10) else base

def strtoul (nptr : List UInt8) (base : Nat) : U32 :=
  let (neg, s) := takeSign (nptr.dropWhile fun c => c.toNat = ' '.toNat)
  let (base, s) := takePrefix base s
  let base := defaultBase base s
  let (acc, any) :=
    digitLoop base (BitVec.ofNat 32 (ULONG_MAX / base)) (ULONG_MAX % base) s 0 0
  if any < 0 then BitVec.ofNat 32 ULONG_MAX else if neg then -acc else acc

def Stops (rest : List UInt8) : Prop := ∀ c ∈ rest.head?, digitValue c.toNat = none

theorem digitValue_digitOctet {d : Nat} (digit : d < 16) :
    digitValue (digitOctet d).toNat = some d := by
  interval_cases d <;> rfl

theorem digitLoop_stops {base : Nat} {cutoff : U32} {cutlim : Nat} {rest : List UInt8}
    (stops : Stops rest) (acc : U32) (any : Int) :
    digitLoop base cutoff cutlim rest acc any = (acc, any) := by
  cases rest with
  | nil => rfl
  | cons c s => simp [digitLoop, stops c (by simp)]

theorem digitLoop_overflowed {base : Nat} {cutoff : U32} {cutlim : Nat} {ds : List Nat}
    {rest : List UInt8} (small : base ≤ 16) (digits : ∀ d ∈ ds, d < base) (stops : Stops rest)
    (acc : U32) :
    digitLoop base cutoff cutlim (ds.map digitOctet ++ rest) acc (-1) = (acc, -1) := by
  induction ds with
  | nil => simpa using digitLoop_stops stops acc (-1)
  | cons d ds ih =>
    have digit := digits d (by simp)
    simp only [List.map_cons, List.cons_append, digitLoop,
      digitValue_digitOctet (show d < 16 by omega)]
    rw [if_neg (by omega), if_pos (by omega)]
    exact ih fun e member => digits e (by simp [member])

/-- The comparison with cutoff and cutlim asks whether one more digit passes ULONG_MAX. -/
theorem overflow_test {base d : Nat} {acc : U32} {any : Int} (radix : 0 < base)
    (digit : d < base) (valid : 0 ≤ any) :
    (any < 0 ∨ BitVec.ofNat 32 (ULONG_MAX / base) < acc ∨
      (acc = BitVec.ofNat 32 (ULONG_MAX / base) ∧ ULONG_MAX % base < d)) ↔
      ULONG_MAX < acc.toNat * base + d := by
  have cutoffSmall : ULONG_MAX / base < 2 ^ 32 :=
    Nat.lt_of_le_of_lt (Nat.div_le_self _ _) (by decide)
  rw [← cutoff_iff ULONG_MAX acc.toNat radix digit, BitVec.lt_def, ← BitVec.toNat_inj,
    BitVec.toNat_ofNat, Nat.mod_eq_of_lt cutoffSmall]
  constructor
  · rintro (negative | found)
    · omega
    · exact found
  · exact Or.inr

theorem accumulated {base d : Nat} {acc : U32} (small : base ≤ 16) (digit : d < base)
    (fits : acc.toNat * base + d ≤ ULONG_MAX) :
    (acc * BitVec.ofNat 32 base + BitVec.ofNat 32 d).toNat = acc.toNat * base + d := by
  have bound : acc.toNat * base + d < 2 ^ 32 := by
    simp only [ULONG_MAX] at fits
    omega
  have hb : base < 2 ^ 32 := by omega
  have hd : d < 2 ^ 32 := by omega
  simp only [BitVec.toNat_add, BitVec.toNat_mul, BitVec.toNat_ofNat]
  rw [Nat.mod_eq_of_lt hb, Nat.mod_eq_of_lt hd, Nat.add_mod, Nat.mod_mod, ← Nat.add_mod,
    Nat.mod_eq_of_lt bound]

/-- The digit loop is checked reading: any turns negative where the value passes ULONG_MAX,
    and until then the 32-bit accumulator holds the exact value. -/
theorem digitLoop_digits {base : Nat} {ds : List Nat} {rest : List UInt8} (radix : 0 < base)
    (small : base ≤ 16) (digits : ∀ d ∈ ds, d < base) (stops : Stops rest)
    {acc : U32} {any : Int} (valid : 0 ≤ any) :
    let final := digitLoop base (BitVec.ofNat 32 (ULONG_MAX / base)) (ULONG_MAX % base)
      (ds.map digitOctet ++ rest) acc any
    match checkedFrom base ULONG_MAX (some acc.toNat) ds with
    | some v => 0 ≤ final.2 ∧ final.1 = BitVec.ofNat 32 v
    | none => final.2 < 0 := by
  induction ds generalizing acc any with
  | nil =>
    simp only [List.map_nil, List.nil_append, digitLoop_stops stops]
    simp [checkedFrom, valid]
  | cons d ds ih =>
    have digit := digits d (by simp)
    have later : ∀ e ∈ ds, e < base := fun e member => digits e (by simp [member])
    have test := @overflow_test base d acc any radix digit valid
    simp only [List.map_cons, List.cons_append, digitLoop,
      digitValue_digitOctet (show d < 16 by omega)]
    rw [if_neg (by omega)]
    change match checkedFrom base ULONG_MAX (checkedStep base ULONG_MAX (some acc.toNat) d) ds with
      | some v => _
      | none => _
    by_cases passed : ULONG_MAX < acc.toNat * base + d
    · have gone : checkedStep base ULONG_MAX (some acc.toNat) d = none := by
        simp [checkedStep, Nat.not_le.mpr passed]
      rw [gone, checkedFrom_none]
      simp only [if_pos (test.mpr passed), digitLoop_overflowed small later stops]
      decide
    · have fits := Nat.not_lt.mp passed
      have kept : checkedStep base ULONG_MAX (some acc.toNat) d = some (acc.toNat * base + d) := by
        simp [checkedStep, fits]
      simp only [if_neg (fun h => passed (test.mp h)), kept, ← accumulated small digit fits]
      exact ih later (by decide)

theorem takeSign_digits {d : Nat} (digit : d < 16) (s : List UInt8) :
    takeSign ((digitOctet d :: s).dropWhile fun c => c.toNat = ' '.toNat) =
      (false, digitOctet d :: s) := by
  have octet := digitOctet_toNat digit
  have range : 48 ≤ (digitOctet d).toNat := by rw [octet]; split <;> omega
  have space : ¬ (digitOctet d).toNat = 32 := by omega
  have minus : ¬ (digitOctet d).toNat = 45 := by omega
  have plus : ¬ (digitOctet d).toNat = 43 := by omega
  simp [takeSign, space, minus, plus]

theorem takePrefix_digits {base d : Nat} {ds : List Nat} {rest : List UInt8}
    (digits : ∀ e ∈ ds, e < 16) (stops : Stops rest) :
    takePrefix base (digitOctet d :: (ds.map digitOctet ++ rest)) =
      (base, digitOctet d :: (ds.map digitOctet ++ rest)) := by
  have notX : ∀ x ∈ (ds.map digitOctet ++ rest).head?, x.toNat ≠ 'x'.toNat ∧
      x.toNat ≠ 'X'.toNat := by
    intro x head
    cases ds with
    | nil =>
      have stop := stops x (by simpa using head)
      constructor <;> intro bad <;> rw [bad] at stop <;> exact absurd stop (by decide)
    | cons e ds =>
      obtain rfl : digitOctet e = x := by simpa using head
      have octet := digitOctet_toNat (digits e (by simp))
      have range : (digitOctet e).toNat ≤ 57 ∨ 97 ≤ (digitOctet e).toNat ∧
          (digitOctet e).toNat ≤ 102 := by
        have := digits e (by simp)
        rw [octet]; split <;> omega
      constructor <;> simp <;> omega
  cases tail : ds.map digitOctet ++ rest with
  | nil => rfl
  | cons x s =>
    have noPrefix := notX x (by simp [tail])
    rw [takePrefix, if_neg]
    rintro ⟨_, _, lower | upper⟩
    · exact noPrefix.1 lower
    · exact noPrefix.2 upper

theorem strtoul_digits {base : Nat} {ds : List Nat} {rest : List UInt8} (radix : 0 < base)
    (small : base ≤ 16) (nonempty : ds ≠ []) (digits : ∀ d ∈ ds, d < base)
    (stops : Stops rest) :
    strtoul (ds.map digitOctet ++ rest) base =
      BitVec.ofNat 32 (min (value base ds) ULONG_MAX) := by
  cases ds with
  | nil => exact absurd rfl nonempty
  | cons d ds =>
    have first : d < 16 := by have := digits d (by simp); omega
    have others : ∀ e ∈ ds, e < 16 := by
      intro e member
      have := digits e (by simp [member])
      omega
    have loop := @digitLoop_digits base (d :: ds) rest radix small digits stops 0 0 (by decide)
    have checked := checkedFrom_some radix 0 (d :: ds) (show 0 ≤ ULONG_MAX by decide)
    simp only [BitVec.ofNat_eq_ofNat, BitVec.toNat_ofNat, Nat.zero_mod, checked] at loop
    simp only [List.map_cons, List.cons_append] at loop ⊢
    unfold strtoul
    simp only [takeSign_digits first, takePrefix_digits others stops, defaultBase,
      if_neg (show ¬ base = 0 by omega), Bool.false_eq_true, ↓reduceIte]
    change match (if value base (d :: ds) ≤ ULONG_MAX then some (value base (d :: ds)) else none)
      with | some v => _ | none => _ at loop
    by_cases fits : value base (d :: ds) ≤ ULONG_MAX
    · rw [if_pos fits] at loop
      simp only [BitVec.ofNat_eq_ofNat] at loop ⊢
      rw [if_neg (by omega), loop.2, Nat.min_eq_left fits]
    · rw [if_neg fits] at loop
      simp only [BitVec.ofNat_eq_ofNat] at loop ⊢
      rw [if_pos loop, Nat.min_eq_right (by omega)]

/-- Every 32-bit number written in base 10 or 16 is read back exactly, whatever follows the
    numeral, as long as the digit loop stops there. -/
theorem strtoul_numeral {base n : Nat} {rest : List UInt8} (radix : 1 < base)
    (small : base ≤ 16) (fits : n < 2 ^ 32) (stops : Stops rest) :
    strtoul (numeral base n ++ rest) base = BitVec.ofNat 32 n := by
  have read := strtoul_digits (by omega) small (digitsOf_ne_nil base n)
    (fun d member => digitsOf_lt radix member) stops
  rw [numeral, read, value_digitsOf, Nat.min_eq_left (by simp only [ULONG_MAX]; omega)]

end SpmStrtoul
