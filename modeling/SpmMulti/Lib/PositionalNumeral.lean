import Mathlib

/- Numerals in an arbitrary base: writing a number out, reading it back, and reading
   with a ceiling. A reader that tests the ceiling by quotient and remainder, before it
   multiplies, decides exactly what comparing the exact value would. -/
namespace PositionalNumeral

/-- Most significant digit first; zero is written as one digit. -/
def digitsOf (base n : Nat) : List Nat :=
  if n = 0 then [0] else (Nat.digits base n).reverse

def valueFrom (base acc : Nat) (ds : List Nat) : Nat := ds.foldl (fun a d => a * base + d) acc

def value (base : Nat) (ds : List Nat) : Nat := valueFrom base 0 ds

/-- A digit that would pass the ceiling loses the value, and it stays lost. -/
def checkedStep (base ceiling : Nat) (acc : Option Nat) (d : Nat) : Option Nat :=
  acc.bind fun a => if a * base + d ≤ ceiling then some (a * base + d) else none

def checkedFrom (base ceiling : Nat) (acc : Option Nat) (ds : List Nat) : Option Nat :=
  ds.foldl (checkedStep base ceiling) acc

def digitOctet (d : Nat) : UInt8 := UInt8.ofNat (if d < 10 then 48 + d else 87 + d)

def numeral (base n : Nat) : List UInt8 := (digitsOf base n).map digitOctet

theorem value_digitsOf (base n : Nat) : value base (digitsOf base n) = n := by
  unfold digitsOf
  split
  · simp_all [value, valueFrom]
  · have exact := Nat.ofDigits_digits base n
    rw [Nat.ofDigits_eq_foldr] at exact
    simp only [value, valueFrom, List.foldl_reverse]
    simpa [Nat.mul_comm, Nat.add_comm] using exact

theorem digitsOf_lt {base n d : Nat} (radix : 1 < base) (member : d ∈ digitsOf base n) :
    d < base := by
  unfold digitsOf at member
  split at member
  · simp_all; omega
  · exact Nat.digits_lt_base radix (List.mem_reverse.mp member)

theorem digitsOf_length_le {base n k : Nat} (radix : 1 < base) (positive : 0 < k)
    (bound : n < base ^ k) : (digitsOf base n).length ≤ k := by
  unfold digitsOf
  split
  · simp only [List.length_singleton]
    omega
  · simpa using (Nat.digits_length_le_iff radix n).mpr bound

theorem length_lt_of_lower {base n k : Nat} (radix : 1 < base) (lower : base ^ k ≤ n) :
    k < (digitsOf base n).length := by
  have nonzero : n ≠ 0 := by
    have := Nat.pow_pos (n := k) (show 0 < base by omega)
    omega
  have := Nat.digits_length_le_iff (k := k) radix n
  simp only [digitsOf, nonzero, ↓reduceIte, List.length_reverse]
  omega

theorem digitsOf_ne_nil (base n : Nat) : digitsOf base n ≠ [] := by
  unfold digitsOf
  split
  · simp
  · simpa using Nat.digits_ne_nil_iff_ne_zero.mpr ‹n ≠ 0›

theorem le_valueFrom {base : Nat} (radix : 0 < base) (acc : Nat) (ds : List Nat) :
    acc ≤ valueFrom base acc ds := by
  induction ds generalizing acc with
  | nil => exact Nat.le_refl acc
  | cons d ds ih =>
    have grown : acc ≤ acc * base + d := by
      have := Nat.le_mul_of_pos_right acc radix
      omega
    exact Nat.le_trans grown (ih (acc * base + d))

@[simp] theorem checkedFrom_none (base ceiling : Nat) (ds : List Nat) :
    checkedFrom base ceiling none ds = none := by
  induction ds with
  | nil => rfl
  | cons d ds ih => exact ih

/-- Checked reading is exact reading followed by one comparison at the end. -/
theorem checkedFrom_some {base ceiling : Nat} (radix : 0 < base) (acc : Nat) (ds : List Nat)
    (within : acc ≤ ceiling) :
    checkedFrom base ceiling (some acc) ds =
      if valueFrom base acc ds ≤ ceiling then some (valueFrom base acc ds) else none := by
  induction ds generalizing acc with
  | nil => simp [checkedFrom, valueFrom, within]
  | cons d ds ih =>
    change checkedFrom base ceiling (checkedStep base ceiling (some acc) d) ds =
      if valueFrom base (acc * base + d) ds ≤ ceiling
        then some (valueFrom base (acc * base + d) ds) else none
    by_cases fits : acc * base + d ≤ ceiling
    · simp only [checkedStep, Option.bind_some, fits, ↓reduceIte]
      exact ih _ fits
    · have grown := le_valueFrom radix (acc * base + d) ds
      have passed : ¬ valueFrom base (acc * base + d) ds ≤ ceiling := by omega
      simp [checkedStep, fits, passed]

/-- The division-based overflow test asks whether one more digit passes the ceiling. -/
theorem cutoff_iff {base d : Nat} (ceiling acc : Nat) (radix : 0 < base) (digit : d < base) :
    (ceiling / base < acc ∨ acc = ceiling / base ∧ ceiling % base < d) ↔
      ceiling < acc * base + d := by
  have parts := Nat.div_add_mod ceiling base
  have small := Nat.mod_lt ceiling radix
  rw [Nat.mul_comm] at parts
  rcases Nat.lt_trichotomy acc (ceiling / base) with less | same | more
  · have := Nat.mul_le_mul_right base (Nat.succ_le_of_lt less)
    rw [Nat.succ_mul] at this
    constructor <;> intro h <;> omega
  · subst same
    constructor <;> intro h <;> omega
  · have := Nat.mul_le_mul_right base (Nat.succ_le_of_lt more)
    rw [Nat.succ_mul] at this
    constructor <;> intro h <;> omega

@[simp] theorem numeral_length (base n : Nat) :
    (numeral base n).length = (digitsOf base n).length := by
  simp [numeral]

theorem digitOctet_toNat {d : Nat} (digit : d < 16) :
    (digitOctet d).toNat = if d < 10 then 48 + d else 87 + d := by
  simp only [digitOctet, UInt8.toNat_ofNat']
  split <;> omega

theorem numeral_mem {base n : Nat} {c : UInt8} (radix : 1 < base) (small : base ≤ 16)
    (member : c ∈ numeral base n) :
    (48 ≤ c.toNat ∧ c.toNat ≤ 57) ∨ (97 ≤ c.toNat ∧ c.toNat ≤ 102) := by
  obtain ⟨d, inside, rfl⟩ := List.mem_map.mp member
  have bound := digitsOf_lt radix inside
  rw [digitOctet_toNat (by omega)]
  split <;> omega

end PositionalNumeral
