import Mathlib

/- The padded code of RFC 4648 section 4: three octets are four sextets, a last group of
   one or two octets is filled with pad characters. -/
namespace SextetCode

def letter (v : Nat) : UInt8 :=
  UInt8.ofNat (if v < 26 then 65 + v else if v < 52 then 71 + v else if v < 62 then v - 4
    else if v = 62 then 43 else 47)

def pad : UInt8 := 61

def encode : List UInt8 → List UInt8
  | a :: b :: c :: rest =>
      letter (a.toNat / 4) :: letter (a.toNat % 4 * 16 + b.toNat / 16) ::
      letter (b.toNat % 16 * 4 + c.toNat / 64) :: letter (c.toNat % 64) :: encode rest
  | [a, b] =>
      [letter (a.toNat / 4), letter (a.toNat % 4 * 16 + b.toNat / 16),
        letter (b.toNat % 16 * 4), pad]
  | [a] => [letter (a.toNat / 4), letter (a.toNat % 4 * 16), pad, pad]
  | [] => []

/-- How many characters of the code of n octets are letters rather than pads. -/
def letters (n : Nat) : Nat := (4 * n + 2) / 3

theorem encode_length (ds : List UInt8) : (encode ds).length = 4 * ((ds.length + 2) / 3) := by
  fun_induction encode ds with
  | case1 a b c rest ih => simp only [List.length_cons, ih]; omega
  | case2 => simp
  | case3 => simp
  | case4 => simp

theorem encode_mem {ds : List UInt8} {c : UInt8} (member : c ∈ encode ds) :
    c = pad ∨ ∃ v, v < 64 ∧ c = letter v := by
  fun_induction encode ds with
  | case1 x y z rest ih =>
    have hx := x.toNat_lt; have hy := y.toNat_lt; have hz := z.toNat_lt
    simp only [List.mem_cons] at member
    rcases member with rfl | rfl | rfl | rfl | later
    · exact Or.inr ⟨_, by omega, rfl⟩
    · exact Or.inr ⟨_, by omega, rfl⟩
    · exact Or.inr ⟨_, by omega, rfl⟩
    · exact Or.inr ⟨_, by omega, rfl⟩
    · exact ih later
  | case2 x y =>
    have hx := x.toNat_lt; have hy := y.toNat_lt
    simp only [List.mem_cons, List.not_mem_nil, or_false] at member
    rcases member with rfl | rfl | rfl | rfl
    · exact Or.inr ⟨_, by omega, rfl⟩
    · exact Or.inr ⟨_, by omega, rfl⟩
    · exact Or.inr ⟨_, by omega, rfl⟩
    · exact Or.inl rfl
  | case3 x =>
    have hx := x.toNat_lt
    simp only [List.mem_cons, List.not_mem_nil, or_false] at member
    rcases member with rfl | rfl | rfl | rfl
    · exact Or.inr ⟨_, by omega, rfl⟩
    · exact Or.inr ⟨_, by omega, rfl⟩
    · exact Or.inl rfl
    · exact Or.inl rfl
  | case4 => simp at member

theorem letter_range {v : Nat} (sextet : v < 64) :
    (65 ≤ (letter v).toNat ∧ (letter v).toNat ≤ 90) ∨
      (97 ≤ (letter v).toNat ∧ (letter v).toNat ≤ 122) ∨
      (48 ≤ (letter v).toNat ∧ (letter v).toNat ≤ 57) ∨
      (letter v).toNat = 43 ∨ (letter v).toNat = 47 := by
  simp only [letter, UInt8.toNat_ofNat']
  split_ifs <;> omega

/- The three ways in which the bits of neighbouring sextets meet in an octet. -/
theorem first_octet (a : UInt8) {b : Nat} (small : b < 256) :
    UInt8.ofNat ((a.toNat / 4) <<< 2 ||| (a.toNat % 4 * 16 + b / 16) >>> 4) = a := by
  have low : (a.toNat % 4 * 16 + b / 16) >>> 4 = a.toNat % 4 := by
    rw [Nat.shiftRight_eq_div_pow]; omega
  rw [low, ← Nat.shiftLeft_add_eq_or_of_lt (by omega), Nat.shiftLeft_eq]
  apply UInt8.toNat_inj.mp
  have := a.toNat_lt
  rw [UInt8.toNat_ofNat']; omega

theorem second_octet (x : Nat) (b : UInt8) {c : Nat} (small : c < 256) :
    UInt8.ofNat ((x % 4 * 16 + b.toNat / 16) <<< 4 ||| (b.toNat % 16 * 4 + c / 64) >>> 2) = b := by
  have low : (b.toNat % 16 * 4 + c / 64) >>> 2 = b.toNat % 16 := by
    rw [Nat.shiftRight_eq_div_pow]; omega
  rw [low, ← Nat.shiftLeft_add_eq_or_of_lt (by omega), Nat.shiftLeft_eq]
  apply UInt8.toNat_inj.mp
  have := b.toNat_lt
  rw [UInt8.toNat_ofNat']; omega

theorem third_octet (x : Nat) (c : UInt8) :
    UInt8.ofNat ((x % 16 * 4 + c.toNat / 64) <<< 6 ||| c.toNat % 64) = c := by
  rw [← Nat.shiftLeft_add_eq_or_of_lt (by omega), Nat.shiftLeft_eq]
  apply UInt8.toNat_inj.mp
  have := c.toNat_lt
  rw [UInt8.toNat_ofNat']; omega

end SextetCode
