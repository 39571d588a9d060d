import Mathlib

/- Sums of bytes modulo 2^w. A sum tells a list from every other that differs from it in one
   byte, because two bytes are less than 2^w apart. -/
namespace ByteSums
variable {w : Nat}

def byteSum (w : Nat) (bytes : List UInt8) : BitVec w :=
  bytes.foldl (fun sum b => sum + BitVec.ofNat w b.toNat) 0#w

theorem foldl_byteSum (start : BitVec w) (bytes : List UInt8) :
    bytes.foldl (fun sum b => sum + BitVec.ofNat w b.toNat) start = start + byteSum w bytes := by
  induction bytes generalizing start with
  | nil => simp [byteSum]
  | cons b bytes ih =>
    rw [byteSum, List.foldl_cons, List.foldl_cons, ih, ih, BitVec.zero_add, BitVec.add_assoc]

theorem byteSum_append (first second : List UInt8) :
    byteSum w (first ++ second) = byteSum w first + byteSum w second := by
  rw [byteSum, List.foldl_append, foldl_byteSum]
  rfl

theorem byteSum_cons (b : UInt8) (bytes : List UInt8) :
    byteSum w (b :: bytes) = BitVec.ofNat w b.toNat + byteSum w bytes := by
  rw [byteSum, List.foldl_cons, foldl_byteSum, BitVec.zero_add]

theorem byte_inj (wide : 8 ≤ w) {a b : UInt8}
    (same : BitVec.ofNat w a.toNat = BitVec.ofNat w b.toNat) : a = b := by
  have room : 2 ^ 8 ≤ 2 ^ w := Nat.pow_le_pow_right (by decide) wide
  have ha := a.toNat_lt
  have hb := b.toNat_lt
  have equal := congrArg BitVec.toNat same
  rw [BitVec.toNat_ofNat, BitVec.toNat_ofNat, Nat.mod_eq_of_lt (by omega),
    Nat.mod_eq_of_lt (by omega)] at equal
  exact UInt8.toNat_inj.mp equal

theorem byteSum_set {bytes : List UInt8} {i : Nat} (inside : i < bytes.length) {b : UInt8}
    (wide : 8 ≤ w) : byteSum w (bytes.set i b) = byteSum w bytes ↔ b = bytes[i] := by
  induction bytes generalizing i with
  | nil => simp at inside
  | cons c bytes ih =>
    cases i with
    | zero =>
      rw [List.set_cons_zero, byteSum_cons, byteSum_cons, BitVec.add_left_inj]
      exact ⟨byte_inj wide, fun same => by rw [same]; rfl⟩
    | succ i =>
      rw [List.set_cons_succ, byteSum_cons, byteSum_cons, BitVec.add_right_inj]
      exact ih (by simpa using inside)

end ByteSums
