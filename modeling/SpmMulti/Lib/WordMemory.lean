import SpmMulti.Lib.OverlaidMemory

/- Words of 32 bits in a memory of bytes, most significant byte first. Two words at aligned
   addresses are the same word or have no byte in common. -/
namespace WordMemory
open OverlaidMemory
variable {w : Nat}

/-- The byte of v that has k bytes below it. -/
def lane (v : BitVec 32) (k : Nat) : UInt8 := ⟨v.extractLsb' (8 * k) 8⟩

def loadWord (m : BitVec w → UInt8) (a : BitVec w) : BitVec 32 :=
  let cell (i : Nat) := (m (a + BitVec.ofNat w i)).toBitVec
  cell 0 ++ cell 1 ++ cell 2 ++ cell 3

def storeWord (m : BitVec w → UInt8) (a : BitVec w) (v : BitVec 32) : BitVec w → UInt8 :=
  blockCopy m a 4 fun i => lane v (3 - i)

def Aligned (a : BitVec w) : Prop := a.toNat % 4 = 0

instance (a : BitVec w) : Decidable (Aligned a) := inferInstanceAs (Decidable (_ = _))

/-- The bytes of the word at a. -/
def InWord (a x : BitVec w) : Prop := ∃ i < 4, x = a + BitVec.ofNat w i

theorem lanes_join (v : BitVec 32) :
    (lane v 3).toBitVec ++ (lane v 2).toBitVec ++ (lane v 1).toBitVec ++ (lane v 0).toBitVec =
      v := by
  apply BitVec.eq_of_getLsbD_eq
  intro i inside
  simp only [lane, BitVec.getLsbD_append, BitVec.getLsbD_extractLsb']
  interval_cases i <;> simp

theorem loadWord_storeWord (m : BitVec w → UInt8) (a : BitVec w) (v : BitVec 32)
    (wide : 2 ≤ w) : loadWord (storeWord m a v) a = v := by
  have room : 2 ^ 2 ≤ 2 ^ w := Nat.pow_le_pow_right (by decide) wide
  have stored : ∀ i < 4, storeWord m a v (a + BitVec.ofNat w i) = lane v (3 - i) :=
    fun i inside => blockCopy_inside m a _ inside (by omega)
  simp only [loadWord, stored 0 (by decide), stored 1 (by decide), stored 2 (by decide),
    stored 3 (by decide)]
  exact lanes_join v

theorem storeWord_outside (m : BitVec w → UInt8) {a x : BitVec w} (v : BitVec 32)
    (outside : ¬ InWord a x) : storeWord m a v x = m x :=
  blockCopy_outside m _ fun i inside same => outside ⟨i, inside, same⟩

theorem aligned_byte {a : BitVec w} (wide : 2 ≤ w) (aligned : Aligned a) {i : Nat}
    (inside : i < 4) : (a + BitVec.ofNat w i).toNat = a.toNat + i := by
  obtain ⟨k, blocks⟩ : 2 ^ 2 ∣ 2 ^ w := Nat.pow_dvd_pow 2 wide
  have below := a.isLt
  rw [Aligned] at aligned
  rw [BitVec.toNat_add, BitVec.toNat_ofNat, Nat.mod_eq_of_lt (show i < 2 ^ w by omega),
    Nat.mod_eq_of_lt (by omega)]

theorem aligned_disjoint {a b : BitVec w} (wide : 2 ≤ w) (ha : Aligned a) (hb : Aligned b)
    (differ : a ≠ b) {i : Nat} (inside : i < 4) : ¬ InWord a (b + BitVec.ofNat w i) := by
  rintro ⟨j, also, same⟩
  have equal := congrArg BitVec.toNat same
  rw [aligned_byte wide hb inside, aligned_byte wide ha also] at equal
  rw [Aligned] at ha hb
  exact differ (BitVec.eq_of_toNat_eq (by omega))

theorem loadWord_storeWord_other (m : BitVec w → UInt8) {a b : BitVec w} (v : BitVec 32)
    (wide : 2 ≤ w) (ha : Aligned a) (hb : Aligned b) (differ : a ≠ b) :
    loadWord (storeWord m a v) b = loadWord m b := by
  have kept : ∀ i < 4, storeWord m a v (b + BitVec.ofNat w i) = m (b + BitVec.ofNat w i) :=
    fun i inside => storeWord_outside m v (aligned_disjoint wide ha hb differ inside)
  simp only [loadWord, kept 0 (by decide), kept 1 (by decide), kept 2 (by decide),
    kept 3 (by decide)]

end WordMemory
