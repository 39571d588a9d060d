import Mathlib

/- Two memories: a finite buffer into which runs of cells are stored, and an address space
   of w-bit addresses in which a block copy wraps around. The plain reading of a block copy,
   cells replaced at the natural-number addresses base to base + count, is the abstract
   one; the wrapping copy agrees with it exactly as long as the block does not wrap. -/
namespace OverlaidMemory
variable {β : Type} {w : Nat}

def overlay (cells : List β) (at_ : Nat) (stored : List β) : List β :=
  cells.take at_ ++ stored ++ cells.drop (at_ + stored.length)

/-- Storing right behind what was stored so far extends it and uncovers nothing. -/
theorem overlay_behind (front rest stored : List β) :
    overlay (front ++ rest) front.length stored =
      front ++ stored ++ rest.drop stored.length := by
  simp [overlay, List.drop_append]

theorem overlay_start (cells stored : List β) :
    overlay cells 0 stored = stored ++ cells.drop stored.length := by
  simp [overlay]

theorem overlay_length {cells stored : List β} {at_ : Nat}
    (fits : at_ + stored.length ≤ cells.length) :
    (overlay cells at_ stored).length = cells.length := by
  simp only [overlay, List.length_append, List.length_take, List.length_drop]
  omega

theorem overlay_getElem? {cells stored : List β} {at_ : Nat}
    (fits : at_ + stored.length ≤ cells.length) (i : Nat) :
    (overlay cells at_ stored)[i]? =
      if at_ ≤ i ∧ i < at_ + stored.length then stored[i - at_]? else cells[i]? := by
  have front : (cells.take at_).length = at_ := by
    rw [List.length_take]
    omega
  unfold overlay
  by_cases before : i < at_
  · rw [List.append_assoc, List.getElem?_append_left (by omega), List.getElem?_take_of_lt before,
      if_neg (by omega)]
  · by_cases behind : i < at_ + stored.length
    · rw [List.append_assoc, List.getElem?_append_right (by omega), front,
        List.getElem?_append_left (by omega), if_pos (by omega)]
    · rw [List.getElem?_append_right (by simp only [List.length_append]; omega),
        List.length_append, front, List.getElem?_drop, if_neg (by omega)]
      congr 1
      omega

theorem overlay_beyond (cells : List β) {stored : List β} {k : Nat} (short : stored.length ≤ k) :
    (overlay cells 0 stored).drop k = cells.drop k := by
  rw [overlay_start, List.drop_append, List.drop_of_length_le short, List.nil_append,
    List.drop_drop, Nat.add_sub_cancel' short]

theorem overlay_within (cells stored : List β) {i : Nat} (inside : i < stored.length) :
    (overlay cells 0 stored)[i]? = some stored[i] := by
  rw [overlay_start, List.getElem?_append_left inside, List.getElem?_eq_getElem inside]

def blockRead (m : BitVec w → β) (base : BitVec w) (count : Nat) : List β :=
  (List.range count).map fun i => m (base + BitVec.ofNat w i)

def blockCopy (m : BitVec w → β) (base : BitVec w) (count : Nat) (source : Nat → β) :
    BitVec w → β :=
  fun x => if (x - base).toNat < count then source (x - base).toNat else m x

/-- The cells at the plain addresses base, base + 1, ... are replaced, and no others. -/
def poke (m : BitVec w → β) (base : Nat) (cells : List β) : BitVec w → β :=
  fun x => if base ≤ x.toNat then cells.getD (x.toNat - base) (m x) else m x

def peek (m : BitVec w → β) (base count : Nat) : List β :=
  (List.range count).map fun i => m (BitVec.ofNat w (base + i))

@[simp] theorem blockRead_length (m : BitVec w → β) (base : BitVec w) (count : Nat) :
    (blockRead m base count).length = count := by
  simp [blockRead]

theorem blockRead_eq_peek (m : BitVec w → β) (base : BitVec w) (count : Nat) :
    blockRead m base count = peek m base.toNat count := by
  apply List.map_congr_left
  intro i _
  rw [BitVec.ofNat_add, BitVec.ofNat_toNat, BitVec.setWidth_eq]

theorem offset_lt_iff {base x : BitVec w} {count : Nat} (fits : base.toNat + count ≤ 2 ^ w) :
    (x - base).toNat < count ↔ base.toNat ≤ x.toNat ∧ x.toNat < base.toNat + count := by
  have hx := x.isLt
  by_cases above : base ≤ x
  · rw [BitVec.toNat_sub_of_le above]
    rw [BitVec.le_def] at above
    omega
  · have below : x < base := by rw [BitVec.lt_def]; rw [BitVec.le_def] at above; omega
    rw [BitVec.toNat_sub_of_lt below]
    rw [BitVec.lt_def] at below
    omega

theorem blockCopy_inside (m : BitVec w → β) (base : BitVec w) {count i : Nat} (source : Nat → β)
    (inside : i < count) (small : i < 2 ^ w) :
    blockCopy m base count source (base + BitVec.ofNat w i) = source i := by
  have offset : (base + BitVec.ofNat w i - base).toNat = i := by
    rw [BitVec.add_comm, BitVec.add_sub_cancel, BitVec.toNat_ofNat, Nat.mod_eq_of_lt small]
  rw [blockCopy, offset, if_pos inside]

theorem blockCopy_outside (m : BitVec w → β) {base x : BitVec w} {count : Nat} (source : Nat → β)
    (outside : ∀ i < count, x ≠ base + BitVec.ofNat w i) :
    blockCopy m base count source x = m x := by
  apply if_neg
  intro inside
  refine outside _ inside ?_
  rw [BitVec.ofNat_toNat, BitVec.setWidth_eq, BitVec.add_comm, BitVec.sub_add_cancel]

theorem blockCopy_eq_poke (m : BitVec w → β) (base : BitVec w) (source : Nat → β)
    (cells : List β) (fits : base.toNat + cells.length ≤ 2 ^ w)
    (agree : ∀ i (h : i < cells.length), source i = cells[i]) :
    blockCopy m base cells.length source = poke m base.toNat cells := by
  funext x
  have inside := offset_lt_iff (x := x) fits
  unfold blockCopy poke
  by_cases low : base.toNat ≤ x.toNat
  · rw [BitVec.toNat_sub_of_le (BitVec.le_def.mpr low)] at inside ⊢
    by_cases high : x.toNat - base.toNat < cells.length
    · simp [low, high, agree]
    · simp [low, high]
  · rw [if_neg (fun hit => low (inside.mp hit).1), if_neg low]

end OverlaidMemory
