import SpmMulti.Machine
import SpmMulti.Lib.ByteSums

/- updateSaveChecksum (source/util.cpp) on SaveFile (spm/nandmgr.h). The members that the
   function does not name are the bytes they take up. -/
namespace SpmSaveFile
open SpmMachine ByteSums

structure SaveFile where
  flags : BitVec 16
  unknown_0x2 : Vector UInt8 0x6
  spmarioGlobals : Vector UInt8 0x1b08
  pouch : Vector UInt8 0x6a0
  unknown_0x21b0 : Vector UInt8 0x400
  checksum : U32
  checksumNOT : U32

/-- The bytes up to offset 25b0, where the two checksum fields begin. -/
def SaveFile.body (save : SaveFile) : List UInt8 :=
  [UInt8.ofNat (save.flags.toNat >>> 8), UInt8.ofNat save.flags.toNat] ++
    save.unknown_0x2.toList ++ save.spmarioGlobals.toList ++ save.pouch.toList ++
    save.unknown_0x21b0.toList

def SaveFile.bytes (save : SaveFile) : List UInt8 :=
  save.body ++ (wordBytes save.checksum ++ wordBytes save.checksumNOT)

def updateSaveChecksum (save : SaveFile) : SaveFile :=
  let save := { save with checksum := 0 }
  let save := { save with checksumNOT := ~~~save.checksum }
  let checksum : U32 := save.bytes.foldl (fun checksum b => checksum + BitVec.ofNat 32 b.toNat) 0#32
  let save := { save with checksum := checksum }
  { save with checksumNOT := ~~~checksum }

/-- The sum with the placeholders in the two fields is the one that is stored. -/
def SaveFile.Verifies (save : SaveFile) : Prop :=
  byteSum 32 { save with checksum := 0, checksumNOT := 0xffffffff }.bytes = save.checksum ∧
    save.checksumNOT = ~~~save.checksum

theorem body_length (save : SaveFile) : save.body.length = 0x25b0 := by
  simp [SaveFile.body]

def SaveFile.sum (save : SaveFile) : U32 :=
  byteSum 32 (save.body ++ (wordBytes 0 ++ wordBytes 0xffffffff))

theorem update_eq (save : SaveFile) : updateSaveChecksum save =
    { save with checksum := save.sum, checksumNOT := ~~~save.sum } := by
  have placeholder : ~~~(0 : U32) = 0xffffffff := by decide
  simp only [updateSaveChecksum, SaveFile.sum, byteSum, SaveFile.bytes, SaveFile.body, placeholder]

theorem verifies_iff (save : SaveFile) :
    save.Verifies ↔ save.sum = save.checksum ∧ save.checksumNOT = ~~~save.checksum := by
  simp only [SaveFile.Verifies, SaveFile.sum, SaveFile.bytes, SaveFile.body]

theorem update_sum (save : SaveFile) : (updateSaveChecksum save).sum = save.sum := by
  rw [update_eq]
  simp only [SaveFile.sum, SaveFile.body]

theorem wordBytes_inj {u v : U32} (same : wordBytes u = wordBytes v) : u = v := by
  simp only [wordBytes, List.cons.injEq, and_true, ← UInt8.toNat_inj, UInt8.toNat_ofNat',
    Nat.shiftRight_eq_div_pow] at same
  have hu := u.isLt
  have hv := v.isLt
  exact BitVec.eq_of_toNat_eq (by omega)

theorem body_changed {save later : SaveFile} {i : Nat} (outside : i < 0x25b0) {b : UInt8}
    (changed : later.bytes = save.bytes.set i b) :
    later.body = save.body.set i b ∧ later.checksum = save.checksum ∧
      later.checksumNOT = save.checksumNOT := by
  have inside : i < save.body.length := outside.trans_eq (body_length save).symm
  rw [SaveFile.bytes, SaveFile.bytes, List.set_append_left _ _ inside] at changed
  obtain ⟨body, fields⟩ := List.append_inj changed (by simp [body_length])
  obtain ⟨checksum, complement⟩ := List.append_inj fields (by simp)
  exact ⟨body, wordBytes_inj checksum, wordBytes_inj complement⟩

/-- A change of one byte in front of the fields changes the sum. -/
theorem changed_sum {save later : SaveFile} {i : Nat} (outside : i < 0x25b0) {b : UInt8}
    (changed : later.bytes = save.bytes.set i b) (differs : later.bytes ≠ save.bytes) :
    later.sum ≠ save.sum := by
  have inside : i < save.body.length := outside.trans_eq (body_length save).symm
  obtain ⟨body, checksum, complement⟩ := body_changed outside changed
  intro equal
  have sums : byteSum 32 later.body = byteSum 32 save.body := by
    simpa only [SaveFile.sum, byteSum_append, BitVec.add_left_inj] using equal
  have byte : b = save.body[i] :=
    (byteSum_set inside (by decide)).mp ((congrArg (byteSum 32) body).symm.trans sums)
  have whole : later.body = save.body := by
    rw [body, byte]
    exact List.set_getElem_self inside
  exact differs (by rw [SaveFile.bytes, SaveFile.bytes, whole, checksum, complement])

/-- The checksum fields are all that changes, the save verifies, a second call changes nothing,
    and the save no longer verifies when one other byte has changed. -/
theorem checksum_updated (save : SaveFile) :
    (∀ i < 0x25b0, (updateSaveChecksum save).bytes[i]? = save.bytes[i]?) ∧
    (updateSaveChecksum save).Verifies ∧
    updateSaveChecksum (updateSaveChecksum save) = updateSaveChecksum save ∧
    ∀ (later : SaveFile) (i : Nat) (b : UInt8), i < 0x25b0 →
      later.bytes = (updateSaveChecksum save).bytes.set i b →
      later.bytes ≠ (updateSaveChecksum save).bytes → ¬ later.Verifies := by
  have stored : (updateSaveChecksum save).checksum = save.sum := by rw [update_eq]
  have body : (updateSaveChecksum save).body = save.body := by
    rw [update_eq]
    simp only [SaveFile.body]
  refine ⟨?_, ?_, ?_, ?_⟩
  · intro i outside
    have inside : i < save.body.length := outside.trans_eq (body_length save).symm
    rw [SaveFile.bytes, SaveFile.bytes, body, List.getElem?_append_left inside,
      List.getElem?_append_left inside]
  · rw [verifies_iff, update_sum, update_eq]
    exact ⟨rfl, rfl⟩
  · rw [update_eq (updateSaveChecksum save), update_sum, update_eq]
  · intro later i b outside changed differs verifies
    have sum : later.sum = save.sum :=
      ((verifies_iff later).mp verifies).1.trans
        ((body_changed outside changed).2.1.trans stored)
    exact changed_sum outside changed differs (sum.trans (update_sum save).symm)

end SpmSaveFile
