import SpmMulti.Machine
import SpmMulti.Lib.PowerPC

/- source/patch.cpp and hookFunction of include/patch.h. After clear_DC_IC_Cache a fetch sees
   what was stored, so instructions are fetched from memory. new gives the trampoline. -/
namespace SpmPatch
open SpmMachine WordMemory PowerPC

def _writeBranch (mem : Memory) (ptr destination : U32) (link : Bool) : Memory :=
  let delta := destination - ptr
  let value : U32 := if link then 0x48000001 else 0x48000000
  let value := value ||| (delta &&& 0x03FFFFFC)
  storeWord mem ptr value

def hookFunction (mem : Memory) (function destination trampoline : U32) : Memory :=
  let mem := storeWord mem trampoline (loadWord mem function)
  let mem := _writeBranch mem (trampoline + 4#32) (function + 4#32) false
  _writeBranch mem function destination false

/-- The value that the code puts together is that of the fields. -/
theorem value_eq (delta : U32) (link : Bool) :
    (if link then 0x48000001 else 0x48000000) ||| (delta &&& 0x03FFFFFC) =
      branchWord delta link := by
  apply BitVec.eq_of_getLsbD_eq
  intro k inside
  simp only [branchWord, BitVec.getLsbD_append, BitVec.getLsbD_extractLsb']
  cases link <;> interval_cases k <;> simp

theorem writeBranch_eq (mem : Memory) (ptr destination : U32) (link : Bool) :
    _writeBranch mem ptr destination link =
      storeWord mem ptr (branchWord (destination - ptr) link) := by
  rw [← value_eq]
  rfl

end SpmPatch
