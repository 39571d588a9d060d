import SpmMulti.Handling
import SpmMulti.Patch

/- What the patched words do: a branch that is written goes where it should, and a function
   that is hooked, any number of times, is reached through the trampolines. -/
namespace SpmPatchGuarantees
open SpmMachine SpmHandling SpmPatch WordMemory PowerPC

theorem mem1_reaches {a b : U32} (ha : InMem1 a.toNat) (hb : InMem1 b.toNat) : Reaches (b - a) := by
  rw [InMem1] at ha hb
  have difference : (b - a).toInt = (b.toNat : Int) - a.toNat := by
    rw [BitVec.toInt_sub, BitVec.toInt_eq_toNat_bmod, BitVec.toInt_eq_toNat_bmod, ← Int.sub_bmod]
    exact Int.bmod_eq_of_le (by norm_num; omega) (by norm_num; omega)
  rw [Reaches, difference]
  omega

/-- Decoded where it is stored, the word is a relative branch to the destination, with the
    link asked for. All of MEM1 is in reach of all of it. -/
theorem branch_decodes :
    (∀ ptr destination : U32, InMem1 ptr.toNat → InMem1 destination.toNat →
      Reaches (destination - ptr)) ∧
    ∀ (mem : Memory) (ptr destination : U32) (link : Bool), Aligned ptr → Aligned destination →
      Reaches (destination - ptr) →
      opcode (loadWord (_writeBranch mem ptr destination link) ptr) = 18 ∧
      AA (loadWord (_writeBranch mem ptr destination link) ptr) = false ∧
      LK (loadWord (_writeBranch mem ptr destination link) ptr) = link ∧
      ptr + LI (loadWord (_writeBranch mem ptr destination link) ptr) = destination ∧
      ∀ x, ¬ InWord ptr x → _writeBranch mem ptr destination link x = mem x := by
  refine ⟨fun ptr destination here there => mem1_reaches here there, ?_⟩
  intro mem ptr destination link here there reaches
  rw [writeBranch_eq, loadWord_storeWord mem ptr _ (by decide)]
  refine ⟨branchWord_opcode _ link, branchWord_AA _ link, branchWord_LK _ link, ?_, ?_⟩
  · rw [LI_branchWord (aligned_sub there here) reaches, BitVec.add_comm, BitVec.sub_add_cancel]
  · intro x outside
    exact storeWord_outside mem _ outside

/-- From the last word of MEM1 back to its first. -/
theorem branch_decodes_backward :
    let mem := _writeBranch (fun _ => 0) 0x817ffffc 0x80000000 true
    opcode (loadWord mem 0x817ffffc) = 18 ∧ AA (loadWord mem 0x817ffffc) = false ∧
      LK (loadWord mem 0x817ffffc) = true ∧
      0x817ffffc + LI (loadWord mem 0x817ffffc) = 0x80000000 ∧
      ∀ x, ¬ InWord 0x817ffffc x → mem x = 0 := by
  have near : Reaches (0x80000000 - 0x817ffffc) := by
    apply branch_decodes.1 <;> simp [InMem1]
  exact branch_decodes.2 _ _ _ true (by decide) (by decide) near

section Hooks
variable {σ : Type} {other : Word → Registers σ → Registers σ × Option Word} {mem : Memory}
  {function : U32}

structure Hook where
  destination : U32
  trampoline : U32

def install (mem : Memory) (function : U32) (hooks : List Hook) : Memory :=
  hooks.foldl (fun mem h => hookFunction mem function h.destination h.trampoline) mem

@[simp] theorem install_cons (mem : Memory) (function : U32) (h : Hook) (hooks : List Hook) :
    install mem function (h :: hooks) =
      install (hookFunction mem function h.destination h.trampoline) function hooks := rfl

/-- The branches of the hook are in reach, and its trampoline is not where the function is. -/
structure Placed (function : U32) (h : Hook) : Prop where
  destination : Aligned h.destination
  trampoline : Aligned h.trampoline
  toDestination : Reaches (h.destination - function)
  toFunction : Reaches (function - h.trampoline)
  copy : h.trampoline ≠ function
  behind : h.trampoline + 4#32 ≠ function

/-- No two trampolines have a word in common. -/
structure Installable (function : U32) (hooks : List Hook) : Prop where
  aligned : Aligned function
  placed : ∀ h ∈ hooks, Placed function h
  apart : hooks.Pairwise fun g h => g.trampoline ≠ h.trampoline ∧
    g.trampoline + 4#32 ≠ h.trampoline ∧ g.trampoline ≠ h.trampoline + 4#32

/-- Each trampoline does what the function's first instruction, as the hook has found it, does
    at the function. -/
def Chained (other : Word → Registers σ → Registers σ × Option Word) (final : Memory)
    (function : U32) : Memory → List Hook → Prop
  | _, [] => True
  | mem, h :: hooks =>
    (∀ r, MovedAs other final h.trampoline function (loadWord mem function) r) ∧
      Chained other final function (hookFunction mem function h.destination h.trampoline) hooks

structure Transparent (other : Word → Registers σ → Registers σ × Option Word) (mem : Memory)
    (function : U32) (hooks : List Hook) : Prop where
  hooked : ∀ h ∈ hooks.getLast?, ∀ r,
    step other (install mem function hooks) (function, r) = (h.destination, r)
  chained : Chained other (install mem function hooks) function mem hooks
  frame : ∀ x, ¬ InWord function x →
    (∀ h ∈ hooks, ¬ InWord h.trampoline x ∧ ¬ InWord (h.trampoline + 4#32) x) →
    install mem function hooks x = mem x

theorem aligned_next {a : U32} (aligned : Aligned a) : Aligned (a + 4#32) := by
  rw [Aligned] at *
  rw [BitVec.toNat_add, show (4#32).toNat = 4 from rfl]
  omega

theorem next_ne (a : U32) : a ≠ a + 4#32 := by
  intro same
  have equal := congrArg BitVec.toNat same
  rw [BitVec.toNat_add] at equal
  have below := a.isLt
  norm_num at equal
  omega

theorem hooked_words {h : Hook} (aligned : Aligned function) (placed : Placed function h) :
    loadWord (hookFunction mem function h.destination h.trampoline) h.trampoline =
      loadWord mem function ∧
    loadWord (hookFunction mem function h.destination h.trampoline) (h.trampoline + 4#32) =
      branchWord (function - h.trampoline) false ∧
    loadWord (hookFunction mem function h.destination h.trampoline) function =
      branchWord (h.destination - function) false := by
  have behind := aligned_next placed.trampoline
  have difference : function + 4#32 - (h.trampoline + 4#32) = function - h.trampoline := by
    bv_omega
  simp only [hookFunction, writeBranch_eq]
  refine ⟨?_, ?_, ?_⟩
  · rw [loadWord_storeWord_other _ _ (by decide) aligned placed.trampoline (Ne.symm placed.copy),
      loadWord_storeWord_other _ _ (by decide) behind placed.trampoline
        (Ne.symm (next_ne h.trampoline)), loadWord_storeWord _ _ _ (by decide)]
  · rw [loadWord_storeWord_other _ _ (by decide) aligned behind (Ne.symm placed.behind),
      loadWord_storeWord _ _ _ (by decide), difference]
  · rw [loadWord_storeWord _ _ _ (by decide)]

theorem hook_keeps {h : Hook} {a : U32} (aligned : Aligned function) (placed : Placed function h)
    (word : Aligned a) (notFunction : a ≠ function) (notCopy : a ≠ h.trampoline)
    (notBehind : a ≠ h.trampoline + 4#32) :
    loadWord (hookFunction mem function h.destination h.trampoline) a = loadWord mem a := by
  have behind := aligned_next placed.trampoline
  simp only [hookFunction, writeBranch_eq]
  rw [loadWord_storeWord_other _ _ (by decide) aligned word (Ne.symm notFunction),
    loadWord_storeWord_other _ _ (by decide) behind word (Ne.symm notBehind),
    loadWord_storeWord_other _ _ (by decide) placed.trampoline word (Ne.symm notCopy)]

theorem hook_frame {h : Hook} {x : U32} (function_ : ¬ InWord function x)
    (copy : ¬ InWord h.trampoline x) (behind : ¬ InWord (h.trampoline + 4#32) x) :
    hookFunction mem function h.destination h.trampoline x = mem x := by
  simp only [hookFunction, writeBranch_eq]
  rw [storeWord_outside _ _ function_, storeWord_outside _ _ behind, storeWord_outside _ _ copy]

theorem install_keeps {hooks : List Hook} {a : U32} (aligned : Aligned function)
    (placed : ∀ h ∈ hooks, Placed function h) (word : Aligned a) (notFunction : a ≠ function)
    (elsewhere : ∀ h ∈ hooks, a ≠ h.trampoline ∧ a ≠ h.trampoline + 4#32) :
    loadWord (install mem function hooks) a = loadWord mem a := by
  induction hooks generalizing mem with
  | nil => rfl
  | cons h hooks ih =>
    obtain ⟨notCopy, notBehind⟩ := elsewhere h (by simp)
    have kept : loadWord (hookFunction mem function h.destination h.trampoline) a =
        loadWord mem a :=
      hook_keeps aligned (placed h (by simp)) word notFunction notCopy notBehind
    rw [← kept]
    exact ih (fun g member => placed g (by simp [member]))
      fun g member => elsewhere g (by simp [member])

theorem install_frame {hooks : List Hook} {x : U32} (function_ : ¬ InWord function x)
    (outside : ∀ h ∈ hooks, ¬ InWord h.trampoline x ∧ ¬ InWord (h.trampoline + 4#32) x) :
    install mem function hooks x = mem x := by
  induction hooks generalizing mem with
  | nil => rfl
  | cons h hooks ih =>
    obtain ⟨copy, behind⟩ := outside h (by simp)
    exact (ih fun g member => outside g (by simp [member])).trans
      (hook_frame function_ copy behind)

/-- What the first hook of a sequence leaves is still there after the others. -/
theorem first_moved_iff [Inhabited σ] {h : Hook} {hooks : List Hook}
    (installable : Installable function (h :: hooks)) :
    (∀ r, MovedAs other (install mem function (h :: hooks)) h.trampoline function
      (loadWord mem function) r) ↔ Movable (loadWord mem function) := by
  obtain ⟨aligned, placed, apart⟩ := installable
  obtain ⟨first, rest⟩ := List.pairwise_cons.mp apart
  have here := placed h (by simp)
  have later : ∀ g ∈ hooks, Placed function g := fun g member => placed g (by simp [member])
  have words := @hooked_words mem function h aligned here
  rw [install_cons]
  generalize hookFunction mem function h.destination h.trampoline = hooked at words ⊢
  obtain ⟨copied, behind, _⟩ := words
  have keptCopy : loadWord (install hooked function hooks) h.trampoline =
      loadWord mem function := by
    rw [← copied]
    exact install_keeps aligned later here.trampoline here.copy fun g member =>
      ⟨(first g member).1, (first g member).2.2⟩
  have keptBehind : loadWord (install hooked function hooks) (h.trampoline + 4#32) =
      branchWord (function - h.trampoline) false := by
    rw [← behind]
    exact install_keeps aligned later (aligned_next here.trampoline) here.behind fun g member =>
      ⟨(first g member).2.1, fun same => (first g member).1 (by simpa using same)⟩
  refine moved_iff here.copy keptCopy (fun r => ?_) default
  have target : h.trampoline + 4#32 + (function - h.trampoline) = function + 4#32 := by
    bv_omega
  rw [step_branch keptBehind (aligned_sub aligned here.trampoline) here.toFunction, target]

theorem movable_branch {displacement : U32} (aligned : Aligned displacement)
    (reaches : Reaches displacement) :
    Movable (branchWord displacement false) ↔ displacement = 4#32 := by
  simp [Movable, LI_branchWord aligned reaches]

theorem sub_eq_four {a b : U32} : b - a = 4#32 ↔ b = a + 4#32 := by
  bv_omega

/-- A later hook finds the branch of the one before it. -/
theorem chained_iff [Inhabited σ] {h : Hook} {hooks : List Hook}
    (installable : Installable function (h :: hooks)) :
    Chained other (install mem function (h :: hooks)) function mem (h :: hooks) ↔
      Movable (loadWord mem function) ∧
        ∀ g ∈ (h :: hooks).dropLast, g.destination = function + 4#32 := by
  induction hooks generalizing mem h with
  | nil =>
    rw [Chained, first_moved_iff installable]
    simp [Chained]
  | cons g hooks ih =>
    have rest : Installable function (g :: hooks) :=
      ⟨installable.aligned, fun k member => installable.placed k (by simp [member]),
        (List.pairwise_cons.mp installable.apart).2⟩
    have here := installable.placed h (by simp)
    obtain ⟨_, _, branch⟩ := @hooked_words mem function h installable.aligned here
    have next := @ih (hookFunction mem function h.destination h.trampoline) g rest
    rw [branch, movable_branch (aligned_sub here.destination installable.aligned)
      here.toDestination, sub_eq_four] at next
    rw [Chained, first_moved_iff installable, List.dropLast_cons_cons, List.forall_mem_cons,
      install_cons, next]

/-- From the function, control goes to the destination of the last hook. -/
theorem install_hooked {hooks : List Hook} (installable : Installable function hooks) :
    ∀ h ∈ hooks.getLast?, ∀ r : Registers σ,
      step other (install mem function hooks) (function, r) = (h.destination, r) := by
  intro h last r
  obtain ⟨front, rfl⟩ := List.getLast?_eq_some_iff.mp last
  have here := installable.placed h (by simp)
  obtain ⟨_, _, branch⟩ :=
    @hooked_words (install mem function front) function h installable.aligned here
  have final : loadWord (install mem function (front ++ [h])) function =
      branchWord (h.destination - function) false := by
    rw [install, List.foldl_append]
    exact branch
  rw [step_branch final (aligned_sub here.destination installable.aligned) here.toDestination,
    BitVec.add_comm, BitVec.sub_add_cancel]

/-- Hooks are transparent exactly when the function's first instruction can be moved and every
    hook but the last has the following instruction for its destination. -/
theorem hooks_transparent_iff [Inhabited σ]
    (other : Word → Registers σ → Registers σ × Option Word) (mem : Memory)
    {hooks : List Hook} (installable : Installable function hooks) (some_ : hooks ≠ []) :
    Transparent other mem function hooks ↔
      Movable (loadWord mem function) ∧
        ∀ h ∈ hooks.dropLast, h.destination = function + 4#32 := by
  obtain ⟨h, rest, rfl⟩ := List.exists_cons_of_ne_nil some_
  rw [← @chained_iff σ other mem function _ h rest installable]
  constructor
  · intro transparent
    exact transparent.chained
  · intro chained
    exact ⟨install_hooked installable, chained, fun x function_ outside =>
      install_frame function_ outside⟩

/-- stwu r1, -16(r1) at 80004000, which other instructions than branches leave as it is. -/
theorem hook_transparent_prologue :
    let mem := storeWord (fun _ => 0) 0x80004000#32 0x9421fff0#32
    let other : Word → Registers Unit → Registers Unit × Option Word := fun _ r => (r, none)
    Transparent other mem 0x80004000#32 [⟨0x80500000#32, 0x80600000#32⟩] := by
  intro mem other
  have installable : Installable 0x80004000#32 [⟨0x80500000#32, 0x80600000#32⟩] := by
    refine ⟨by decide, ?_, by simp⟩
    intro h member
    obtain rfl := List.mem_singleton.mp member
    exact ⟨by decide, by decide, by decide, by decide, by decide, by decide⟩
  have first : loadWord mem 0x80004000#32 = 0x9421fff0#32 :=
    loadWord_storeWord _ _ _ (by decide)
  refine (hooks_transparent_iff other mem installable (by simp)).mpr ⟨?_, by simp⟩
  rw [first]
  decide

/-- A function that begins with b .+16, and a function that is hooked twice. -/
theorem hook_moves_branch :
    let other : Word → Registers Unit → Registers Unit × Option Word := fun _ r => (r, none)
    ¬ Transparent other (storeWord (fun _ => 0) 0x80004000#32 0x48000010#32) 0x80004000#32
        [⟨0x80500000#32, 0x80600000#32⟩] ∧
      ¬ Transparent other (storeWord (fun _ => 0) 0x80004000#32 0x9421fff0#32) 0x80004000#32
        [⟨0x80500000#32, 0x80600000#32⟩, ⟨0x80510000#32, 0x80600008#32⟩] := by
  intro other
  have placed : ∀ h ∈ [Hook.mk 0x80500000#32 0x80600000#32, ⟨0x80510000#32, 0x80600008#32⟩],
      Placed 0x80004000#32 h := by
    intro h member
    simp only [List.mem_cons, List.not_mem_nil, or_false] at member
    rcases member with rfl | rfl
    · exact ⟨by decide, by decide, by decide, by decide, by decide, by decide⟩
    · exact ⟨by decide, by decide, by decide, by decide, by decide, by decide⟩
  constructor
  · intro transparent
    have installable : Installable 0x80004000#32 [⟨0x80500000#32, 0x80600000#32⟩] :=
      ⟨by decide, fun h member => placed h (by simp [List.mem_singleton.mp member]), by simp⟩
    have movable := ((chained_iff installable).mp transparent.chained).1
    rw [loadWord_storeWord _ _ _ (by decide)] at movable
    exact absurd movable (by decide)
  · intro transparent
    have installable : Installable 0x80004000#32
        [⟨0x80500000#32, 0x80600000#32⟩, ⟨0x80510000#32, 0x80600008#32⟩] :=
      ⟨by decide, placed, by simp⟩
    have destination := ((chained_iff installable).mp transparent.chained).2
      ⟨0x80500000#32, 0x80600000#32⟩ (by simp)
    exact absurd destination (by decide)

end Hooks

end SpmPatchGuarantees
