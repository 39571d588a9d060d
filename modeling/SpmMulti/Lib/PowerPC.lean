import SpmMulti.Lib.WordMemory

/- Branches of the 32-bit PowerPC. Bits are counted from the least significant one, the
   reverse of the manuals' count. What the other instructions do is a parameter: it does not
   depend on the instruction's address, which only branches read. Interrupts are left out;
   their handlers come back to the instruction they have stopped. -/
namespace PowerPC
open WordMemory

abbrev Word := BitVec 32

def opcode (i : Word) : BitVec 6 := i.extractLsb' 26 6
def extendedOpcode (i : Word) : BitVec 10 := i.extractLsb' 1 10
def AA (i : Word) : Bool := i.getLsbD 1
def LK (i : Word) : Bool := i.getLsbD 0

/-- The fields LI and BD with two zero bits behind them, as displacements. -/
def LI (i : Word) : Word := (i.extractLsb' 2 24 ++ 0#2).signExtend 32
def BD (i : Word) : Word := (i.extractLsb' 2 14 ++ 0#2).signExtend 32

def BO (i : Word) : BitVec 5 := i.extractLsb' 21 5
def BI (i : Word) : BitVec 5 := i.extractLsb' 16 5

structure Registers (σ : Type) where
  lr : Word
  ctr : Word
  cr : Word
  rest : σ

inductive Next where
  | following
  | absolute (target : Word)
  | relative (displacement : Word)
  deriving DecidableEq

/-- What an instruction does, wherever it stands; link asks for the address behind it. -/
structure Action (σ : Type) where
  registers : Registers σ
  link : Bool
  next : Next

section Semantics
variable {σ : Type}

/-- Bit 2 of BO is set when the count register is to be left alone. -/
def countDown (i : Word) (r : Registers σ) : Registers σ :=
  if (BO i).getLsbD 2 then r else { r with ctr := r.ctr - 1 }

/-- Asked after the count register was counted down. -/
def countHolds (i : Word) (r : Registers σ) : Bool :=
  (BO i).getLsbD 2 || (decide (r.ctr ≠ 0) ^^ (BO i).getLsbD 1)

/-- Bits of the condition register are numbered from the most significant one. -/
def conditionHolds (i : Word) (r : Registers σ) : Bool :=
  (BO i).getLsbD 4 || r.cr.getMsbD (BI i).toNat == (BO i).getLsbD 3

def target (i displacement : Word) : Next :=
  if AA i then .absolute displacement else .relative displacement

/-- b (18), bc (16), bclr (19, 16) and bcctr (19, 528) with their forms; other says what any
    other instruction makes of the registers and, where it jumps, to which address. -/
def act (other : Word → Registers σ → Registers σ × Option Word) (i : Word) (r : Registers σ) :
    Action σ :=
  if opcode i = 18#6 then ⟨r, LK i, target i (LI i)⟩
  else if opcode i = 16#6 then
    let counted := countDown i r
    ⟨counted, LK i,
      if countHolds i counted && conditionHolds i counted then target i (BD i) else .following⟩
  else if opcode i = 19#6 ∧ extendedOpcode i = 16#10 then
    let counted := countDown i r
    ⟨counted, LK i,
      if countHolds i counted && conditionHolds i counted then .absolute (r.lr &&& ~~~3#32)
      else .following⟩
  else if opcode i = 19#6 ∧ extendedOpcode i = 528#10 then
    ⟨r, LK i, if conditionHolds i r then .absolute (r.ctr &&& ~~~3#32) else .following⟩
  else
    let (registers, jump) := other i r
    ⟨registers, false, jump.elim .following .absolute⟩

/-- The effect of an action at an address, and the address of the next instruction. -/
def place (a : Action σ) (cia : Word) : Word × Registers σ :=
  (match a.next with
    | .following => cia + 4#32
    | .absolute target => target
    | .relative displacement => cia + displacement,
    if a.link then { a.registers with lr := cia + 4#32 } else a.registers)

def execute (other : Word → Registers σ → Registers σ × Option Word) (i cia : Word)
    (r : Registers σ) : Word × Registers σ := place (act other i r) cia

def step (other : Word → Registers σ → Registers σ × Option Word) (m : Word → UInt8)
    (s : Word × Registers σ) : Word × Registers σ := execute other (loadWord m s.1) s.1 s.2

end Semantics

section Encoding

/-- Of the multiples of four, the displacements that the field LI can hold. -/
def Reaches (displacement : Word) : Prop :=
  -2 ^ 25 ≤ displacement.toInt ∧ displacement.toInt ≤ 2 ^ 25 - 4

instance (displacement : Word) : Decidable (Reaches displacement) :=
  inferInstanceAs (Decidable (_ ∧ _))

/-- A relative b or bl: the opcode, LI, AA and LK. -/
def branchWord (displacement : Word) (link : Bool) : Word :=
  18#6 ++ displacement.extractLsb' 2 24 ++ 0#1 ++ BitVec.ofBool link

@[simp] theorem branchWord_opcode (displacement : Word) (link : Bool) :
    opcode (branchWord displacement link) = 18#6 := by
  apply BitVec.eq_of_getLsbD_eq
  intro k inside
  simp only [opcode, branchWord, BitVec.getLsbD_extractLsb', BitVec.getLsbD_append]
  interval_cases k <;> rfl

@[simp] theorem branchWord_AA (displacement : Word) (link : Bool) :
    AA (branchWord displacement link) = false := by
  simp only [AA, branchWord, BitVec.getLsbD_append]
  rfl

@[simp] theorem branchWord_LK (displacement : Word) (link : Bool) :
    LK (branchWord displacement link) = link := by
  simp only [LK, branchWord, BitVec.getLsbD_append]
  cases link <;> rfl

theorem branchWord_field (displacement : Word) (link : Bool) :
    (branchWord displacement link).extractLsb' 2 24 = displacement.extractLsb' 2 24 := by
  apply BitVec.eq_of_getLsbD_eq
  intro k inside
  simp only [branchWord, BitVec.getLsbD_append, BitVec.getLsbD_extractLsb', inside]
  simp [show ¬ 2 + k < 1 by omega, inside]

theorem aligned_sub {a b : Word} (ha : Aligned a) (hb : Aligned b) : Aligned (a - b) := by
  rw [Aligned] at *
  rw [BitVec.toNat_sub]
  omega

theorem aligned_field {displacement : Word} (aligned : Aligned displacement) :
    displacement.extractLsb' 2 24 ++ 0#2 = displacement.setWidth 26 := by
  apply BitVec.eq_of_toNat_eq
  simp only [BitVec.toNat_append, BitVec.extractLsb'_toNat, BitVec.toNat_setWidth,
    BitVec.toNat_ofNat, Nat.zero_mod, Nat.or_zero, Nat.shiftLeft_eq, Nat.shiftRight_eq_div_pow]
  rw [Aligned] at aligned
  omega

/-- Widening the 26 bits again loses nothing of a displacement in reach. -/
theorem LI_branchWord {displacement : Word} (aligned : Aligned displacement)
    (reaches : Reaches displacement) (link : Bool) :
    LI (branchWord displacement link) = displacement := by
  obtain ⟨low, high⟩ := reaches
  have narrow : (displacement.setWidth 26).toInt = displacement.toInt := by
    rw [BitVec.toInt_setWidth, ← Int.bmod_bmod_of_dvd (show 2 ^ 26 ∣ 2 ^ 32 by decide),
      ← BitVec.toInt_eq_toNat_bmod]
    exact Int.bmod_eq_of_le (by norm_num; omega) (by norm_num; omega)
  rw [LI, branchWord_field, aligned_field aligned]
  apply BitVec.eq_of_toInt_eq
  rw [BitVec.toInt_signExtend_of_le (by decide), narrow]

end Encoding

section Moving
variable {σ : Type} {other : Word → Registers σ → Registers σ × Option Word} {i : Word}

/-- Instructions that do not ask for their address: no link, and no relative branch but the
    one to the following instruction. -/
def Movable (i : Word) : Prop :=
  (opcode i = 18#6 → LK i = false ∧ (AA i = true ∨ LI i = 4#32)) ∧
  (opcode i = 16#6 → LK i = false ∧ (AA i = true ∨ BD i = 4#32)) ∧
  (opcode i = 19#6 → extendedOpcode i = 16#10 ∨ extendedOpcode i = 528#10 → LK i = false)

instance (i : Word) : Decidable (Movable i) :=
  inferInstanceAs (Decidable (_ ∧ _ ∧ _))

/-- An action that is the same at every address, up to going on behind it. -/
def Free (a : Action σ) : Prop := a.link = false ∧ ∀ d, a.next = .relative d → d = 4#32

theorem free_target (r : Registers σ) (link : Bool) (displacement : Word) :
    Free ⟨r, link, target i displacement⟩ ↔ link = false ∧ (AA i = true ∨ displacement = 4#32) := by
  unfold Free target
  cases AA i <;> simp

theorem countDown_cr (i : Word) (r : Registers σ) : (countDown i r).cr = r.cr := by
  unfold countDown
  split <;> rfl

/-- Some registers satisfy any condition that BO and BI can ask for. -/
theorem taken_somewhere (i : Word) (rest : σ) : ∃ r : Registers σ,
    (countHolds i (countDown i r) && conditionHolds i (countDown i r)) = true := by
  refine ⟨⟨0, if (BO i).getLsbD 1 then 1 else 2,
    if (BO i).getLsbD 3 then BitVec.allOnes 32 else 0, rest⟩, ?_⟩
  rw [Bool.and_eq_true]
  constructor
  · cases spared : (BO i).getLsbD 2 with
    | true => simp only [countHolds, spared, Bool.true_or]
    | false =>
      simp only [countHolds, countDown, spared]
      cases (BO i).getLsbD 1 <;> rfl
  · have bit : (BI i).toNat < 32 := (BI i).isLt
    rw [conditionHolds, countDown_cr]
    cases (BO i).getLsbD 3 with
    | true => simp only [if_true, BitVec.getMsbD_allOnes, bit, decide_true]; simp
    | false => simp

theorem free_bc (bc : opcode i = 16#6) (rest : σ) :
    (∀ r, Free (act other i r)) ↔ LK i = false ∧ (AA i = true ∨ BD i = 4#32) := by
  have notB : opcode i ≠ 18#6 := by
    rw [bc]
    decide
  constructor
  · intro free
    obtain ⟨r, taken⟩ := taken_somewhere i rest
    have here := free r
    simp only [act, if_neg notB, if_pos bc, taken, if_true] at here
    exact (free_target _ _ _).mp here
  · intro plain r
    simp only [act, if_neg notB, if_pos bc]
    split
    · exact (free_target _ _ _).mpr plain
    · exact ⟨plain.1, by simp⟩

theorem free_register (r : Registers σ) (taken : Bool) (link : Bool) (a : Word) :
    Free ⟨r, link, if taken then .absolute a else .following⟩ ↔ link = false := by
  unfold Free
  cases taken <;> simp

theorem free_other (r : Registers σ) (jump : Option Word) :
    Free ⟨r, false, jump.elim .following .absolute⟩ := by
  refine ⟨rfl, ?_⟩
  cases jump <;> simp

theorem free_rest (notB : opcode i ≠ 18#6) (notBc : opcode i ≠ 16#6) (r : Registers σ) :
    Free (act other i r) ↔
      (opcode i = 19#6 → extendedOpcode i = 16#10 ∨ extendedOpcode i = 528#10 → LK i = false) := by
  simp only [act, if_neg notB, if_neg notBc]
  by_cases lr : opcode i = 19#6 ∧ extendedOpcode i = 16#10
  · rw [if_pos lr, free_register]
    simp [lr]
  · rw [if_neg lr]
    by_cases ctr : opcode i = 19#6 ∧ extendedOpcode i = 528#10
    · rw [if_pos ctr, free_register]
      simp [ctr]
    · rw [if_neg ctr, iff_true_left (free_other _ _)]
      rintro op (xo | xo)
      · exact absurd ⟨op, xo⟩ lr
      · exact absurd ⟨op, xo⟩ ctr

theorem movable_iff (other : Word → Registers σ → Registers σ × Option Word) (rest : σ) :
    Movable i ↔ ∀ r, Free (act other i r) := by
  have : Inhabited (Registers σ) := ⟨⟨0, 0, 0, rest⟩⟩
  by_cases b : opcode i = 18#6
  · simp only [act, if_pos b, free_target, forall_const]
    simp [Movable, b]
  · by_cases bc : opcode i = 16#6
    · rw [free_bc bc rest]
      simp [Movable, bc]
    · simp only [free_rest b bc, forall_const]
      simp [Movable, b, bc]

/-- From the copy, the machine does what i does at its origin and goes where it goes there, at
    once or by way of the instruction behind the copy. -/
def MovedAs (other : Word → Registers σ → Registers σ × Option Word) (m : Word → UInt8)
    (copy origin i : Word) (r : Registers σ) : Prop :=
  step other m (copy, r) = execute other i origin r ∨
    (step other m (copy, r)).1 = copy + 4#32 ∧
      step other m (step other m (copy, r)) = execute other i origin r

/-- Placed at another address, a free action leads to the same registers and place, once a
    fall to the following address is made good. -/
theorem placed_iff {copy origin : Word} (differ : copy ≠ origin) (a : Action σ) :
    (place a copy = place a origin ∨ (place a copy).1 = copy + 4#32 ∧
      (origin + 4#32, (place a copy).2) = place a origin) ↔ Free a := by
  obtain ⟨registers, link, next⟩ := a
  have apart : ∀ d, copy + d ≠ origin + d := fun d same => differ (by simpa using same)
  cases link with
  | true =>
    have linked : (place ⟨registers, true, next⟩ copy).2 ≠
        (place ⟨registers, true, next⟩ origin).2 :=
      fun same => apart 4 (congrArg Registers.lr same)
    constructor
    · rintro (same | ⟨-, same⟩)
      · exact absurd (congrArg Prod.snd same) linked
      · exact absurd (congrArg Prod.snd same) linked
    · intro free
      exact absurd free.1 (by simp)
  | false =>
    cases next with
    | following => simp [place, Free]
    | absolute target => simp [place, Free]
    | relative d =>
      constructor
      · rintro (same | ⟨falls, -⟩)
        · exact absurd (congrArg Prod.fst same) (apart d)
        · refine ⟨rfl, fun e same => ?_⟩
          rw [← Next.relative.inj same]
          simpa [place] using falls
      · rintro ⟨-, near⟩
        obtain rfl := near d rfl
        exact Or.inr ⟨rfl, rfl⟩

/-- The instruction behind the copy goes to what follows the origin. -/
theorem moved_iff {m : Word → UInt8} {copy origin : Word} (differ : copy ≠ origin)
    (copied : loadWord m copy = i)
    (behind : ∀ r, step other m (copy + 4#32, r) = (origin + 4#32, r)) (rest : σ) :
    (∀ r, MovedAs other m copy origin i r) ↔ Movable i := by
  rw [movable_iff other rest]
  apply forall_congr'
  intro r
  have here : step other m (copy, r) = place (act other i r) copy := by
    rw [step, copied, execute]
  have onward : (place (act other i r) copy).1 = copy + 4#32 →
      step other m (place (act other i r) copy) =
        (origin + 4#32, (place (act other i r) copy).2) := by
    intro falls
    rw [← behind, ← falls]
  rw [← placed_iff differ, MovedAs, here, execute]
  refine or_congr_right (and_congr_right fun falls => ?_)
  rw [onward falls]

/-- A relative branch without a link goes to its target and changes nothing. -/
theorem step_branch {m : Word → UInt8} {cia displacement : Word}
    (branch : loadWord m cia = branchWord displacement false) (aligned : Aligned displacement)
    (reaches : Reaches displacement) (r : Registers σ) :
    step other m (cia, r) = (cia + displacement, r) := by
  simp [step, branch, execute, act, target, place, LI_branchWord aligned reaches]

end Moving

end PowerPC
