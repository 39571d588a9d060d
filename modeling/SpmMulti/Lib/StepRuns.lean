import Mathlib

/- Runs of a deterministic machine that consumes one input a step. An invariant is shown
   once for a step and then holds along every run and of every reachable state. -/
namespace StepRuns
variable {σ ι : Type}

def run (step : σ → ι → σ) (s : σ) (inputs : List ι) : σ := inputs.foldl step s

def Reachable (initial : σ → Prop) (step : σ → ι → σ) (s : σ) : Prop :=
  ∃ start inputs, initial start ∧ run step start inputs = s

@[simp] theorem run_nil (step : σ → ι → σ) (s : σ) : run step s [] = s := rfl

@[simp] theorem run_cons (step : σ → ι → σ) (s : σ) (i : ι) (inputs : List ι) :
    run step s (i :: inputs) = run step (step s i) inputs := rfl

theorem run_append (step : σ → ι → σ) (s : σ) (first second : List ι) :
    run step s (first ++ second) = run step (run step s first) second := by
  simp [run]

theorem run_invariant {step : σ → ι → σ} {Inv : σ → Prop}
    (preserved : ∀ s i, Inv s → Inv (step s i)) {s : σ} (start : Inv s) (inputs : List ι) :
    Inv (run step s inputs) := by
  induction inputs generalizing s with
  | nil => exact start
  | cons i inputs ih => exact ih (preserved s i start)

theorem reachable_invariant {initial : σ → Prop} {step : σ → ι → σ} {Inv : σ → Prop}
    (established : ∀ s, initial s → Inv s) (preserved : ∀ s i, Inv s → Inv (step s i))
    {s : σ} (reached : Reachable initial step s) : Inv s := by
  obtain ⟨start, inputs, first, rfl⟩ := reached
  exact run_invariant preserved (established start first) inputs

/-- A state that ignores its inputs is where every longer run stays. -/
theorem run_absorbed {step : σ → ι → σ} {s : σ} (fixed : ∀ i, step s i = s)
    (inputs : List ι) : run step s inputs = s :=
  run_invariant (fun t i (same : t = s) => by rw [same, fixed i]) rfl inputs

/-- The states of a run that does not end: what it is in before its n-th input. -/
def trace (step : σ → ι → σ) (s : σ) (inputs : Nat → ι) : Nat → σ
  | 0 => s
  | n + 1 => step (trace step s inputs n) (inputs n)

@[simp] theorem trace_zero (step : σ → ι → σ) (s : σ) (inputs : Nat → ι) :
    trace step s inputs 0 = s := rfl

theorem trace_succ (step : σ → ι → σ) (s : σ) (inputs : Nat → ι) (n : Nat) :
    trace step s inputs (n + 1) = step (trace step s inputs n) (inputs n) := rfl

/-- An invariant of the steps that meet a condition holds as long as all of them do. -/
theorem trace_invariant {step : σ → ι → σ} {Meets : σ → ι → Prop} {Inv : σ → Prop}
    (preserved : ∀ s i, Meets s i → Inv s → Inv (step s i)) {s : σ} (start : Inv s)
    {inputs : Nat → ι} {n : Nat}
    (meets : ∀ k < n, Meets (trace step s inputs k) (inputs k)) :
    Inv (trace step s inputs n) := by
  induction n with
  | zero => exact start
  | succ n ih =>
    exact preserved _ _ (meets n n.lt_succ_self) (ih fun k before => meets k (by omega))

/-- What each step only adds to, later states have more of. -/
theorem trace_grows {step : σ → ι → σ} {α : Type} {record : σ → List α}
    (grows : ∀ s i, record s <+: record (step s i)) (s : σ) (inputs : Nat → ι) {n m : Nat}
    (later : n ≤ m) : record (trace step s inputs n) <+: record (trace step s inputs m) := by
  induction m, later using Nat.le_induction with
  | base => exact List.prefix_refl _
  | succ m _ ih => exact ih.trans (grows _ _)

end StepRuns
