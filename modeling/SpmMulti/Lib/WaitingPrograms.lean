import Mathlib

/- Programs with a state that may have to wait for something from outside: such a run gives no
   value, only the state it waits in. What is ensured of a program says where a return leaves
   the state and where the state is found waiting. -/
namespace WaitingPrograms
variable {σ α β : Type}

abbrev Waiting (σ : Type) := OptionT (StateM σ)

def Ensures (before : σ → Prop) (program : Waiting σ α) (after : α → σ → Prop)
    (waits : σ → Prop) : Prop :=
  ∀ s, before s → match program.run.run s with
    | (some a, t) => after a t
    | (none, t) => waits t

variable {before : σ → Prop} {program : Waiting σ α} {after : α → σ → Prop} {waits : σ → Prop}

theorem ensures_pure {a : α} (returns : ∀ s, before s → after a s) :
    Ensures before (pure a) after waits :=
  fun s holds => returns s holds

theorem ensures_bind {between : β → σ → Prop} {first : Waiting σ β} {next : β → Waiting σ α}
    (ensured : Ensures before first between waits)
    (continues : ∀ b, Ensures (between b) (next b) after waits) :
    Ensures before (first >>= next) after waits := by
  intro s holds
  have reached := ensured s holds
  simp only [OptionT.run_bind, StateT.run_bind, Option.elimM]
  revert reached
  rcases first.run.run s with ⟨_ | b, t⟩
  · exact id
  · exact continues b t

theorem ensures_get {next : σ → Waiting σ α}
    (continues : ∀ s, before s → Ensures (· = s) (next s) after waits) :
    Ensures before (get >>= next) after waits :=
  fun s holds => continues s holds s rfl

theorem Ensures.here {s : σ} (ensured : Ensures before program after waits) (holds : before s) :
    Ensures (· = s) program after waits := by
  intro t same
  exact ensured t (same ▸ holds)

theorem ensures_modify {change : σ → σ} {after : Unit → σ → Prop}
    (changed : ∀ s, before s → after () (change s)) :
    Ensures before (modify change : Waiting σ Unit) after waits :=
  fun s holds => changed s holds

theorem Ensures.enter {sooner : σ → Prop} (ensured : Ensures before program after waits)
    (enters : ∀ s, sooner s → before s) : Ensures sooner program after waits :=
  fun s holds => ensured s (enters s holds)

theorem Ensures.waiting {sooner : σ → Prop} (ensured : Ensures before program after sooner)
    (waited : ∀ s, sooner s → waits s) : Ensures before program after waits := by
  intro s holds
  have reached := ensured s holds
  revert reached
  rcases program.run.run s with ⟨_ | a, t⟩
  · exact waited t
  · exact id

/-- A program on the first part of a larger state. -/
def onFirst {ρ : Type} (program : Waiting σ α) : Waiting (σ × ρ) α :=
  OptionT.mk fun s =>
    let (a, t) := program.run.run s.1
    (a, t, s.2)

theorem ensures_onFirst {ρ : Type} (rest : ρ → Prop)
    (ensured : Ensures before program after waits) :
    Ensures (fun s => before s.1 ∧ rest s.2) (onFirst program) (fun a s => after a s.1 ∧ rest s.2)
      (fun s => waits s.1 ∧ rest s.2) := by
  intro s holds
  have reached := ensured s.1 holds.1
  have ran : (onFirst program).run.run s =
      ((program.run.run s.1).1, (program.run.run s.1).2, s.2) := rfl
  rw [ran]
  revert reached
  rcases program.run.run s.1 with ⟨_ | a, t⟩
  · exact fun waited => ⟨waited, holds.2⟩
  · exact fun returned => ⟨returned, holds.2⟩

end WaitingPrograms
