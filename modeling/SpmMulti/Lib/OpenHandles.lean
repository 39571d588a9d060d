import SpmMulti.Lib.DescriptorSessions

/- Any number of descriptors at a time, each held as often as it was opened and not yet
   closed. The account fails at a use or a close of a descriptor that is not held. -/
namespace OpenHandles
open DescriptorSessions
variable {δ : Type} [DecidableEq δ]

def account (held : Multiset δ) : Event δ → Option (Multiset δ)
  | .opened d => some (d ::ₘ held)
  | .used d => if d ∈ held then some held else none
  | .closed d => if d ∈ held then some (held.erase d) else none

def balance (events : List (Event δ)) : Option (Multiset δ) := events.foldlM account 0

theorem balance_snoc (events : List (Event δ)) (e : Event δ) :
    balance (events ++ [e]) = (balance events).bind (account · e) := by
  simp [balance, List.foldlM_append]

/-- An account that holds at the end held at every point before. -/
theorem balance_before {first second : List (Event δ)}
    (balanced : (balance (first ++ second)).isSome) : (balance first).isSome := by
  rw [balance, List.foldlM_append] at balanced
  cases before : balance first with
  | none =>
    rw [balance] at before
    simp [before] at balanced
  | some held => rfl

end OpenHandles
