import Mathlib

/- Sessions on descriptors, as the calls of a program show them: one is opened, used while it
   is open, and closed. The monitor holds at most one descriptor; it gives up on a second
   open, on a use or close of a descriptor that is not the one held, and so on a use after
   the close and on a second close. -/
namespace DescriptorSessions
variable {δ : Type} [DecidableEq δ]

inductive Event (δ : Type) where
  | opened (d : δ)
  | used (d : δ)
  | closed (d : δ)

def track : Option δ → Event δ → Option (Option δ)
  | none, .opened d => some (some d)
  | some d, .used e => if e = d then some (some d) else none
  | some d, .closed e => if e = d then some none else none
  | _, _ => none

/-- What is held after the events, as long as the monitor has not given up. -/
def follow (held : Option δ) (events : List (Event δ)) : Option (Option δ) :=
  events.foldlM track held

@[simp] theorem follow_nil (held : Option δ) : follow held [] = some held := rfl

@[simp] theorem follow_opened (d : δ) (events : List (Event δ)) :
    follow none (.opened d :: events) = follow (some d) events := rfl

@[simp] theorem follow_used (d : δ) (events : List (Event δ)) :
    follow (some d) (.used d :: events) = follow (some d) events := by
  simp [follow, track]

@[simp] theorem follow_closed (d : δ) (events : List (Event δ)) :
    follow (some d) (.closed d :: events) = follow none events := by
  simp [follow, track]

theorem follow_append (held : Option δ) (first second : List (Event δ)) :
    follow held (first ++ second) = (follow held first).bind fun next => follow next second :=
  List.foldlM_append

/-- Only what was held can have been closed. -/
theorem follow_before_close {held : Option δ} {events : List (Event δ)} {d : δ}
    (closes : follow held (events ++ [.closed d]) = some none) :
    follow held events = some (some d) := by
  rw [follow_append] at closes
  obtain ⟨next, reaches, last⟩ := Option.bind_eq_some_iff.mp closes
  cases next with
  | none => simp [follow, track] at last
  | some e =>
    by_cases same : d = e
    · rw [reaches, same]
    · simp [follow, track, same] at last

theorem follow_uses (d : δ) {uses : List (Event δ)} (all : ∀ e ∈ uses, e = .used d) :
    follow (some d) uses = some (some d) := by
  induction uses with
  | nil => rfl
  | cons e uses ih =>
    rw [all e (by simp), follow_used]
    exact ih fun other member => all other (by simp [member])

/-- Sessions one after the other leave nothing open. -/
theorem follow_sessions {sessions : List (List (Event δ))}
    (each : ∀ session ∈ sessions, follow none session = some none) :
    follow none sessions.flatten = some none := by
  induction sessions with
  | nil => rfl
  | cons session sessions ih =>
    rw [List.flatten_cons, follow_append, each session (by simp)]
    exact ih fun other member => each other (by simp [member])

end DescriptorSessions
