import Mathlib

/- Maps in insertion order: a list of entries with pairwise distinct keys, the key being a
   part of the entry. An entry is added at the end, and only under a new key. -/
namespace OrderedMaps
variable {α κ : Type} [DecidableEq κ] {key : α → κ}

structure OrderedMap (key : α → κ) where
  entries : List α
  distinct : (entries.map key).Nodup

namespace OrderedMap

def empty : OrderedMap key := ⟨[], List.nodup_nil⟩

def keys (m : OrderedMap key) : List κ := m.entries.map key

def lookup (m : OrderedMap key) (k : κ) : Option α := m.entries.find? fun a => key a = k

/-- Whether the entry was added, and the map then. -/
def insert (m : OrderedMap key) (a : α) : Bool × OrderedMap key :=
  if present : key a ∈ m.keys then (false, m)
  else (true, ⟨m.entries ++ [a], by
    simpa [List.nodup_append, m.distinct, keys] using present⟩)

/-- Whether there was an entry, and the map without it. -/
def erase (m : OrderedMap key) (k : κ) : Bool × OrderedMap key :=
  (decide (k ∈ m.keys), ⟨m.entries.eraseP fun a => key a = k,
    m.distinct.sublist (List.eraseP_sublist.map key)⟩)

theorem lookup_none_iff {m : OrderedMap key} {k : κ} : m.lookup k = none ↔ k ∉ m.keys := by
  simp [lookup, keys]

theorem lookup_some_iff {m : OrderedMap key} {k : κ} {a : α} :
    m.lookup k = some a ↔ a ∈ m.entries ∧ key a = k := by
  constructor
  · intro found
    exact ⟨List.mem_of_find?_eq_some found, by simpa using List.find?_some found⟩
  · rintro ⟨member, rfl⟩
    cases found : m.lookup (key a) with
    | none => exact absurd (List.mem_map_of_mem member) (lookup_none_iff.mp found)
    | some b =>
      have there : b ∈ m.entries := List.mem_of_find?_eq_some found
      have same : key b = key a := by simpa using List.find?_some found
      rw [List.inj_on_of_nodup_map m.distinct there member same]

theorem insert_present {m : OrderedMap key} {a : α} (present : key a ∈ m.keys) :
    m.insert a = (false, m) := dif_pos present

theorem erase_absent {m : OrderedMap key} {k : κ} (absent : k ∉ m.keys) :
    m.erase k = (false, m) := by
  have kept : m.entries.eraseP (fun a => key a = k) = m.entries := by
    apply List.eraseP_of_forall_not
    intro a member
    simp only [decide_eq_true_eq]
    rintro rfl
    exact absent (List.mem_map_of_mem member)
  simp only [erase, kept, absent, decide_false]

end OrderedMap

end OrderedMaps
