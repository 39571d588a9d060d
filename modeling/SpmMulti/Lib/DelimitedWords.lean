import Mathlib

/- Words joined and separated by a delimiter, and the one shape of a word list that a
   reader comparing neighbours confuses with the end of its input: a last word that
   repeats the word before it. -/
namespace DelimitedWords
variable {α β : Type}

def joinWords (x : α) (words : List (List α)) : List α := [x].intercalate words

/-- The last two entries are equal. -/
def repeatsLast [DecidableEq β] : List β → Bool
  | [] => false
  | [_] => false
  | [a, b] => a = b
  | _ :: b :: c :: rest => repeatsLast (b :: c :: rest)

theorem repeatsLast_iff [DecidableEq β] (ws : List β) :
    repeatsLast ws = true ↔ ∃ front t, ws = front ++ [t, t] := by
  fun_induction repeatsLast ws with
  | case1 => simp
  | case2 a =>
    simp only [Bool.false_eq_true, false_iff, not_exists]
    intro front t same
    have := congrArg List.length same
    simp at this
  | case3 a b =>
    simp only [decide_eq_true_eq]
    constructor
    · rintro rfl
      exact ⟨[], a, rfl⟩
    · rintro ⟨front, t, same⟩
      have empty : front = [] := by simpa using congrArg List.length same
      simp_all
  | case4 a b c rest ih =>
    rw [ih]
    constructor
    · rintro ⟨front, t, same⟩
      exact ⟨a :: front, t, by rw [same]; rfl⟩
    · rintro ⟨front, t, same⟩
      cases front with
      | nil =>
        have := congrArg List.length same
        simp at this
      | cons d front =>
        simp only [List.cons_append, List.cons.injEq] at same
        exact ⟨front, t, same.2⟩

theorem repeatsLast_cons_of_ne [DecidableEq β] {a b : β} (ws : List β) (differ : a ≠ b) :
    repeatsLast (a :: b :: ws) = repeatsLast (b :: ws) := by
  cases ws with
  | nil => simp [repeatsLast, differ]
  | cons c ws => rfl

/-- Dropping a repeated last entry loses no entry other than the one put in front. -/
theorem mem_dropLast_of_repeatsLast [DecidableEq β] {a b : β} {ws : List β}
    (repeated : repeatsLast (a :: ws) = true) (member : b ∈ ws) (differ : b ≠ a) :
    b ∈ ws.dropLast := by
  obtain ⟨front, t, same⟩ := (repeatsLast_iff _).mp repeated
  cases front with
  | nil =>
    obtain ⟨rfl, rfl⟩ := List.cons.inj same
    exact absurd (List.mem_singleton.mp member) differ
  | cons d front =>
    simp only [List.cons_append, List.cons.injEq] at same
    obtain ⟨-, rfl⟩ := same
    have cut : (front ++ [t, t]).dropLast = front ++ [t] := by
      rw [List.append_cons, List.dropLast_concat]
    rw [cut]
    simpa using member

@[simp] theorem joinWords_singleton (x : α) (a : List α) : joinWords x [a] = a := by
  simp [joinWords]

theorem joinWords_cons_cons (x : α) (a b : List α) (rest : List (List α)) :
    joinWords x (a :: b :: rest) = a ++ x :: joinWords x (b :: rest) := by
  simp [joinWords, List.intercalate]

theorem joinWords_mem {x b : α} {words : List (List α)} (member : b ∈ joinWords x words) :
    b = x ∨ ∃ a ∈ words, b ∈ a := by
  induction words with
  | nil => simp [joinWords] at member
  | cons a rest ih =>
    cases rest with
    | nil => exact Or.inr ⟨a, by simp, by simpa using member⟩
    | cons a' rest =>
      rw [joinWords_cons_cons, List.mem_append, List.mem_cons] at member
      rcases member with here | same | later
      · exact Or.inr ⟨a, by simp, here⟩
      · exact Or.inl same
      · rcases ih later with same | ⟨a, among, inside⟩
        · exact Or.inl same
        · exact Or.inr ⟨a, List.mem_cons_of_mem _ among, inside⟩

theorem splitOn_joinWords [DecidableEq α] {x : α} {words : List (List α)} (nonempty : words ≠ [])
    (clean : ∀ a ∈ words, x ∉ a) : (joinWords x words).splitOn x = words :=
  List.splitOn_intercalate x clean nonempty

theorem word_cases [DecidableEq α] (x : α) (text : List α) :
    x ∉ text ∨ ∃ a rest, x ∉ a ∧ text = a ++ x :: rest := by
  by_cases member : x ∈ text
  · obtain ⟨a, rest, cut, clean⟩ := List.eq_append_cons_of_mem member
    exact Or.inr ⟨a, rest, clean, cut⟩
  · exact Or.inl member

theorem piece_clean [DecidableEq α] {x : α} {text piece : List α}
    (member : piece ∈ text.splitOn x) : x ∉ piece ∧ piece ⊆ text := by
  induction size : text.length using Nat.strongRecOn generalizing text with
  | ind n ih =>
    rcases word_cases x text with absent | ⟨a, rest, clean, rfl⟩
    · rw [List.splitOn_eq_singleton absent, List.mem_singleton] at member
      subst piece
      exact ⟨absent, List.Subset.refl _⟩
    · rw [List.splitOn_append_cons_self_of_not_mem clean, List.mem_cons] at member
      rcases member with rfl | later
      · exact ⟨clean, List.subset_append_left _ _⟩
      · have shorter : rest.length < n := by
          simp only [List.length_append, List.length_cons] at size
          omega
        obtain ⟨absent, inside⟩ := ih rest.length shorter later rfl
        exact ⟨absent, fun c member => by simp [inside member]⟩

end DelimitedWords
