import Mathlib

/- A stream cut into segments, and the first segment that brings a wanted element.
   The segments before it, and the stream up to its end, do not depend on what a
   reader does with the elements. -/
namespace StreamSegments
variable {α : Type}

/-- The cut at the first segment holding x: what came before, that segment, what follows. -/
def FirstWith (x : α) (segments before : List (List α)) (segment : List α)
    (after : List (List α)) : Prop :=
  segments = before ++ segment :: after ∧ x ∉ before.flatten ∧ x ∈ segment

theorem all_ne_of_absent [DecidableEq α] {x : α} {ys : List α} (absent : x ∉ ys) :
    ∀ y ∈ ys, decide (y ≠ x) = true := by
  intro y inside
  simp only [decide_eq_true_eq]
  rintro rfl
  exact absent inside

theorem first_with_exists [DecidableEq α] {x : α} {segments : List (List α)}
    (member : x ∈ segments.flatten) :
    ∃ before segment after, FirstWith x segments before segment after := by
  induction segments with
  | nil => simp at member
  | cons s rest ih =>
    by_cases here : x ∈ s
    · exact ⟨[], s, rest, rfl, by simp, here⟩
    · have later : x ∈ rest.flatten := by simpa [here] using member
      obtain ⟨before, segment, after, cut, absent, found⟩ := ih later
      refine ⟨s :: before, segment, after, by rw [cut]; rfl, ?_, found⟩
      simp only [List.flatten_cons, List.mem_append]
      rintro (bad | bad)
      · exact here bad
      · exact absent bad

theorem first_with_unique {x : α} {segments before before' after after' : List (List α)}
    {segment segment' : List α} (first : FirstWith x segments before segment after)
    (other : FirstWith x segments before' segment' after') :
    before = before' ∧ segment = segment' := by
  obtain ⟨rfl, absent, found⟩ := first
  obtain ⟨same, absent', found'⟩ := other
  induction before generalizing before' with
  | nil =>
    cases before' with
    | nil => exact ⟨rfl, (List.cons.inj same).1⟩
    | cons s rest =>
      obtain ⟨rfl, -⟩ := List.cons.inj same
      exact absurd (by simp [found]) absent'
  | cons s rest ih =>
    cases before' with
    | nil =>
      obtain ⟨rfl, -⟩ := List.cons.inj same
      exact absurd (by simp [found']) absent
    | cons s' rest' =>
      obtain ⟨rfl, tails⟩ := List.cons.inj same
      simp only [List.flatten_cons, List.mem_append, not_or] at absent absent'
      obtain ⟨rfl, equal⟩ := ih absent.2 tails absent'.2
      exact ⟨rfl, equal⟩

theorem takeWhile_first_with [DecidableEq α] {x : α} {segments before after : List (List α)}
    {segment : List α} (first : FirstWith x segments before segment after) :
    segments.flatten.takeWhile (· ≠ x) =
      before.flatten ++ segment.takeWhile (· ≠ x) := by
  obtain ⟨rfl, absent, found⟩ := first
  rw [List.flatten_append, List.takeWhile_append_of_pos (all_ne_of_absent absent),
    List.flatten_cons]
  congr 1
  have stops : (segment.takeWhile (· ≠ x)).length ≠ segment.length := by
    intro full
    have whole := (List.takeWhile_prefix (fun y => decide (y ≠ x))).eq_of_length full
    have bad := List.mem_takeWhile_imp (whole ▸ found)
    simp at bad
  rw [List.takeWhile_append, if_neg stops]

/-- Dropping one element off the stream so far leaves exactly what precedes the first x
    when, and only when, the segment that brought x ends with it. -/
theorem dropLast_eq_takeWhile_iff [DecidableEq α] {x : α} {segments before after : List (List α)}
    {segment : List α} (first : FirstWith x segments before segment after) :
    (before.flatten ++ segment).dropLast = segments.flatten.takeWhile (· ≠ x) ↔
      ∃ front, x ∉ front ∧ segment = front ++ [x] := by
  have nonempty : segment ≠ [] := List.ne_nil_of_mem first.2.2
  rw [takeWhile_first_with first, List.dropLast_append_of_ne_nil nonempty,
    List.append_cancel_left_eq]
  constructor
  · intro same
    have rebuilt := List.dropLast_append_getLast nonempty
    have clean : x ∉ segment.dropLast := by
      rw [same]
      intro bad
      simpa using List.mem_takeWhile_imp bad
    have last : segment.getLast nonempty = x := by
      have found := first.2.2
      rw [← rebuilt, List.mem_append, List.mem_singleton] at found
      exact (found.resolve_left clean).symm
    exact ⟨segment.dropLast, clean, by rw [← last, rebuilt]⟩
  · rintro ⟨front, clean, rfl⟩
    rw [List.takeWhile_append_of_pos (all_ne_of_absent clean)]
    simp

/-- A line padded with x, however it is cut: the first segment with x ends in the padding. -/
theorem first_with_padded {x : α} {segments before after : List (List α)} {segment line : List α}
    {k : Nat} (first : FirstWith x segments before segment after)
    (padded : segments.flatten = line ++ List.replicate k x) (plain : x ∉ line) :
    ∃ j < k, before.flatten ++ segment = line ++ List.replicate (j + 1) x := by
  obtain ⟨cut, absent, found⟩ := first
  have whole : (before.flatten ++ segment) ++ after.flatten = line ++ List.replicate k x := by
    rw [← padded, cut, List.flatten_append, List.flatten_cons, List.append_assoc]
  have within : x ∈ before.flatten ++ segment := List.mem_append_right _ found
  rcases List.append_eq_append_iff.mp whole with ⟨more, left, right⟩ | ⟨more, left, right⟩
  · exact absurd (left ▸ List.mem_append_left _ within) plain
  · obtain ⟨size, same, -⟩ := List.replicate_eq_append_iff.mp right
    have some_ : more ≠ [] := by
      rintro rfl
      rw [List.append_nil] at left
      exact plain (left ▸ within)
    have positive := List.length_pos_iff.mpr some_
    refine ⟨more.length - 1, by omega, ?_⟩
    rw [left, Nat.sub_add_cancel positive, ← same]

end StreamSegments
