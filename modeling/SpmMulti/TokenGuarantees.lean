import SpmMulti.Handling

/- The tokens of a text: what split makes of any string, and which accesses to the vector
   of tokens find an element there. -/
namespace SpmTokenGuarantees
open SpmMachine SpmSplit SpmConsole SpmCommandManager SpmCommands SpmHandling DelimitedWords
variable {input : List UInt8} {delimiter : UInt8}

theorem splitLoop_ends (input : List UInt8) (delimiter : UInt8) {fuel : Nat}
    (enough : input.length < fuel) :
    splitLoop delimiter fuel input [] [] = some (split input delimiter) := by
  rw [split, splitLoop_pieces [] enough (by simp),
    splitLoop_pieces [] (Nat.lt_succ_self _) (by simp)]
  rfl

theorem pieces_join (input : List UInt8) (delimiter : UInt8) :
    joinWords delimiter (input.splitOn delimiter) = input :=
  List.intercalate_splitOn delimiter

/-- The last two pieces are one non-empty word twice. -/
def LastTwice (pieces : List (List UInt8)) : Prop :=
  ∃ front p, pieces = front ++ [p, p] ∧ p ≠ []

/-- The empty word in front of the first piece matters only to pieces that split skips. -/
theorem repeatsLast_word {pieces : List (List UInt8)} (some_ : pieces ≠ []) :
    (repeatsLast ([] :: pieces) = true ∧ pieces.getLast some_ ≠ []) ↔ LastTwice pieces := by
  rw [repeatsLast_iff]
  constructor
  · rintro ⟨⟨front, t, same⟩, nonempty⟩
    cases front with
    | nil =>
      obtain ⟨rfl, rfl⟩ := List.cons.inj same
      exact absurd rfl nonempty
    | cons d front =>
      simp only [List.cons_append, List.cons.injEq] at same
      obtain ⟨-, rfl⟩ := same
      exact ⟨front, t, rfl, by simpa using nonempty⟩
  · rintro ⟨front, p, rfl, nonempty⟩
    exact ⟨⟨[] :: front, p, rfl⟩, by simpa using nonempty⟩

theorem filter_dropLast_empty {pieces : List (List UInt8)} (some_ : pieces ≠ [])
    (last : pieces.getLast some_ = []) :
    pieces.dropLast.filter (· ≠ []) = pieces.filter (· ≠ []) := by
  conv => rhs; rw [← List.dropLast_append_getLast some_, last]
  simp

theorem split_dropped (dropped : LastTwice (input.splitOn delimiter)) :
    split input delimiter = (input.splitOn delimiter).dropLast.filter (· ≠ []) := by
  rw [split_eq, if_pos ((repeatsLast_word (List.splitOn_ne_nil delimiter input)).mpr dropped).1]

theorem split_kept (kept : ¬ LastTwice (input.splitOn delimiter)) :
    split input delimiter = (input.splitOn delimiter).filter (· ≠ []) := by
  have some_ := List.splitOn_ne_nil delimiter input
  rw [split_eq]
  split
  · rename_i repeated
    apply filter_dropLast_empty some_
    by_contra nonempty
    exact kept ((repeatsLast_word some_).mp ⟨repeated, nonempty⟩)
  · rfl

/-- The loop ends, and keeps the non-empty pieces between the delimiters in order, without
    the last of them exactly when it is non-empty and equals the piece before it. -/
theorem split_exact (input : List UInt8) (delimiter : UInt8) :
    (joinWords delimiter (input.splitOn delimiter) = input ∧
      ∀ p ∈ input.splitOn delimiter, delimiter ∉ p) ∧
    (∀ fuel, input.length < fuel →
      splitLoop delimiter fuel input [] [] = some (split input delimiter)) ∧
    (LastTwice (input.splitOn delimiter) →
      split input delimiter = (input.splitOn delimiter).dropLast.filter (· ≠ [])) ∧
    (¬ LastTwice (input.splitOn delimiter) →
      split input delimiter = (input.splitOn delimiter).filter (· ≠ [])) :=
  ⟨⟨pieces_join input delimiter, fun _ member => (piece_clean member).1⟩,
    fun _ enough => splitLoop_ends input delimiter enough, split_dropped, split_kept⟩

theorem mem_split_iff {word : List UInt8} :
    word ∈ split input delimiter ↔ word ≠ [] ∧ word ∈ input.splitOn delimiter := by
  rw [split_eq, List.mem_filter, decide_eq_true_eq, and_comm]
  split
  · rename_i repeated
    exact and_congr_right fun nonempty =>
      ⟨List.mem_of_mem_dropLast, fun member => mem_dropLast_of_repeatsLast repeated member nonempty⟩
  · rfl

theorem split_nil_iff : split input delimiter = [] ↔ ∀ b ∈ input, b = delimiter := by
  rw [List.eq_nil_iff_forall_not_mem]
  constructor
  · intro none_ b member
    rw [← pieces_join input delimiter] at member
    rcases joinWords_mem member with same | ⟨word, among, inside⟩
    · exact same
    · exact absurd (mem_split_iff.mpr ⟨List.ne_nil_of_mem inside, among⟩) (none_ word)
  · intro all word member
    obtain ⟨nonempty, absent, within⟩ := split_mem member
    obtain ⟨b, inside⟩ := List.exists_mem_of_ne_nil word nonempty
    exact absent (all b (within inside) ▸ inside)

/-- No access to the vector of tokens, in parseAndExecute or in a callback, is past its end. -/
def IndicesInRange (lib : Snprintf) (str : List UInt8) : Prop :=
  ∀ responseSize c index size,
    ((registry lib).parseAndExecute lib str responseSize c).outcome ≠
      .error (.vectorIndex index size)

theorem blank_out_of_range (lib : Snprintf) {str : List UInt8} (blank : ∀ b ∈ cstr str, b = 32) :
    ¬ IndicesInRange lib str := by
  intro inRange
  refine inRange 0 ⟨fun _ => 0, fun _ => ⟨0, fun _ => 0⟩, [], []⟩ 0 0 ?_
  rw [handled_nothing (split_nil_iff.mpr blank)]

/-- The accesses are in range exactly for the texts with a character other than a space. -/
theorem indices_in_range_iff (lib : Snprintf) (str : List UInt8) :
    IndicesInRange lib str ↔ ∃ b ∈ cstr str, b ≠ 32 := by
  constructor
  · intro inRange
    by_contra blank
    push Not at blank
    exact blank_out_of_range lib blank inRange
  · rintro ⟨b, member, other⟩ responseSize c index size faults
    have some_ : split (cstr str) 32 ≠ [] := fun none_ =>
      other (split_nil_iff.mp none_ b member)
    obtain ⟨body, _, runs⟩ := dispatched lib some_ responseSize
    rw [runs c] at faults
    contradiction

theorem empty_text_out_of_range : ¬ IndicesInRange mslSnprintf (text "") :=
  blank_out_of_range mslSnprintf (by simp [text, cstr])

end SpmTokenGuarantees
