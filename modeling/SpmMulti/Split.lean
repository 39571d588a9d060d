import SpmMulti.Machine
import SpmMulti.Lib.DelimitedWords

/- split of source/util.cpp over eastl::string. The loop compares the input that is left
   with the word just cut off, so an input that equals that word ends it early; without a
   delimiter in the input, index is npos, index + 1 wraps to 0 and the input stays whole. -/
namespace SpmSplit
open SpmMachine DelimitedWords

/-- The index of the first occurrence; none is npos. -/
def find_first_of (input : List UInt8) (delimiter : UInt8) : Option Nat :=
  input.idxOf? delimiter

def substr (input : List UInt8) (position : Nat) : Option Nat → List UInt8
  | some n => (input.drop position).take n
  | none => input.drop position

def indexPlusOne : Option Nat → Nat
  | some index => index + 1
  | none => 0

/-- At most fuel rounds of the while loop; none when they do not end it. -/
def splitLoop (delimiter : UInt8) :
    Nat → List UInt8 → List UInt8 → List (List UInt8) → Option (List (List UInt8))
  | 0, input, word, attrs => if input = word then some attrs else none
  | fuel + 1, input, word, attrs =>
    if input = word then some attrs
    else
      let index := find_first_of input delimiter
      let word := substr input 0 index
      let rest := substr input (indexPlusOne index) (some input.length)
      if word.length = 0 then splitLoop delimiter fuel rest word attrs
      else splitLoop delimiter fuel rest word (attrs ++ [word])

def split (input : List UInt8) (delimiter : UInt8) : List (List UInt8) :=
  (splitLoop delimiter (input.length + 1) input [] []).getD []

/-- What the loop keeps of the pieces between delimiters, given the word before them. -/
def keepWords (previous : List UInt8) : List (List UInt8) → List (List UInt8)
  | [] => []
  | [p] => if p = previous then [] else if p = [] then [] else [p]
  | p :: q :: rest => (if p = [] then [] else [p]) ++ keepWords p (q :: rest)

theorem find_first_of_absent {input : List UInt8} {delimiter : UInt8}
    (absent : delimiter ∉ input) : find_first_of input delimiter = none :=
  List.idxOf?_eq_none_iff.mpr absent

theorem find_first_of_first {a rest : List UInt8} {delimiter : UInt8} (clean : delimiter ∉ a) :
    find_first_of (a ++ delimiter :: rest) delimiter = some a.length := by
  unfold find_first_of
  induction a with
  | nil => simp [List.idxOf?_cons]
  | cons b a ih =>
    simp only [List.mem_cons, not_or] at clean
    simp [List.idxOf?_cons, Ne.symm clean.1, ih clean.2]

theorem substr_word (a rest : List UInt8) (delimiter : UInt8) :
    substr (a ++ delimiter :: rest) 0 (some a.length) = a := by
  simp [substr]

theorem substr_rest (a rest : List UInt8) (delimiter : UInt8) :
    substr (a ++ delimiter :: rest) (a.length + 1) (some (a ++ delimiter :: rest).length) =
      rest := by
  have behind : (a ++ delimiter :: rest).drop (a.length + 1) = rest := by
    rw [List.append_cons]
    exact List.drop_left' (by simp)
  rw [substr, behind]
  exact List.take_of_length_le (by simp; omega)

theorem splitLoop_met (delimiter : UInt8) (fuel : Nat) (word : List UInt8)
    (attrs : List (List UInt8)) : splitLoop delimiter fuel word word attrs = some attrs := by
  cases fuel <;> simp [splitLoop]

/-- The loop ends within one round more than the input has characters, and keeps exactly
    what keepWords keeps. -/
theorem splitLoop_pieces {delimiter : UInt8} {fuel : Nat} {input word : List UInt8}
    (attrs : List (List UInt8)) (enough : input.length < fuel) (clean : delimiter ∉ word) :
    splitLoop delimiter fuel input word attrs =
      some (attrs ++ keepWords word (input.splitOn delimiter)) := by
  induction fuel generalizing input word attrs with
  | zero => omega
  | succ fuel ih =>
    rcases word_cases delimiter input with absent | ⟨a, rest, first, rfl⟩
    · rw [List.splitOn_eq_singleton absent]
      by_cases met : input = word
      · simp [splitLoop, met, keepWords]
      · by_cases empty : input = []
        · subst empty
          simp [splitLoop, met, keepWords, find_first_of_absent absent, substr, indexPlusOne,
            splitLoop_met]
        · simp [splitLoop, met, keepWords, empty, find_first_of_absent absent, substr,
            indexPlusOne, splitLoop_met]
    · have differ : a ++ delimiter :: rest ≠ word := by
        rintro rfl
        exact clean (by simp)
      have shorter : rest.length < fuel := by
        simp only [List.length_append, List.length_cons] at enough
        omega
      rw [List.splitOn_append_cons_self_of_not_mem first]
      obtain ⟨q, qs, pieces⟩ := List.exists_cons_of_ne_nil (List.splitOn_ne_nil delimiter rest)
      simp only [splitLoop, if_neg differ, find_first_of_first first, indexPlusOne, substr_word,
        substr_rest]
      rw [ih attrs shorter first, ih (attrs ++ [a]) shorter first, pieces, keepWords]
      by_cases empty : a = []
      · simp [empty]
      · simp [empty]

theorem keepWords_eq (previous : List UInt8) {pieces : List (List UInt8)}
    (nonempty : pieces ≠ []) :
    keepWords previous pieces =
      (if repeatsLast (previous :: pieces) then pieces.dropLast else pieces).filter (· ≠ []) := by
  fun_induction keepWords previous pieces with
  | case1 => contradiction
  | case2 previous => simp [repeatsLast]
  | case3 previous differ => simp [repeatsLast]
  | case4 previous p differ some_ => simp [repeatsLast, Ne.symm differ, some_]
  | case5 previous p q rest ih =>
    rw [ih (by simp)]
    simp only [repeatsLast]
    by_cases empty : p = []
    · subst empty
      by_cases repeated : repeatsLast ([] :: q :: rest) = true <;> simp [repeated]
    · by_cases repeated : repeatsLast (p :: q :: rest) = true <;> simp [repeated, empty]

/-- split keeps the non-empty pieces in order, less a last one that repeats the one before. -/
theorem split_eq (input : List UInt8) (delimiter : UInt8) :
    split input delimiter =
      (if repeatsLast ([] :: input.splitOn delimiter) then (input.splitOn delimiter).dropLast
        else input.splitOn delimiter).filter (· ≠ []) := by
  rw [split, splitLoop_pieces [] (Nat.lt_succ_self _) (by simp)]
  simpa using keepWords_eq [] (List.splitOn_ne_nil delimiter input)

/-- On words joined by the delimiter, only a repeated last word gets lost. -/
theorem split_joinWords {words : List (List UInt8)} {delimiter : UInt8} (some_ : words ≠ [])
    (nonempty : ∀ a ∈ words, a ≠ []) (clean : ∀ a ∈ words, delimiter ∉ a) :
    split (joinWords delimiter words) delimiter =
      if repeatsLast words then words.dropLast else words := by
  rw [split_eq, splitOn_joinWords some_ clean]
  cases words with
  | nil => contradiction
  | cons a words =>
    rw [repeatsLast_cons_of_ne words (Ne.symm (nonempty a (by simp)))]
    apply List.filter_eq_self.mpr
    intro b member
    have inside : b ∈ a :: words := by
      split at member
      · exact List.mem_of_mem_dropLast member
      · exact member
    simpa using nonempty b inside

theorem split_mem {input word : List UInt8} {delimiter : UInt8}
    (member : word ∈ split input delimiter) :
    word ≠ [] ∧ delimiter ∉ word ∧ word ⊆ input := by
  rw [split_eq, List.mem_filter, decide_eq_true_eq] at member
  have piece : word ∈ input.splitOn delimiter := by
    have kept := member.1
    split at kept
    · exact List.mem_of_mem_dropLast kept
    · exact kept
  exact ⟨member.2, piece_clean piece⟩

def Word (a : List UInt8) : Prop := a ≠ [] ∧ 32 ∉ a ∧ 0 ∉ a

/-- The text of a request: the command's name and its arguments, joined by single spaces. -/
def requestText (name : List UInt8) (args : List (List UInt8)) : List UInt8 :=
  joinWords 32 (name :: args)

theorem token_word {buffer token : List UInt8} (member : token ∈ split (cstr buffer) 32) :
    Word token := by
  obtain ⟨nonempty, clean, within⟩ := split_mem member
  exact ⟨nonempty, clean, fun bad => cstr_clean buffer (within bad)⟩

theorem not_mem_requestText {b : UInt8} {name : List UInt8} {args : List (List UInt8)}
    (absent : ∀ a ∈ name :: args, b ∉ a) (other : b ≠ 32) : b ∉ requestText name args := by
  intro member
  rcases joinWords_mem member with space | ⟨a, among, inside⟩
  · exact other space
  · exact absent a among inside

theorem requestText_tokens {name : List UInt8} {args : List (List UInt8)}
    (words : ∀ a ∈ name :: args, Word a) :
    split (cstr (requestText name args)) 32 =
      if repeatsLast (name :: args) then (name :: args).dropLast else name :: args := by
  have clean : 0 ∉ requestText name args :=
    not_mem_requestText (fun a member => (words a member).2.2) (by decide)
  rw [cstr_eq_self clean, requestText]
  exact split_joinWords (by simp) (fun a member => (words a member).1)
    (fun a member => (words a member).2.1)

end SpmSplit
