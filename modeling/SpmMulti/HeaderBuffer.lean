import SpmMulti.CoreHttp

/- The buffer in which a request's headers are built, as the text it holds: where the next header
   goes, and what a header that does not fit, or is rejected, leaves behind. -/
namespace SpmHeaderBuffer
open SpmMachine SpmHttp SpmCoreHttp OverlaidMemory PositionalNumeral

def Clean (value : List UInt8) : Prop :=
  ∀ c ∈ value, c ≠ CARRIAGE_RETURN_CHARACTER ∧ c ≠ LINEFEED_CHARACTER

instance (value : List UInt8) : Decidable (Clean value) :=
  inferInstanceAs (Decidable (∀ c ∈ value, _))

def headerLine (field value : List UInt8) : List UInt8 :=
  field ++ HTTP_HEADER_FIELD_SEPARATOR ++ value ++ HTTP_HEADER_LINE_SEPARATOR

/-- The name of a header: httpHeaderStrncpy copies all of it. -/
def Name (field : List UInt8) : Prop := Clean field ∧ COLON_CHARACTER ∉ field

/-- A header buffer whose next header goes behind front. -/
structure Behind (front : List UInt8) (h : HTTPRequestHeaders) : Prop where
  cur : backtrackHeaderLen h = front.length
  buffer : ∃ rest, h.buffer = front ++ rest

/-- A header buffer with the header block whose lines are given. -/
structure Built (lines : List UInt8) (h : HTTPRequestHeaders) : Prop where
  headersLen : h.headersLen = (lines ++ HTTP_HEADER_LINE_SEPARATOR).length
  buffer : ∃ rest, h.buffer = lines ++ HTTP_HEADER_LINE_SEPARATOR ++ rest

theorem copied {isField : Bool} {src : List UInt8} (clean : Clean src)
    (plain : isField → COLON_CHARACTER ∉ src) (front rest : List UInt8) :
    httpHeaderStrncpy (front ++ rest) front.length isField src =
      (true, front ++ src ++ rest.drop src.length) := by
  induction src generalizing front rest with
  | nil => simp [httpHeaderStrncpy]
  | cons c src ih =>
    obtain ⟨noReturn, noFeed⟩ := clean c (by simp)
    have noColon : ¬ (isField ∧ c = COLON_CHARACTER) := fun ⟨field, colon⟩ =>
      plain field (by simp [colon])
    rw [httpHeaderStrncpy, if_neg noReturn, if_neg noFeed, if_neg noColon, overlay_behind]
    have later := ih (fun d member => clean d (by simp [member]))
      (fun field member => plain field (by simp [member])) (front ++ [c]) (rest.drop 1)
    rw [List.length_append, List.length_singleton] at later
    rw [List.length_singleton, later]
    simp

/-- The copy of an unclean value ends early, with the text in front of it as it was. -/
theorem rejected {src : List UInt8} (unclean : ¬ Clean src) (front rest : List UInt8)
    (room : src.length ≤ rest.length) :
    ∃ after, httpHeaderStrncpy (front ++ rest) front.length false src = (false, front ++ after) ∧
      after.length = rest.length := by
  induction src generalizing front rest with
  | nil => exact absurd (by simp [Clean]) unclean
  | cons c src ih =>
    rw [httpHeaderStrncpy]
    by_cases return_ : c = CARRIAGE_RETURN_CHARACTER
    · exact ⟨rest, by rw [if_pos return_], rfl⟩
    by_cases feed : c = LINEFEED_CHARACTER
    · exact ⟨rest, by rw [if_neg return_, if_pos feed], rfl⟩
    have later : ¬ Clean src := by
      refine fun clean => unclean fun d member => ?_
      rcases List.mem_cons.mp member with rfl | member
      · exact ⟨return_, feed⟩
      · exact clean d member
    rw [List.length_cons] at room
    obtain ⟨after, copy, same⟩ := ih later (front ++ [c]) (rest.drop 1) (by simp; omega)
    rw [List.length_append, List.length_singleton] at copy
    rw [if_neg return_, if_neg feed, if_neg (by simp), overlay_behind, List.length_singleton, copy]
    refine ⟨c :: after, by simp, ?_⟩
    rw [List.length_cons, same, List.length_drop]
    omega

section Adding
variable {front field value : List UInt8} {h : HTTPRequestHeaders}

/-- The test for enough space, in terms of the text that is to be there. -/
theorem room_iff (rest : List UInt8) :
    front.length + (field.length + HTTP_HEADER_FIELD_SEPARATOR.length + value.length +
      HTTP_HEADER_LINE_SEPARATOR.length + HTTP_HEADER_LINE_SEPARATOR.length) ≤ rest.length ↔
      (front ++ headerLine field value ++ HTTP_HEADER_LINE_SEPARATOR).length ≤ rest.length := by
  simp only [headerLine, List.length_append]
  omega

theorem addHeader_full (behind : Behind front h)
    (full : ¬ (front ++ headerLine field value ++ HTTP_HEADER_LINE_SEPARATOR).length ≤
      h.buffer.length) :
    addHeader h field value = (.HTTPInsufficientMemory, h) := by
  simp only [addHeader, behind.cur, room_iff]
  rw [if_neg full]

/-- Once the name is there, the value follows, and then the end of the headers. -/
theorem addHeader_named (behind : Behind front h) (name : Name field)
    (fits : (front ++ headerLine field value ++ HTTP_HEADER_LINE_SEPARATOR).length ≤
      h.buffer.length) :
    ∃ head rest, head = front ++ field ++ HTTP_HEADER_FIELD_SEPARATOR ∧
      (head ++ rest).length = h.buffer.length ∧
      value.length + HTTP_HEADER_END_INDICATOR.length ≤ rest.length ∧
      addHeader h field value =
        match httpHeaderStrncpy (head ++ rest) head.length false value with
        | (false, buffer) => (.HTTPSecurityAlertInvalidCharacter, { h with buffer := buffer })
        | (true, buffer) => (.HTTPSuccess,
          ⟨overlay buffer (head ++ value).length HTTP_HEADER_END_INDICATOR,
            (front ++ headerLine field value ++ HTTP_HEADER_LINE_SEPARATOR).length⟩) := by
  obtain ⟨rest, buffer⟩ := behind.buffer
  have two : HTTP_HEADER_LINE_SEPARATOR.length = 2 := rfl
  have four : HTTP_HEADER_END_INDICATOR.length = 4 := rfl
  have long := fits
  rw [buffer] at long ⊢
  simp only [headerLine, List.length_append, two] at long
  refine ⟨_, (rest.drop field.length).drop HTTP_HEADER_FIELD_SEPARATOR.length, rfl, ?_, ?_, ?_⟩
  · simp only [List.length_append, List.length_drop]
    omega
  · simp only [List.length_drop, four]
    omega
  · simp only [addHeader, behind.cur, room_iff]
    rw [if_pos fits, buffer, @copied true field name.1 (fun _ => name.2) front rest]
    simp only
    rw [← List.length_append, overlay_behind, ← List.length_append]
    rcases httpHeaderStrncpy _ _ false value with ⟨_ | _, after⟩
    · rfl
    · simp [headerLine, Nat.add_assoc]

theorem addHeader_added (behind : Behind front h) (name : Name field) (clean : Clean value)
    (fits : (front ++ headerLine field value ++ HTTP_HEADER_LINE_SEPARATOR).length ≤
      h.buffer.length) :
    ∃ added, addHeader h field value = (.HTTPSuccess, added) ∧
      Built (front ++ headerLine field value) added ∧
      added.buffer.length = h.buffer.length := by
  obtain ⟨head, rest, text_, same, room, adds⟩ := addHeader_named behind name fits
  rw [@copied false value clean (by simp) head rest] at adds
  simp only [overlay_behind] at adds
  refine ⟨_, adds, ⟨rfl, ?_⟩, ?_⟩
  · refine ⟨(rest.drop value.length).drop HTTP_HEADER_END_INDICATOR.length, ?_⟩
    simp [text_, headerLine, HTTP_HEADER_END_INDICATOR, HTTP_HEADER_LINE_SEPARATOR]
  · rw [← same]
    simp only [List.length_append, List.length_drop]
    omega

/-- What follows front is lost: the name is there, and as much of the value as was copied. -/
theorem addHeader_rejected (behind : Behind front h) (name : Name field) (unclean : ¬ Clean value)
    (fits : (front ++ headerLine field value ++ HTTP_HEADER_LINE_SEPARATOR).length ≤
      h.buffer.length) :
    ∃ after, addHeader h field value =
        (.HTTPSecurityAlertInvalidCharacter, { h with buffer := front ++ field ++ after }) ∧
      (front ++ field ++ after).length = h.buffer.length := by
  obtain ⟨head, rest, text_, same, room, adds⟩ := addHeader_named behind name fits
  obtain ⟨after, copy, kept⟩ := rejected unclean head rest (Nat.le_of_add_right_le room)
  rw [copy, text_] at adds
  refine ⟨HTTP_HEADER_FIELD_SEPARATOR ++ after, by simpa using adds, ?_⟩
  rw [← same, text_]
  simp [kept]

end Adding

/-- The four bytes at the end of the headers decide whether the next header goes in front. -/
theorem backtrack_at {lines last rest buffer : List UInt8} {headersLen : Nat}
    (text_ : buffer = lines ++ last ++ rest) (four : last.length = 4)
    (ends : headersLen = (lines ++ last).length) :
    backtrackHeaderLen ⟨buffer, headersLen⟩ =
      if last = HTTP_HEADER_END_INDICATOR then headersLen - HTTP_HEADER_LINE_SEPARATOR.length
      else headersLen := by
  have start : headersLen - 4 = lines.length := by
    rw [ends, List.length_append, four, Nat.add_sub_cancel]
  have found : (buffer.drop (headersLen - 4)).take 4 = last := by
    rw [start, text_, List.append_assoc, List.drop_left, ← four, List.take_left]
  have long : 4 ≤ headersLen := by
    rw [ends, List.length_append, four]
    omega
  simp only [backtrackHeaderLen, found, long, true_and]

theorem headerLine_ends (front field value : List UInt8) :
    front ++ headerLine field value =
      front ++ field ++ HTTP_HEADER_FIELD_SEPARATOR ++ value ++ HTTP_HEADER_LINE_SEPARATOR := by
  simp [headerLine]

theorem Built.behind {front field value : List UInt8} {h : HTTPRequestHeaders}
    (built : Built (front ++ headerLine field value) h) :
    Behind (front ++ headerLine field value) h := by
  obtain ⟨headersLen, rest, buffer⟩ := built
  refine ⟨?_, _, by rw [buffer, List.append_assoc]⟩
  rw [headerLine_ends] at buffer headersLen ⊢
  generalize front ++ field ++ HTTP_HEADER_FIELD_SEPARATOR ++ value = before at buffer headersLen ⊢
  rw [List.append_assoc before HTTP_HEADER_LINE_SEPARATOR HTTP_HEADER_LINE_SEPARATOR]
    at buffer headersLen
  refine (backtrack_at buffer rfl headersLen).trans ?_
  rw [if_pos (by decide), headersLen, ← List.append_assoc, List.length_append, Nat.add_sub_cancel]

theorem reversedDigits_eq (n : Nat) :
    reversedDigits n = (digitsOf 10 n).reverse.map digitOctet := by
  induction n using reversedDigits.induct with
  | case1 n ih =>
    have digit : UInt8.ofNat (n % 10 + 48) = digitOctet (n % 10) := by
      rw [digitOctet, if_pos (Nat.mod_lt n (by decide)), Nat.add_comm]
    rw [reversedDigits, digit]
    by_cases last : n / 10 = 0
    · have small : n < 10 := by omega
      rw [if_pos last, Nat.mod_eq_of_lt small, digitsOf]
      by_cases zero : n = 0
      · simp [zero]
      · simp [zero, Nat.digits_of_lt 10 n zero small]
    · have nonzero : n ≠ 0 := by omega
      rw [if_neg last, ih last, digitsOf, digitsOf, if_neg last, if_neg nonzero,
        Nat.digits_def' (by decide) (Nat.pos_of_ne_zero nonzero)]
      simp

theorem convert_numeral (n : Nat) : convertInt32ToAscii n = numeral 10 n := by
  have nonneg : ¬ (n : Int) < 0 := by omega
  rw [convertInt32ToAscii, if_neg nonneg, Int.natAbs_natCast, reversedDigits_eq, numeral,
    List.map_reverse, List.reverse_reverse]

theorem numeral_clean (n : Nat) : Clean (numeral 10 n) := by
  intro c member
  have range := numeral_mem (by decide) (by decide) member
  refine ⟨?_, ?_⟩ <;> rintro rfl <;> revert range <;> decide

end SpmHeaderBuffer
