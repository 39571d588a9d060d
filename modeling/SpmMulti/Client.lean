import SpmMulti.Split
import SpmMulti.Lib.SextetCode
import SpmMulti.Lib.StreamSegments

/- The Python client (netmemoryaccess_client.py). The texts it sends are ASCII, so that len
   counts the bytes that encode gives; b64encode is the padded code of RFC 4648. The text of
   a message box is any string, and len counts its characters. -/
namespace SpmClient
open SpmMachine SpmSplit PositionalNumeral SextetCode DelimitedWords StreamSegments

def sendData (cmd : List UInt8) : List UInt8 := cmd ++ List.replicate (4 - cmd.length % 4) 10

def read (addr size : Nat) : List UInt8 :=
  sendData (text "read " ++ numeral 16 addr ++ text " " ++ numeral 10 size)

def write (addr : Nat) (data : List UInt8) : List UInt8 :=
  sendData (text "write " ++ numeral 16 addr ++ text " " ++ encode data ++ text " " ++
    numeral 10 data.length)

/-- message.encode() without an argument. -/
def utf8 (message : List Char) : List UInt8 := message.flatMap String.utf8EncodeChar

def msgbox (message : List Char) : List UInt8 :=
  sendData (text "msgbox " ++ encode (utf8 message) ++ text " " ++ numeral 10 message.length)

theorem read_eq (addr size : Nat) :
    read addr size = sendData (requestText (text "read") [numeral 16 addr, numeral 10 size]) := by
  simp only [read, requestText, joinWords_cons_cons, joinWords_singleton, List.append_assoc]
  rfl

theorem write_eq (addr : Nat) (data : List UInt8) :
    write addr data = sendData
      (requestText (text "write") [numeral 16 addr, encode data, numeral 10 data.length]) := by
  simp only [write, requestText, joinWords_cons_cons, joinWords_singleton, List.append_assoc]
  rfl

theorem msgbox_eq (message : List Char) :
    msgbox message = sendData
      (requestText (text "msgbox") [encode (utf8 message), numeral 10 message.length]) := by
  simp only [msgbox, requestText, joinWords_cons_cons, joinWords_singleton, List.append_assoc]
  rfl

theorem utf8_length_ge (message : List Char) : message.length ≤ (utf8 message).length := by
  induction message with
  | nil => simp
  | cons ch message ih =>
    have positive := ch.utf8Size_pos
    simp only [utf8, List.flatMap_cons, List.length_append, List.length_cons,
      String.length_utf8EncodeChar] at ih ⊢
    omega

theorem ascii_iff (ch : Char) : ch.utf8Size = 1 ↔ ch.toNat < 128 := by
  rw [Char.utf8Size_eq_one_iff, UInt32.le_iff_toNat_le, Char.toNat]
  exact Nat.lt_succ_iff.symm

/-- A message has as many bytes as characters exactly when all of it is ASCII. -/
theorem utf8_length_iff (message : List Char) :
    (utf8 message).length = message.length ↔ ∀ ch ∈ message, ch.toNat < 128 := by
  induction message with
  | nil => simp [utf8]
  | cons ch message ih =>
    have positive := ch.utf8Size_pos
    have longer := utf8_length_ge message
    have ascii := ascii_iff ch
    simp only [utf8, List.flatMap_cons, List.length_append, List.length_cons,
      String.length_utf8EncodeChar, List.forall_mem_cons, ← ih, ← ascii] at longer ⊢
    omega

theorem sendData_padded (cmd : List UInt8) :
    ∃ k, sendData cmd = cmd ++ List.replicate k 10 ∧ 0 < k :=
  ⟨4 - cmd.length % 4, rfl, by omega⟩

/-- Newlines behind a text end up in its last word. -/
theorem requestText_padded (name : List UInt8) (args : List (List UInt8)) (last : List UInt8)
    (j : Nat) :
    requestText name (args ++ [last]) ++ List.replicate j 10 =
      requestText name (args ++ [last ++ List.replicate j 10]) := by
  induction args generalizing name with
  | nil => simp [requestText, joinWords_cons_cons]
  | cons arg args ih =>
    simp only [requestText, List.cons_append, joinWords_cons_cons] at ih ⊢
    rw [List.append_assoc, List.cons_append, ih]

theorem numeral_octet {base n : Nat} {c : UInt8} (radix : 1 < base) (small : base ≤ 16)
    (member : c ∈ numeral base n) : 48 ≤ c.toNat := by
  have range := numeral_mem radix small member
  omega

theorem numeral_word {base n : Nat} (radix : 1 < base) (small : base ≤ 16) :
    Word (numeral base n) := by
  refine ⟨by simpa [numeral] using digitsOf_ne_nil base n, fun space => ?_, fun nul => ?_⟩
  · exact absurd (numeral_octet radix small space) (by decide)
  · exact absurd (numeral_octet radix small nul) (by decide)

theorem encode_octet {data : List UInt8} {c : UInt8} (member : c ∈ encode data) :
    43 ≤ c.toNat := by
  rcases encode_mem member with rfl | ⟨v, sextet, rfl⟩
  · decide
  · have range := letter_range sextet
    omega

theorem encode_word {data : List UInt8} (nonempty : data ≠ []) : Word (encode data) := by
  refine ⟨fun none_ => ?_, fun space => ?_, fun nul => ?_⟩
  · have size := encode_length data
    have positive := List.length_pos_iff.mpr nonempty
    rw [none_, List.length_nil] at size
    omega
  · exact absurd (encode_octet space) (by decide)
  · exact absurd (encode_octet nul) (by decide)

/-- A word is not lost to newlines behind a shorter one. -/
theorem padded_ne {word last : List UInt8} (plain : 10 ∉ word) (shorter : last.length < word.length)
    (j : Nat) : word ≠ last ++ List.replicate j 10 := by
  rintro rfl
  cases j with
  | zero => simp at shorter
  | succ j => simp [List.replicate_succ] at plain

theorem padded_word {last : List UInt8} (word : Word last) (j : Nat) :
    Word (last ++ List.replicate j 10) := by
  obtain ⟨nonempty, space, nul⟩ := word
  refine ⟨List.append_ne_nil_of_left_ne_nil nonempty _, ?_, ?_⟩
  · simp [space]
  · simp [nul]

end SpmClient
