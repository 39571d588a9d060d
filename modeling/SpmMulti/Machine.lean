import SpmMulti.Lib.PositionalNumeral

/- Machine words, console memory and C strings as the mod's code sees them on the Wii's
   PowerPC: 32-bit words, big-endian memory, char unsigned. A u32 and an s32 are the same
   32 bits; toNat and toInt are the two readings. -/
namespace SpmMachine
open PositionalNumeral

abbrev U32 := BitVec 32
abbrev Memory := U32 → UInt8

def text (s : String) : List UInt8 := s.toList.map fun c => c.toUInt8

/-- The C string at the start of a buffer; without a NUL it runs to the end of the list. -/
def cstr (buffer : List UInt8) : List UInt8 := buffer.takeWhile (· ≠ 0)

def strlen (buffer : List UInt8) : Nat := (cstr buffer).length

/-- Whether msl::string::strchr finds the character, so whether its result is non-null. -/
def strchr : List UInt8 → UInt8 → Bool
  | [], _ => false
  | b :: rest, c => if b = c then true else if b = 0 then false else strchr rest c

/-- The four bytes of a word, most significant first. -/
def wordBytes (v : U32) : List UInt8 :=
  [UInt8.ofNat (v.toNat >>> 24), UInt8.ofNat (v.toNat >>> 16), UInt8.ofNat (v.toNat >>> 8),
    UInt8.ofNat v.toNat]

/-- msl::stdio::snprintf belongs to the game. Of its size argument n it uses at most n
    bytes, the last of them a NUL; the text it forms is a function of its arguments. -/
structure Snprintf where
  formed : Nat → String → List U32 → List UInt8
  fits : ∀ n format args, 0 < n → (formed n format args).length < n
  noNul : ∀ n format args, 0 ∉ formed n format args

def Snprintf.stored (f : Snprintf) (n : Nat) (format : String) (args : List U32) : List UInt8 :=
  if n = 0 then [] else f.formed n format args ++ [0]

/-- The conversions %d and %x and literal characters, which is all the formats use. -/
def formatText : List Char → List U32 → List UInt8
  | '%' :: 'd' :: format, v :: args =>
    (if v.toInt < 0 then '-'.toUInt8 :: numeral 10 v.toInt.natAbs else numeral 10 v.toNat) ++
      formatText format args
  | '%' :: 'x' :: format, v :: args => numeral 16 v.toNat ++ formatText format args
  | c :: format, args => c.toUInt8 :: formatText format args
  | [], _ => []

def mslSnprintf : Snprintf where
  formed n format args := (cstr (formatText format.toList args)).take (n - 1)
  fits n format args positive := by
    rw [List.length_take]
    omega
  noNul n format args bad := by
    simpa using List.mem_takeWhile_imp (List.mem_of_mem_take bad)

theorem strchr_iff {buffer : List UInt8} {c : UInt8} (nonzero : c ≠ 0) :
    strchr buffer c = true ↔ c ∈ cstr buffer := by
  induction buffer with
  | nil => simp [strchr, cstr]
  | cons b rest ih =>
    by_cases hit : b = c
    · subst hit
      simp [strchr, cstr, nonzero]
    · by_cases ends : b = 0
      · subst ends
        simp [strchr, cstr, hit]
      · simpa [strchr, cstr, hit, ends, Ne.symm hit] using ih

theorem mem_of_mem_cstr {b : UInt8} {bytes : List UInt8} (member : b ∈ cstr bytes) :
    b ∈ bytes := (List.takeWhile_prefix _).subset member

theorem cstr_clean (buffer : List UInt8) : 0 ∉ cstr buffer := by
  intro bad
  simpa using List.mem_takeWhile_imp bad

theorem cstr_eq_self {bytes : List UInt8} (clean : 0 ∉ bytes) : cstr bytes = bytes := by
  apply List.takeWhile_eq_self_iff.mpr
  intro b inside
  simp only [decide_eq_true_eq]
  rintro rfl
  exact clean inside

theorem cstr_append_nul (front rest : List UInt8) : cstr (front ++ 0 :: rest) = cstr front := by
  unfold cstr
  rw [List.takeWhile_append]
  split
  · rename_i whole
    have full := (List.takeWhile_prefix (fun b : UInt8 => decide (b ≠ 0))).eq_of_length whole
    rw [full]
    simp
  · rfl

theorem mem_cstr_append {b : UInt8} {front : List UInt8} (member : b ∈ cstr front)
    (rest : List UInt8) : b ∈ cstr (front ++ rest) := by
  unfold cstr
  rw [List.takeWhile_append]
  split
  · exact List.mem_append_left _ (mem_of_mem_cstr member)
  · exact member

@[simp] theorem wordBytes_length (v : U32) : (wordBytes v).length = 4 := rfl

theorem stored_length_le (f : Snprintf) (n : Nat) (format : String) (args : List U32) :
    (f.stored n format args).length ≤ n := by
  unfold Snprintf.stored
  split
  · simp
  · have := f.fits n format args (by omega)
    simp only [List.length_append, List.length_singleton]
    omega

end SpmMachine
