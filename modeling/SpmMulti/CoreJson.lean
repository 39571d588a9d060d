import SpmMulti.Machine

/- coreJSON (source/core_json.cpp). A position in a buffer is the list of the bytes from there
   to its end, so that i < max says that the list is not empty, and only what is left can be
   read; a function that leaves its start where it was returns none. Loops take as many turns
   as there are bytes. Pointers are not null. -/
namespace SpmCoreJson
open SpmMachine

inductive JSONStatus where
  | JSONPartial | JSONSuccess | JSONIllegalDocument | JSONMaxDepthExceeded | JSONNotFound
  | JSONBadParameter
  deriving DecidableEq

def isascii_ (x : UInt8) : Bool := x ≤ 0x7f
def iscntrl_ (x : UInt8) : Bool := isascii_ x && x < ' '.toUInt8
def isdigit_ (x : UInt8) : Bool := '0'.toUInt8 ≤ x && x ≤ '9'.toUInt8
def isspace_ (x : UInt8) : Bool := x = 32 || x = 9 || x = 10 || x = 13

def isOpenBracket_ (x : UInt8) : Bool := x = '{'.toUInt8 || x = '['.toUInt8
def isCloseBracket_ (x : UInt8) : Bool := x = '}'.toUInt8 || x = ']'.toUInt8
def isMatchingBracket_ (x y : UInt8) : Bool :=
  (x = '{'.toUInt8 && y = '}'.toUInt8) || (x = '['.toUInt8 && y = ']'.toUInt8)

def skipSpace : List UInt8 → List UInt8
  | [] => []
  | b :: buf => if isspace_ b then skipSpace buf else b :: buf

/-- After eight turns no bit is left. -/
def highBitsFrom : Nat → UInt8 → Nat
  | 0, _ => 0
  | turns + 1, n =>
    if n &&& 0x80 ≠ 0 then 1 + highBitsFrom turns ((n &&& 0x7f) <<< 1) else 0

def countHighBits (c : UInt8) : Nat := highBitsFrom 8 c

def shortestUTF8 (length value : Nat) : Bool :=
  let (min, max) :=
    match length with
    | 2 => (1 <<< 7, 1 <<< 11 - 1)
    | 3 => (1 <<< 11, 1 <<< 16 - 1)
    | _ => (1 <<< 16, 0x10ffff)
  min ≤ value && value ≤ max && (value < 0xd800 || value > 0xdfff)

/-- So many bytes 10xxxxxx, and the value with their bits behind it. -/
def continuationBytes : Nat → Nat → List UInt8 → Option (Nat × List UInt8)
  | 0, value, buf => some (value, buf)
  | _ + 1, _, [] => none
  | j + 1, value, c :: buf =>
    if c &&& 0xc0 ≠ 0x80 then none
    else continuationBytes j (value <<< 6 ||| (c &&& 0x3f).toNat) buf

def skipUTF8MultiByte : List UInt8 → Option (List UInt8)
  | [] => none
  | c :: buf =>
    if c > 0xc1 && c < 0xf5 then
      let bitCount := countHighBits c
      match continuationBytes (bitCount - 1) (c.toNat &&& (1 <<< (7 - bitCount) - 1)) buf with
      | some (value, rest) => if shortestUTF8 bitCount value then some rest else none
      | none => none
    else none

def skipUTF8 : List UInt8 → Option (List UInt8)
  | [] => none
  | b :: buf => if isascii_ b then some buf else skipUTF8MultiByte (b :: buf)

def NOT_A_HEX_CHAR : UInt8 := 0x10

def hexToInt (c : UInt8) : UInt8 :=
  if 'a'.toUInt8 ≤ c && c ≤ 'f'.toUInt8 then c - 'a'.toUInt8 + 10
  else if 'A'.toUInt8 ≤ c && c ≤ 'F'.toUInt8 then c - 'A'.toUInt8 + 10
  else if isdigit_ c then c - '0'.toUInt8
  else NOT_A_HEX_CHAR

def hexValue : List UInt8 → Nat → Option Nat
  | [], value => some value
  | b :: digits, value =>
    let n := hexToInt b
    if n = NOT_A_HEX_CHAR then none else hexValue digits (value <<< 4 ||| n.toNat)

def HEX_ESCAPE_LENGTH : Nat := 6

def skipOneHexEscape (buf : List UInt8) : Option (Nat × List UInt8) :=
  if HEX_ESCAPE_LENGTH < buf.length ∧ buf.take 2 = ['\\'.toUInt8, 'u'.toUInt8] then
    match hexValue ((buf.take HEX_ESCAPE_LENGTH).drop 2) 0 with
    | some value => if value > 0 then some (value, buf.drop HEX_ESCAPE_LENGTH) else none
    | none => none
  else none

def isHighSurrogate (x : Nat) : Bool := 0xd800 ≤ x && x ≤ 0xdbff
def isLowSurrogate (x : Nat) : Bool := 0xdc00 ≤ x && x ≤ 0xdfff

def skipHexEscape (buf : List UInt8) : Option (List UInt8) :=
  match skipOneHexEscape buf with
  | none => none
  | some (value, rest) =>
    if isHighSurrogate value then
      match skipOneHexEscape rest with
      | none => none
      | some (value, rest) => if isLowSurrogate value then some rest else none
    else if isLowSurrogate value then none
    else some rest

def simpleEscapes : List UInt8 := text "\"\\/bfnrt"

def skipEscape (buf : List UInt8) : Option (List UInt8) :=
  match buf with
  | b :: c :: rest =>
    if b = '\\'.toUInt8 then
      if c = 0 then none
      else if c = 'u'.toUInt8 then skipHexEscape buf
      else if c ∈ simpleEscapes then some rest
      else if iscntrl_ c then some rest
      else none
    else none
  | _ => none

def stringLoop : Nat → List UInt8 → Option (List UInt8)
  | 0, _ => none
  | _ + 1, [] => none
  | turns + 1, b :: buf =>
    if b = '"'.toUInt8 then some buf
    else if b = '\\'.toUInt8 then (skipEscape (b :: buf)).bind (stringLoop turns)
    else if iscntrl_ b then none
    else (skipUTF8 (b :: buf)).bind (stringLoop turns)

def skipString : List UInt8 → Option (List UInt8)
  | [] => none
  | b :: buf => if b = '"'.toUInt8 then stringLoop buf.length buf else none

def skipLiteral (literal buf : List UInt8) : Option (List UInt8) :=
  if literal.length ≤ buf.length ∧ buf.take literal.length = literal then
    some (buf.drop literal.length)
  else none

def skipAnyLiteral (buf : List UInt8) : Option (List UInt8) :=
  match skipLiteral (text "true") buf with
  | some rest => some rest
  | none =>
    match skipLiteral (text "false") buf with
    | some rest => some rest
    | none => skipLiteral (text "null") buf

def MAX_INDEX_VALUE : Int := 0x7ffffff7
def MAX_FACTOR : Int := MAX_INDEX_VALUE / 10

/-- The value of the digits, or -1 once it is too large. -/
def digitLoop : Int → List UInt8 → Int × List UInt8
  | value, [] => (value, [])
  | value, b :: buf =>
    if isdigit_ b then
      let value :=
        if value > -1 then
          if value ≤ MAX_FACTOR then value * 10 + (hexToInt b).toNat else -1
        else value
      digitLoop value buf
    else (value, b :: buf)

def skipDigits (buf : List UInt8) : Option (Int × List UInt8) :=
  let (value, rest) := digitLoop 0 buf
  if rest.length < buf.length then some (value, rest) else none

def skipDecimals (buf : List UInt8) : List UInt8 :=
  match buf with
  | [] => buf
  | b :: rest =>
    if b = '.'.toUInt8 then
      match skipDigits rest with
      | some (_, rest) => rest
      | none => buf
    else buf

def skipSign (buf : List UInt8) : List UInt8 :=
  match buf with
  | [] => buf
  | b :: rest => if b = '-'.toUInt8 || b = '+'.toUInt8 then rest else buf

def skipExponent (buf : List UInt8) : List UInt8 :=
  match buf with
  | [] => buf
  | b :: rest =>
    if b = 'e'.toUInt8 || b = 'E'.toUInt8 then
      match skipDigits (skipSign rest) with
      | some (_, rest) => rest
      | none => buf
    else buf

/-- The digits of a number in front of the decimals; a leading zero stands alone. -/
def skipInteger : List UInt8 → Option (List UInt8)
  | [] => none
  | b :: buf => if b = '0'.toUInt8 then some buf else (skipDigits (b :: buf)).map Prod.snd

def skipMinus (buf : List UInt8) : List UInt8 :=
  match buf with
  | [] => buf
  | b :: rest => if b = '-'.toUInt8 then rest else buf

def skipNumber (buf : List UInt8) : Option (List UInt8) :=
  (skipInteger (skipMinus buf)).map fun rest => skipExponent (skipDecimals rest)

def skipAnyScalar (buf : List UInt8) : Option (List UInt8) :=
  match skipString buf with
  | some rest => some rest
  | none =>
    match skipAnyLiteral buf with
    | some rest => some rest
    | none => skipNumber buf

/-- Whether there is a comma with something behind it that is no closing bracket; the space in
    front is skipped in any case. -/
def skipSpaceAndComma (buf : List UInt8) : Bool × List UInt8 :=
  let buf := skipSpace buf
  match buf with
  | [] => (false, buf)
  | b :: rest =>
    if b = ','.toUInt8 then
      match skipSpace rest with
      | [] => (false, buf)
      | c :: after => if isCloseBracket_ c then (false, buf) else (true, c :: after)
    else (false, buf)

def arrayScalars : Nat → List UInt8 → List UInt8
  | 0, buf => buf
  | turns + 1, buf =>
    match skipAnyScalar buf with
    | none => buf
    | some rest =>
      let (comma, rest) := skipSpaceAndComma rest
      if comma then arrayScalars turns rest else rest

def skipArrayScalars (buf : List UInt8) : List UInt8 := arrayScalars buf.length buf

/-- A key with its colon and the space around it; at the end of the buffer the colon is not
    looked for. -/
def skipKey (buf : List UInt8) : Option (List UInt8) :=
  match skipString buf with
  | none => none
  | some rest =>
    match skipSpace rest with
    | [] => some []
    | b :: rest => if b ≠ ':'.toUInt8 then none else some (skipSpace rest)

def objectScalars : Nat → List UInt8 → List UInt8
  | 0, buf => buf
  | turns + 1, buf =>
    match skipKey buf with
    | none => buf
    | some rest =>
      if rest.head?.any isOpenBracket_ then rest
      else
        match skipAnyScalar rest with
        | none => buf
        | some rest =>
          let (comma, rest) := skipSpaceAndComma rest
          if comma then objectScalars turns rest else rest

def skipObjectScalars (buf : List UInt8) : List UInt8 := objectScalars buf.length buf

def skipScalars (mode : UInt8) (buf : List UInt8) : List UInt8 :=
  let buf := skipSpace buf
  if mode = '['.toUInt8 then skipArrayScalars buf else skipObjectScalars buf

def JSON_MAX_DEPTH : Nat := 32

/-- The stack of open brackets, the last one first, and the position. -/
def collectionLoop : Nat → List UInt8 → List UInt8 → JSONStatus × List UInt8
  | 0, _, buf => (.JSONPartial, buf)
  | _ + 1, _, [] => (.JSONPartial, [])
  | turns + 1, stack, c :: buf =>
    if isOpenBracket_ c then
      if stack.length = JSON_MAX_DEPTH then (.JSONMaxDepthExceeded, buf)
      else collectionLoop turns (c :: stack) (skipScalars c buf)
    else if isCloseBracket_ c then
      match stack with
      | [] => (.JSONIllegalDocument, buf)
      | [mode] =>
        if isMatchingBracket_ mode c then (.JSONSuccess, buf) else (.JSONIllegalDocument, buf)
      | mode :: outer :: stack =>
        if isMatchingBracket_ mode c then
          let (comma, buf) := skipSpaceAndComma buf
          collectionLoop turns (outer :: stack) (if comma then skipScalars outer buf else buf)
        else (.JSONIllegalDocument, buf)
    else (.JSONIllegalDocument, buf)

def skipCollection (buf : List UInt8) : JSONStatus × List UInt8 :=
  collectionLoop buf.length [] buf

def JSON_Validate (buf : List UInt8) : JSONStatus :=
  if buf.length = 0 then .JSONBadParameter
  else
    let start := skipSpace buf
    let (ret, rest) : JSONStatus × List UInt8 :=
      match skipAnyScalar start with
      | some rest => (.JSONSuccess, rest)
      | none => skipCollection start
    if ret = .JSONSuccess ∧ skipSpace rest ≠ [] then .JSONIllegalDocument else ret

inductive JSONTypes where
  | JSONInvalid | JSONString | JSONNumber | JSONTrue | JSONFalse | JSONNull | JSONObject | JSONArray
  deriving DecidableEq

def strnEq (a b : List UInt8) (n : Nat) : Bool := a.take n = b.take n

/-- The position behind the value at this position, and the length of the value. -/
def nextValue (buf : List UInt8) : Option (List UInt8 × Nat) :=
  match skipAnyScalar buf with
  | some rest => some (rest, buf.length - rest.length)
  | none =>
    match skipCollection buf with
    | (.JSONSuccess, rest) => some (rest, buf.length - rest.length)
    | _ => none

structure KeyValue where
  key : List UInt8
  keyLength : Nat
  value : List UInt8
  valueLength : Nat

def nextKeyValuePair (buf : List UInt8) : Option (List UInt8 × KeyValue) :=
  match skipString buf with
  | none => none
  | some rest =>
    let keyLength := buf.length - rest.length - 2
    match skipSpace rest with
    | [] => none
    | b :: value =>
      if b = ':'.toUInt8 then
        let value := skipSpace value
        (nextValue value).map fun (rest, valueLength) =>
          (rest, ⟨buf.drop 1, keyLength, value, valueLength⟩)
      else none

def keyLoop (query : List UInt8) (queryLength : Nat) : Nat → List UInt8 →
    Option (List UInt8 × Nat)
  | 0, _ => none
  | turns + 1, buf =>
    match nextKeyValuePair buf with
    | none => none
    | some (rest, pair) =>
      if queryLength = pair.keyLength && strnEq query pair.key pair.keyLength then
        some (pair.value, pair.valueLength)
      else
        let (comma, rest) := skipSpaceAndComma rest
        if comma then keyLoop query queryLength turns rest else none

/-- The index of the value in the buffer, and its length. -/
def objectSearch (buf query : List UInt8) (queryLength : Nat) : Option (Nat × Nat) :=
  match skipSpace buf with
  | [] => none
  | b :: members =>
    if b = '{'.toUInt8 then
      (keyLoop query queryLength members.length (skipSpace members)).map fun (value, length) =>
        (buf.length - value.length, length)
    else none

/-- The counter stops at the index that is looked for, which is below 2^31. -/
def indexLoop (queryIndex : Nat) : Nat → Nat → List UInt8 → Option (List UInt8 × Nat)
  | 0, _, _ => none
  | turns + 1, currentIndex, buf =>
    match nextValue buf with
    | none => none
    | some (rest, valueLength) =>
      if currentIndex = queryIndex then some (buf, valueLength)
      else
        let (comma, rest) := skipSpaceAndComma rest
        if comma then indexLoop queryIndex turns (currentIndex + 1) rest else none

def arraySearch (buf : List UInt8) (queryIndex : Nat) : Option (Nat × Nat) :=
  match skipSpace buf with
  | [] => none
  | b :: members =>
    if b = '['.toUInt8 then
      (indexLoop queryIndex members.length 0 (skipSpace members)).map fun (value, length) =>
        (buf.length - value.length, length)
    else none

def JSON_QUERY_KEY_SEPARATOR : UInt8 := '.'.toUInt8
def isSeparator_ (x : UInt8) : Bool := x = JSON_QUERY_KEY_SEPARATOR

/-- The length of the part and the position behind it. -/
def skipQueryPart (buf : List UInt8) : Option (Nat × List UInt8) :=
  let part := buf.takeWhile fun b => !isSeparator_ b && b ≠ '['.toUInt8
  if part.length > 0 then some (part.length, buf.drop part.length) else none

/-- One part of the query, looked for in the value that was found last. -/
def searchPart (buf query : List UInt8) : JSONStatus × Nat × Nat × List UInt8 :=
  match query with
  | [] => (.JSONBadParameter, 0, 0, [])
  | b :: digits =>
    if b = '['.toUInt8 then
      let (queryIndex, rest) := (skipDigits digits).getD (-1, digits)
      match rest with
      | [] => (.JSONBadParameter, 0, 0, [])
      | c :: rest =>
        if queryIndex < 0 ∨ c ≠ ']'.toUInt8 then (.JSONBadParameter, 0, 0, [])
        else
          match arraySearch buf queryIndex.toNat with
          | some (value, length) => (.JSONSuccess, value, length, rest)
          | none => (.JSONNotFound, 0, 0, [])
    else
      match skipQueryPart query with
      | none => (.JSONBadParameter, 0, 0, [])
      | some (keyLength, rest) =>
        -- a separator or an opening bracket at the very end
        if rest.length = 1 then (.JSONBadParameter, 0, 0, [])
        else
          match objectSearch buf query keyLength with
          | some (value, length) => (.JSONSuccess, value, length, rest)
          | none => (.JSONNotFound, 0, 0, [])

def multiLoop (buf : List UInt8) : Nat → List UInt8 → Nat → Nat → JSONStatus × Nat × Nat
  | _, [], start, length => (.JSONSuccess, start, length)
  | 0, _ :: _, start, length => (.JSONSuccess, start, length)
  | turns + 1, b :: query, start, length =>
    match searchPart ((buf.drop start).take length) (b :: query) with
    | (.JSONSuccess, value, length, rest) =>
      let rest := if rest.head?.any isSeparator_ then rest.drop 1 else rest
      multiLoop buf turns rest (start + value) length
    | (ret, _) => (ret, 0, 0)

/-- The index of the value that was found, and its length. -/
def multiSearch (buf query : List UInt8) : JSONStatus × Nat × Nat :=
  multiLoop buf query.length query 0 buf.length

def getType (c : UInt8) : JSONTypes :=
  if c = '"'.toUInt8 then .JSONString
  else if c = '{'.toUInt8 then .JSONObject
  else if c = '['.toUInt8 then .JSONArray
  else if c = 't'.toUInt8 then .JSONTrue
  else if c = 'f'.toUInt8 then .JSONFalse
  else if c = 'n'.toUInt8 then .JSONNull
  else .JSONNumber

/-- The status, and the index, the length and the type of the value; the quotes around a string
    do not belong to it. -/
def JSON_SearchConst (buf query : List UInt8) : JSONStatus × Nat × Nat × JSONTypes :=
  if buf.length = 0 ∨ query.length = 0 then (.JSONBadParameter, 0, 0, .JSONInvalid)
  else
    match multiSearch buf query with
    | (.JSONSuccess, value, length) =>
      let t := getType ((buf.drop value).headD 0)
      if t = .JSONString then (.JSONSuccess, value + 1, length - 2, t)
      else (.JSONSuccess, value, length, t)
    | (ret, _) => (ret, 0, 0, .JSONInvalid)

structure JSONPair where
  key : Option Nat
  keyLength : Nat
  value : Nat
  valueLength : Nat
  jsonType : JSONTypes
  deriving DecidableEq

/-- The status, where to seek the next value, and the key and the value that were found. -/
def iterate (buf : List UInt8) (start next : Nat) :
    JSONStatus × Nat × Option (Nat × Nat × Nat × Nat) :=
  let here := buf.drop next
  match buf.drop start with
  | [] => (.JSONNotFound, next, none)
  | b :: _ =>
    if b = '['.toUInt8 then
      match nextValue here with
      | some (rest, valueLength) =>
        (.JSONSuccess, buf.length - (skipSpaceAndComma rest).2.length,
          some (0, 0, next, valueLength))
      | none => (.JSONNotFound, next, none)
    else if b = '{'.toUInt8 then
      match nextKeyValuePair here with
      | some (rest, pair) =>
        (.JSONSuccess, buf.length - (skipSpaceAndComma rest).2.length,
          some (buf.length - pair.key.length, pair.keyLength, buf.length - pair.value.length,
            pair.valueLength))
      | none => (.JSONNotFound, next, none)
    else (.JSONIllegalDocument, next, none)

/-- The index behind the space that begins at this one. -/
def spaceEnd (buf : List UInt8) (i : Nat) : Nat :=
  i + ((buf.drop i).length - (skipSpace (buf.drop i)).length)

/-- The status, start and next as they are left, and the pair. -/
def JSON_Iterate (buf : List UInt8) (start next : Nat) :
    JSONStatus × Nat × Nat × Option JSONPair :=
  if buf.length = 0 ∨ start ≥ buf.length ∨ next > buf.length then
    (.JSONBadParameter, start, next, none)
  else
    let start := spaceEnd buf start
    let next := if next ≤ start then spaceEnd buf (start + 1) else next
    match iterate buf start next with
    | (.JSONSuccess, next, some (key, keyLength, value, valueLength)) =>
      let t := getType ((buf.drop value).headD 0)
      let (value, valueLength) :=
        if t = .JSONString then (value + 1, valueLength - 2) else (value, valueLength)
      (.JSONSuccess, start, next,
        some ⟨if key = 0 then none else some key, keyLength, value, valueLength, t⟩)
    | (ret, next, _) => (ret, start, next, none)

end SpmCoreJson
