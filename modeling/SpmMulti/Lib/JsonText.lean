import Mathlib.Data.List.Induction
import Mathlib.Order.Basic

/- JSON texts as bytes, with the values they stand for. What escapes a string may have, and
   whether a collection may stand where no comma or key leads to it, is left to a dialect. -/
namespace JsonText

structure Dialect where
  Escape : List UInt8 → Prop
  Bare : Prop

def Dialect.Within (D E : Dialect) : Prop :=
  (∀ text, D.Escape text → E.Escape text) ∧ (D.Bare → E.Bare)

def IsBlank (b : UInt8) : Prop := b = 32 ∨ b = 9 ∨ b = 10 ∨ b = 13

instance (b : UInt8) : Decidable (IsBlank b) :=
  inferInstanceAs (Decidable (b = 32 ∨ b = 9 ∨ b = 10 ∨ b = 13))

def Blank (text : List UInt8) : Prop := ∀ b ∈ text, IsBlank b

def IsDigit (b : UInt8) : Prop := '0'.toUInt8 ≤ b ∧ b ≤ '9'.toUInt8

instance (b : UInt8) : Decidable (IsDigit b) :=
  inferInstanceAs (Decidable ('0'.toUInt8 ≤ b ∧ b ≤ '9'.toUInt8))

structure Digits (text : List UInt8) : Prop where
  nonempty : text ≠ []
  digits : ∀ b ∈ text, IsDigit b

inductive Minus : List UInt8 → Prop
  | absent : Minus []
  | present : Minus ['-'.toUInt8]

inductive Integer : List UInt8 → Prop
  | zero : Integer ['0'.toUInt8]
  | digits {b : UInt8} {text : List UInt8} : Digits (b :: text) → b ≠ '0'.toUInt8 →
      Integer (b :: text)

inductive Fraction : List UInt8 → Prop
  | absent : Fraction []
  | present {text : List UInt8} : Digits text → Fraction ('.'.toUInt8 :: text)

inductive Sign : List UInt8 → Prop
  | absent : Sign []
  | minus : Sign ['-'.toUInt8]
  | plus : Sign ['+'.toUInt8]

inductive Exponent : List UInt8 → Prop
  | absent : Exponent []
  | present {e : UInt8} {sign text : List UInt8} : e = 'e'.toUInt8 ∨ e = 'E'.toUInt8 →
      Sign sign → Digits text → Exponent (e :: (sign ++ text))

inductive IsNumber : List UInt8 → Prop
  | mk {minus integer fraction exponent : List UInt8} : Minus minus → Integer integer →
      Fraction fraction → Exponent exponent →
      IsNumber (minus ++ (integer ++ (fraction ++ exponent)))

def literals : List (List UInt8) :=
  ["true", "false", "null"].map fun literal => literal.toList.map fun ch => ch.toUInt8

def hexDigit (b : UInt8) : Option Nat :=
  if '0'.toUInt8 ≤ b ∧ b ≤ '9'.toUInt8 then some (b - '0'.toUInt8).toNat
  else if 'a'.toUInt8 ≤ b ∧ b ≤ 'f'.toUInt8 then some (b - 'a'.toUInt8 + 10).toNat
  else if 'A'.toUInt8 ≤ b ∧ b ≤ 'F'.toUInt8 then some (b - 'A'.toUInt8 + 10).toNat
  else none

inductive HexEscape : List UInt8 → Nat → Prop
  | mk {a b c d : UInt8} {i j k l : Nat} : hexDigit a = some i → hexDigit b = some j →
      hexDigit c = some k → hexDigit d = some l →
      HexEscape ['\\'.toUInt8, 'u'.toUInt8, a, b, c, d] (((i * 16 + j) * 16 + k) * 16 + l)

/-- A character of a string that stands for itself. -/
inductive Plain : List UInt8 → Prop
  | mk {ch : Char} : 0x20 ≤ ch.toNat → ch ≠ '"' → ch ≠ '\\' → Plain (String.utf8EncodeChar ch)

inductive StringBody (D : Dialect) : List UInt8 → Prop
  | empty : StringBody D []
  | item {item rest : List UInt8} : Plain item ∨ D.Escape item → StringBody D rest →
      StringBody D (item ++ rest)

def quoted (body : List UInt8) : List UInt8 := '"'.toUInt8 :: (body ++ ['"'.toUInt8])

inductive Scalar (D : Dialect) : List UInt8 → Prop
  | string {body : List UInt8} : StringBody D body → Scalar D (quoted body)
  | literal {text : List UInt8} : text ∈ literals → Scalar D text
  | number {text : List UInt8} : IsNumber text → Scalar D text

inductive Mode where
  | array | object
  deriving DecidableEq

def Mode.opening : Mode → UInt8
  | .array => '['.toUInt8
  | .object => '{'.toUInt8

def Mode.closing : Mode → UInt8
  | .array => ']'.toUInt8
  | .object => '}'.toUInt8

/-- A scalar is kept as its text, and a key as the text between its quotes. -/
inductive Json where
  | scalar (text : List UInt8)
  | collection (mode : Mode) (members : List (Option (List UInt8) × Json))

inductive Step where
  | index (i : Nat)
  | key (name : List UInt8)

def Json.get? : Json → Step → Option Json
  | .collection .array members, .index i => members[i]?.map Prod.snd
  | .collection .object members, .key name =>
    (members.find? fun member => member.1 = some name).map Prod.snd
  | _, _ => none

def Json.lookup (value : Json) (path : List Step) : Option Json :=
  path.foldlM Json.get? value

theorem Json.lookup_cons (value : Json) (step : Step) (path : List Step) :
    value.lookup (step :: path) = (value.get? step).bind fun found => found.lookup path := by
  rw [lookup, List.foldlM_cons]
  rfl

/-- The member that a step leads to, with the number of members in front of it. -/
def Json.member? : Json → Step → Option (Nat × Json)
  | .collection .array members, .index i => members[i]?.map fun member => (i, member.2)
  | .collection .object members, .key name =>
    (members.zipIdx.find? fun p => p.1.1 = some name).map fun p => (p.2, p.1.2)
  | _, _ => none

theorem find?_zipIdx {α : Type} (p : α → Bool) (l : List α) (n : Nat) :
    ((l.zipIdx n).find? fun q => p q.1).map Prod.fst = l.find? p := by
  induction l generalizing n with
  | nil => rfl
  | cons a l ih =>
    rw [List.zipIdx_cons, List.find?_cons, List.find?_cons]
    cases p a with
    | true => rfl
    | false => exact ih (n + 1)

theorem Json.get?_eq_member? (value : Json) (step : Step) :
    value.get? step = (value.member? step).map Prod.snd := by
  cases value with
  | scalar text => rfl
  | collection mode members =>
    cases mode <;> cases step
    · simp only [get?, member?, Option.map_map]
      rfl
    · rfl
    · rfl
    · rename_i name
      have same := find?_zipIdx (fun member : Option (List UInt8) × Json =>
        decide (member.1 = some name)) members 0
      simp only [get?, member?, ← same, Option.map_map]
      rfl

/-- What stands in front of a member. -/
inductive Lead (D : Dialect) : Mode → Option (List UInt8) → List UInt8 → Prop
  | array : Lead D .array none []
  | object {name before behind : List UInt8} : StringBody D name → Blank before → Blank behind →
      Lead D .object (some name) (quoted name ++ (before ++ ':'.toUInt8 :: behind))

inductive Phase where
  | opened | behind | comma
  deriving DecidableEq

def Leads (D : Dialect) (mode : Mode) (phase : Phase) (key : Option (List UInt8))
    (lead : List UInt8) : Prop :=
  phase ≠ .behind ∧ Lead D mode key lead ∨ D.Bare ∧ key = none ∧ lead = []

/-- The inside of a collection from its bracket on, up to some point between two members, with
    these members, and with at most so many collections inside each other. -/
inductive Content (D : Dialect) : Nat → Mode → Phase → List UInt8 →
    List (Option (List UInt8) × Json) → Prop
  | opened {depth : Nat} {mode : Mode} {gap : List UInt8} : Blank gap →
      Content D depth mode .opened gap []
  | comma {depth : Nat} {mode : Mode} {text gap : List UInt8}
      {members : List (Option (List UInt8) × Json)} :
      Content D depth mode .behind text members → Blank gap →
      Content D depth mode .comma (text ++ ','.toUInt8 :: gap) members
  | scalar {depth : Nat} {mode : Mode} {phase : Phase} {text lead item gap : List UInt8}
      {key : Option (List UInt8)} {members : List (Option (List UInt8) × Json)} :
      Content D depth mode phase text members → phase ≠ .behind → Lead D mode key lead →
      Scalar D item → Blank gap →
      Content D depth mode .behind (text ++ (lead ++ (item ++ gap)))
        (members ++ [(key, .scalar item)])
  | nested {depth : Nat} {mode inner : Mode} {phase last : Phase}
      {text lead body gap : List UInt8} {key : Option (List UInt8)}
      {members items : List (Option (List UInt8) × Json)} :
      Content D (depth + 1) mode phase text members → Leads D mode phase key lead →
      Content D depth inner last body items → last ≠ .comma → Blank gap →
      Content D (depth + 1) mode .behind
        (text ++ (lead ++ inner.opening :: (body ++ inner.closing :: gap)))
        (members ++ [(key, .collection inner items)])

/-- A collection with at most so many inside each other, itself among them. -/
inductive Collection (D : Dialect) : Nat → List UInt8 → Json → Prop
  | mk {depth : Nat} {mode : Mode} {last : Phase} {body : List UInt8}
      {members : List (Option (List UInt8) × Json)} :
      Content D depth mode last body members → last ≠ .comma →
      Collection D (depth + 1) (mode.opening :: (body ++ [mode.closing])) (.collection mode members)

inductive Value (D : Dialect) (depth : Nat) : List UInt8 → Json → Prop
  | scalar {text : List UInt8} : Scalar D text → Value D depth text (.scalar text)
  | collection {text : List UInt8} {value : Json} : Collection D depth text value →
      Value D depth text value

inductive Document (D : Dialect) (depth : Nat) : List UInt8 → Json → Prop
  | mk {before item behind : List UInt8} {value : Json} : Blank before → Value D depth item value →
      Blank behind → Document D depth (before ++ (item ++ behind)) value

/-- In the inside of a collection, a member behind some others, by their number and by where its
    value stands. -/
inductive MemberAt (D : Dialect) (depth : Nat) (mode : Mode) :
    List UInt8 → Nat → Option (List UInt8) × Json → Nat → Nat → Prop
  | mk {phase : Phase} {front lead item rest : List UInt8} {key : Option (List UInt8)}
      {value : Json} {others : List (Option (List UInt8) × Json)} :
      Content D depth mode phase front others → Leads D mode phase key lead →
      Value D depth item value →
      MemberAt D depth mode (front ++ (lead ++ (item ++ rest))) others.length (key, value)
        (front.length + lead.length) item.length

/-- Where in the text of a value the path leads to, and how long the text is that stands there. -/
inductive LeadsTo (D : Dialect) : List UInt8 → Json → List Step → Nat → Nat → Prop
  | here {text : List UInt8} {value : Json} : LeadsTo D text value [] 0 text.length
  | step {depth : Nat} {mode : Mode} {before inside : List UInt8} {value found : Json} {step : Step}
      {path : List Step} {k : Nat} {key : Option (List UInt8)} {index length index' length' : Nat} :
      Blank before → value.member? step = some (k, found) →
      MemberAt D depth mode inside k (key, found) index length →
      LeadsTo D ((inside.drop index).take length) found path index' length' →
      LeadsTo D (before ++ mode.opening :: inside) value (step :: path)
        (before.length + 1 + index + index') length'

theorem Scalar.digit {D : Dialect} {b : UInt8} (digit : IsDigit b) (first : b ≠ '0'.toUInt8) :
    Scalar D [b] :=
  .number (.mk .absent (.digits ⟨by simp, List.forall_mem_singleton.2 digit⟩ first) .absent .absent)

theorem StringBody.char {D : Dialect} {ch : Char} (printable : 0x20 ≤ ch.toNat) (quote : ch ≠ '"')
    (escape : ch ≠ '\\') : StringBody D (String.utf8EncodeChar ch) := by
  have body := StringBody.item (Or.inl (.mk printable quote escape)) (.empty : StringBody D [])
  rwa [List.append_nil] at body

section Within
variable {D E : Dialect} (wider : D.Within E)
include wider

theorem StringBody.within {text : List UInt8} (body : StringBody D text) : StringBody E text := by
  induction body with
  | empty => exact .empty
  | item kind _ ih => exact .item (kind.imp id (wider.1 _)) ih

theorem Scalar.within {text : List UInt8} (scalar : Scalar D text) : Scalar E text := by
  cases scalar with
  | string body => exact .string (body.within wider)
  | literal member => exact .literal member
  | number number => exact .number number

theorem Lead.within {mode : Mode} {key : Option (List UInt8)} {lead : List UInt8}
    (led : Lead D mode key lead) : Lead E mode key lead := by
  cases led with
  | array => exact .array
  | object name before behind => exact .object (name.within wider) before behind

theorem Leads.within {mode : Mode} {phase : Phase} {key : Option (List UInt8)} {lead : List UInt8}
    (leads : Leads D mode phase key lead) : Leads E mode phase key lead :=
  leads.imp (And.imp id fun led => led.within wider) (And.imp wider.2 id)

theorem Content.within {depth : Nat} {mode : Mode} {phase : Phase} {text : List UInt8}
    {members : List (Option (List UInt8) × Json)} (content : Content D depth mode phase text members) :
    Content E depth mode phase text members := by
  induction content with
  | opened blank => exact .opened blank
  | comma _ blank ih => exact .comma ih blank
  | scalar _ free led scalar blank ih =>
    exact .scalar ih free (led.within wider) (scalar.within wider) blank
  | nested _ leads _ closed blank ih ih' =>
    exact .nested ih (Leads.within wider leads) ih' closed blank

theorem Collection.within {depth : Nat} {text : List UInt8} {value : Json}
    (collection : Collection D depth text value) : Collection E depth text value := by
  cases collection with
  | mk content closed => exact .mk (content.within wider) closed

theorem Value.within {depth : Nat} {text : List UInt8} {value : Json}
    (found : Value D depth text value) : Value E depth text value := by
  cases found with
  | scalar scalar => exact .scalar (scalar.within wider)
  | collection collection => exact .collection (collection.within wider)

theorem Document.within {depth : Nat} {text : List UInt8} {value : Json}
    (document : Document D depth text value) : Document E depth text value := by
  cases document with
  | mk before found behind => exact .mk before (found.within wider) behind

end Within

/-- The collections that a text leaves open, the last one first. -/
inductive Unclosed (D : Dialect) : Nat → List Mode → Phase → List UInt8 → Prop
  | outer {depth : Nat} {mode : Mode} {phase : Phase} {body : List UInt8}
      {members : List (Option (List UInt8) × Json)} : Content D depth mode phase body members →
      Unclosed D depth [mode] phase (mode.opening :: body)
  | inner {depth : Nat} {mode inner : Mode} {stack : List Mode} {phase last : Phase}
      {text lead body : List UInt8} {key : Option (List UInt8)}
      {members : List (Option (List UInt8) × Json)} :
      Unclosed D (depth + 1) (mode :: stack) phase text → Leads D mode phase key lead →
      Content D depth inner last body members →
      Unclosed D depth (inner :: mode :: stack) last (text ++ (lead ++ inner.opening :: body))

theorem blank_nil : Blank [] := by simp [Blank]

theorem Blank.append {text gap : List UInt8} (blank : Blank text) (blank' : Blank gap) :
    Blank (text ++ gap) :=
  List.forall_mem_append.2 ⟨blank, blank'⟩

theorem Content.blank {D : Dialect} {depth : Nat} {mode : Mode} {text gap : List UInt8}
    {members : List (Option (List UInt8) × Json)}
    (content : Content D depth mode .behind text members) (blank : Blank gap) :
    Content D depth mode .behind (text ++ gap) members := by
  cases content with
  | scalar content free lead scalar blank' =>
    simp only [List.append_assoc]
    exact .scalar content free lead scalar (blank'.append blank)
  | nested content leads inner closed blank' =>
    simp only [List.append_assoc, List.cons_append]
    exact .nested content leads inner closed (blank'.append blank)

def EndsIn (P : UInt8 → Prop) (text : List UInt8) : Prop :=
  ∃ before b, text = before ++ [b] ∧ P b

/-- What stands in the innermost collection may be exchanged. -/
theorem Unclosed.innermost {D : Dialect} {depth : Nat} {mode : Mode} {stack : List Mode}
    {phase : Phase} {text : List UInt8} (unclosed : Unclosed D depth (mode :: stack) phase text) :
    ∃ before body members, text = before ++ body ∧ EndsIn (· = mode.opening) before ∧
      Content D depth mode phase body members ∧
      ∀ {phase' body' members'}, Content D depth mode phase' body' members' →
        Unclosed D depth (mode :: stack) phase' (before ++ body') := by
  cases unclosed with
  | @outer _ _ _ body _ content =>
    exact ⟨[mode.opening], body, _, rfl, ⟨[], _, rfl, rfl⟩, content, fun other => .outer other⟩
  | @inner _ _ _ _ _ _ text lead body _ _ unclosed leads content =>
    refine ⟨text ++ (lead ++ [mode.opening]), body, _, by simp,
      ⟨text ++ lead, _, by simp, rfl⟩, content, fun other => ?_⟩
    simpa using Unclosed.inner unclosed leads other

/-- The innermost collection is closed. -/
theorem Unclosed.close {D : Dialect} {depth : Nat} {inner mode : Mode} {stack : List Mode}
    {phase : Phase} {text : List UInt8}
    (unclosed : Unclosed D depth (inner :: mode :: stack) phase text) (closed : phase ≠ .comma) :
    Unclosed D (depth + 1) (mode :: stack) .behind (text ++ [inner.closing]) := by
  cases unclosed with
  | inner unclosed leads content =>
    obtain ⟨before, body, members, rfl, _, outer, resume⟩ := unclosed.innermost
    simpa using resume (.nested outer leads content closed blank_nil)

/-- All collections are closed, the last one first. -/
theorem Unclosed.complete {D : Dialect} {depth : Nat} {stack : List Mode} {phase : Phase}
    {text : List UInt8} (unclosed : Unclosed D depth stack phase text) (closed : phase ≠ .comma) :
    ∃ value, Collection D (depth + stack.length) (text ++ stack.map Mode.closing) value := by
  induction stack generalizing depth phase text with
  | nil => cases unclosed
  | cons mode stack ih =>
    cases stack with
    | nil =>
      cases unclosed with
      | outer content =>
        exact ⟨_, .mk content closed⟩
    | cons outer stack =>
      obtain ⟨value, collection⟩ := ih (unclosed.close closed) (by simp)
      refine ⟨value, ?_⟩
      simpa [Nat.add_assoc, Nat.add_comm 1] using collection

theorem EndsIn.append {P : UInt8 → Prop} {text : List UInt8} (ends : EndsIn P text)
    (before : List UInt8) : EndsIn P (before ++ text) := by
  obtain ⟨before', b, rfl, last⟩ := ends
  exact ⟨before ++ before', b, (List.append_assoc _ _ _).symm, last⟩

theorem Digits.ends {text : List UInt8} (number : Digits text) : EndsIn IsDigit text := by
  obtain ⟨before, b, rfl⟩ := (List.eq_nil_or_concat text).resolve_left number.nonempty
  rw [List.concat_eq_append] at number ⊢
  exact ⟨before, b, rfl, number.digits b (by simp)⟩

theorem IsNumber.ends {text : List UInt8} (number : IsNumber text) : EndsIn IsDigit text := by
  obtain ⟨_, integer, fraction, exponent⟩ := number
  refine EndsIn.append ?_ _
  cases exponent with
  | present _ _ digits => exact ((digits.ends.append _).append [_]).append _ |>.append _
  | absent =>
    rw [List.append_nil]
    cases fraction with
    | present digits => exact (digits.ends.append [_]).append _
    | absent =>
      rw [List.append_nil]
      cases integer with
      | zero => exact ⟨[], _, rfl, by decide⟩
      | digits digits _ => exact digits.ends

theorem Scalar.ends {D : Dialect} {item : List UInt8} (scalar : Scalar D item) :
    EndsIn (fun b => ∀ mode, b ≠ Mode.closing mode) item := by
  cases scalar with
  | string _ => exact ⟨_, '"'.toUInt8, by rw [quoted, ← List.cons_append], by rintro (_ | _) <;> decide⟩
  | literal member =>
    have all : ∀ l ∈ literals, ∃ b ∈ l.getLast?, b ≠ ']'.toUInt8 ∧ b ≠ '}'.toUInt8 := by
      decide +kernel
    obtain ⟨b, last, array, object⟩ := all item member
    obtain ⟨before, rfl⟩ := List.getLast?_eq_some_iff.1 last
    refine ⟨before, b, rfl, fun mode => ?_⟩
    cases mode
    · exact array
    · exact object
  | number number =>
    obtain ⟨before, b, rfl, digit⟩ := number.ends
    refine ⟨before, b, rfl, fun mode => ?_⟩
    rintro rfl
    cases mode <;> revert digit <;> decide

theorem closing_apart (mode : Mode) : ¬ IsBlank mode.closing ∧ mode.closing ≠ ','.toUInt8 := by
  cases mode <;> decide

theorem closing_ne_opening (mode mode' : Mode) : mode.closing ≠ mode'.opening := by
  cases mode <;> cases mode' <;> decide

theorem closing_inj {mode mode' : Mode} (same : mode.closing = mode'.closing) : mode = mode' := by
  cases mode <;> cases mode' <;> first | rfl | exact absurd same (by decide)

theorem last_inj {s t : List UInt8} {b c : UInt8} (eq : s ++ [b] = t ++ [c]) : s = t ∧ b = c :=
  ⟨(List.append_inj' eq rfl).1, List.singleton_inj.1 (List.append_inj' eq rfl).2⟩

theorem Blank.absent {s text gap : List UInt8} {mode : Mode} (blank : Blank gap)
    (eq : s ++ [mode.closing] = text ++ gap) : gap = [] := by
  rcases List.eq_nil_or_concat gap with rfl | ⟨before, b, rfl⟩
  · rfl
  · rw [List.concat_eq_append, ← List.append_assoc] at eq
    obtain ⟨_, rfl⟩ := last_inj eq
    exact absurd (blank _ (by simp)) (closing_apart mode).1

theorem Unclosed.opens {D : Dialect} {depth : Nat} {stack : List Mode} {phase : Phase}
    {text : List UInt8} (unclosed : Unclosed D depth stack phase text) :
    ∃ mode rest, text = Mode.opening mode :: rest := by
  induction unclosed with
  | outer _ => exact ⟨_, _, rfl⟩
  | inner _ _ _ ih =>
    obtain ⟨mode, rest, rfl⟩ := ih
    exact ⟨mode, _, rfl⟩

/-- A closing bracket at the end closes a member. -/
theorem Content.last_closing {D : Dialect} {depth : Nat} {mode inner : Mode} {phase : Phase}
    {s : List UInt8} {members : List (Option (List UInt8) × Json)}
    (content : Content D depth mode phase (s ++ [inner.closing]) members) :
    ∃ room phase' text lead key body last members' items, depth = room + 1 ∧
      Content D depth mode phase' text members' ∧ Leads D mode phase' key lead ∧
      Content D room inner last body items ∧ last ≠ .comma ∧
      s = text ++ (lead ++ inner.opening :: body) := by
  generalize eq : s ++ [inner.closing] = whole at content
  cases content with
  | opened blank =>
    have eq : s ++ [inner.closing] = [] ++ _ := eq
    obtain rfl := blank.absent eq
    simp at eq
  | @comma _ _ text gap _ content blank =>
    have eq : s ++ [inner.closing] = (text ++ [','.toUInt8]) ++ gap := by simpa using eq
    obtain rfl := blank.absent eq
    rw [List.append_nil] at eq
    exact absurd (last_inj eq).2 (closing_apart inner).2
  | @scalar _ _ _ text lead item gap _ _ content free led scalar blank =>
    obtain ⟨before, b, rfl, other⟩ := scalar.ends
    have eq : s ++ [inner.closing] = (text ++ (lead ++ (before ++ [b]))) ++ gap := by simpa using eq
    obtain rfl := blank.absent eq
    have eq : s ++ [inner.closing] = (text ++ (lead ++ before)) ++ [b] := by simpa using eq
    exact absurd (last_inj eq).2.symm (other inner)
  | @nested _ _ inner' _ _ text lead body gap _ _ _ content leads inside closed blank =>
    have eq : s ++ [inner.closing] =
        (text ++ (lead ++ inner'.opening :: (body ++ [inner'.closing]))) ++ gap := by
      simpa using eq
    obtain rfl := blank.absent eq
    have eq : s ++ [inner.closing] =
        (text ++ (lead ++ inner'.opening :: body)) ++ [inner'.closing] := by simpa using eq
    obtain ⟨rfl, same⟩ := last_inj eq
    obtain rfl := closing_inj same
    exact ⟨_, _, _, _, _, _, _, _, _, rfl, content, leads, inside, closed, rfl⟩

theorem Unclosed.last_closing {D : Dialect} {depth : Nat} {inner : Mode} {stack : List Mode}
    {phase : Phase} {s : List UInt8} (unclosed : Unclosed D depth stack phase (s ++ [inner.closing])) :
    ∃ room last, depth = room + 1 ∧ Unclosed D room (inner :: stack) last s ∧ last ≠ .comma := by
  cases stack with
  | nil => cases unclosed
  | cons mode stack =>
    obtain ⟨before, body, members, eq, ends, content, resume⟩ := unclosed.innermost
    rcases List.eq_nil_or_concat body with rfl | ⟨body, b, rfl⟩
    · obtain ⟨before, b, rfl, opening⟩ := ends
      rw [List.append_nil] at eq
      exact absurd ((last_inj eq).2.trans opening) (closing_ne_opening _ _)
    · rw [List.concat_eq_append, ← List.append_assoc] at eq
      obtain ⟨rfl, rfl⟩ := last_inj eq
      rw [List.concat_eq_append] at content
      obtain ⟨room, _, _, _, _, _, last, _, _, rfl, outer, leads, inside, closed, rfl⟩ :=
        content.last_closing
      exact ⟨room, last, rfl, by simpa using Unclosed.inner (resume outer) leads inside, closed⟩

/-- Closing brackets at the end close what was open before them. -/
theorem Unclosed.closings {D : Dialect} {depth : Nat} {stack : List Mode} {phase : Phase}
    {s : List UInt8} {closers : List Mode}
    (unclosed : Unclosed D depth stack phase (s ++ closers.map Mode.closing)) (closed : phase ≠ .comma) :
    ∃ room stack' last, Unclosed D room stack' last s ∧ last ≠ .comma ∧
      room + stack'.length = depth + stack.length := by
  induction closers using List.reverseRecOn generalizing depth stack phase with
  | nil => exact ⟨depth, stack, phase, by simpa using unclosed, closed, rfl⟩
  | append_singleton closers closer ih =>
    rw [List.map_append, ← List.append_assoc] at unclosed
    obtain ⟨room, last, rfl, more, closed⟩ := unclosed.last_closing
    obtain ⟨room', stack', last', found, closed', depth⟩ := ih more closed
    exact ⟨room', stack', last', found, closed', by simp only [List.length_cons] at depth; omega⟩

theorem Collection.closings {D : Dialect} {depth : Nat} {s : List UInt8} {closers : List Mode}
    {value : Json} (collection : Collection D depth (s ++ closers.map Mode.closing) value)
    (some : closers ≠ []) :
    ∃ room stack last, Unclosed D room stack last s ∧ last ≠ .comma ∧
      room + stack.length = depth := by
  obtain ⟨closers, closer, rfl⟩ := (List.eq_nil_or_concat closers).resolve_left some
  generalize eq : s ++ (closers.concat closer).map Mode.closing = text at collection
  obtain ⟨content, closed⟩ := collection
  rw [List.concat_eq_append, List.map_append, ← List.append_assoc, ← List.cons_append] at eq
  have unclosed := Unclosed.outer content
  rw [← (last_inj eq).1] at unclosed
  exact unclosed.closings closed

end JsonText
