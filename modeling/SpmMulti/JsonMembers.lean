import SpmMulti.JsonGuarantees

/- The members of a collection as coreJSON meets them one behind the other, and what it gives out
   of a value. JSON_Search goes on behind a member only over a comma, JSON_Iterate in any case. -/
namespace SpmJsonMembers
open SpmMachine SpmCoreJson JsonText SpmJsonScanners SpmJsonGuarantees

/-- The documents of the dialect in which every member is led to as it should be. -/
def strict : Dialect := ⟨CoreEscape, False⟩

theorem strict_within : strict.Within coreJSON := ⟨fun _ escape => escape, False.elim⟩

theorem strict_validated {buf : List UInt8} {value : Json}
    (document : Document strict JSON_MAX_DEPTH buf value) : JSON_Validate buf = .JSONSuccess :=
  (success_iff_document buf).2 ⟨value, document.within strict_within⟩

theorem nextValue_skips {buf rest : List UInt8} {length : Nat}
    (found : nextValue buf = some (rest, length)) :
    ∃ item value, Value coreJSON JSON_MAX_DEPTH item value ∧ buf = item ++ rest ∧
      length = item.length := by
  simp only [nextValue] at found
  split at found
  · rename_i after skipped
    obtain ⟨rfl, rfl⟩ := Prod.mk.inj (Option.some.inj found)
    obtain ⟨item, scalar, rfl⟩ := skipAnyScalar_skips skipped
    exact ⟨item, _, .scalar scalar, rfl, by simp⟩
  split at found
  · rename_i after skipped
    obtain ⟨rfl, rfl⟩ := Prod.mk.inj (Option.some.inj found)
    cases buf with
    | nil => cases skipped
    | cons c buf =>
      have explains := skipCollection_explains (c := c) buf
      rw [skipped] at explains
      obtain ⟨item, value, eq, collection⟩ := explains
      exact ⟨item, value, .collection collection, eq, by simp [eq]⟩
  · cases found

theorem nextValue_value {depth : Nat} (shallow : depth ≤ JSON_MAX_DEPTH) {item : List UInt8}
    {value : Json} (found : Value coreJSON depth item value) {r : List UInt8}
    (follows : Follows .behind r) : nextValue (item ++ r) = some (r, item.length) := by
  cases found with
  | scalar scalar =>
    rw [nextValue, skipAnyScalar_scalar scalar follows]
    simp
  | collection collection =>
    have skipped := collection_skipped shallow collection r
    obtain ⟨content, closed⟩ := collection
    rename_i mode _ _ _
    obtain ⟨_, _, other, _⟩ := opening_solid mode
    rw [List.cons_append] at skipped ⊢
    rw [nextValue, skipAnyScalar_none other, skipped]
    simp
    omega

theorem value_head {D : Dialect} {depth : Nat} {item : List UInt8} {value : Json}
    (found : Value D depth item value) :
    ∃ b rest, item = b :: rest ∧ (ScalarHead b ∨ ∃ mode, b = Mode.opening mode) := by
  cases found with
  | scalar scalar =>
    obtain ⟨b, rest, rfl, head⟩ := scalar_head scalar
    exact ⟨b, rest, rfl, Or.inl head⟩
  | collection collection =>
    cases collection with
    | mk _ _ => exact ⟨_, _, rfl, Or.inr ⟨_, rfl⟩⟩

theorem value_solid {D : Dialect} {depth : Nat} {item : List UInt8} {value : Json}
    (found : Value D depth item value) (r : List UInt8) : Solid (item ++ r) := by
  obtain ⟨b, rest, rfl, head | ⟨mode, rfl⟩⟩ := value_head found
  · obtain ⟨space, _, close⟩ := scalarHead_solid head
    exact ⟨b, _, rfl, space, close⟩
  · exact ⟨_, _, rfl, (opening_solid mode).1, opening_not_closing mode⟩

theorem quoted_length (name s : List UInt8) :
    (quoted name ++ s).length - s.length - 2 = name.length := by
  simp [quoted]
  omega

theorem quoted_take (name s : List UInt8) :
    ((quoted name ++ s).drop 1).take name.length = name := by
  simp [quoted]

theorem nextKeyValuePair_skips {buf rest : List UInt8} {pair : KeyValue}
    (found : nextKeyValuePair buf = some (rest, pair)) :
    ∃ name lead item value, Lead coreJSON .object (some name) lead ∧
      Value coreJSON JSON_MAX_DEPTH item value ∧ buf = lead ++ (item ++ rest) ∧
      pair.key = buf.drop 1 ∧ pair.keyLength = name.length ∧
      pair.key.take pair.keyLength = name ∧ pair.value = item ++ rest ∧
      pair.valueLength = item.length := by
  simp only [nextKeyValuePair] at found
  split at found
  · cases found
  · rename_i after string
    obtain ⟨name, inside, rfl⟩ := (skipString_iff _ _).1 string
    obtain ⟨gap, blank, eq⟩ := skipSpace_skips after
    split at found
    · cases found
    · rename_i b behind eq'
      obtain ⟨rfl, found⟩ := Option.ite_none_right_eq_some.1 found
      obtain ⟨⟨rest', length⟩, next, found⟩ := Option.map_eq_some_iff.1 found
      obtain ⟨rfl, rfl⟩ := Prod.mk.inj found
      obtain ⟨gap', blank', eq''⟩ := skipSpace_skips behind
      obtain ⟨item, value, valued, same, rfl⟩ := nextValue_skips next
      refine ⟨name, _, item, value, .object inside blank blank', valued, ?_, rfl, ?_, ?_, same, rfl⟩
      · rw [eq, eq', eq'', same]
        simp
      · exact quoted_length name after
      · simp only [quoted_length, quoted_take]

theorem nextKeyValuePair_pair {name lead : List UInt8} (led : Lead coreJSON .object (some name) lead)
    {depth : Nat} (shallow : depth ≤ JSON_MAX_DEPTH) {item : List UInt8}
    {value : Json} (found : Value coreJSON depth item value) {r : List UInt8}
    (follows : Follows .behind r) :
    nextKeyValuePair (lead ++ (item ++ r)) =
      some (r, ⟨(lead ++ (item ++ r)).drop 1, name.length, item ++ r, item.length⟩) := by
  obtain ⟨b, rest, eq, space, _⟩ := value_solid found r
  have next := nextValue_value shallow found follows
  cases led with
  | @object _ before behind inside blank blank' =>
    have colon : ¬ IsBlank ':'.toUInt8 := by decide
    have string : ∀ s, skipString (quoted name ++ s) = some s := fun s =>
      (skipString_iff _ _).2 ⟨name, inside, rfl⟩
    rw [eq] at next ⊢
    simp only [List.append_assoc, List.cons_append, nextKeyValuePair, string, skipSpace_blank blank,
      skipSpace_solid colon, skipSpace_blank blank', skipSpace_solid space, if_true, next,
      quoted_length, Option.map_some]

/-- A member as it is found in a buffer: its key, and the position and the length of its value. -/
structure Span where
  key : Option (List UInt8)
  value : List UInt8
  length : Nat

def nextMember : Mode → List UInt8 → Option (List UInt8 × Span)
  | .array, buf => (nextValue buf).map fun (rest, length) => (rest, ⟨none, buf, length⟩)
  | .object, buf => (nextKeyValuePair buf).map fun (rest, pair) =>
    (rest, ⟨some (pair.key.take pair.keyLength), pair.value, pair.valueLength⟩)

theorem nextMember_skips {mode : Mode} {buf rest : List UInt8} {span : Span}
    (found : nextMember mode buf = some (rest, span)) :
    ∃ key lead item value, Lead coreJSON mode key lead ∧
      Value coreJSON JSON_MAX_DEPTH item value ∧ buf = lead ++ (item ++ rest) ∧
      span = ⟨key, item ++ rest, item.length⟩ := by
  cases mode with
  | array =>
    obtain ⟨⟨rest', length⟩, next, eq⟩ := Option.map_eq_some_iff.1 found
    obtain ⟨rfl, rfl⟩ := Prod.mk.inj eq
    obtain ⟨item, value, valued, rfl, rfl⟩ := nextValue_skips next
    exact ⟨none, [], item, value, .array, valued, rfl, rfl⟩
  | object =>
    obtain ⟨⟨rest', pair⟩, next, eq⟩ := Option.map_eq_some_iff.1 found
    obtain ⟨rfl, rfl⟩ := Prod.mk.inj eq
    obtain ⟨name, lead, item, value, led, valued, eq, _, _, key, place, length⟩ :=
      nextKeyValuePair_skips next
    exact ⟨some name, lead, item, value, led, valued, eq, by rw [key, place, length]⟩

theorem nextMember_member {mode : Mode} {key : Option (List UInt8)} {lead : List UInt8}
    (led : Lead coreJSON mode key lead) {depth : Nat} (shallow : depth ≤ JSON_MAX_DEPTH)
    {item : List UInt8} {value : Json} (found : Value coreJSON depth item value) {r : List UInt8}
    (follows : Follows .behind r) :
    nextMember mode (lead ++ (item ++ r)) = some (r, ⟨key, item ++ r, item.length⟩) := by
  cases mode with
  | array =>
    cases led
    rw [nextMember, List.nil_append, nextValue_value shallow found follows, Option.map_some]
  | object =>
    cases key with
    | none => cases led
    | some name =>
      have pair := nextKeyValuePair_pair led shallow found follows
      obtain ⟨_, blank, blank'⟩ := id led
      rw [nextMember, pair, Option.map_some]
      simp only [List.append_assoc, quoted_take]

theorem nextMember_closing (mode inner : Mode) (s : List UInt8) :
    nextMember mode (inner.closing :: s) = none := by
  obtain ⟨_, _, other, _⟩ := closing_solid inner
  cases mode with
  | array =>
    have close := (isCloseBracket_iff inner.closing).2 ⟨inner, rfl⟩
    have skipped : skipCollection (inner.closing :: s) = (.JSONIllegalDocument, s) := by
      simp only [skipCollection, List.length_cons, collectionLoop, closing_not_opening, close,
        Bool.false_eq_true, if_false, if_true]
    simp only [nextMember, nextValue, skipAnyScalar_none other, skipped, Option.map_none]
  | object =>
    have quote : inner.closing ≠ '"'.toUInt8 := fun quote => other (Or.inl quote)
    simp only [nextMember, nextKeyValuePair, skipString_none quote, Option.map_none]

section Walk
variable (eager : Bool)

/-- The members of a collection, as far as commas join them or, if it is eager, without. -/
def walkFrom (mode : Mode) : Nat → List UInt8 → List Span
  | 0, _ => []
  | turns + 1, buf =>
    match nextMember mode buf with
    | none => []
    | some (rest, span) =>
      span ::
        if (skipSpaceAndComma rest).1 || eager then walkFrom mode turns (skipSpaceAndComma rest).2
        else []

def walk (mode : Mode) (buf : List UInt8) : List Span := walkFrom eager mode buf.length buf

theorem nextMember_shorter {mode : Mode} {buf rest : List UInt8} {span : Span}
    (found : nextMember mode buf = some (rest, span)) :
    (skipSpaceAndComma rest).2.length < buf.length := by
  obtain ⟨key, lead, item, value, led, valued, rfl, _⟩ := nextMember_skips found
  obtain ⟨b, others, rfl, _⟩ := value_head valued
  have suffix := (skipSpaceAndComma_suffix rest).length_le
  simp only [List.length_append, List.length_cons]
  omega

theorem nextMember_nil (mode : Mode) : nextMember mode [] = none := by
  cases mode <;> rfl

theorem walkFrom_turns {mode : Mode} {n m : Nat} {buf : List UInt8} (enough : buf.length ≤ n)
    (enough' : buf.length ≤ m) : walkFrom eager mode n buf = walkFrom eager mode m buf := by
  induction n generalizing m buf with
  | zero =>
    obtain rfl := List.eq_nil_of_length_eq_zero (Nat.le_zero.1 enough)
    cases m with
    | zero => rfl
    | succ m => rw [walkFrom, walkFrom, nextMember_nil]
  | succ n ih =>
    cases m with
    | zero =>
      obtain rfl := List.eq_nil_of_length_eq_zero (Nat.le_zero.1 enough')
      rw [walkFrom, walkFrom, nextMember_nil]
    | succ m =>
      simp only [walkFrom]
      split
      · rfl
      · rename_i rest span found
        have shorter := nextMember_shorter found
        rw [ih (m := m) (by omega) (by omega)]

theorem walk_none {mode : Mode} {buf : List UInt8} (none : nextMember mode buf = none) :
    walk eager mode buf = [] := by
  cases buf with
  | nil => rfl
  | cons b buf => rw [walk, List.length_cons, walkFrom, none]

/-- How the walk goes on behind a member. -/
def walkOn (mode : Mode) (s : List UInt8) : List Span :=
  if (skipSpaceAndComma s).1 || eager then walk eager mode (skipSpaceAndComma s).2 else []

theorem walk_some {mode : Mode} {buf rest : List UInt8} {span : Span}
    (found : nextMember mode buf = some (rest, span)) :
    walk eager mode buf = span :: walkOn eager mode rest := by
  have shorter := nextMember_shorter found
  cases buf with
  | nil => rw [nextMember_nil] at found; cases found
  | cons b buf =>
    rw [List.length_cons, Nat.lt_add_one_iff] at shorter
    have same := @walkFrom_turns eager mode _ _ _ shorter le_rfl
    simp only [walk, List.length_cons, walkFrom, found, walkOn, same]

/-- The span is this member of a collection whose values lie in the buffer. -/
def Denotes (D : Dialect) (depth : Nat) (buf : List UInt8) (span : Span)
    (member : Option (List UInt8) × Json) : Prop :=
  span.key = member.1 ∧ span.value <:+ buf ∧
    ∃ item rest, span.value = item ++ rest ∧ span.length = item.length ∧
      Value D depth item member.2

/-- The span is the member of this number in the inside of a collection. -/
def Numbered (D : Dialect) (depth : Nat) (mode : Mode) (inside : List UInt8) (span : Span)
    (p : (Option (List UInt8) × Json) × Nat) : Prop :=
  Denotes D depth inside span p.1 ∧
    MemberAt D depth mode inside p.2 p.1 (inside.length - span.value.length) span.length

/-- How the walk goes on behind a text that ends in this phase. -/
def walkAfter (phase : Phase) (mode : Mode) (s : List UInt8) : List Span :=
  if phase = .behind then walkOn eager mode s else walk eager mode (skipSpace s)

theorem walkOn_blank {gap : List UInt8} (blank : Blank gap) (mode : Mode) (s : List UInt8) :
    walkOn eager mode (gap ++ s) = walkOn eager mode s := by
  simp only [walkOn, skipSpaceAndComma_blank blank]

theorem walkOn_comma {gap s : List UInt8} (blank : Blank gap) (solid : Solid s) (mode : Mode) :
    walkOn eager mode (','.toUInt8 :: (gap ++ s)) = walk eager mode s := by
  rw [walkOn, skipSpaceAndComma_comma blank solid]
  rfl

theorem walkAfter_closing (phase : Phase) (mode inner : Mode) (s : List UInt8) :
    walkAfter eager phase mode (inner.closing :: s) = [] := by
  obtain ⟨space, comma, _, _⟩ := closing_solid inner
  rw [walkAfter, walkOn, skipSpaceAndComma_other space comma, skipSpace_solid space,
    walk_none eager (nextMember_closing mode inner s)]
  simp

/-- A member that is led to comes next. -/
theorem walkAfter_member {depth : Nat} (shallow : depth ≤ JSON_MAX_DEPTH) {phase : Phase}
    (free : phase ≠ .behind) {mode : Mode} {key : Option (List UInt8)} {lead : List UInt8}
    (led : Lead coreJSON mode key lead) {item : List UInt8} {value : Json}
    (found : Value coreJSON depth item value) {gap s : List UInt8} (blank : Blank gap)
    (follows : Follows .behind s) :
    walkAfter eager phase mode (lead ++ (item ++ (gap ++ s))) =
      ⟨key, item ++ (gap ++ s), item.length⟩ :: walkOn eager mode s := by
  have solid := lead_solid led (value_solid found (gap ++ s))
  rw [walkAfter, if_neg free, solid_skipSpace solid,
    walk_some eager (nextMember_member led shallow found (follows_blank blank follows)),
    walkOn_blank eager blank]

theorem strict_free {mode : Mode} {phase : Phase} {key : Option (List UInt8)} {lead : List UInt8}
    (leads : Leads strict mode phase key lead) : phase ≠ .behind ∧ Lead strict mode key lead :=
  leads.resolve_right fun bare => bare.1

/-- The walk has met these members when it comes behind the text. -/
def Walked (depth : Nat) (mode : Mode) (phase : Phase) (text s : List UInt8)
    (members : List (Option (List UInt8) × Json)) : Prop :=
  ∃ spans, List.Forall₂ (Numbered strict depth mode (text ++ s)) spans members.zipIdx ∧
    walk eager mode (skipSpace (text ++ s)) = spans ++ walkAfter eager phase mode s

theorem member_numbered {depth : Nat} {mode : Mode} {phase : Phase} {text : List UInt8}
    {members : List (Option (List UInt8) × Json)}
    (content : Content strict depth mode phase text members) {key : Option (List UInt8)}
    {lead : List UInt8} (leads : Leads strict mode phase key lead) {item : List UInt8}
    {value : Json} (found : Value strict depth item value) (rest : List UInt8) :
    Numbered strict depth mode (text ++ (lead ++ (item ++ rest)))
      ⟨key, item ++ rest, item.length⟩ ((key, value), members.length) := by
  have place : (text ++ (lead ++ (item ++ rest))).length - (item ++ rest).length =
      text.length + lead.length := by
    simp only [List.length_append]
    omega
  refine ⟨⟨rfl, ⟨text ++ lead, by simp⟩, item, rest, rfl, rfl, found⟩, ?_⟩
  rw [place]
  exact .mk content leads found

theorem member_walked {depth : Nat} (shallow : depth ≤ JSON_MAX_DEPTH) {mode : Mode} {phase : Phase}
    {text : List UInt8} {members : List (Option (List UInt8) × Json)} (free : phase ≠ .behind)
    {key : Option (List UInt8)} {lead : List UInt8} (led : Lead strict mode key lead)
    {item : List UInt8} {value : Json} (found : Value strict depth item value)
    {gap s : List UInt8} (blank : Blank gap) (follows : Follows .behind s)
    (content : Content strict depth mode phase text members)
    (before : ∀ s', Follows phase s' → Walked eager depth mode phase text s' members) :
    Walked eager depth mode .behind (text ++ (lead ++ (item ++ gap))) s
      (members ++ [(key, value)]) := by
  have led' := led.within strict_within
  have found' := found.within strict_within
  have solid := lead_solid led' (value_solid found' (gap ++ s))
  obtain ⟨spans, numbered, walked⟩ := before _ (follows_led free solid)
  rw [walkAfter_member eager shallow free led' found' blank follows] at walked
  have place : (text ++ (lead ++ (item ++ gap))) ++ s = text ++ (lead ++ (item ++ (gap ++ s))) := by
    simp
  refine ⟨spans ++ [⟨key, item ++ (gap ++ s), item.length⟩], ?_, ?_⟩
  · rw [place, List.zipIdx_append, Nat.zero_add]
    exact List.rel_append numbered
      (.cons (member_numbered content (Or.inl ⟨free, led⟩) found (gap ++ s)) .nil)
  · rw [place, walked, List.append_assoc]
    rfl

/-- The walk meets the members of a text in their order. -/
theorem content_walked {depth : Nat} {mode : Mode} {phase : Phase} {text : List UInt8}
    {members : List (Option (List UInt8) × Json)}
    (content : Content strict depth mode phase text members) (shallow : depth ≤ JSON_MAX_DEPTH)
    {s : List UInt8} (follows : Follows phase s) : Walked eager depth mode phase text s members := by
  induction content generalizing s with
  | opened blank =>
    refine ⟨[], .nil, ?_⟩
    rw [skipSpace_blank blank, walkAfter, if_neg (by simp), List.nil_append]
  | @comma _ mode text gap _ content blank ih =>
    have behind : Follows .behind (','.toUInt8 :: (gap ++ s)) := by
      intro b head
      obtain rfl := Option.some.inj head
      decide
    obtain ⟨spans, numbered, walked⟩ := ih shallow behind
    rw [Walked, List.append_assoc, List.cons_append]
    refine ⟨spans, numbered, walked.trans ?_⟩
    rw [walkAfter, if_pos rfl, walkOn_comma eager blank follows, walkAfter, if_neg (by simp),
      solid_skipSpace follows]
  | scalar content free led scalar blank ih =>
    exact member_walked eager shallow free led (.scalar scalar) blank follows content
      fun _ => ih shallow
  | @nested _ _ inner _ _ text lead body gap _ _ _ content leads inside closed blank ih _ =>
    obtain ⟨free, led⟩ := strict_free leads
    have walked := member_walked eager shallow free led (.collection (.mk inside closed)) blank
      follows content fun _ => ih shallow
    simpa using walked

/-- The members of a collection are all that the walk meets in it, whatever stands behind. -/
theorem collection_walked {depth : Nat} {mode : Mode} {last : Phase} {body : List UInt8}
    {members : List (Option (List UInt8) × Json)}
    (content : Content strict depth mode last body members) (closed : last ≠ .comma)
    (shallow : depth ≤ JSON_MAX_DEPTH) (s : List UInt8) :
    List.Forall₂ (Numbered strict depth mode (body ++ mode.closing :: s))
      (walk eager mode (skipSpace (body ++ mode.closing :: s))) members.zipIdx := by
  obtain ⟨spans, numbered, walked⟩ :=
    content_walked eager content shallow (follows_closing closed mode s)
  rw [walkAfter_closing, List.append_nil] at walked
  rwa [walked]

end Walk

/-- The value stands at this index of the buffer, with this length. -/
def Placed (D : Dialect) (depth : Nat) (buf : List UInt8) (index length : Nat) (value : Json) : Prop :=
  index + length ≤ buf.length ∧ Value D depth ((buf.drop index).take length) value

theorem Denotes.placed {D : Dialect} {depth : Nat} {members buf : List UInt8} {span : Span}
    {member : Option (List UInt8) × Json} (denotes : Denotes D depth members span member)
    (suffix : members <:+ buf) :
    Placed D depth buf (buf.length - span.value.length) span.length member.2 := by
  obtain ⟨_, within, item, rest, eq, length, valued⟩ := denotes
  have place := List.suffix_iff_eq_drop.1 (within.trans suffix)
  have long := (within.trans suffix).length_le
  refine ⟨?_, ?_⟩
  · rw [eq, length, List.length_append]
    rw [eq, List.length_append] at long
    omega
  · rw [← place, eq, length, List.take_left]
    exact valued

theorem part_of_part {buf : List UInt8} {start length index length' : Nat}
    (short : index + length' ≤ length) :
    (((buf.drop start).take length).drop index).take length' =
      (buf.drop (start + index)).take length' := by
  rw [List.drop_take, List.take_take, List.drop_drop, Nat.min_eq_left (by omega)]

/-- What stands in a part of the buffer stands in the buffer. -/
theorem Placed.within {D : Dialect} {depth : Nat} {buf : List UInt8}
    {start length index length' : Nat} {value : Json} (inside : start + length ≤ buf.length)
    (placed : Placed D depth ((buf.drop start).take length) index length' value) :
    Placed D depth buf (start + index) length' value := by
  obtain ⟨short, valued⟩ := placed
  rw [List.length_take, List.length_drop, Nat.min_eq_left (by omega)] at short
  rw [part_of_part short] at valued
  exact ⟨by omega, valued⟩

/-- The buffer holds a collection behind some space, and the member of this number stands at
    this index in it. -/
def Stands (D : Dialect) (depth : Nat) (buf : List UInt8) (k : Nat)
    (member : Option (List UInt8) × Json) (index length : Nat) : Prop :=
  ∃ mode before inside at_, Blank before ∧ buf = before ++ Mode.opening mode :: inside ∧
    MemberAt D depth mode inside k member at_ length ∧ index = before.length + 1 + at_

/-- Where a path leads, from where its first step leads. -/
theorem Stands.leads {D : Dialect} {depth : Nat} {buf : List UInt8} {value found : Json}
    {step : Step} {k : Nat} {key : Option (List UInt8)} {index length : Nat}
    (stands : Stands D depth buf k (key, found) index length)
    (first : value.member? step = some (k, found)) {path : List Step} {index' length' : Nat}
    (rest : LeadsTo D ((buf.drop index).take length) found path index' length') :
    LeadsTo D buf value (step :: path) (index + index') length' := by
  obtain ⟨mode, before, inside, at_, blank, rfl, member, rfl⟩ := stands
  have drop : (before ++ mode.opening :: inside).drop (before.length + 1 + at_) =
      inside.drop at_ := by
    rw [← List.drop_drop, ← List.drop_drop, List.drop_left, List.drop_succ_cons, List.drop_zero]
  rw [drop] at rest
  exact .step blank first member rest

section Numbered
variable {D : Dialect} {depth : Nat} {mode : Mode} {inside : List UInt8} {spans : List Span}
variable {members : List ((Option (List UInt8) × Json) × Nat)}

theorem Numbered.stands {span : Span} {p : (Option (List UInt8) × Json) × Nat}
    (numbered : Numbered D depth mode inside span p) {before : List UInt8} (blank : Blank before) :
    Stands D depth (before ++ mode.opening :: inside) p.2 p.1
      ((before ++ mode.opening :: inside).length - span.value.length) span.length := by
  refine ⟨mode, before, inside, _, blank, rfl, numbered.2, ?_⟩
  have within := numbered.1.2.1.length_le
  simp only [List.length_append, List.length_cons]
  omega

theorem find_numbered (numbered : List.Forall₂ (Numbered D depth mode inside) spans members)
    (key : Option (List UInt8)) :
    Option.Rel (Numbered D depth mode inside) (spans.find? fun span => span.key = key)
      (members.find? fun p => p.1.1 = key) := by
  induction numbered with
  | nil => exact .none
  | cons first _ ih =>
    simp only [List.find?_cons, first.1.1]
    split
    · exact .some first
    · exact ih

theorem index_numbered (numbered : List.Forall₂ (Numbered D depth mode inside) spans members)
    (i : Nat) : Option.Rel (Numbered D depth mode inside) spans[i]? members[i]? := by
  induction numbered generalizing i with
  | nil => exact .none
  | cons first _ ih =>
    cases i with
    | zero => exact .some first
    | succ i => exact ih i

end Numbered

/-- A buffer begins with a value behind some space. -/
theorem document_start {depth : Nat} {buf : List UInt8} {value : Json}
    (document : Document strict depth buf value) :
    ∃ before item behind, Blank before ∧ Value strict depth item value ∧ Blank behind ∧
      buf = before ++ (item ++ behind) ∧ skipSpace buf = item ++ behind := by
  obtain ⟨blank, valued, blank'⟩ := document
  refine ⟨_, _, _, blank, valued, blank', rfl, ?_⟩
  rw [skipSpace_blank blank, solid_skipSpace (value_solid valued _)]

theorem Value.document {D : Dialect} {depth : Nat} {text : List UInt8} {value : Json}
    (found : Value D depth text value) : Document D depth text value := by
  have document := Document.mk blank_nil found blank_nil
  rwa [List.nil_append, List.append_nil] at document

/-- What a search gives out for a value. -/
inductive Shown (D : Dialect) : Json → List UInt8 → JSONTypes → Prop
  | string {body : List UInt8} : StringBody D body → Shown D (.scalar (quoted body)) body .JSONString
  | number {text : List UInt8} : IsNumber text → Shown D (.scalar text) text .JSONNumber
  | true : Shown D (.scalar (text "true")) (text "true") .JSONTrue
  | false : Shown D (.scalar (text "false")) (text "false") .JSONFalse
  | null : Shown D (.scalar (text "null")) (text "null") .JSONNull
  | array {depth : Nat} {text : List UInt8} {members : List (Option (List UInt8) × Json)} :
      Collection D depth text (.collection .array members) →
      Shown D (.collection .array members) text .JSONArray
  | object {depth : Nat} {text : List UInt8} {members : List (Option (List UInt8) × Json)} :
      Collection D depth text (.collection .object members) →
      Shown D (.collection .object members) text .JSONObject

theorem type_table : ∀ n < 256, UInt8.ofNat n = '-'.toUInt8 ∨ IsDigit (UInt8.ofNat n) →
    getType (UInt8.ofNat n) = .JSONNumber := by
  decide +kernel

theorem literal_cases {literal : List UInt8} (member : literal ∈ literals) :
    literal = text "true" ∨ literal = text "false" ∨ literal = text "null" := by
  have all : ∀ l ∈ literals, l = text "true" ∨ l = text "false" ∨ l = text "null" := by
    decide +kernel
  exact all literal member

/-- The first byte of a value tells its type. -/
theorem value_shown {D : Dialect} {depth : Nat} {text : List UInt8} {value : Json}
    (found : Value D depth text value) :
    (∃ body, text = quoted body ∧ Shown D value body .JSONString) ∨
      getType (text.headD 0) ≠ .JSONString ∧ Shown D value text (getType (text.headD 0)) := by
  cases found with
  | scalar scalar =>
    cases scalar with
    | string body => exact Or.inl ⟨_, rfl, .string body⟩
    | literal member =>
      refine Or.inr ?_
      rcases literal_cases member with rfl | rfl | rfl
      · exact ⟨by decide, .true⟩
      · exact ⟨by decide, .false⟩
      · exact ⟨by decide, .null⟩
    | number number =>
      obtain ⟨b, rest, rfl, head⟩ := number_head number
      have table := type_table b.toNat b.toNat_lt
      rw [UInt8.ofNat_toNat] at table
      refine Or.inr ?_
      rw [List.headD_cons, table head]
      exact ⟨by decide, .number number⟩
  | collection collection =>
    refine Or.inr ?_
    cases collection with
    | @mk _ mode _ _ _ content closed =>
      cases mode with
      | array => exact ⟨by rw [List.headD_cons]; decide, .array (.mk content closed)⟩
      | object => exact ⟨by rw [List.headD_cons]; decide, .object (.mk content closed)⟩

/-- Where what is given out of a value begins, and how long it is. -/
def unquoted (type : JSONTypes) (index length : Nat) : Nat × Nat :=
  if type = .JSONString then (index + 1, length - 2) else (index, length)

/-- What is given out for a value that was found there: the quotes around a string do not belong
    to it. -/
def given (buf : List UInt8) (index length : Nat) : Nat × Nat × JSONTypes :=
  let t := getType ((buf.drop index).headD 0)
  if t = .JSONString then (index + 1, length - 2, t) else (index, length, t)

theorem Placed.head {D : Dialect} {depth : Nat} {buf : List UInt8} {index length : Nat}
    {value : Json} (placed : Placed D depth buf index length value) :
    (buf.drop index).headD 0 = ((buf.drop index).take length).headD 0 := by
  obtain ⟨b, rest, eq, _⟩ := value_head placed.2
  cases here : buf.drop index with
  | nil => simp
  | cons c after =>
    rw [here] at eq
    cases length with
    | zero => cases eq
    | succ length => rfl

theorem Placed.given {D : Dialect} {depth : Nat} {buf : List UInt8} {index length : Nat}
    {value : Json} (placed : Placed D depth buf index length value) :
    ∃ index' length' type, given buf index length = (index', length', type) ∧
      (index', length') = unquoted type index length ∧ index' + length' ≤ buf.length ∧
      Shown D value ((buf.drop index').take length') type := by
  have inside := placed.1
  simp only [SpmJsonMembers.given, placed.head]
  rcases value_shown placed.2 with ⟨body, text, shown⟩ | ⟨other, shown⟩
  · have string : getType (((buf.drop index).take length).headD 0) = .JSONString := by
      rw [text]
      rfl
    have size := congrArg List.length text
    rw [List.length_take, List.length_drop, Nat.min_eq_left (by omega), quoted, List.length_cons,
      List.length_append, List.length_singleton] at size
    have inner : (buf.drop (index + 1)).take (length - 2) = body := by
      have dropped := congrArg (fun t => (t.drop 1).take (length - 2)) text
      simp only [List.drop_take, List.take_take, List.drop_drop, quoted, List.drop_succ_cons,
        List.drop_zero] at dropped
      rw [Nat.min_eq_left (by omega)] at dropped
      rw [dropped, List.take_left' (by omega)]
    rw [if_pos string]
    refine ⟨_, _, _, rfl, (if_pos string).symm, by omega, ?_⟩
    rw [inner, string]
    exact shown
  · rw [if_neg other]
    exact ⟨_, _, _, rfl, (if_neg other).symm, inside, shown⟩

end SpmJsonMembers
