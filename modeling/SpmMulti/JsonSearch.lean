import SpmMulti.JsonMembers
import SpmMulti.Lib.PositionalNumeral

/- JSON_Search finds what the path of the query leads to, and gives nothing out but values. -/
namespace SpmJsonSearch
open SpmMachine SpmCoreJson JsonText SpmJsonScanners SpmJsonGuarantees SpmJsonMembers
open PositionalNumeral

theorem keyLoop_walk (query : List UInt8) {queryLength : Nat} (within : queryLength ≤ query.length)
    (turns : Nat) (buf : List UInt8) :
    keyLoop query queryLength turns buf =
      ((walkFrom false .object turns buf).find? fun span =>
        span.key = some (query.take queryLength)).map fun span => (span.value, span.length) := by
  induction turns generalizing buf with
  | zero => rfl
  | succ turns ih =>
    cases found : nextKeyValuePair buf with
    | none => simp only [keyLoop, found, walkFrom, nextMember, Option.map_none, List.find?_nil]
    | some next =>
      obtain ⟨rest, pair⟩ := next
      obtain ⟨name, _, _, _, _, _, _, _, length, key, _, _⟩ := nextKeyValuePair_skips found
      have same : (queryLength = pair.keyLength && strnEq query pair.key pair.keyLength) =
          decide (some (pair.key.take pair.keyLength) = some (query.take queryLength)) := by
        rw [Bool.eq_iff_iff]
        simp only [strnEq, Bool.and_eq_true, decide_eq_true_eq, Option.some.injEq]
        constructor
        · rintro ⟨rfl, same⟩
          exact same.symm
        · intro same
          have equal := congrArg List.length same
          rw [key, List.length_take, Nat.min_eq_left within, ← length] at equal
          exact ⟨equal.symm, by rw [same, equal]⟩
      simp only [keyLoop, found, walkFrom, nextMember, Option.map_some, same, List.find?_cons,
        Bool.or_false]
      split
      · rename_i hit
        rw [hit]
        rfl
      · rename_i miss
        rw [Bool.eq_false_iff.2 miss]
        split
        · exact ih _
        · rfl

theorem indexLoop_walk {queryIndex turns currentIndex : Nat} (below : currentIndex ≤ queryIndex)
    (buf : List UInt8) :
    indexLoop queryIndex turns currentIndex buf =
      ((walkFrom false .array turns buf)[queryIndex - currentIndex]?).map fun span =>
        (span.value, span.length) := by
  induction turns generalizing currentIndex buf with
  | zero => rfl
  | succ turns ih =>
    cases found : nextValue buf with
    | none => simp [indexLoop, found, walkFrom, nextMember]
    | some next =>
      obtain ⟨rest, length⟩ := next
      simp only [indexLoop, found, walkFrom, nextMember, Option.map_some, Bool.or_false]
      split
      · rename_i hit
        simp [hit]
      · rename_i miss
        have more : queryIndex - currentIndex = queryIndex - (currentIndex + 1) + 1 := by omega
        rw [more, List.getElem?_cons_succ]
        split
        · exact ih (by omega) _
        · rfl

/-- The result is where the member stands in the buffer, if there is one. -/
def FoundIn (buf : List UInt8) : Option (Nat × Nat) → Option (Nat × Json) → Prop
  | some (index, length), some (k, value) => ∃ depth ≤ JSON_MAX_DEPTH, ∃ key,
    Placed strict depth buf index length value ∧ Stands strict depth buf k (key, value) index length
  | none, none => True
  | _, _ => False

theorem found_numbered {depth : Nat} (shallow : depth ≤ JSON_MAX_DEPTH) {mode : Mode}
    {before inside buf : List UInt8} (blank : Blank before)
    (eq : buf = before ++ mode.opening :: inside) {span : Option Span}
    {p : Option ((Option (List UInt8) × Json) × Nat)}
    (numbered : Option.Rel (Numbered strict depth mode inside) span p) :
    FoundIn buf ((span.map fun span => (span.value, span.length)).map fun (value, length) =>
      (buf.length - value.length, length)) (p.map fun p => (p.2, p.1.2)) := by
  cases numbered with
  | none => trivial
  | @some span p numbered =>
    subst eq
    have suffix : inside <:+ before ++ mode.opening :: inside := ⟨before ++ [mode.opening], by simp⟩
    exact ⟨depth, shallow, p.1.1, numbered.1.placed suffix, numbered.stands blank⟩

theorem key_found {depth : Nat} (shallow : depth ≤ JSON_MAX_DEPTH) {buf : List UInt8} {value : Json}
    (document : Document strict depth buf value) (query : List UInt8) {queryLength : Nat}
    (within : queryLength ≤ query.length) :
    FoundIn buf (objectSearch buf query queryLength)
      (value.member? (.key (query.take queryLength))) := by
  obtain ⟨before, item, behind, blank, valued, _, eq, start⟩ := document_start document
  have other : ∀ b, b ≠ '{'.toUInt8 → ∀ rest, item = b :: rest →
      objectSearch buf query queryLength = none := by
    rintro b brace rest rfl
    simp only [objectSearch, start, List.cons_append, if_neg brace]
  cases valued with
  | scalar scalar =>
    obtain ⟨b, rest, same, head⟩ := scalar_head scalar
    rw [other b (by rintro rfl; revert head; decide) rest same]
    trivial
  | collection collection =>
    obtain ⟨content, closed⟩ := collection
    rename_i depth mode last body members
    cases mode with
    | array =>
      rw [other _ (by decide) _ rfl]
      trivial
    | object =>
      have brace : Mode.object.opening = '{'.toUInt8 := rfl
      have shallow' : depth ≤ JSON_MAX_DEPTH := by omega
      have numbered := collection_walked false content closed shallow' behind
      simp only [objectSearch, start, List.cons_append, if_pos brace, keyLoop_walk query within]
      rw [walkFrom_turns false (skipSpace_suffix _).length_le le_rfl, List.append_assoc,
        List.singleton_append]
      refine found_numbered shallow' blank ?_ (find_numbered numbered _)
      rw [eq]
      simp

theorem index_found {depth : Nat} (shallow : depth ≤ JSON_MAX_DEPTH) {buf : List UInt8}
    {value : Json} (document : Document strict depth buf value) (queryIndex : Nat) :
    FoundIn buf (arraySearch buf queryIndex) (value.member? (.index queryIndex)) := by
  obtain ⟨before, item, behind, blank, valued, _, eq, start⟩ := document_start document
  have other : ∀ b, b ≠ '['.toUInt8 → ∀ rest, item = b :: rest →
      arraySearch buf queryIndex = none := by
    rintro b bracket rest rfl
    simp only [arraySearch, start, List.cons_append, if_neg bracket]
  cases valued with
  | scalar scalar =>
    obtain ⟨b, rest, same, head⟩ := scalar_head scalar
    rw [other b (by rintro rfl; revert head; decide) rest same]
    trivial
  | collection collection =>
    obtain ⟨content, closed⟩ := collection
    rename_i depth mode last body members
    cases mode with
    | object =>
      rw [other _ (by decide) _ rfl]
      trivial
    | array =>
      have bracket : Mode.array.opening = '['.toUInt8 := rfl
      have shallow' : depth ≤ JSON_MAX_DEPTH := by omega
      have numbered := collection_walked false content closed shallow' behind
      have number : Json.member? (.collection .array members) (.index queryIndex) =
          members.zipIdx[queryIndex]?.map fun p => (p.2, p.1.2) := by
        simp [Json.member?, List.getElem?_zipIdx, Function.comp_def]
      simp only [arraySearch, start, List.cons_append, if_pos bracket,
        indexLoop_walk (Nat.zero_le queryIndex)]
      rw [walkFrom_turns false (skipSpace_suffix _).length_le le_rfl, List.append_assoc,
        List.singleton_append, number]
      refine found_numbered shallow' blank ?_ (index_numbered numbered _)
      rw [eq]
      simp

def digitValues (digits : List UInt8) : List Nat := digits.map fun b => (hexToInt b).toNat

def indexValue (digits : List UInt8) : Nat := value 10 (digitValues digits)

/-- A value that became too large is -1. -/
def clipped : Option Nat → Int
  | some value => value
  | none => -1

theorem digit_table : ∀ n < 256, isdigit_ (UInt8.ofNat n) = true →
    (hexToInt (UInt8.ofNat n)).toNat ≤ 9 := by
  decide +kernel

theorem digit_le {b : UInt8} (digit : isdigit_ b = true) : (hexToInt b).toNat ≤ 9 := by
  have table := digit_table b.toNat b.toNat_lt
  rw [UInt8.ofNat_toNat] at table
  exact table digit

/-- Comparing with MAX_FACTOR first keeps exactly the values up to MAX_INDEX_VALUE. -/
theorem digitLoop_checked {digits rest : List UInt8} (all : ∀ b ∈ digits, IsDigit b)
    (ends : ∀ b ∈ rest.head?, ¬ IsDigit b) (acc : Option Nat) :
    digitLoop (clipped acc) (digits ++ rest) =
      (clipped (checkedFrom 10 MAX_INDEX_VALUE.toNat acc (digitValues digits)), rest) := by
  induction digits generalizing acc with
  | nil =>
    cases rest with
    | nil => rfl
    | cons b rest =>
      simp only [List.nil_append, digitLoop]
      rw [if_neg (mt (isdigit_iff b).1 (ends b rfl))]
      rfl
  | cons b digits ih =>
    obtain ⟨first, all⟩ := List.forall_mem_cons.1 all
    have digit := (isdigit_iff b).2 first
    have nine := digit_le digit
    simp only [List.cons_append, digitLoop, digit, if_true]
    have step : (if clipped acc > -1 then
          if clipped acc ≤ MAX_FACTOR then clipped acc * 10 + (hexToInt b).toNat else -1
        else clipped acc) =
        clipped (checkedStep 10 MAX_INDEX_VALUE.toNat acc (hexToInt b).toNat) := by
      have factor : MAX_FACTOR = 214748363 := rfl
      have ceiling : MAX_INDEX_VALUE.toNat = 2147483639 := rfl
      cases acc with
      | none => rfl
      | some v =>
        have small : v * 10 + (hexToInt b).toNat ≤ MAX_INDEX_VALUE.toNat ↔ (v : Int) ≤ MAX_FACTOR := by
          omega
        simp only [checkedStep, Option.bind_some, small]
        by_cases fits : (v : Int) ≤ MAX_FACTOR
        · rw [if_pos fits]
          simp [clipped, fits]
          omega
        · rw [if_neg fits]
          simp [clipped, fits]
          omega
    rw [step]
    exact ih all _

theorem skipDigits_value {digits rest : List UInt8} (number : Digits digits)
    (ends : ∀ b ∈ rest.head?, ¬ IsDigit b) :
    skipDigits (digits ++ rest) =
      some (if indexValue digits ≤ MAX_INDEX_VALUE.toNat then (indexValue digits : Int) else -1,
        rest) := by
  have checked := digitLoop_checked number.digits ends (some 0)
  rw [checkedFrom_some (by decide) 0 _ (by decide)] at checked
  rw [skipDigits_digits number ends, indexValue, value]
  change some ((digitLoop (clipped (some 0)) (digits ++ rest)).1, rest) = _
  rw [checked]
  split <;> rfl

/-- How a query asks for one step. -/
inductive Part : Step → List UInt8 → Prop
  | index {digits : List UInt8} : Digits digits → indexValue digits ≤ MAX_INDEX_VALUE.toNat →
      Part (.index (indexValue digits)) ('['.toUInt8 :: (digits ++ [']'.toUInt8]))
  | key {name : List UInt8} : name ≠ [] →
      (∀ b ∈ name, b ≠ JSON_QUERY_KEY_SEPARATOR ∧ b ≠ '['.toUInt8) → Part (.key name) name

/-- How a query asks for a path. -/
inductive Query : List Step → List UInt8 → Prop
  | last {step : Step} {text : List UInt8} : Part step text → Query [step] text
  | separated {step : Step} {path : List Step} {text rest : List UInt8} : Part step text →
      Query path rest → Query (step :: path) (text ++ JSON_QUERY_KEY_SEPARATOR :: rest)
  | bracket {step : Step} {i : Nat} {path : List Step} {text rest : List UInt8} : Part step text →
      Query (.index i :: path) rest → Query (step :: .index i :: path) (text ++ rest)

/-- A part of a query ends here. -/
def PartEnds (rest : List UInt8) : Prop :=
  rest = [] ∨ ∃ b more, rest = b :: more ∧ more ≠ [] ∧
    (b = JSON_QUERY_KEY_SEPARATOR ∨ b = '['.toUInt8)

theorem PartEnds.not_one {rest : List UInt8} (ends : PartEnds rest) : rest.length ≠ 1 := by
  rcases ends with rfl | ⟨b, more, rfl, filled, _⟩
  · simp
  · simpa using filled

theorem skipQueryPart_key {name rest : List UInt8} (filled : name ≠ [])
    (clean : ∀ b ∈ name, b ≠ JSON_QUERY_KEY_SEPARATOR ∧ b ≠ '['.toUInt8) (ends : PartEnds rest) :
    skipQueryPart (name ++ rest) = some (name.length, rest) := by
  have taken : (name ++ rest).takeWhile (fun b => !isSeparator_ b && b ≠ '['.toUInt8) = name := by
    rw [List.takeWhile_append_of_pos fun b member => by
      simpa [isSeparator_] using clean b member]
    rcases ends with rfl | ⟨b, more, rfl, _, stop⟩
    · simp
    · rw [List.takeWhile_cons_of_neg, List.append_nil]
      simpa [isSeparator_, imp_iff_not_or] using stop
  have positive := List.length_pos_iff.2 filled
  simp only [skipQueryPart]
  rw [taken, if_pos positive, List.drop_left]

/-- The search of one part ends as the lookup of its step. -/
def PartFound (buf rest : List UInt8) (result : JSONStatus × Nat × Nat × List UInt8) :
    Option (Nat × Json) → Prop
  | some member => ∃ index length, result = (.JSONSuccess, index, length, rest) ∧
      FoundIn buf (some (index, length)) (some member)
  | none => result.1 = .JSONNotFound

def partResult (rest : List UInt8) : Option (Nat × Nat) → JSONStatus × Nat × Nat × List UInt8
  | some (value, length) => (.JSONSuccess, value, length, rest)
  | none => (.JSONNotFound, 0, 0, [])

theorem partFound_of_foundIn {buf : List UInt8} {search : Option (Nat × Nat)}
    {member : Option (Nat × Json)} (found : FoundIn buf search member) (rest : List UInt8) :
    PartFound buf rest (partResult rest search) member := by
  cases search <;> cases member
  · rfl
  · exact found.elim
  · exact found.elim
  · exact ⟨_, _, rfl, found⟩

theorem part_found {depth : Nat} (shallow : depth ≤ JSON_MAX_DEPTH) {buf : List UInt8} {value : Json}
    (document : Document strict depth buf value) {step : Step} {query rest : List UInt8}
    (part : Part step query) (ends : PartEnds rest) :
    PartFound buf rest (searchPart buf (query ++ rest)) (value.member? step) := by
  cases part with
  | @index digits number small =>
    have found := index_found shallow document (indexValue digits)
    have bracket : ∀ b ∈ (']'.toUInt8 :: rest).head?, ¬ IsDigit b := by
      intro b head
      obtain rfl := Option.some.inj head
      decide
    have skipped := skipDigits_value number bracket
    rw [if_pos small] at skipped
    have positive : ¬ ((indexValue digits : Int) < 0 ∨ ']'.toUInt8 ≠ ']'.toUInt8) := by simp
    simp only [List.cons_append, List.append_assoc, List.nil_append, searchPart, if_true, skipped,
      Option.getD_some, if_neg positive, Int.toNat_natCast]
    exact partFound_of_foundIn found rest
  | key filled clean =>
    have within : query.length ≤ (query ++ rest).length := by simp
    have found := key_found shallow document (query ++ rest) within
    rw [List.take_left] at found
    have skipped := skipQueryPart_key filled clean ends
    obtain ⟨b, others, rfl⟩ := List.exists_cons_of_ne_nil filled
    have other := (clean b (.head _)).2
    rw [List.cons_append] at skipped found ⊢
    simp only [searchPart, if_neg other, skipped, if_neg ends.not_one]
    exact partFound_of_foundIn found rest

theorem part_filled {step : Step} {query : List UInt8} (part : Part step query) : query ≠ [] := by
  cases part with
  | index _ _ => simp
  | key filled _ => exact filled

theorem query_filled {path : List Step} {query : List UInt8} (asks : Query path query) :
    query ≠ [] := by
  cases asks with
  | last part => exact part_filled part
  | separated part _ => simp
  | bracket part _ => simp [part_filled part]

theorem index_opens {i : Nat} {path : List Step} {query : List UInt8}
    (asks : Query (.index i :: path) query) :
    ∃ more, query = '['.toUInt8 :: more ∧ more ≠ [] := by
  have opens : ∀ {text}, Part (.index i) text → ∃ more, text = '['.toUInt8 :: more ∧ more ≠ [] := by
    intro text part
    cases part
    exact ⟨_, rfl, by simp⟩
  cases asks with
  | last part => exact opens part
  | separated part _ =>
    obtain ⟨more, rfl, filled⟩ := opens part
    exact ⟨_, rfl, by simp⟩
  | bracket part _ =>
    obtain ⟨more, rfl, filled⟩ := opens part
    exact ⟨_, rfl, by simp [filled]⟩

theorem multiLoop_step {buf : List UInt8} {turns : Nat} {query rest : List UInt8} {start length : Nat}
    {index length' : Nat} (filled : query ≠ [])
    (searched : searchPart ((buf.drop start).take length) query =
      (.JSONSuccess, index, length', rest)) :
    multiLoop buf (turns + 1) query start length =
      multiLoop buf turns (if rest.head?.any isSeparator_ then rest.drop 1 else rest) (start + index)
        length' := by
  obtain ⟨b, others, rfl⟩ := List.exists_cons_of_ne_nil filled
  simp only [multiLoop, searched]

theorem multiLoop_fails {buf : List UInt8} {turns : Nat} {query : List UInt8} {start length : Nat}
    (filled : query ≠ [])
    (searched : (searchPart ((buf.drop start).take length) query).1 = .JSONNotFound) :
    (multiLoop buf (turns + 1) query start length).1 = .JSONNotFound := by
  obtain ⟨b, others, rfl⟩ := List.exists_cons_of_ne_nil filled
  simp only [multiLoop]
  split
  · rename_i success
    rw [success] at searched
    cases searched
  · rename_i failed
    rwa [failed] at searched

/-- The search along a query ends as the lookup along its path, and where the path leads to. -/
def Finds (buf : List UInt8) (start length : Nat) (value : Json) (path : List Step)
    (result : JSONStatus × Nat × Nat) : Prop :=
  match value.lookup path with
  | some found => ∃ index length', result = (.JSONSuccess, start + index, length') ∧
      LeadsTo strict ((buf.drop start).take length) value path index length' ∧
      ∃ depth ≤ JSON_MAX_DEPTH, Placed strict depth buf (start + index) length' found
  | none => result.1 = .JSONNotFound

/-- The step leads to a member, whose value stands in the part of the buffer that the value
    stands in. -/
structure Stepped (buf : List UInt8) (start length : Nat) (value : Json) (step : Step)
    (found : Json) (index length' : Nat) : Prop where
  member : value.get? step = some found
  placed : ∃ depth ≤ JSON_MAX_DEPTH, Placed strict depth buf (start + index) length' found
  short : index + length' ≤ length
  leads : ∀ path i l, LeadsTo strict ((buf.drop (start + index)).take length') found path i l →
    LeadsTo strict ((buf.drop start).take length) value (step :: path) (index + i) l

section Finds
variable {buf : List UInt8} {start length : Nat} {value found : Json} {step : Step}
variable {path : List Step} {result : JSONStatus × Nat × Nat} {index length' : Nat}

theorem finds_nothing (nothing : value.get? step = none) (failed : result.1 = .JSONNotFound) :
    Finds buf start length value (step :: path) result := by
  rw [Finds, Json.lookup_cons, nothing]
  exact failed

/-- A search goes on from where the first step has led. -/
theorem Stepped.finds (stepped : Stepped buf start length value step found index length')
    (rest : ∀ {depth : Nat}, start + index + length' ≤ buf.length → depth ≤ JSON_MAX_DEPTH →
      Document strict depth ((buf.drop (start + index)).take length') found →
      Finds buf (start + index) length' found path result) :
    Finds buf start length value (step :: path) result := by
  obtain ⟨depth, shallow, inside, valued⟩ := stepped.placed
  have finds := rest inside shallow (Value.document valued)
  rw [Finds] at finds
  rw [Finds, Json.lookup_cons, stepped.member, Option.bind_some]
  cases looked : found.lookup path with
  | none =>
    rw [looked] at finds
    exact finds
  | some last =>
    rw [looked] at finds
    obtain ⟨i, l, searched, leads, placed⟩ := finds
    rw [Nat.add_assoc] at searched placed
    exact ⟨index + i, l, searched, stepped.leads path i l leads, placed⟩

/-- The search ends where its last step has led. -/
theorem Stepped.ends (stepped : Stepped buf start length value step found index length') :
    Finds buf start length value [step] (.JSONSuccess, start + index, length') := by
  have here := @LeadsTo.here strict ((buf.drop (start + index)).take length') found
  obtain ⟨_, _, inside, _⟩ := stepped.placed
  rw [List.length_take, List.length_drop, Nat.min_eq_left (by omega)] at here
  rw [Finds, Json.lookup_cons, stepped.member, Option.bind_some]
  exact ⟨index, length', rfl, stepped.leads [] 0 length' here, stepped.placed⟩

end Finds

/-- One turn of the loop takes one step of the path. -/
theorem multiLoop_part (turns : Nat) {buf : List UInt8} {start length : Nat}
    (inside : start + length ≤ buf.length) {depth : Nat} (shallow : depth ≤ JSON_MAX_DEPTH)
    {value : Json} (document : Document strict depth ((buf.drop start).take length) value)
    {step : Step} {query rest : List UInt8} (part : Part step query) (ends : PartEnds rest) :
    value.get? step = none ∧
        (multiLoop buf (turns + 1) (query ++ rest) start length).1 = .JSONNotFound ∨
      ∃ found index length', Stepped buf start length value step found index length' ∧
        multiLoop buf (turns + 1) (query ++ rest) start length =
          multiLoop buf turns (if rest.head?.any isSeparator_ then rest.drop 1 else rest)
            (start + index) length' := by
  have filled : query ++ rest ≠ [] := List.append_ne_nil_of_left_ne_nil (part_filled part) _
  have partFound := part_found shallow document part ends
  have got := value.get?_eq_member? step
  cases step' : value.member? step with
  | none =>
    rw [step'] at partFound got
    exact Or.inl ⟨got, multiLoop_fails filled partFound⟩
  | some member =>
    obtain ⟨k, found⟩ := member
    rw [step'] at partFound got
    obtain ⟨index, length', searched, depth, shallow, key, placed, stands⟩ := partFound
    have short := placed.1
    rw [List.length_take, List.length_drop, Nat.min_eq_left (by omega)] at short
    refine Or.inr ⟨found, index, length', ⟨got, ?_, short, ?_⟩, multiLoop_step filled searched⟩
    · exact ⟨depth, shallow, placed.within inside⟩
    · intro path i l rest
      rw [← part_of_part short] at rest
      exact stands.leads step' rest

theorem multiLoop_finds {path : List Step} {query : List UInt8} (asks : Query path query)
    {turns : Nat} (enough : query.length ≤ turns) {buf : List UInt8} {start length : Nat}
    (inside : start + length ≤ buf.length) {depth : Nat} (shallow : depth ≤ JSON_MAX_DEPTH)
    {value : Json} (document : Document strict depth ((buf.drop start).take length) value) :
    Finds buf start length value path (multiLoop buf turns query start length) := by
  induction asks generalizing turns start length depth value with
  | @last step query part =>
    obtain ⟨turns, rfl⟩ := Nat.exists_eq_add_one_of_ne_zero
      (Nat.ne_of_gt ((List.length_pos_iff.2 (part_filled part)).trans_le enough))
    have next := multiLoop_part turns inside shallow document part (Or.inl rfl)
    rw [List.append_nil] at next
    rcases next with ⟨nothing, failed⟩ | ⟨found, index, length', stepped, same⟩
    · exact finds_nothing nothing failed
    · rw [same]
      cases turns <;> exact stepped.ends
  | @separated step path query rest part asks ih =>
    obtain ⟨turns, rfl⟩ := Nat.exists_eq_add_one_of_ne_zero
      (Nat.ne_of_gt (Nat.lt_of_lt_of_le (by simp) enough))
    have ends : PartEnds (JSON_QUERY_KEY_SEPARATOR :: rest) :=
      Or.inr ⟨_, rest, rfl, query_filled asks, Or.inl rfl⟩
    rcases multiLoop_part turns inside shallow document part ends with
      ⟨nothing, failed⟩ | ⟨found, index, length', stepped, same⟩
    · exact finds_nothing nothing failed
    · have left : rest.length ≤ turns := by
        simp only [List.length_append, List.length_cons] at enough
        omega
      rw [same]
      exact stepped.finds fun inside shallow document => ih left inside shallow document
  | @bracket step i path query rest part asks ih =>
    obtain ⟨more, opens, filled⟩ := index_opens asks
    have positive := List.length_pos_iff.2 (part_filled part)
    rw [List.length_append] at enough
    obtain ⟨turns, rfl⟩ := Nat.exists_eq_add_one_of_ne_zero (show turns ≠ 0 by omega)
    have ends : PartEnds rest := Or.inr ⟨_, more, opens, filled, Or.inr rfl⟩
    rcases multiLoop_part turns inside shallow document part ends with
      ⟨nothing, failed⟩ | ⟨found, index, length', stepped, same⟩
    · exact finds_nothing nothing failed
    · have left : rest.length ≤ turns := by omega
      have bracket : rest.head?.any isSeparator_ = false := by
        rw [opens, List.head?_cons, Option.any_some]
        decide
      rw [same, bracket, if_neg (by decide)]
      exact stepped.finds fun inside shallow document => ih left inside shallow document

/-- The result gives the value out that stands there, without the quotes around a string. -/
def GivesOut (D : Dialect) (buf : List UInt8) (value : Json) (place length : Nat)
    (result : JSONStatus × Nat × Nat × JSONTypes) : Prop :=
  ∃ index length' type, result = (.JSONSuccess, index, length', type) ∧
    (index, length') = unquoted type place length ∧ index + length' ≤ buf.length ∧
    Shown D value ((buf.drop index).take length') type

theorem searchConst_gives {D : Dialect} {buf query : List UInt8} {index length depth : Nat}
    {value : Json} (filled : query ≠ [])
    (searched : multiSearch buf query = (.JSONSuccess, index, length))
    (placed : Placed D depth buf index length value) :
    GivesOut D buf value index length (JSON_SearchConst buf query) := by
  obtain ⟨index', length', type, same, place, inside, shown⟩ := placed.given
  have some : ¬ (buf.length = 0 ∨ query.length = 0) := by
    rintro (empty | empty)
    · obtain ⟨b, rest, eq, _⟩ := value_head placed.2
      rw [List.eq_nil_of_length_eq_zero empty, List.drop_nil, List.take_nil] at eq
      cases eq
    · exact filled (List.eq_nil_of_length_eq_zero empty)
  refine ⟨index', length', type, ?_, place, inside, shown⟩
  simp only [JSON_SearchConst, if_neg some, searched]
  simp only [given] at same
  split at same <;> rename_i string <;> rw [← same]
  · exact if_pos string
  · exact if_neg string

/-- In a document in which every member is led to as it should be, a query finds what its path
    leads to, where the path leads to: the first member of that name, the member of that index,
    and nothing else. -/
theorem search_finds {depth : Nat} (shallow : depth ≤ JSON_MAX_DEPTH) {buf : List UInt8}
    {value : Json} (document : Document strict depth buf value) {path : List Step}
    {query : List UInt8} (asks : Query path query) :
    match value.lookup path with
    | some found => ∃ place length, LeadsTo strict buf value path place length ∧
        GivesOut strict buf found place length (JSON_SearchConst buf query)
    | none => (JSON_SearchConst buf query).1 = .JSONNotFound := by
  have whole : (buf.drop 0).take buf.length = buf := by rw [List.drop_zero, List.take_length]
  rw [← whole] at document
  have finds := multiLoop_finds asks le_rfl (Nat.zero_add _).le shallow document
  rw [whole] at document
  rw [Finds, whole] at finds
  cases looked : value.lookup path with
  | some found =>
    rw [looked] at finds
    obtain ⟨index, length, searched, leads, _, _, placed⟩ := finds
    rw [Nat.zero_add] at searched placed
    exact ⟨index, length, leads, searchConst_gives (query_filled asks) searched placed⟩
  | none =>
    rw [looked] at finds
    obtain ⟨before, item, behind, _, valued, _, eq, _⟩ := document_start document
    obtain ⟨b, others, rfl, _⟩ := value_head valued
    have some : ¬ (buf.length = 0 ∨ query.length = 0) := by
      rintro (empty | empty)
      · rw [eq, List.length_append, List.cons_append, List.length_cons] at empty
        omega
      · exact query_filled asks (List.eq_nil_of_length_eq_zero empty)
    simp only [JSON_SearchConst, if_neg some]
    split
    · rename_i success
      rw [← multiSearch, success] at finds
      cases finds
    · rename_i failed
      rwa [← multiSearch, failed] at finds

/-- The second of two equal members, in a member behind another. -/
theorem search_finds_second :
    LeadsTo strict (text "\x7b\"b\":1,\"a\":[7,7]\x7d")
        (.collection .object [(some (text "b"), .scalar (text "1")),
          (some (text "a"), .collection .array [(none, .scalar (text "7")),
            (none, .scalar (text "7"))])])
        [.key (text "a"), .index 1] 14 1 ∧
      GivesOut strict (text "\x7b\"b\":1,\"a\":[7,7]\x7d") (.scalar (text "7")) 14 1
        (JSON_SearchConst (text "\x7b\"b\":1,\"a\":[7,7]\x7d") (text "a[1]")) := by
  have one : Scalar strict (text "1") := .digit (by decide) (by decide)
  have seven : Scalar strict (text "7") := .digit (by decide) (by decide)
  have a : StringBody strict (String.utf8EncodeChar 'a') :=
    .char (by decide) (by decide) (by decide)
  have b : StringBody strict (String.utf8EncodeChar 'b') :=
    .char (by decide) (by decide) (by decide)
  have item : Content strict 0 .array .behind _ _ :=
    .scalar (.opened blank_nil) (by decide) .array seven blank_nil
  have items : Content strict 0 .array .behind _ _ :=
    .scalar (.comma item blank_nil) (by decide) .array seven blank_nil
  have first : Content strict 1 .object .behind _ _ :=
    .scalar (.opened blank_nil) (by decide) (.object b blank_nil blank_nil) one blank_nil
  have members : Content strict 1 .object .behind _ _ :=
    .nested (.comma first blank_nil) (Or.inl ⟨by decide, .object a blank_nil blank_nil⟩) items
      (by decide) blank_nil
  have document := Value.document (.collection (.mk members (by decide)))
  have asks : Query [.key (text "a"), .index 1] (text "a[1]") := by
    have digits : Digits (text "1") := ⟨by decide, List.forall_mem_singleton.2 (by decide)⟩
    have name : Part (.key (text "a")) (text "a") :=
      .key (by decide) (List.forall_mem_singleton.2 (by decide))
    exact .bracket name (.last (.index digits (by decide)))
  obtain ⟨place, length, leads, index, length', type, searched, shown, inside⟩ :=
    search_finds (by decide) document asks
  have here : JSON_SearchConst (text "\x7b\"b\":1,\"a\":[7,7]\x7d") (text "a[1]") =
      (.JSONSuccess, 14, 1, .JSONNumber) := by
    decide +kernel
  cases here.symm.trans searched
  cases shown
  exact ⟨leads, 14, 1, _, searched, rfl, inside⟩

theorem nextMember_located {mode : Mode} {buf rest : List UInt8} {span : Span}
    (found : nextMember mode buf = some (rest, span)) :
    rest <:+ buf ∧ ∃ key value, Denotes coreJSON JSON_MAX_DEPTH buf span (key, value) := by
  obtain ⟨key, lead, item, value, _, valued, rfl, rfl⟩ := nextMember_skips found
  refine ⟨⟨lead ++ item, by simp⟩, key, value, rfl, List.suffix_append _ _, item, rest, rfl, rfl,
    valued⟩

theorem walkFrom_located {eager : Bool} {mode : Mode} {turns : Nat} {buf : List UInt8} {span : Span}
    (member : span ∈ walkFrom eager mode turns buf) :
    ∃ key value, Denotes coreJSON JSON_MAX_DEPTH buf span (key, value) := by
  induction turns generalizing buf with
  | zero => cases member
  | succ turns ih =>
    simp only [walkFrom] at member
    split at member
    · cases member
    · rename_i rest first found
      obtain ⟨suffix, located⟩ := nextMember_located found
      rcases List.mem_cons.1 member with rfl | member
      · exact located
      · split at member
        · obtain ⟨key, value, same, within, denotes⟩ := ih member
          exact ⟨key, value, same, within.trans ((skipSpaceAndComma_suffix rest).trans suffix),
            denotes⟩
        · cases member

/-- Some value stands at this index of the buffer, with this length. -/
def Located (buf : List UInt8) (index length : Nat) : Prop :=
  ∃ value, Placed coreJSON JSON_MAX_DEPTH buf index length value

theorem objectSearch_located {buf query : List UInt8} {queryLength index length : Nat}
    (within : queryLength ≤ query.length)
    (found : objectSearch buf query queryLength = some (index, length)) :
    Located buf index length := by
  simp only [objectSearch] at found
  split at found
  · cases found
  · rename_i b members start
    obtain ⟨_, found⟩ := Option.ite_none_right_eq_some.1 found
    rw [keyLoop_walk query within, Option.map_map] at found
    obtain ⟨span, met, eq⟩ := Option.map_eq_some_iff.1 found
    obtain ⟨rfl, rfl⟩ := Prod.mk.inj eq
    obtain ⟨key, value, denotes⟩ := walkFrom_located (List.mem_of_find?_eq_some met)
    have suffix : skipSpace members <:+ buf :=
      (skipSpace_suffix members).trans ((List.suffix_cons b members).trans
        (start ▸ skipSpace_suffix buf))
    exact ⟨value, denotes.placed suffix⟩

theorem arraySearch_located {buf : List UInt8} {queryIndex index length : Nat}
    (found : arraySearch buf queryIndex = some (index, length)) : Located buf index length := by
  simp only [arraySearch] at found
  split at found
  · cases found
  · rename_i b members start
    obtain ⟨_, found⟩ := Option.ite_none_right_eq_some.1 found
    rw [indexLoop_walk (Nat.zero_le queryIndex), Option.map_map] at found
    obtain ⟨span, met, eq⟩ := Option.map_eq_some_iff.1 found
    obtain ⟨rfl, rfl⟩ := Prod.mk.inj eq
    obtain ⟨key, value, denotes⟩ := walkFrom_located (List.mem_of_getElem? met)
    have suffix : skipSpace members <:+ buf :=
      (skipSpace_suffix members).trans ((List.suffix_cons b members).trans
        (start ▸ skipSpace_suffix buf))
    exact ⟨value, denotes.placed suffix⟩

theorem searchPart_located {buf query rest : List UInt8} {index length : Nat}
    (searched : searchPart buf query = (.JSONSuccess, index, length, rest)) :
    Located buf index length := by
  cases query with
  | nil => cases searched
  | cons b digits =>
    simp only [searchPart] at searched
    split at searched
    · split at searched
      · cases searched
      split at searched
      · cases searched
      split at searched
      · rename_i found
        cases searched
        exact arraySearch_located found
      · cases searched
    · split at searched
      · cases searched
      rename_i keyLength rest' part
      have within : keyLength ≤ (b :: digits).length := by
        obtain ⟨_, eq⟩ := Option.ite_none_right_eq_some.1 part
        rw [← (Prod.mk.inj (Option.some.inj eq)).1]
        exact (List.takeWhile_prefix _).length_le
      split at searched
      · cases searched
      split at searched
      · rename_i found
        cases searched
        exact objectSearch_located within found
      · cases searched

theorem Located.within {buf : List UInt8} {start length index length' : Nat}
    (inside : start + length ≤ buf.length)
    (located : Located ((buf.drop start).take length) index length') :
    Located buf (start + index) length' := by
  obtain ⟨value, placed⟩ := located
  exact ⟨value, placed.within inside⟩

theorem multiLoop_located {buf : List UInt8} {turns : Nat} {query : List UInt8}
    {start length index length' : Nat} (inside : start + length ≤ buf.length)
    (located : Located buf start length ∨ query ≠ [] ∧ 0 < turns)
    (searched : multiLoop buf turns query start length = (.JSONSuccess, index, length')) :
    Located buf index length' := by
  induction turns generalizing query start length with
  | zero =>
    have here := located.resolve_right fun more => Nat.lt_irrefl 0 more.2
    cases query <;> cases searched <;> exact here
  | succ turns ih =>
    cases query with
    | nil =>
      have here := located.resolve_right fun more => more.1 rfl
      cases searched
      exact here
    | cons b query =>
      simp only [multiLoop] at searched
      split at searched
      · rename_i part
        have located := (searchPart_located part).within inside
        exact ih located.choose_spec.1 (Or.inl located) searched
      · rename_i other _
        cases searched
        exact (other _ _ _ rfl rfl).elim

/-- Whatever the buffer holds and whatever is asked for: what a search gives out is a value of
    the dialect that lies in the buffer, with its type. -/
theorem search_gives_values {buf query : List UInt8} {index length : Nat} {type : JSONTypes}
    (searched : JSON_SearchConst buf query = (.JSONSuccess, index, length, type)) :
    index + length ≤ buf.length ∧
      ∃ value, Shown coreJSON value ((buf.drop index).take length) type := by
  have filled : ¬ (buf.length = 0 ∨ query.length = 0) := by
    intro empty
    simp only [JSON_SearchConst, if_pos empty] at searched
    cases searched
  have query' : query ≠ [] := by
    rintro rfl
    exact filled (Or.inr rfl)
  have found : ∃ start length', multiSearch buf query = (.JSONSuccess, start, length') := by
    simp only [JSON_SearchConst, if_neg filled] at searched
    split at searched
    · rename_i found
      exact ⟨_, _, found⟩
    · rename_i other _
      cases searched
      exact (other _ _ rfl rfl).elim
  obtain ⟨start, length', found⟩ := found
  obtain ⟨value, placed⟩ := multiLoop_located (Nat.zero_add _).le
    (Or.inr ⟨query', List.length_pos_iff.2 query'⟩) found
  obtain ⟨index', length', type', same, _, inside, shown⟩ := searchConst_gives query' found placed
  rw [searched] at same
  cases same
  exact ⟨inside, value, shown⟩

/-- In a buffer that is no document, too. -/
theorem search_gives_values_open :
    2 ≤ (text "[7,").length ∧ ∃ value, Shown coreJSON value (text "7") .JSONNumber := by
  have searched : JSON_SearchConst (text "[7,") (text "[0]") = (.JSONSuccess, 1, 1, .JSONNumber) := by
    decide +kernel
  exact search_gives_values searched

end SpmJsonSearch
