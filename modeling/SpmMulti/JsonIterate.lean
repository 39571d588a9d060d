import SpmMulti.JsonMembers

/- JSON_Iterate, called again and again with what it left in start and next, gives the members of
   a collection one by one. -/
namespace SpmJsonIterate
open SpmMachine SpmCoreJson JsonText SpmJsonScanners SpmJsonGuarantees SpmJsonMembers

theorem spaceEnd_drop {buf : List UInt8} (i : Nat) :
    buf.drop (spaceEnd buf i) = skipSpace (buf.drop i) := by
  have place := List.suffix_iff_eq_drop.1 (skipSpace_suffix (buf.drop i))
  rw [List.drop_drop] at place
  exact place.symm

theorem le_spaceEnd (buf : List UInt8) (i : Nat) : i ≤ spaceEnd buf i := Nat.le_add_right _ _

theorem spaceEnd_le {buf : List UInt8} {i : Nat} (inside : i ≤ buf.length) :
    spaceEnd buf i ≤ buf.length := by
  rw [spaceEnd, List.length_drop]
  omega

theorem spaceEnd_solid {buf : List UInt8} {i : Nat} (solid : skipSpace (buf.drop i) = buf.drop i) :
    spaceEnd buf i = i := by
  rw [spaceEnd, solid]
  omega

/-- Where the next call seeks the next member. -/
def sought (buf : List UInt8) (start next : Nat) : Nat :=
  if next ≤ spaceEnd buf start then spaceEnd buf (spaceEnd buf start + 1) else next

/-- The calls stand at a collection of which these members are left. -/
structure Standing (buf : List UInt8) (mode : Mode) (start next : Nat) (left : List Span) : Prop where
  bracket : ∃ rest, buf.drop (spaceEnd buf start) = mode.opening :: rest
  within : next ≤ buf.length
  seeks : sought buf start next ≤ buf.length
  behind : spaceEnd buf start < sought buf start next
  walks : walk true mode (buf.drop (sought buf start next)) = left

variable {buf : List UInt8} {mode : Mode} {start next : Nat} {left : List Span}

theorem Standing.inside (standing : Standing buf mode start next left) :
    ¬ (buf.length = 0 ∨ start ≥ buf.length ∨ next > buf.length) := by
  have first := le_spaceEnd buf start
  have second := standing.behind
  have third := standing.seeks
  have fourth := standing.within
  omega

theorem Standing.found (standing : Standing buf mode start next left)
    {next' key keyLength value valueLength : Nat}
    (found : iterate buf (spaceEnd buf start) (sought buf start next) =
      (.JSONSuccess, next', some (key, keyLength, value, valueLength))) {value' length' : Nat}
    {type : JSONTypes} (shown : given buf value valueLength = (value', length', type)) :
    JSON_Iterate buf start next = (.JSONSuccess, spaceEnd buf start, next',
      some ⟨if key = 0 then none else some key, keyLength, value', length', type⟩) := by
  rw [sought] at found
  simp only [JSON_Iterate, if_neg standing.inside]
  rw [found]
  simp only [given] at shown
  split at shown <;> rename_i string <;> cases shown
  · simp only [if_pos string]
  · simp only [if_neg string]

theorem Standing.ended (standing : Standing buf mode start next left) {next' : Nat}
    (ended : iterate buf (spaceEnd buf start) (sought buf start next) = (.JSONNotFound, next', none)) :
    JSON_Iterate buf start next = (.JSONNotFound, spaceEnd buf start, next', none) := by
  rw [sought] at ended
  simp only [JSON_Iterate, if_neg standing.inside]
  rw [ended]

theorem iterate_ended (bracket : ∃ rest, buf.drop start = mode.opening :: rest)
    (ended : nextMember mode (buf.drop next) = none) :
    iterate buf start next = (.JSONNotFound, next, none) := by
  obtain ⟨rest, bracket⟩ := bracket
  cases mode with
  | array =>
    simp only [iterate, bracket, Option.map_eq_none_iff.1 ended]
    exact if_pos rfl
  | object =>
    simp only [iterate, bracket, Option.map_eq_none_iff.1 ended]
    exact (if_neg (by decide)).trans (if_pos rfl)

/-- The key as a call gives it out. -/
def KeyGiven (buf : List UInt8) (key : Option Nat) (keyLength : Nat) : Option (List UInt8) → Prop
  | none => key = none ∧ keyLength = 0
  | some name => ∃ index, key = some index ∧ (buf.drop index).take keyLength = name

theorem iterate_found (bracket : ∃ rest, buf.drop start = mode.opening :: rest)
    (inside : next ≤ buf.length) {rest : List UInt8} {span : Span}
    (found : nextMember mode (buf.drop next) = some (rest, span)) :
    ∃ key keyLength, iterate buf start next =
        (.JSONSuccess, buf.length - (skipSpaceAndComma rest).2.length,
          some (key, keyLength, buf.length - span.value.length, span.length)) ∧
      KeyGiven buf (if key = 0 then none else some key) keyLength span.key := by
  obtain ⟨inner, bracket⟩ := bracket
  cases mode with
  | array =>
    obtain ⟨⟨rest', length⟩, next', eq⟩ := Option.map_eq_some_iff.1 found
    cases eq
    refine ⟨0, 0, ?_, rfl, rfl⟩
    have place : buf.length - (buf.drop next).length = next := by
      rw [List.length_drop]
      omega
    simp only [iterate, bracket, next', place]
    exact if_pos rfl
  | object =>
    obtain ⟨⟨rest', pair⟩, next', eq⟩ := Option.map_eq_some_iff.1 found
    cases eq
    obtain ⟨name, lead, item, value, led, valued, eq, place, _⟩ := nextKeyValuePair_skips next'
    obtain ⟨b, others, more, _⟩ := value_solid valued rest
    have filled := congrArg List.length eq
    rw [more, List.length_drop, List.length_append, List.length_cons] at filled
    rw [List.drop_drop] at place
    have index : buf.length - pair.key.length = next + 1 := by
      rw [place, List.length_drop]
      omega
    refine ⟨next + 1, pair.keyLength, ?_, next + 1, if_neg (Nat.succ_ne_zero next), ?_⟩
    · simp only [iterate, bracket, next', index]
      exact (if_neg (by decide)).trans (if_pos rfl)
    · rw [place]

/-- A pair as it is given out for a member, from where that member stands. -/
structure Gives (buf : List UInt8) (pair : JSONPair) (k : Nat)
    (member : Option (List UInt8) × Json) : Prop where
  key : KeyGiven buf pair.key pair.keyLength member.1
  place : ∃ depth ≤ JSON_MAX_DEPTH, ∃ index length, Stands strict depth buf k member index length ∧
    (pair.value, pair.valueLength) = unquoted pair.jsonType index length
  inside : pair.value + pair.valueLength ≤ buf.length
  value : Shown strict member.2 ((buf.drop pair.value).take pair.valueLength) pair.jsonType

theorem Standing.settled (standing : Standing buf mode start next left) :
    spaceEnd buf (spaceEnd buf start) = spaceEnd buf start := by
  obtain ⟨rest, bracket⟩ := standing.bracket
  apply spaceEnd_solid
  rw [bracket, skipSpace_solid (opening_solid mode).1]

theorem nextMember_suffix {s rest : List UInt8} {span : Span}
    (found : nextMember mode s = some (rest, span)) : rest <:+ s := by
  obtain ⟨_, lead, item, _, _, _, rfl, _⟩ := nextMember_skips found
  exact ⟨lead ++ item, by simp⟩

theorem Standing.advanced (standing : Standing buf mode start next left) {rest : List UInt8}
    {span : Span} (found : nextMember mode (buf.drop (sought buf start next)) = some (rest, span)) :
    Standing buf mode (spaceEnd buf start) (buf.length - (skipSpaceAndComma rest).2.length)
      (walkOn true mode rest) := by
  have suffix := (skipSpaceAndComma_suffix rest).trans (nextMember_suffix found)
  have place := List.suffix_iff_eq_drop.1 (suffix.trans (List.drop_suffix _ buf))
  have shorter := suffix.length_le
  rw [List.length_drop] at shorter
  have behind := standing.behind
  have seeks := standing.seeks
  have same : sought buf (spaceEnd buf start) (buf.length - (skipSpaceAndComma rest).2.length) =
      buf.length - (skipSpaceAndComma rest).2.length := by
    rw [sought, standing.settled, if_neg (by omega)]
  refine ⟨?_, Nat.sub_le _ _, ?_, ?_, ?_⟩
  · rw [standing.settled]
    exact standing.bracket
  · rw [same]
    exact Nat.sub_le _ _
  · rw [same, standing.settled]
    omega
  · rw [same, ← place, walkOn, Bool.or_true, if_pos rfl]

theorem Standing.remains (standing : Standing buf mode start next left) :
    Standing buf mode (spaceEnd buf start) (sought buf start next) left := by
  have behind := standing.behind
  have same : sought buf (spaceEnd buf start) (sought buf start next) = sought buf start next := by
    rw [sought, standing.settled, if_neg (by omega)]
  refine ⟨?_, standing.seeks, ?_, ?_, ?_⟩
  · rw [standing.settled]
    exact standing.bracket
  · rw [same]
    exact standing.seeks
  · rw [same, standing.settled]
    exact behind
  · rw [same]
    exact standing.walks

/-- The indices as a call leaves them. -/
def advance (buf : List UInt8) (at' : Nat × Nat) : Nat × Nat :=
  ((JSON_Iterate buf at'.1 at'.2).2.1, (JSON_Iterate buf at'.1 at'.2).2.2.1)

theorem Standing.exhausted (standing : Standing buf mode start next []) :
    (JSON_Iterate buf start next).1 = .JSONNotFound ∧
      Standing buf mode (advance buf (start, next)).1 (advance buf (start, next)).2 [] := by
  have nothing : nextMember mode (buf.drop (sought buf start next)) = none := by
    cases found : nextMember mode (buf.drop (sought buf start next)) with
    | none => rfl
    | some next' =>
      have walks := standing.walks
      rw [walk_some true found] at walks
      cases walks
  have called := standing.ended (iterate_ended standing.bracket nothing)
  rw [advance, called]
  exact ⟨rfl, standing.remains⟩

section Numbered
variable {depth : Nat} (shallow : depth ≤ JSON_MAX_DEPTH) {before inside : List UInt8}
  (blank : Blank before)
include shallow blank

theorem Standing.more {span : Span} {p : (Option (List UInt8) × Json) × Nat}
    (standing : Standing (before ++ mode.opening :: inside) mode start next (span :: left))
    (numbered : Numbered strict depth mode inside span p) :
    let buf := before ++ mode.opening :: inside
    (∃ pair start' next', JSON_Iterate buf start next = (.JSONSuccess, start', next', some pair) ∧
        Gives buf pair p.2 p.1) ∧
      Standing buf mode (advance buf (start, next)).1 (advance buf (start, next)).2 left := by
  intro buf
  cases found : nextMember mode (buf.drop (sought buf start next)) with
  | none =>
    have walks := standing.walks
    rw [walk_none true found] at walks
    cases walks
  | some next' =>
    obtain ⟨rest, span'⟩ := next'
    have walks := standing.walks
    rw [walk_some true found] at walks
    obtain ⟨rfl, rfl⟩ := List.cons.inj walks
    obtain ⟨key, keyLength, iterated, keyGiven⟩ :=
      iterate_found standing.bracket standing.seeks found
    have suffix : inside <:+ buf := ⟨before ++ [mode.opening], by simp [buf]⟩
    obtain ⟨value, length, type, same, place, short, shown⟩ := (numbered.1.placed suffix).given
    have called := standing.found iterated same
    rw [numbered.1.1] at keyGiven
    rw [advance, called]
    have stands := numbered.stands blank
    exact ⟨⟨_, _, _, rfl, keyGiven, ⟨depth, shallow, _, _, stands, place⟩, short, shown⟩,
      standing.advanced found⟩

theorem enumerated {spans : List Span} {members : List (Option (List UInt8) × Json)}
    (numbered : List.Forall₂ (Numbered strict depth mode inside) spans members.zipIdx)
    (first : Standing (before ++ mode.opening :: inside) mode 0 0 spans) (k : Nat) :
    let buf := before ++ mode.opening :: inside
    let at' := (advance buf)^[k] (0, 0)
    match members[k]? with
    | some member => ∃ pair start next,
        JSON_Iterate buf at'.1 at'.2 = (.JSONSuccess, start, next, some pair) ∧
          Gives buf pair k member
    | none => (JSON_Iterate buf at'.1 at'.2).1 = .JSONNotFound := by
  intro buf at'
  have stands : Standing buf mode at'.1 at'.2 (spans.drop k) := by
    induction k with
    | zero => exact first
    | succ k ih =>
      have step := List.forall₂_drop k numbered
      simp only [at', Function.iterate_succ_apply']
      rw [← List.tail_drop]
      generalize spans.drop k = left at ih step
      generalize members.zipIdx.drop k = others at step
      cases step with
      | nil => exact ih.exhausted.2
      | cons numbered _ => exact (ih.more shallow blank numbered).2
  have step := List.forall₂_drop k numbered
  have here : members[k]?.map (fun member => (member, k)) = (members.zipIdx.drop k).head? := by
    rw [List.head?_drop, List.getElem?_zipIdx, Nat.zero_add]
  generalize spans.drop k = left at stands step
  generalize members.zipIdx.drop k = others at step here
  cases step with
  | nil =>
    rw [Option.map_eq_none_iff.1 here]
    exact stands.exhausted.1
  | cons numbered _ =>
    obtain ⟨member, found, rfl⟩ := Option.map_eq_some_iff.1 here
    rw [found]
    exact (stands.more shallow blank numbered).1

end Numbered

theorem first_standing {before : List UInt8} (blank : Blank before) (mode : Mode)
    (body behind : List UInt8) :
    Standing (before ++ (mode.opening :: (body ++ [mode.closing]) ++ behind)) mode 0 0
      (walk true mode (skipSpace (body ++ mode.closing :: behind))) := by
  generalize whole : before ++ (mode.opening :: (body ++ [mode.closing]) ++ behind) = buf
  have eq : buf = before ++ mode.opening :: (body ++ mode.closing :: behind) := by
    rw [← whole]
    simp
  have start : spaceEnd buf 0 = before.length := by
    rw [spaceEnd, List.drop_zero, eq, skipSpace_blank blank,
      skipSpace_solid (opening_solid mode).1, List.length_append]
    omega
  have bracket : buf.drop before.length = mode.opening :: (body ++ mode.closing :: behind) := by
    rw [eq, List.drop_left]
  have inner : buf.drop (before.length + 1) = body ++ mode.closing :: behind := by
    rw [← List.drop_drop, bracket]
    rfl
  have long : before.length + 1 ≤ buf.length := by
    rw [eq]
    simp
  have seek : sought buf 0 0 = spaceEnd buf (before.length + 1) := by
    rw [sought, start, if_pos (Nat.zero_le _)]
  refine ⟨⟨_, by rw [start, bracket]⟩, Nat.zero_le _, ?_, ?_, ?_⟩
  · rw [seek]
    exact spaceEnd_le long
  · rw [start, seek]
    exact le_spaceEnd buf _
  · rw [seek, spaceEnd_drop, inner]

/-- Called from the beginning, the k-th call gives the k-th member, and every call behind the last
    one that there is none. -/
theorem iterate_enumerates {depth : Nat} (shallow : depth ≤ JSON_MAX_DEPTH) {buf : List UInt8}
    {mode : Mode} {members : List (Option (List UInt8) × Json)}
    (document : Document strict depth buf (.collection mode members)) (k : Nat) :
    let at' := (advance buf)^[k] (0, 0)
    match members[k]? with
    | some member => ∃ pair start next,
        JSON_Iterate buf at'.1 at'.2 = (.JSONSuccess, start, next, some pair) ∧
          Gives buf pair k member
    | none => (JSON_Iterate buf at'.1 at'.2).1 = .JSONNotFound := by
  obtain ⟨before, item, behind, blank, valued, _, rfl, start⟩ := document_start document
  clear start document
  cases valued with
  | collection collection =>
    obtain ⟨content, closed⟩ := collection
    rename_i depth last body
    have shallow' : depth ≤ JSON_MAX_DEPTH := by omega
    have numbered := collection_walked true content closed shallow' behind
    have first := first_standing blank mode body behind
    have eq : before ++ (mode.opening :: (body ++ [mode.closing]) ++ behind) =
        before ++ mode.opening :: (body ++ mode.closing :: behind) := by
      simp
    rw [eq] at first ⊢
    exact enumerated shallow' blank numbered first k

/-- The second call gives the second member, with its name. -/
theorem iterate_enumerates_second :
    let buf := text "\x7b\"a\":7,\"b\":8\x7d"
    let at' := (advance buf)^[1] (0, 0)
    ∃ pair start next, JSON_Iterate buf at'.1 at'.2 = (.JSONSuccess, start, next, some pair) ∧
      Gives buf pair 1 (some (text "b"), .scalar (text "8")) := by
  have seven : Scalar strict (text "7") := .digit (by decide) (by decide)
  have eight : Scalar strict (text "8") := .digit (by decide) (by decide)
  have a : StringBody strict (String.utf8EncodeChar 'a') :=
    .char (by decide) (by decide) (by decide)
  have b : StringBody strict (String.utf8EncodeChar 'b') :=
    .char (by decide) (by decide) (by decide)
  have first : Content strict 0 .object .behind _ _ :=
    .scalar (.opened blank_nil) (by decide) (.object a blank_nil blank_nil) seven blank_nil
  have content : Content strict 0 .object .behind _ _ :=
    .scalar (.comma first blank_nil) (by decide) (.object b blank_nil blank_nil) eight blank_nil
  have document := Value.document (.collection (.mk content (by decide)))
  exact iterate_enumerates (by decide) document 1

end SpmJsonIterate
