import SpmMulti.JsonScanners

/- coreJSON accepts exactly the documents of its dialect with at most JSON_MAX_DEPTH collections
   inside each other, and reports as partial exactly what closing brackets complete. -/
namespace SpmJsonGuarantees
open SpmMachine SpmCoreJson JsonText SpmJsonScanners

/-- Something stands here that is neither space nor a closing bracket. -/
def Solid (s : List UInt8) : Prop :=
  ∃ b rest, s = b :: rest ∧ ¬ IsBlank b ∧ isCloseBracket_ b = false

theorem skipSpaceAndComma_blank {gap : List UInt8} (blank : Blank gap) (s : List UInt8) :
    skipSpaceAndComma (gap ++ s) = skipSpaceAndComma s := by
  simp only [skipSpaceAndComma, skipSpace_blank blank]

theorem skipSpaceAndComma_comma {gap s : List UInt8} (blank : Blank gap) (solid : Solid s) :
    skipSpaceAndComma (','.toUInt8 :: (gap ++ s)) = (true, s) := by
  obtain ⟨b, rest, rfl, space, close⟩ := solid
  have comma : ¬ IsBlank ','.toUInt8 := by simp only [IsBlank]; decide
  simp only [skipSpaceAndComma, skipSpace_solid comma, if_true, skipSpace_blank blank,
    skipSpace_solid space, close, Bool.false_eq_true, if_false]

theorem skipSpaceAndComma_other {b : UInt8} (space : ¬ IsBlank b) (comma : b ≠ ','.toUInt8)
    (s : List UInt8) : skipSpaceAndComma (b :: s) = (false, b :: s) := by
  simp only [skipSpaceAndComma, skipSpace_solid space, if_neg comma]

theorem skipSpaceAndComma_cases (s : List UInt8) :
    (∃ gap, Blank gap ∧ s = gap ++ skipSpace s ∧ skipSpaceAndComma s = (false, skipSpace s)) ∨
    ∃ gap after rest, Blank gap ∧ Blank after ∧ Solid rest ∧
      s = gap ++ ','.toUInt8 :: (after ++ rest) ∧ skipSpaceAndComma s = (true, rest) := by
  obtain ⟨gap, blank, eq⟩ := skipSpace_skips s
  simp only [skipSpaceAndComma]
  cases skipped : skipSpace s with
  | nil => exact Or.inl ⟨gap, blank, by rw [← skipped, ← eq], rfl⟩
  | cons b rest =>
    rw [skipped] at eq
    by_cases comma : b = ','.toUInt8
    · obtain ⟨after, blank', eq'⟩ := skipSpace_skips rest
      simp only [if_pos comma]
      cases skipped' : skipSpace rest with
      | nil => exact Or.inl ⟨gap, blank, eq, rfl⟩
      | cons c rest' =>
        rw [skipped'] at eq'
        by_cases close : isCloseBracket_ c = true
        · exact Or.inl ⟨gap, blank, eq, if_pos close⟩
        · refine Or.inr ⟨gap, after, c :: rest', blank, blank', ?_, ?_, if_neg close⟩
          · exact ⟨c, rest', rfl, skipSpace_head skipped', by simpa using close⟩
          · rw [← eq', ← comma, ← eq]
    · exact Or.inl ⟨gap, blank, eq, if_neg comma⟩

theorem skipSpace_suffix (s : List UInt8) : skipSpace s <:+ s := by
  obtain ⟨gap, _, eq⟩ := skipSpace_skips s
  exact ⟨gap, eq.symm⟩

theorem skipSpaceAndComma_suffix (s : List UInt8) : (skipSpaceAndComma s).2 <:+ s := by
  rcases skipSpaceAndComma_cases s with ⟨gap, _, eq, skipped⟩ | ⟨gap, after, rest, _, _, _, rfl, skipped⟩
  · rw [skipped]
    exact ⟨gap, eq.symm⟩
  · rw [skipped]
    exact ⟨gap ++ ','.toUInt8 :: after, by simp⟩

theorem skipAnyScalar_shorter {s rest : List UInt8} (skipped : skipAnyScalar s = some rest) :
    rest.length < s.length := by
  obtain ⟨item, scalar, rfl⟩ := skipAnyScalar_skips skipped
  obtain ⟨b, others, rfl, _⟩ := scalar_head scalar
  simp

theorem arrayScalars_turns {n m : Nat} {s : List UInt8} (enough : s.length ≤ n)
    (enough' : s.length ≤ m) : arrayScalars n s = arrayScalars m s := by
  induction n generalizing m s with
  | zero =>
    obtain rfl := List.eq_nil_of_length_eq_zero (Nat.le_zero.1 enough)
    cases m with
    | zero => rfl
    | succ m => rfl
  | succ n ih =>
    cases m with
    | zero =>
      obtain rfl := List.eq_nil_of_length_eq_zero (Nat.le_zero.1 enough')
      rfl
    | succ m =>
      simp only [arrayScalars]
      split
      · rfl
      · rename_i rest skipped
        have shorter := skipAnyScalar_shorter skipped
        have suffix := (skipSpaceAndComma_suffix rest).length_le
        split
        · exact ih (by omega) (by omega)
        · rfl

theorem skipArrayScalars_eq (s : List UInt8) :
    skipArrayScalars s =
      match skipAnyScalar s with
      | none => s
      | some rest =>
        if (skipSpaceAndComma rest).1 then skipArrayScalars (skipSpaceAndComma rest).2
        else (skipSpaceAndComma rest).2 := by
  cases skipped : skipAnyScalar s with
  | none =>
    cases s with
    | nil => rfl
    | cons b s => simp [skipArrayScalars, arrayScalars, skipped]
  | some rest =>
    have shorter := skipAnyScalar_shorter skipped
    have suffix := (skipSpaceAndComma_suffix rest).length_le
    cases s with
    | nil => cases skipped
    | cons b s =>
      simp only [skipArrayScalars, List.length_cons, arrayScalars, skipped]
      rw [List.length_cons] at shorter
      rw [arrayScalars_turns (m := (skipSpaceAndComma rest).2.length) (by omega) le_rfl]

theorem skipString_shorter {s rest : List UInt8} (skipped : skipString s = some rest) :
    rest.length < s.length := by
  obtain ⟨body, _, rfl⟩ := (skipString_iff _ _).1 skipped
  simp [quoted]
  omega

theorem skipKey_shorter {s rest : List UInt8} (skipped : skipKey s = some rest) :
    rest.length < s.length := by
  simp only [skipKey] at skipped
  split at skipped
  · cases skipped
  · rename_i behind string
    have shorter := skipString_shorter string
    have suffix := (skipSpace_suffix behind).length_le
    split at skipped
    · obtain rfl := Option.some.inj skipped
      exact Nat.zero_lt_of_lt shorter
    · rename_i b after eq
      obtain ⟨_, skipped⟩ := Option.ite_none_left_eq_some.1 skipped
      rw [← Option.some.inj skipped]
      have suffix' := (skipSpace_suffix after).length_le
      rw [eq, List.length_cons] at suffix
      omega

theorem skipKey_skips {s rest : List UInt8} (skipped : skipKey s = some rest) (more : rest ≠ []) :
    ∃ name lead, Lead coreJSON .object (some name) lead ∧ s = lead ++ rest := by
  simp only [skipKey] at skipped
  split at skipped
  · cases skipped
  · rename_i behind string
    obtain ⟨name, inside, rfl⟩ := (skipString_iff _ _).1 string
    obtain ⟨gap, blank, eq⟩ := skipSpace_skips behind
    split at skipped
    · exact absurd (Option.some.inj skipped).symm more
    · rename_i b after eq'
      obtain ⟨colon, skipped⟩ := Option.ite_none_left_eq_some.1 skipped
      obtain ⟨gap', blank', eq''⟩ := skipSpace_skips after
      refine ⟨name, _, .object inside blank blank', ?_⟩
      rw [eq, eq', eq'', Option.some.inj skipped, Classical.not_not.1 colon]
      simp

theorem skipKey_lead {key : Option (List UInt8)} {lead : List UInt8}
    (led : Lead coreJSON .object key lead) {b : UInt8} (space : ¬ IsBlank b) (rest : List UInt8) :
    skipKey (lead ++ b :: rest) = some (b :: rest) := by
  cases led with
  | @object name before behind inside blank blank' =>
    have colon : ¬ IsBlank ':'.toUInt8 := by simp only [IsBlank]; decide
    have string : ∀ s, skipString (quoted name ++ s) = some s := fun s =>
      (skipString_iff _ _).2 ⟨name, inside, rfl⟩
    simp only [List.append_assoc, List.cons_append, skipKey, string, skipSpace_blank blank,
      skipSpace_solid colon, skipSpace_blank blank', skipSpace_solid space, ne_eq, not_true,
      if_false]

theorem objectScalars_turns {n m : Nat} {s : List UInt8} (enough : s.length ≤ n)
    (enough' : s.length ≤ m) : objectScalars n s = objectScalars m s := by
  induction n generalizing m s with
  | zero =>
    obtain rfl := List.eq_nil_of_length_eq_zero (Nat.le_zero.1 enough)
    cases m with
    | zero => rfl
    | succ m => rfl
  | succ n ih =>
    cases m with
    | zero =>
      obtain rfl := List.eq_nil_of_length_eq_zero (Nat.le_zero.1 enough')
      rfl
    | succ m =>
      simp only [objectScalars]
      split
      · rfl
      · rename_i rest key
        have shorter := skipKey_shorter key
        split
        · rfl
        split
        · rfl
        · rename_i behind skipped
          have shorter' := skipAnyScalar_shorter skipped
          have suffix := (skipSpaceAndComma_suffix behind).length_le
          split
          · exact ih (by omega) (by omega)
          · rfl

theorem skipObjectScalars_eq (s : List UInt8) :
    skipObjectScalars s =
      match skipKey s with
      | none => s
      | some rest =>
        if rest.head?.any isOpenBracket_ then rest
        else
          match skipAnyScalar rest with
          | none => s
          | some rest =>
            if (skipSpaceAndComma rest).1 then skipObjectScalars (skipSpaceAndComma rest).2
            else (skipSpaceAndComma rest).2 := by
  cases key : skipKey s with
  | none =>
    cases s with
    | nil => rfl
    | cons b s => simp [skipObjectScalars, objectScalars, key]
  | some rest =>
    have shorter := skipKey_shorter key
    cases s with
    | nil => cases key
    | cons b s =>
      simp only [skipObjectScalars, List.length_cons, objectScalars, key]
      rw [List.length_cons] at shorter
      cases skipped : skipAnyScalar rest with
      | none => rfl
      | some behind =>
        have shorter' := skipAnyScalar_shorter skipped
        have suffix := (skipSpaceAndComma_suffix behind).length_le
        simp only
        rw [objectScalars_turns (m := (skipSpaceAndComma behind).2.length) (by omega) le_rfl]

/-- What stands at the head of the loop: nothing, or a key with a collection behind it. -/
inductive Ready (mode : Mode) (phase : Phase) : List UInt8 → List UInt8 → Prop
  | bare {s : List UInt8} : (phase = .comma → Solid s) → Ready mode phase [] s
  | led {key : Option (List UInt8)} {lead s : List UInt8} : phase ≠ .behind →
      Lead coreJSON mode key lead → s.head?.any isOpenBracket_ = true → Ready mode phase lead s

theorem behind_content {depth : Nat} {mode : Mode} {text : List UInt8}
    {members : List (Option (List UInt8) × Json)}
    (content : Content coreJSON depth mode .behind text members) (s : List UInt8) :
    ∃ t phase, s = t ++ (skipSpaceAndComma s).2 ∧
      Content coreJSON depth mode phase (text ++ t) members ∧
      if (skipSpaceAndComma s).1 then phase = .comma ∧ Solid (skipSpaceAndComma s).2
      else phase = .behind := by
  rcases skipSpaceAndComma_cases s with ⟨gap, blank, eq, skipped⟩ |
    ⟨gap, after, rest, blank, blank', solid, eq, skipped⟩
  · rw [skipped]
    exact ⟨gap, .behind, eq, content.blank blank, by simp⟩
  · rw [skipped]
    refine ⟨gap ++ ','.toUInt8 :: after, .comma, by simp [eq], ?_, by simp [solid]⟩
    rw [← List.append_assoc]
    exact .comma (content.blank blank) blank'

theorem arrayScalars_content {depth : Nat} (s : List UInt8) {phase : Phase} {text : List UInt8}
    {members : List (Option (List UInt8) × Json)}
    (content : Content coreJSON depth .array phase text members) (free : phase ≠ .behind)
    (solid : phase = .comma → Solid s) :
    ∃ t phase' members', s = t ++ skipArrayScalars s ∧
      Content coreJSON depth .array phase' (text ++ t) members' ∧
      (phase' = .comma → Solid (skipArrayScalars s)) := by
  induction length : s.length using Nat.strong_induction_on
    generalizing s phase text members with
  | _ n ih =>
    rw [skipArrayScalars_eq]
    split
    · exact ⟨[], phase, members, rfl, by simpa using content, solid⟩
    · rename_i rest skipped
      obtain ⟨item, scalar, rfl⟩ := skipAnyScalar_skips skipped
      have shorter := skipAnyScalar_shorter skipped
      have suffix := (skipSpaceAndComma_suffix rest).length_le
      have added := Content.scalar content free .array scalar blank_nil
      obtain ⟨t, phase', eq, content', next⟩ := behind_content added rest
      rw [List.nil_append, List.append_nil, List.append_assoc] at content'
      split at next
      · rename_i comma
        rw [if_pos comma]
        obtain ⟨rfl, solid'⟩ := next
        obtain ⟨t', phase', members', eq', more⟩ :=
          ih _ (by omega) _ content' (by simp) (fun _ => solid') rfl
        refine ⟨item ++ (t ++ t'), phase', members', ?_, by simpa using more⟩
        rw [List.append_assoc, List.append_assoc, ← eq', ← eq]
      · rename_i comma
        rw [if_neg comma]
        subst next
        exact ⟨item ++ t, .behind, _, by rw [List.append_assoc, ← eq], content', by simp⟩

theorem objectScalars_content {depth : Nat} (s : List UInt8) {phase : Phase} {text : List UInt8}
    {members : List (Option (List UInt8) × Json)}
    (content : Content coreJSON depth .object phase text members) (free : phase ≠ .behind)
    (solid : phase = .comma → Solid s) :
    ∃ t lead phase' members', s = t ++ (lead ++ skipObjectScalars s) ∧
      Content coreJSON depth .object phase' (text ++ t) members' ∧
      Ready .object phase' lead (skipObjectScalars s) := by
  induction length : s.length using Nat.strong_induction_on
    generalizing s phase text members with
  | _ n ih =>
    rw [skipObjectScalars_eq]
    split
    · exact ⟨[], [], phase, members, rfl, by simpa using content, .bare solid⟩
    · rename_i rest key
      split
      · rename_i opens
        have more : rest ≠ [] := by
          rintro rfl
          cases opens
        obtain ⟨name, lead, led, eq⟩ := skipKey_skips key more
        exact ⟨[], lead, phase, members, eq, by simpa using content, .led free led opens⟩
      split
      · exact ⟨[], [], phase, members, rfl, by simpa using content, .bare solid⟩
      · rename_i behind skipped
        obtain ⟨item, scalar, rfl⟩ := skipAnyScalar_skips skipped
        have shorter := skipKey_shorter key
        have shorter' := skipAnyScalar_shorter skipped
        have suffix := (skipSpaceAndComma_suffix behind).length_le
        obtain ⟨name, lead, led, rfl⟩ := skipKey_skips key (by
          rintro none
          rw [none] at skipped
          cases skipped)
        have added := Content.scalar content free led scalar blank_nil
        obtain ⟨t, phase', eq, content', next⟩ := behind_content added behind
        rw [List.append_nil, List.append_assoc, List.append_assoc] at content'
        split at next
        · rename_i comma
          rw [if_pos comma]
          obtain ⟨rfl, solid'⟩ := next
          obtain ⟨t', lead', phase', members', eq', more⟩ :=
            ih _ (by omega) _ content' (by simp) (fun _ => solid') rfl
          refine ⟨lead ++ (item ++ (t ++ t')), lead', phase', members', ?_, by simpa using more⟩
          simp only [List.append_assoc]
          rw [← eq', ← eq]
        · rename_i comma
          rw [if_neg comma]
          subst next
          refine ⟨lead ++ (item ++ t), [], .behind, _, ?_, content', .bare (by simp)⟩
          simp only [List.append_assoc, List.nil_append]
          rw [← eq]

theorem scalars_content {depth : Nat} {mode : Mode} {phase : Phase} {text s : List UInt8}
    {members : List (Option (List UInt8) × Json)}
    (content : Content coreJSON depth mode phase text members) (free : phase ≠ .behind)
    (solid : phase = .comma → Solid s) (skipped : skipSpace s = s) :
    ∃ t lead phase' members', s = t ++ (lead ++ skipScalars mode.opening s) ∧
      Content coreJSON depth mode phase' (text ++ t) members' ∧
      Ready mode phase' lead (skipScalars mode.opening s) := by
  simp only [skipScalars, skipped]
  cases mode with
  | array =>
    rw [if_pos (by rfl)]
    obtain ⟨t, phase', members', eq, content', more⟩ := arrayScalars_content s content free solid
    exact ⟨t, [], phase', members', eq, content', .bare more⟩
  | object =>
    rw [if_neg (by decide)]
    exact objectScalars_content s content free solid

theorem opened_content (depth : Nat) (mode : Mode) (s : List UInt8) :
    ∃ t lead phase members, s = t ++ (lead ++ skipScalars mode.opening s) ∧
      Content coreJSON depth mode phase t members ∧
      Ready mode phase lead (skipScalars mode.opening s) := by
  obtain ⟨gap, blank, eq⟩ := skipSpace_skips s
  have same : skipScalars mode.opening s = skipScalars mode.opening (skipSpace s) := by
    simp only [skipScalars, skipSpace_idem]
  obtain ⟨t, lead, phase, members, eq', content, ready⟩ :=
    scalars_content (.opened blank : Content coreJSON depth mode _ _ _) (by simp) (by simp)
      (skipSpace_idem s)
  rw [← same] at eq' ready
  refine ⟨gap ++ t, lead, phase, members, ?_, content, ready⟩
  rw [List.append_assoc, ← eq', ← eq]

theorem solid_skipSpace {s : List UInt8} (solid : Solid s) : skipSpace s = s := by
  obtain ⟨b, rest, rfl, space, _⟩ := solid
  exact skipSpace_solid space rest

theorem isOpenBracket_iff (b : UInt8) : isOpenBracket_ b = true ↔ ∃ mode, b = Mode.opening mode := by
  simp only [isOpenBracket_, Bool.or_eq_true, decide_eq_true_eq]
  constructor
  · rintro (rfl | rfl)
    · exact ⟨.object, rfl⟩
    · exact ⟨.array, rfl⟩
  · rintro ⟨mode, rfl⟩
    cases mode
    · exact Or.inr rfl
    · exact Or.inl rfl

theorem isCloseBracket_iff (b : UInt8) : isCloseBracket_ b = true ↔ ∃ mode, b = Mode.closing mode := by
  simp only [isCloseBracket_, Bool.or_eq_true, decide_eq_true_eq]
  constructor
  · rintro (rfl | rfl)
    · exact ⟨.object, rfl⟩
    · exact ⟨.array, rfl⟩
  · rintro ⟨mode, rfl⟩
    cases mode
    · exact Or.inr rfl
    · exact Or.inl rfl

theorem isMatchingBracket_iff (mode mode' : Mode) :
    isMatchingBracket_ mode.opening mode'.closing = true ↔ mode = mode' := by
  cases mode <;> cases mode' <;> decide

theorem opening_not_closing (mode : Mode) : isCloseBracket_ mode.opening = false := by
  cases mode <;> decide

theorem closing_not_opening (mode : Mode) : isOpenBracket_ mode.closing = false := by
  cases mode <;> decide

theorem Ready.leads {mode inner : Mode} {phase : Phase} {lead s : List UInt8}
    (ready : Ready mode phase lead (inner.opening :: s)) :
    ∃ key, Leads coreJSON mode phase key lead := by
  cases ready with
  | bare _ => exact ⟨none, Or.inr ⟨trivial, rfl, rfl⟩⟩
  | led free led _ => exact ⟨_, Or.inl ⟨free, led⟩⟩

/-- At the end of the text or in front of a closing bracket no member is called for. -/
theorem Ready.closes {mode : Mode} {phase : Phase} {lead s : List UInt8}
    (ready : Ready mode phase lead s) (ends : ∀ b ∈ s.head?, isCloseBracket_ b = true) :
    lead = [] ∧ phase ≠ .comma := by
  cases ready with
  | bare solid =>
    refine ⟨rfl, fun comma => ?_⟩
    obtain ⟨b, rest, rfl, _, close⟩ := solid comma
    rw [ends b rfl] at close
    cases close
  | led _ _ opens =>
    cases s with
    | nil => cases opens
    | cons b s =>
      obtain ⟨inner, rfl⟩ := (isOpenBracket_iff b).1 opens
      exact absurd (ends _ rfl) (by simp [opening_not_closing])

theorem skipScalars_length (mode : Mode) (s : List UInt8) :
    (skipScalars mode.opening s).length ≤ s.length := by
  obtain ⟨t, lead, _, _, eq, _⟩ := opened_content 0 mode s
  have length := congrArg List.length eq
  simp only [List.length_append] at length
  omega

/-- What the loop leaves to look at behind a collection inside another one. -/
def behindNested (outer : Mode) (s : List UInt8) : List UInt8 :=
  if (skipSpaceAndComma s).1 then skipScalars outer.opening (skipSpaceAndComma s).2
  else (skipSpaceAndComma s).2

theorem behindNested_length (outer : Mode) (s : List UInt8) :
    (behindNested outer s).length ≤ s.length := by
  have suffix := (skipSpaceAndComma_suffix s).length_le
  have scalars := skipScalars_length outer (skipSpaceAndComma s).2
  rw [behindNested]
  split <;> omega

theorem loop_open (turns : Nat) (stack : List UInt8) (inner : Mode) (buf : List UInt8) :
    collectionLoop (turns + 1) stack (inner.opening :: buf) =
      if stack.length = JSON_MAX_DEPTH then (.JSONMaxDepthExceeded, buf)
      else collectionLoop turns (inner.opening :: stack) (skipScalars inner.opening buf) :=
  if_pos ((isOpenBracket_iff _).2 ⟨inner, rfl⟩)

theorem loop_close_last (turns : Nat) (mode inner : Mode) (buf : List UInt8) :
    collectionLoop (turns + 1) [mode.opening] (inner.closing :: buf) =
      if mode = inner then (.JSONSuccess, buf) else (.JSONIllegalDocument, buf) := by
  have close := (isCloseBracket_iff inner.closing).2 ⟨inner, rfl⟩
  simp only [collectionLoop, closing_not_opening, close, isMatchingBracket_iff, Bool.false_eq_true,
    if_false, if_true]

theorem loop_close (turns : Nat) (mode outer inner : Mode) (stack buf : List UInt8) :
    collectionLoop (turns + 1) (mode.opening :: outer.opening :: stack) (inner.closing :: buf) =
      if mode = inner then collectionLoop turns (outer.opening :: stack) (behindNested outer buf)
      else (.JSONIllegalDocument, buf) := by
  have close := (isCloseBracket_iff inner.closing).2 ⟨inner, rfl⟩
  simp only [collectionLoop, closing_not_opening, close, isMatchingBracket_iff, Bool.false_eq_true,
    if_false, if_true, behindNested]

theorem loop_other (turns : Nat) (stack : List UInt8) {c : UInt8} (opens : isOpenBracket_ c = false)
    (closes : isCloseBracket_ c = false) (buf : List UInt8) :
    collectionLoop (turns + 1) stack (c :: buf) = (.JSONIllegalDocument, buf) := by
  simp only [collectionLoop, opens, closes, Bool.false_eq_true, if_false]

theorem collectionLoop_nil (turns : Nat) (stack : List UInt8) :
    collectionLoop turns stack [] = (.JSONPartial, []) := by
  cases turns <;> rfl

/-- At an opening bracket, a closing bracket or something else. -/
theorem bracket_cases (c : UInt8) : (∃ mode, c = Mode.opening mode) ∨ (∃ mode, c = Mode.closing mode) ∨
    isOpenBracket_ c = false ∧ isCloseBracket_ c = false := by
  rw [← isOpenBracket_iff, ← isCloseBracket_iff]
  cases isOpenBracket_ c <;> cases isCloseBracket_ c <;> simp

/-- One more collection would be opened inside so many. -/
def TooDeep (depth : Nat) (text : List UInt8) : Prop :=
  ∃ mode stack phase before key lead inner after, (mode :: stack).length = depth ∧
    Unclosed coreJSON 0 (mode :: stack) phase before ∧ Leads coreJSON mode phase key lead ∧
    text = before ++ (lead ++ Mode.opening inner :: after)

/-- Closing brackets alone complete the text. -/
def Completable (depth : Nat) (text : List UInt8) : Prop :=
  ∃ room stack phase, Unclosed coreJSON room stack phase text ∧ phase ≠ .comma ∧
    room + stack.length = depth

/-- What the result of skipping a collection says about the text. -/
def Explains (text s : List UInt8) : JSONStatus × List UInt8 → Prop
  | (.JSONSuccess, rest) =>
    ∃ t value, s = t ++ rest ∧ Collection coreJSON JSON_MAX_DEPTH (text ++ t) value
  | (.JSONPartial, _) => Completable JSON_MAX_DEPTH (text ++ s)
  | (.JSONMaxDepthExceeded, _) => TooDeep JSON_MAX_DEPTH (text ++ s)
  | (status, _) => status = .JSONIllegalDocument

theorem Explains.shift (text t : List UInt8) {s : List UInt8} {result : JSONStatus × List UInt8}
    (explains : Explains (text ++ t) s result) : Explains text (t ++ s) result := by
  obtain ⟨status, rest⟩ := result
  cases status with
  | JSONSuccess =>
    obtain ⟨u, value, rfl, collection⟩ := explains
    rw [List.append_assoc] at collection
    exact ⟨t ++ u, value, (List.append_assoc _ _ _).symm, collection⟩
  | JSONPartial => simpa only [Explains, List.append_assoc] using explains
  | JSONMaxDepthExceeded => simpa only [Explains, List.append_assoc] using explains
  | _ => exact explains

theorem completable_at_end {depth : Nat} {mode : Mode} {stack : List Mode} {phase : Phase}
    {text lead : List UInt8} (unclosed : Unclosed coreJSON depth (mode :: stack) phase text)
    (ready : Ready mode phase lead [])
    (room : depth + (mode :: stack).length = JSON_MAX_DEPTH) :
    Completable JSON_MAX_DEPTH (text ++ lead ++ []) := by
  obtain ⟨rfl, closed⟩ := ready.closes (by simp)
  simp only [List.append_nil]
  exact ⟨_, _, _, unclosed, closed, room⟩

theorem behindNested_content {depth : Nat} {mode : Mode} {text : List UInt8}
    {members : List (Option (List UInt8) × Json)}
    (content : Content coreJSON depth mode .behind text members) (s : List UInt8) :
    ∃ t lead phase members', s = t ++ (lead ++ behindNested mode s) ∧
      Content coreJSON depth mode phase (text ++ t) members' ∧
      Ready mode phase lead (behindNested mode s) := by
  obtain ⟨t, phase, eq, content', next⟩ := behind_content content s
  rw [behindNested]
  split at next
  · rename_i comma
    rw [if_pos comma]
    obtain ⟨rfl, solid⟩ := next
    obtain ⟨t', lead, phase, members', eq', content'', ready⟩ :=
      scalars_content content' (by simp) (fun _ => solid) (solid_skipSpace solid)
    refine ⟨t ++ t', lead, phase, members', ?_, by simpa using content'', ready⟩
    rw [List.append_assoc, ← eq', ← eq]
  · rename_i comma
    rw [if_neg comma]
    subst next
    exact ⟨t, [], .behind, members, eq, content', .bare (by simp)⟩

theorem collectionLoop_explains {turns : Nat} {depth : Nat} {mode : Mode} {stack : List Mode}
    {phase : Phase} {text lead s : List UInt8}
    (unclosed : Unclosed coreJSON depth (mode :: stack) phase text) (ready : Ready mode phase lead s)
    (room : depth + (mode :: stack).length = JSON_MAX_DEPTH) (enough : s.length ≤ turns) :
    Explains (text ++ lead) s (collectionLoop turns ((mode :: stack).map Mode.opening) s) := by
  induction turns generalizing depth mode stack phase text lead s with
  | zero =>
    obtain rfl := List.eq_nil_of_length_eq_zero (Nat.le_zero.1 enough)
    exact completable_at_end unclosed ready room
  | succ turns ih =>
    cases s with
    | nil => exact completable_at_end unclosed ready room
    | cons c buf =>
      rw [List.length_cons, Nat.add_le_add_iff_right] at enough
      rcases bracket_cases c with ⟨inner, rfl⟩ | ⟨inner, rfl⟩ | ⟨opens, closes⟩
      · obtain ⟨key, leads⟩ := ready.leads
        rw [loop_open, List.length_map]
        split
        · rename_i full
          obtain rfl : depth = 0 := by omega
          exact ⟨mode, stack, phase, text, key, lead, inner, buf, full, unclosed, leads,
            List.append_assoc _ _ _⟩
        · rename_i free
          obtain ⟨depth, rfl⟩ := Nat.exists_eq_add_one_of_ne_zero (show depth ≠ 0 by omega)
          obtain ⟨t, lead', phase', members, eq, content, ready'⟩ :=
            opened_content depth inner buf
          have explains := ih (.inner unclosed leads content) ready'
            (by simp only [List.length_cons] at room ⊢; omega)
            ((skipScalars_length inner buf).trans enough)
          have shifted := Explains.shift (text ++ lead) (inner.opening :: (t ++ lead'))
            (by simpa using explains)
          rwa [List.cons_append, List.append_assoc, ← eq] at shifted
      · obtain ⟨rfl, closed⟩ := ready.closes (by simp [(isCloseBracket_iff _).2 ⟨inner, rfl⟩])
        cases stack with
        | nil =>
          rw [List.map_cons, List.map_nil, loop_close_last]
          split
          · rename_i matching
            subst matching
            cases unclosed with
            | outer content =>
              rw [List.length_singleton] at room
              have collection := Collection.mk content closed
              rw [room] at collection
              exact ⟨[mode.closing], _, rfl, by simpa using collection⟩
          · rfl
        | cons outer stack =>
          rw [List.map_cons, List.map_cons, loop_close]
          split
          · rename_i matching
            subst matching
            obtain ⟨before, body, members, same, _, content, resume⟩ :=
              (unclosed.close closed).innermost
            obtain ⟨t, lead, phase', members', eq, content', ready'⟩ :=
              behindNested_content content buf
            have explains := ih (resume content') ready'
              (by simp only [List.length_cons] at room ⊢; omega)
              ((behindNested_length outer buf).trans enough)
            rw [← List.append_assoc, ← same] at explains
            have shifted := Explains.shift text (mode.closing :: (t ++ lead))
              (by simpa using explains)
            rw [List.cons_append, List.append_assoc, ← eq] at shifted
            rwa [List.append_nil]
          · rfl
      · rw [loop_other _ _ opens closes]
        rfl

theorem skipCollection_open (mode : Mode) (buf : List UInt8) :
    skipCollection (mode.opening :: buf) =
      collectionLoop buf.length [mode.opening] (skipScalars mode.opening buf) :=
  (loop_open buf.length [] mode buf).trans (if_neg (by decide))

theorem skipCollection_explains {c : UInt8} (buf : List UInt8) :
    Explains [] (c :: buf) (skipCollection (c :: buf)) := by
  rcases bracket_cases c with ⟨mode, rfl⟩ | ⟨mode, rfl⟩ | ⟨opens, closes⟩
  · obtain ⟨t, lead, phase, members, eq, content, ready⟩ := opened_content 31 mode buf
    have explains := collectionLoop_explains (.outer content) ready rfl (skipScalars_length mode buf)
    have shifted := Explains.shift [] (mode.opening :: (t ++ lead))
      (by simpa using explains)
    rw [List.cons_append, List.append_assoc, ← eq] at shifted
    rwa [skipCollection_open]
  · have close := (isCloseBracket_iff mode.closing).2 ⟨mode, rfl⟩
    simp only [skipCollection, List.length_cons, collectionLoop, closing_not_opening, close,
      Bool.false_eq_true, if_false, if_true]
    rfl
  · rw [skipCollection, List.length_cons, loop_other _ _ opens closes]
    rfl

theorem collectionLoop_turns {n m : Nat} {stack : List Mode} {s : List UInt8}
    (enough : s.length ≤ n) (enough' : s.length ≤ m) :
    collectionLoop n (stack.map Mode.opening) s = collectionLoop m (stack.map Mode.opening) s := by
  induction n generalizing m stack s with
  | zero =>
    obtain rfl := List.eq_nil_of_length_eq_zero (Nat.le_zero.1 enough)
    rw [collectionLoop_nil, collectionLoop_nil]
  | succ n ih =>
    cases s with
    | nil => rw [collectionLoop_nil, collectionLoop_nil]
    | cons c s =>
      obtain ⟨m, rfl⟩ := Nat.exists_eq_add_one_of_ne_zero (Nat.ne_zero_of_lt enough')
      rw [List.length_cons, Nat.add_le_add_iff_right] at enough enough'
      rcases bracket_cases c with ⟨inner, rfl⟩ | ⟨inner, rfl⟩ | ⟨opens, closes⟩
      · rw [loop_open, loop_open]
        have length := skipScalars_length inner s
        have same := @ih m (inner :: stack) _ (length.trans enough) (length.trans enough')
        rw [List.map_cons] at same
        rw [same]
      · match stack with
        | [] =>
          have close := (isCloseBracket_iff inner.closing).2 ⟨inner, rfl⟩
          simp only [List.map_nil, collectionLoop, closing_not_opening, close, Bool.false_eq_true,
            if_false, if_true]
        | [mode] => rw [List.map_cons, List.map_nil, loop_close_last, loop_close_last]
        | mode :: outer :: stack =>
          rw [List.map_cons, List.map_cons, loop_close, loop_close]
          have length := behindNested_length outer s
          have same := @ih m (outer :: stack) _ (length.trans enough) (length.trans enough')
          rw [List.map_cons] at same
          rw [same]
      · rw [loop_other _ _ opens closes, loop_other _ _ opens closes]

def collect (stack : List Mode) (s : List UInt8) : JSONStatus × List UInt8 :=
  collectionLoop s.length (stack.map Mode.opening) s

theorem collect_open {inner : Mode} {stack : List Mode} (room : stack.length < JSON_MAX_DEPTH)
    (s : List UInt8) :
    collect stack (inner.opening :: s) = collect (inner :: stack) (skipScalars inner.opening s) := by
  rw [collect, List.length_cons, loop_open, if_neg (by rw [List.length_map]; omega)]
  exact @collectionLoop_turns _ _ (inner :: stack) _ (skipScalars_length inner s) le_rfl

theorem collect_close (inner outer : Mode) (stack : List Mode) (s : List UInt8) :
    collect (inner :: outer :: stack) (inner.closing :: s) =
      collect (outer :: stack) (behindNested outer s) := by
  rw [collect, List.length_cons, List.map_cons, List.map_cons, loop_close, if_pos rfl]
  exact @collectionLoop_turns _ _ (outer :: stack) _ (behindNested_length outer s) le_rfl

theorem collect_close_last (mode : Mode) (s : List UInt8) :
    collect [mode] (mode.closing :: s) = (.JSONSuccess, s) :=
  (loop_close_last s.length mode mode s).trans (if_pos rfl)

theorem skipCollection_collect (mode : Mode) (s : List UInt8) :
    skipCollection (mode.opening :: s) = collect [mode] (skipScalars mode.opening s) :=
  @collect_open mode [] (by decide) s

/-- How the loop goes on behind a text that ends in this phase. -/
def goOn (phase : Phase) (mode : Mode) (stack : List Mode) (s : List UInt8) :
    JSONStatus × List UInt8 :=
  collect (mode :: stack)
    (if phase = .behind then behindNested mode s else skipScalars mode.opening s)

theorem goOn_behind (mode : Mode) (stack : List Mode) (s : List UInt8) :
    goOn .behind mode stack s = collect (mode :: stack) (behindNested mode s) := rfl

theorem goOn_inside {phase : Phase} (free : phase ≠ .behind) (mode : Mode) (stack : List Mode)
    (s : List UInt8) :
    goOn phase mode stack s = collect (mode :: stack) (skipScalars mode.opening s) := by
  rw [goOn, if_neg free]

/-- What may stand behind a text that ends in this phase. -/
def Follows : Phase → List UInt8 → Prop
  | .opened, _ => True
  | .behind, s => ∀ b ∈ s.head?, ¬ Extends b
  | .comma, s => Solid s

theorem skipScalars_blank {gap : List UInt8} (blank : Blank gap) (mode : UInt8) (s : List UInt8) :
    skipScalars mode (gap ++ s) = skipScalars mode s := by
  simp only [skipScalars, skipSpace_blank blank]

theorem behindNested_blank {gap : List UInt8} (blank : Blank gap) (mode : Mode) (s : List UInt8) :
    behindNested mode (gap ++ s) = behindNested mode s := by
  simp only [behindNested, skipSpaceAndComma_blank blank]

theorem behindNested_comma {gap s : List UInt8} (blank : Blank gap) (solid : Solid s) (mode : Mode) :
    behindNested mode (','.toUInt8 :: (gap ++ s)) = skipScalars mode.opening s := by
  rw [behindNested, skipSpaceAndComma_comma blank solid]
  rfl

theorem head_table : ∀ n < 256, ScalarHead (UInt8.ofNat n) →
    ¬ IsBlank (UInt8.ofNat n) ∧ isOpenBracket_ (UInt8.ofNat n) = false ∧
      isCloseBracket_ (UInt8.ofNat n) = false := by
  decide +kernel

theorem scalarHead_solid {b : UInt8} (head : ScalarHead b) :
    ¬ IsBlank b ∧ isOpenBracket_ b = false ∧ isCloseBracket_ b = false := by
  have table := head_table b.toNat b.toNat_lt
  rw [UInt8.ofNat_toNat] at table
  exact table head

theorem scalar_solid {item : List UInt8} (scalar : Scalar coreJSON item) (r : List UInt8) :
    Solid (item ++ r) := by
  obtain ⟨b, others, rfl, head⟩ := scalar_head scalar
  obtain ⟨space, _, close⟩ := scalarHead_solid head
  exact ⟨b, _, rfl, space, close⟩

theorem blank_not_extends {b : UInt8} (blank : IsBlank b) : ¬ Extends b := by
  rcases blank with rfl | rfl | rfl | rfl <;> decide

theorem opening_solid (mode : Mode) : ¬ IsBlank mode.opening ∧ mode.opening ≠ ','.toUInt8 ∧
    ¬ ScalarHead mode.opening ∧ ¬ Extends mode.opening := by
  cases mode <;> decide

theorem closing_solid (mode : Mode) : ¬ IsBlank mode.closing ∧ mode.closing ≠ ','.toUInt8 ∧
    ¬ ScalarHead mode.closing ∧ ¬ Extends mode.closing := by
  cases mode <;> decide

theorem follows_blank {gap s : List UInt8} (blank : Blank gap) (follows : Follows .behind s) :
    Follows .behind (gap ++ s) := by
  cases gap with
  | nil => exact follows
  | cons b gap =>
    intro c head
    obtain rfl := Option.some.inj head
    exact blank_not_extends (blank _ (.head _))

theorem lead_solid {mode : Mode} {key : Option (List UInt8)} {lead s : List UInt8}
    (led : Lead coreJSON mode key lead) (solid : Solid s) : Solid (lead ++ s) := by
  cases led with
  | array => exact solid
  | object _ _ _ => exact ⟨'"'.toUInt8, _, rfl, by decide, by decide⟩

theorem comma_solid {s s' : List UInt8} (comma : skipSpaceAndComma s = (true, s')) :
    skipSpace s' = s' := by
  rcases skipSpaceAndComma_cases s with ⟨_, _, _, eq⟩ | ⟨_, _, rest, _, _, solid, _, eq⟩
  · rw [eq] at comma
    cases comma
  · rw [eq] at comma
    obtain ⟨_, rfl⟩ := Prod.mk.inj comma
    exact solid_skipSpace solid

/-- A scalar with what leads to it is skipped together with the comma behind it. -/
theorem skipScalars_scalar {mode : Mode} {key : Option (List UInt8)} {lead item : List UInt8}
    (led : Lead coreJSON mode key lead) (scalar : Scalar coreJSON item) {r : List UInt8}
    (follows : Follows .behind r) :
    skipScalars mode.opening (lead ++ (item ++ r)) = behindNested mode r := by
  have skipped := skipAnyScalar_scalar scalar follows
  obtain ⟨b, others, rfl, head⟩ := scalar_head scalar
  obtain ⟨space, opens, close⟩ := scalarHead_solid head
  have solid := lead_solid led ⟨b, others ++ r, rfl, space, close⟩
  rw [List.cons_append] at skipped ⊢
  rw [skipScalars, solid_skipSpace solid, behindNested]
  obtain ⟨comma, s', eq⟩ : ∃ comma s', skipSpaceAndComma r = (comma, s') := ⟨_, _, rfl⟩
  cases mode with
  | array =>
    cases led
    simp only [Mode.opening, if_true, List.nil_append, skipScalars]
    rw [skipArrayScalars_eq, skipped]
    cases comma with
    | false => simp only [eq, Bool.false_eq_true, if_false]
    | true => simp only [eq, if_true, comma_solid eq]
  | object =>
    have mode : Mode.object.opening ≠ '['.toUInt8 := by decide
    simp only [if_neg mode, skipScalars]
    rw [skipObjectScalars_eq, skipKey_lead led space]
    simp only [List.head?_cons, Option.any_some, opens, skipped, Bool.false_eq_true, if_false]
    cases comma with
    | false => simp only [eq, Bool.false_eq_true, if_false]
    | true => simp only [eq, if_true, comma_solid eq]

/-- In front of a collection the scanning of scalars stops. -/
theorem skipScalars_opening {mode inner : Mode} {key : Option (List UInt8)} {lead : List UInt8}
    (led : Lead coreJSON mode key lead) (s : List UInt8) :
    skipScalars mode.opening (lead ++ inner.opening :: s) = inner.opening :: s := by
  obtain ⟨space, _, other, _⟩ := opening_solid inner
  have solid := lead_solid led ⟨_, s, rfl, space, opening_not_closing inner⟩
  rw [skipScalars, solid_skipSpace solid]
  cases mode with
  | array =>
    cases led
    rw [if_pos (by rfl), List.nil_append, skipArrayScalars_eq, skipAnyScalar_none other]
  | object =>
    have mode : Mode.object.opening ≠ '['.toUInt8 := by decide
    simp only [if_neg mode]
    rw [skipObjectScalars_eq, skipKey_lead led space]
    simp only [List.head?_cons, Option.any_some, (isOpenBracket_iff _).2 ⟨inner, rfl⟩, if_true]

/-- Nor does it begin where neither a scalar nor a key stands. -/
theorem skipScalars_other {b : UInt8} (space : ¬ IsBlank b) (other : ¬ ScalarHead b) (mode : Mode)
    (s : List UInt8) : skipScalars mode.opening (b :: s) = b :: s := by
  rw [skipScalars, skipSpace_solid space]
  cases mode with
  | array =>
    rw [if_pos (by rfl), skipArrayScalars_eq, skipAnyScalar_none other]
  | object =>
    have mode : Mode.object.opening ≠ '['.toUInt8 := by decide
    have quote : b ≠ '"'.toUInt8 := fun quote => other (Or.inl quote)
    simp only [if_neg mode]
    rw [skipObjectScalars_eq, skipKey, skipString_none quote]

theorem behindNested_other {b : UInt8} (space : ¬ IsBlank b) (comma : b ≠ ','.toUInt8) (mode : Mode)
    (s : List UInt8) : behindNested mode (b :: s) = b :: s := by
  rw [behindNested, skipSpaceAndComma_other space comma]
  rfl

theorem goOn_opening {mode inner : Mode} {phase : Phase} {key : Option (List UInt8)}
    {lead : List UInt8} (leads : Leads coreJSON mode phase key lead) (stack : List Mode)
    (s : List UInt8) :
    goOn phase mode stack (lead ++ inner.opening :: s) =
      collect (mode :: stack) (inner.opening :: s) := by
  obtain ⟨space, comma, other, _⟩ := opening_solid inner
  rcases leads with ⟨free, led⟩ | ⟨_, _, rfl⟩
  · rw [goOn_inside free, skipScalars_opening led]
  · rw [goOn, List.nil_append, behindNested_other space comma, skipScalars_other space other,
      ite_self]

theorem goOn_closing (phase : Phase) (inner mode : Mode) (stack : List Mode) (s : List UInt8) :
    goOn phase mode stack (inner.closing :: s) =
      collect (mode :: stack) (inner.closing :: s) := by
  obtain ⟨space, comma, other, _⟩ := closing_solid inner
  rw [goOn, behindNested_other space comma, skipScalars_other space other, ite_self]

theorem follows_led {phase : Phase} (free : phase ≠ .behind) {s : List UInt8} (solid : Solid s) :
    Follows phase s := by
  cases phase with
  | opened => trivial
  | behind => exact absurd rfl free
  | comma => exact solid

theorem follows_opening {mode inner : Mode} {phase : Phase} {key : Option (List UInt8)}
    {lead : List UInt8} (leads : Leads coreJSON mode phase key lead) (s : List UInt8) :
    Follows phase (lead ++ inner.opening :: s) := by
  obtain ⟨space, _, _, ends⟩ := opening_solid inner
  have solid : Solid (inner.opening :: s) := ⟨_, s, rfl, space, opening_not_closing inner⟩
  rcases leads with ⟨free, led⟩ | ⟨_, _, rfl⟩
  · exact follows_led free (lead_solid led solid)
  · cases phase with
    | opened => trivial
    | behind =>
      intro b head
      obtain rfl := Option.some.inj head
      exact ends
    | comma => exact solid

theorem follows_closing {phase : Phase} (closed : phase ≠ .comma) (inner : Mode) (s : List UInt8) :
    Follows phase (inner.closing :: s) := by
  obtain ⟨_, _, _, ends⟩ := closing_solid inner
  cases phase with
  | opened => trivial
  | behind =>
    intro b head
    obtain rfl := Option.some.inj head
    exact ends
  | comma => exact absurd rfl closed

theorem content_collected {depth : Nat} {mode : Mode} {phase : Phase} {body : List UInt8}
    {members : List (Option (List UInt8) × Json)}
    (content : Content coreJSON depth mode phase body members) {stack : List Mode}
    (room : depth + (mode :: stack).length ≤ JSON_MAX_DEPTH) {s : List UInt8}
    (follows : Follows phase s) :
    collect (mode :: stack) (skipScalars mode.opening (body ++ s)) = goOn phase mode stack s := by
  induction content generalizing stack s with
  | opened blank => rw [skipScalars_blank blank, goOn_inside (by simp)]
  | comma content blank ih =>
    have behind : ∀ s', Follows .behind (','.toUInt8 :: s') := by
      intro s' b head
      obtain rfl := Option.some.inj head
      decide
    rw [List.append_assoc, List.cons_append, ih room (behind _), goOn_behind,
      behindNested_comma blank follows, goOn_inside (by simp)]
  | scalar content free led scalar blank ih =>
    rw [List.append_assoc, List.append_assoc, List.append_assoc,
      ih room (follows_led free (lead_solid led (scalar_solid scalar _))), goOn_inside free,
      skipScalars_scalar led scalar (follows_blank blank follows), behindNested_blank blank,
      goOn_behind]
  | nested content leads inner closed blank ih ih' =>
    rename_i depth mode inner phase last text lead body gap key members items
    rw [List.length_cons] at room
    rw [List.append_assoc, List.append_assoc, List.cons_append,
      ih room (follows_opening leads _), goOn_opening leads,
      collect_open (by rw [List.length_cons]; omega), List.append_assoc, List.cons_append,
      ih' (by simp only [List.length_cons]; omega) (follows_closing closed _ _), goOn_closing,
      collect_close, behindNested_blank blank, goOn_behind]

theorem unclosed_collected {depth : Nat} {mode : Mode} {stack : List Mode} {phase : Phase}
    {text : List UInt8} (unclosed : Unclosed coreJSON depth (mode :: stack) phase text)
    (room : depth + (mode :: stack).length ≤ JSON_MAX_DEPTH) {s : List UInt8}
    (follows : Follows phase s) : skipCollection (text ++ s) = goOn phase mode stack s := by
  generalize full : mode :: stack = modes at unclosed
  induction unclosed generalizing mode stack s with
  | outer content =>
    obtain ⟨rfl, rfl⟩ := List.cons.inj full
    rw [List.cons_append, skipCollection_collect, content_collected content room follows]
  | inner unclosed leads content ih =>
    obtain ⟨rfl, rfl⟩ := List.cons.inj full
    simp only [List.length_cons] at room
    rw [List.append_assoc, List.append_assoc, List.cons_append,
      ih (by simp only [List.length_cons]; omega) (follows_opening leads _) rfl, goOn_opening leads,
      collect_open (by rw [List.length_cons]; omega),
      content_collected content (by simp only [List.length_cons]; omega) follows]

/-- A collection is skipped whole, whatever stands behind it. -/
theorem collection_skipped {depth : Nat} (shallow : depth ≤ JSON_MAX_DEPTH) {text : List UInt8}
    {value : Json} (collection : Collection coreJSON depth text value) (s : List UInt8) :
    skipCollection (text ++ s) = (.JSONSuccess, s) := by
  obtain ⟨content, closed⟩ := collection
  rename_i depth mode last body members
  have skipped := @unclosed_collected _ mode [] _ _ (.outer content) shallow _
    (follows_closing closed mode s)
  rw [goOn_closing, collect_close_last] at skipped
  simpa using skipped

theorem completable_partial {text : List UInt8} (completable : Completable JSON_MAX_DEPTH text) :
    (skipCollection text).1 = .JSONPartial := by
  obtain ⟨room, stack, phase, unclosed, closed, depth⟩ := completable
  have more : ∃ mode outer, stack = mode :: outer := by
    cases unclosed <;> exact ⟨_, _, rfl⟩
  obtain ⟨mode, outer, rfl⟩ := more
  have follows : Follows phase [] := by
    cases phase with
    | opened => trivial
    | behind => simp [Follows]
    | comma => exact absurd rfl closed
  have skipped := unclosed_collected unclosed depth.le follows
  rw [List.append_nil] at skipped
  rw [skipped, goOn]
  cases phase <;> cases mode <;> rfl

theorem tooDeep_exceeds {text : List UInt8} (deep : TooDeep JSON_MAX_DEPTH text) :
    (skipCollection text).1 = .JSONMaxDepthExceeded := by
  obtain ⟨mode, stack, phase, before, key, lead, inner, after, full, unclosed, leads, rfl⟩ := deep
  rw [unclosed_collected unclosed (by omega) (follows_opening leads _), goOn_opening leads, collect,
    List.length_cons, loop_open, if_pos (by rw [List.length_map, full])]

/-- What JSON_Validate makes of what was skipped. -/
def judged : JSONStatus × List UInt8 → JSONStatus
  | (ret, rest) => if ret = .JSONSuccess ∧ skipSpace rest ≠ [] then .JSONIllegalDocument else ret

theorem validate_scalar {buf rest : List UInt8} (skipped : skipAnyScalar (skipSpace buf) = some rest) :
    JSON_Validate buf = judged (.JSONSuccess, rest) := by
  have filled : ¬ buf.length = 0 := by
    intro empty
    obtain rfl := List.eq_nil_of_length_eq_zero empty
    cases skipped
  simp only [JSON_Validate, if_neg filled, skipped, judged]

theorem validate_collection {buf : List UInt8} (filled : buf ≠ [])
    (skipped : skipAnyScalar (skipSpace buf) = none) :
    JSON_Validate buf = judged (skipCollection (skipSpace buf)) := by
  have filled : ¬ buf.length = 0 := fun empty => filled (List.eq_nil_of_length_eq_zero empty)
  simp only [JSON_Validate, if_neg filled, skipped, judged]

theorem validate_opening {gap : List UInt8} (blank : Blank gap) (mode : Mode) (s : List UInt8) :
    JSON_Validate (gap ++ mode.opening :: s) = judged (skipCollection (mode.opening :: s)) := by
  obtain ⟨space, _, other, _⟩ := opening_solid mode
  have start : skipSpace (gap ++ mode.opening :: s) = mode.opening :: s := by
    rw [skipSpace_blank blank, skipSpace_solid space]
  rw [validate_collection (by simp) (by rw [start, skipAnyScalar_none other]), start]

theorem skipSpace_nil_iff (s : List UInt8) : skipSpace s = [] ↔ Blank s := by
  constructor
  · intro empty
    obtain ⟨gap, blank, eq⟩ := skipSpace_skips s
    rw [eq, empty, List.append_nil]
    exact blank
  · intro blank
    have skipped := skipSpace_blank blank []
    rwa [List.append_nil] at skipped

theorem judged_success (result : JSONStatus × List UInt8) :
    judged result = .JSONSuccess ↔ result.1 = .JSONSuccess ∧ Blank result.2 := by
  obtain ⟨ret, rest⟩ := result
  rw [← skipSpace_nil_iff, judged]
  split
  · rename_i illegal
    simp only [reduceCtorEq, false_iff, not_and]
    exact fun _ => illegal.2
  · rename_i legal
    constructor
    · rintro rfl
      exact ⟨rfl, Classical.not_not.1 fun more => legal ⟨rfl, more⟩⟩
    · exact fun both => both.1

theorem judged_other {result : JSONStatus × List UInt8} {status : JSONStatus}
    (other : status ≠ .JSONSuccess) (other' : status ≠ .JSONIllegalDocument) :
    judged result = status ↔ result.1 = status := by
  obtain ⟨ret, rest⟩ := result
  simp only [judged]
  split
  · rename_i illegal
    simp [illegal.1, other.symm, other'.symm]
  · rfl

theorem success_iff_document (buf : List UInt8) :
    JSON_Validate buf = .JSONSuccess ↔ ∃ value, Document coreJSON JSON_MAX_DEPTH buf value := by
  obtain ⟨gap, blank, eq⟩ := skipSpace_skips buf
  constructor
  · intro valid
    cases skipped : skipAnyScalar (skipSpace buf) with
    | some rest =>
      rw [validate_scalar skipped, judged_success] at valid
      obtain ⟨item, scalar, eq'⟩ := skipAnyScalar_skips skipped
      exact ⟨_, by rw [eq, eq']; exact .mk blank (.scalar scalar) valid.2⟩
    | none =>
      have filled : buf ≠ [] := by
        rintro rfl
        cases valid
      rw [validate_collection filled skipped, judged_success] at valid
      cases start : skipSpace buf with
      | nil =>
        rw [start] at valid
        cases valid.1
      | cons c s =>
        have explains := skipCollection_explains (c := c) s
        rw [← start] at explains
        generalize skipCollection (skipSpace buf) = result at valid explains
        obtain ⟨ret, rest⟩ := result
        obtain ⟨rfl, blank'⟩ := valid
        obtain ⟨t, value, eq', collection⟩ := explains
        rw [eq, eq']
        exact ⟨value, .mk blank (.collection collection) blank'⟩
  · rintro ⟨value, blank, found, blank'⟩
    rename_i before item behind
    cases found with
    | scalar scalar =>
      have start : skipSpace (before ++ (item ++ behind)) = item ++ behind := by
        rw [skipSpace_blank blank, solid_skipSpace (scalar_solid scalar _)]
      have follows : Follows .behind behind := by
        simpa using follows_blank blank' (s := []) (by simp [Follows])
      rw [validate_scalar (by rw [start, skipAnyScalar_scalar scalar follows]), judged_success]
      exact ⟨rfl, blank'⟩
    | collection collection =>
      have skipped := collection_skipped le_rfl collection behind
      obtain ⟨content, closed⟩ := collection
      rw [List.cons_append] at skipped ⊢
      rw [validate_opening blank, skipped, judged_success]
      exact ⟨rfl, blank'⟩

theorem exceeds_iff_tooDeep (buf : List UInt8) :
    JSON_Validate buf = .JSONMaxDepthExceeded ↔
      ∃ gap text, Blank gap ∧ buf = gap ++ text ∧ TooDeep JSON_MAX_DEPTH text := by
  constructor
  · intro reported
    obtain ⟨gap, blank, eq⟩ := skipSpace_skips buf
    refine ⟨gap, skipSpace buf, blank, eq, ?_⟩
    cases skipped : skipAnyScalar (skipSpace buf) with
    | some rest =>
      rw [validate_scalar skipped, judged_other (by decide) (by decide)] at reported
      cases reported
    | none =>
      have filled : buf ≠ [] := by
        rintro rfl
        cases reported
      rw [validate_collection filled skipped, judged_other (by decide) (by decide)] at reported
      cases start : skipSpace buf with
      | nil =>
        rw [start] at reported
        cases reported
      | cons c s =>
        have explains := skipCollection_explains (c := c) s
        rw [start] at reported
        generalize skipCollection (c :: s) = result at reported explains
        obtain ⟨ret, rest⟩ := result
        obtain rfl : ret = .JSONMaxDepthExceeded := reported
        exact explains
  · rintro ⟨gap, text, blank, rfl, deep⟩
    have exceeded := tooDeep_exceeds deep
    obtain ⟨_, _, _, _, _, _, _, _, _, unclosed, _, rfl⟩ := deep
    obtain ⟨mode, rest, rfl⟩ := unclosed.opens
    rw [List.cons_append] at exceeded ⊢
    rw [validate_opening blank, judged_other (by decide) (by decide)]
    exact exceeded

/-- JSON_Validate accepts the documents of the dialect and nothing else, and finds a text too deep
    exactly when, all in order up to there, it opens one collection more inside so many. -/
theorem validate_decides (buf : List UInt8) :
    (JSON_Validate buf = .JSONSuccess ↔ ∃ value, Document coreJSON JSON_MAX_DEPTH buf value) ∧
      (JSON_Validate buf = .JSONMaxDepthExceeded ↔
        ∃ gap text, Blank gap ∧ buf = gap ++ text ∧ TooDeep JSON_MAX_DEPTH text) :=
  ⟨success_iff_document buf, exceeds_iff_tooDeep buf⟩

theorem document_of_completable {gap text : List UInt8} (blank : Blank gap)
    (completable : Completable JSON_MAX_DEPTH text) :
    ∃ closers : List Mode, closers ≠ [] ∧
      ∃ value, Document coreJSON JSON_MAX_DEPTH ((gap ++ text) ++ closers.map Mode.closing) value := by
  obtain ⟨room, stack, phase, unclosed, closed, depth⟩ := completable
  obtain ⟨value, collection⟩ := unclosed.complete closed
  rw [depth] at collection
  refine ⟨stack, ?_, value, ?_⟩
  · rintro rfl
    cases unclosed
  · have document := Document.mk blank (.collection collection) blank_nil
    rwa [List.append_nil, ← List.append_assoc] at document

theorem completable_of_document {buf : List UInt8} {closers : List Mode} (some : closers ≠ [])
    {value : Json} (document : Document coreJSON JSON_MAX_DEPTH (buf ++ closers.map Mode.closing) value) :
    ∃ gap text, Blank gap ∧ buf = gap ++ text ∧ Completable JSON_MAX_DEPTH text := by
  generalize eq : buf ++ closers.map Mode.closing = whole at document
  obtain ⟨blank, found, blank'⟩ := document
  rename_i before item behind
  have ends : ∃ others closer, closers.map Mode.closing = others ++ [Mode.closing closer] := by
    obtain ⟨others, closer, rfl⟩ := (List.eq_nil_or_concat closers).resolve_left some
    exact ⟨_, closer, by rw [List.concat_eq_append, List.map_append]; rfl⟩
  obtain ⟨others, closer, last⟩ := ends
  have eq' : (buf ++ others) ++ [closer.closing] = (before ++ item) ++ behind := by
    rw [List.append_assoc, ← last, eq, List.append_assoc]
  obtain rfl := blank'.absent eq'
  rw [List.append_nil] at eq eq'
  cases found with
  | scalar scalar =>
    obtain ⟨head, b, rfl, other⟩ := scalar.ends
    rw [← List.append_assoc] at eq'
    exact absurd (last_inj eq').2.symm (other closer)
  | collection collection =>
    rcases List.append_eq_append_iff.1 eq with ⟨more, rfl, shared⟩ | ⟨text, rfl, rfl⟩
    · -- the collection would begin with a closing bracket
      obtain ⟨content, closed⟩ := collection
      rename_i mode _ _ _
      have member : mode.opening ∈ closers.map Mode.closing := by rw [shared]; simp
      obtain ⟨other, _, same⟩ := List.mem_map.1 member
      exact absurd same (closing_ne_opening other mode)
    · exact ⟨before, text, blank, rfl, collection.closings some⟩

theorem completable_opens {text : List UInt8} (completable : Completable JSON_MAX_DEPTH text) :
    ∃ mode rest, text = Mode.opening mode :: rest := by
  obtain ⟨_, _, _, unclosed, _, _⟩ := completable
  exact unclosed.opens

/-- A text is reported as partial exactly when closing brackets alone make a document of it, or
    when it is blank. -/
theorem partial_iff_completed (buf : List UInt8) :
    JSON_Validate buf = .JSONPartial ↔ buf ≠ [] ∧ (Blank buf ∨ ∃ closers : List Mode,
      closers ≠ [] ∧ JSON_Validate (buf ++ closers.map Mode.closing) = .JSONSuccess) := by
  simp only [success_iff_document]
  constructor
  · intro reported
    have filled : buf ≠ [] := by
      rintro rfl
      cases reported
    refine ⟨filled, ?_⟩
    obtain ⟨gap, blank, eq⟩ := skipSpace_skips buf
    cases skipped : skipAnyScalar (skipSpace buf) with
    | some rest =>
      rw [validate_scalar skipped, judged_other (by decide) (by decide)] at reported
      cases reported
    | none =>
      rw [validate_collection filled skipped, judged_other (by decide) (by decide)] at reported
      cases start : skipSpace buf with
      | nil => exact Or.inl ((skipSpace_nil_iff buf).1 start)
      | cons c s =>
        have explains := skipCollection_explains (c := c) s
        rw [← start] at explains
        generalize skipCollection (skipSpace buf) = result at reported explains
        obtain ⟨ret, rest⟩ := result
        obtain rfl : ret = .JSONPartial := reported
        rw [eq]
        exact Or.inr (document_of_completable blank explains)
  · rintro ⟨filled, blank | ⟨closers, some, value, document⟩⟩
    · have start := (skipSpace_nil_iff buf).2 blank
      rw [validate_collection filled (by rw [start]; rfl), start]
      rfl
    · obtain ⟨gap, text, blank, rfl, completable⟩ := completable_of_document some document
      have reported := completable_partial completable
      obtain ⟨mode, rest, rfl⟩ := completable_opens completable
      rw [validate_opening blank, judged_other (by decide) (by decide)]
      exact reported

end SpmJsonGuarantees
