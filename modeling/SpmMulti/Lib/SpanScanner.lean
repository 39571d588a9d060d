import Mathlib.Data.List.Basic

/- Scanners that are given a text in segments and report through callbacks. A machine reads one
   byte after the other and says where the spans of the text begin and end; of a span that the
   end of a segment cuts, the part read so far is reported there and the rest with the segments
   that follow. The callbacks' context is compared with an account of the bytes alone, which
   knows of no segments: one relation that each callback keeps holds after every segment. -/
namespace SpanScanner

inductive Action (Kind Event : Type) where
  | opens (kind : Kind)
  | closes
  | call (event : Event)
  | fail (code : Nat)

/-- What a byte leads to: the actions in front of it, the next state, the actions behind it. -/
structure Machine (State Kind Event : Type) where
  start : State
  step : State → UInt8 → List (Action Kind Event) × State × List (Action Kind Event)

/-- A part of a span is told by its place; the code that comes back stops the scan unless 0. -/
structure Callbacks (Context Kind Event : Type) where
  byteAt : Context → Nat → UInt8
  span : Kind → Context → Nat → Nat → Nat × Context
  event : Event → Context → Context

structure Scan (State Kind Context : Type) where
  current : State
  error : Nat
  span : Option (Kind × Nat)
  context : Context

section Scanning
variable {State Kind Event Context : Type}
variable (machine : Machine State Kind Event) (callbacks : Callbacks Context Kind Event)

/-- The span's part from loc up to p is reported. -/
def report (scan : Scan State Kind Context) (kind : Kind) (loc p : Nat) :
    Scan State Kind Context :=
  let (code, context) := callbacks.span kind scan.context loc (p - loc)
  { scan with error := code, context := context }

def perform (p : Nat) (scan : Scan State Kind Context) :
    Action Kind Event → Scan State Kind Context
  | .opens kind => { scan with span := some (kind, p) }
  | .closes =>
    match scan.span with
    | none => scan
    | some (kind, loc) => report callbacks { scan with span := none } kind loc p
  | .call event => { scan with context := callbacks.event event scan.context }
  | .fail code => { scan with error := code }

def performAll (p : Nat) (scan : Scan State Kind Context) :
    List (Action Kind Event) → Scan State Kind Context
  | [] => scan
  | action :: actions =>
    if scan.error = 0 then performAll p (perform callbacks p scan action) actions else scan

def readByte (p : Nat) (scan : Scan State Kind Context) : Scan State Kind Context :=
  let (before, next, behind) := machine.step scan.current (callbacks.byteAt scan.context p)
  let scan := performAll callbacks p scan before
  if scan.error = 0 then performAll callbacks (p + 1) { scan with current := next } behind
  else scan

def run (p : Nat) (scan : Scan State Kind Context) : Nat → Scan State Kind Context
  | 0 => scan
  | n + 1 =>
    if scan.error = 0 then run (p + 1) (readByte machine callbacks p scan) n else scan

/-- A span that is still open goes on with the segment, and its part is reported at the end. -/
def execute (scan : Scan State Kind Context) (p length : Nat) : Scan State Kind Context :=
  if scan.error = 0 then
    let scan := { scan with span := scan.span.map fun open_ => (open_.1, p) }
    let scan := run machine callbacks p scan length
    if scan.error = 0 then
      match scan.span with
      | none => scan
      | some (kind, loc) => report callbacks scan kind loc (p + length)
    else scan
  else scan

end Scanning

/-- What the bytes say by themselves; none where an account does not foresee the action. -/
structure Accounting (Account Kind Event : Type) where
  opened : Kind → Account → Option Account
  byte : Option Kind → UInt8 → Account → Account
  event : Event → Account → Option Account

inductive Reading (State Kind Account : Type) where
  | astray
  | failed (code : Nat)
  | going (current : State) (span : Option Kind) (account : Account)

section Reading
variable {State Kind Event Account : Type}
variable (machine : Machine State Kind Event) (accounting : Accounting Account Kind Event)

def noteOption (current : State) (span : Option Kind) : Option Account →
    Reading State Kind Account
  | none => .astray
  | some account => .going current span account

def note : Reading State Kind Account → Action Kind Event → Reading State Kind Account
  | .going current none account, .opens kind =>
    noteOption current (some kind) (accounting.opened kind account)
  | .going current (some _) account, .closes => .going current none account
  | .going current none account, .call event =>
    noteOption current none (accounting.event event account)
  | .going current span account, .fail code =>
    if code = 0 then .going current span account else .failed code
  | .going _ _ _, _ => .astray
  | reading, _ => reading

def readOn : Reading State Kind Account → UInt8 → Reading State Kind Account
  | .going current span account, b =>
    let (before, next, behind) := machine.step current b
    match before.foldl (note accounting) (.going current span account) with
    | .going _ span account =>
      behind.foldl (note accounting) (.going next span (accounting.byte span b account))
    | ended => ended
  | reading, _ => reading

def reading (account : Account) (text : List UInt8) : Reading State Kind Account :=
  text.foldl (readOn machine accounting) (.going machine.start none account)

end Reading

section Following
variable {State Kind Event Context Account : Type}
variable (machine : Machine State Kind Event) (callbacks : Callbacks Context Kind Event)
variable (accounting : Accounting Account Kind Event)

def grown (kind : Kind) (account : Account) (bytes : List UInt8) : Account :=
  bytes.foldl (fun account b => accounting.byte (some kind) b account) account

/-- At p of the text: what a context knows outside of spans, and inside of a span of which it
    has been told everything up to p. -/
structure Relation (Kind Context Account : Type) where
  outside : List UInt8 → Nat → Context → Account → Prop
  inside : Kind → List UInt8 → Nat → Context → Account → Prop

variable (relation : Relation Kind Context Account)

/-- At the start of a part of a span: the span begins here, or it was told up to here. -/
def Opened (kind : Kind) (text : List UInt8) (loc : Nat) (context : Context)
    (account : Account) : Prop :=
  (∃ before, relation.outside text loc context before ∧
    accounting.opened kind before = some account) ∨
  relation.inside kind text loc context account

/-- The callbacks keep the relation to the account. -/
structure Keeps : Prop where
  ahead : ∀ {text p context account}, relation.outside text p context account →
    ∀ i (h : i < text.length), p ≤ i → callbacks.byteAt context i = text[i]
  aheadInside : ∀ {kind text p context account}, relation.inside kind text p context account →
    ∀ i (h : i < text.length), p ≤ i → callbacks.byteAt context i = text[i]
  told : ∀ {kind text loc context account n}, Opened accounting relation kind text loc context
    account → loc + n ≤ text.length → (callbacks.span kind context loc n).1 = 0 ∧
      relation.inside kind text (loc + n) (callbacks.span kind context loc n).2
        (grown accounting kind account ((text.drop loc).take n))
  closed : ∀ {kind text p context account}, relation.inside kind text p context account →
    relation.outside text p context account
  event : ∀ {event text p context account next}, relation.outside text p context account →
    accounting.event event account = some next →
    relation.outside text p (callbacks.event event context) next
  passed : ∀ {text p context account} (h : p < text.length),
    relation.outside text p context account →
    relation.outside text (p + 1) context (accounting.byte none text[p] account)

/-- In the middle of a segment: of an open span nothing was told since loc. -/
def Tracks (text : List UInt8) (p : Nat) (scan : Scan State Kind Context) :
    Reading State Kind Account → Prop
  | .astray => True
  | .failed code => scan.error = code ∧ code ≠ 0
  | .going current none account => scan.error = 0 ∧ scan.current = current ∧ scan.span = none ∧
    relation.outside text p scan.context account
  | .going current (some kind) account => scan.error = 0 ∧ scan.current = current ∧
    ∃ loc before, scan.span = some (kind, loc) ∧ loc ≤ p ∧
      Opened accounting relation kind text loc scan.context before ∧
      account = grown accounting kind before ((text.drop loc).take (p - loc))

/-- Between two segments: an open span was told up to p. -/
def Settled (text : List UInt8) (p : Nat) (scan : Scan State Kind Context) :
    Reading State Kind Account → Prop
  | .astray => True
  | .failed code => scan.error = code ∧ code ≠ 0
  | .going current none account => scan.error = 0 ∧ scan.current = current ∧ scan.span = none ∧
    relation.outside text p scan.context account
  | .going current (some kind) account => scan.error = 0 ∧ scan.current = current ∧
    (∃ loc, scan.span = some (kind, loc)) ∧ relation.inside kind text p scan.context account

variable {machine callbacks accounting relation}
variable {text : List UInt8} {p : Nat} {scan : Scan State Kind Context}

theorem Opened.ahead (keeps : Keeps callbacks accounting relation) {kind : Kind} {loc : Nat}
    {context : Context} {account : Account}
    (opened : Opened accounting relation kind text loc context account) :
    ∀ i (h : i < text.length), loc ≤ i → callbacks.byteAt context i = text[i] := by
  cases opened with
  | inl fresh =>
    obtain ⟨before, related, _⟩ := fresh
    exact keeps.ahead related
  | inr told => exact keeps.aheadInside told

theorem perform_tracks (keeps : Keeps callbacks accounting relation) (inText : p ≤ text.length)
    {current : State} {span : Option Kind} {account : Account}
    (tracks : Tracks accounting relation text p scan (.going current span account))
    (action : Action Kind Event) :
    Tracks accounting relation text p (perform callbacks p scan action)
      (note accounting (.going current span account) action) := by
  cases action with
  | opens kind =>
    cases span with
    | some other => trivial
    | none =>
      obtain ⟨fine, at_, closed, related⟩ := tracks
      cases began : accounting.opened kind account with
      | none => simp [note, began, noteOption, Tracks]
      | some next =>
        simp only [note, began, noteOption, Tracks, perform]
        exact ⟨fine, at_, p, next, rfl, Nat.le_refl p, Or.inl ⟨account, related, began⟩,
          by simp [grown]⟩
  | closes =>
    cases span with
    | none => trivial
    | some kind =>
      obtain ⟨fine, at_, loc, before, opened, behind, related, rfl⟩ := tracks
      have told := @Keeps.told _ _ _ _ _ _ _ keeps _ _ _ _ _ (p - loc) related (by omega)
      rw [Nat.add_sub_cancel' behind] at told
      simp only [note, Tracks, perform, opened, report]
      exact ⟨told.1, at_, trivial, keeps.closed told.2⟩
  | call event =>
    cases span with
    | some kind => trivial
    | none =>
      obtain ⟨fine, at_, closed, related⟩ := tracks
      cases took : accounting.event event account with
      | none => simp [note, took, noteOption, Tracks]
      | some next =>
        simp only [note, took, noteOption, Tracks, perform]
        exact ⟨fine, at_, closed, keeps.event related took⟩
  | fail code =>
    by_cases zero : code = 0
    · cases span <;> simpa [note, zero, perform, Tracks] using tracks.2
    · cases span <;> simp [note, zero, perform, Tracks]

theorem Tracks.unfailed {r : Reading State Kind Account} (zero : scan.error = 0)
    (tracks : Tracks accounting relation text p scan r) :
    r = .astray ∨ ∃ current span account, r = .going current span account := by
  cases r with
  | astray => exact Or.inl rfl
  | failed code => exact absurd (tracks.1.symm.trans zero) tracks.2
  | going current span account => exact Or.inr ⟨current, span, account, rfl⟩

theorem foldl_astray (actions : List (Action Kind Event)) :
    actions.foldl (note accounting) (.astray : Reading State Kind Account) = .astray := by
  induction actions with
  | nil => rfl
  | cons action actions ih => exact ih

theorem foldl_failed (code : Nat) (actions : List (Action Kind Event)) :
    actions.foldl (note accounting) (.failed code : Reading State Kind Account) =
      .failed code := by
  induction actions with
  | nil => rfl
  | cons action actions ih => exact ih

theorem performAll_tracks (keeps : Keeps callbacks accounting relation)
    (inText : p ≤ text.length) {r : Reading State Kind Account}
    (tracks : Tracks accounting relation text p scan r) (actions : List (Action Kind Event)) :
    Tracks accounting relation text p (performAll callbacks p scan actions)
      (actions.foldl (note accounting) r) := by
  induction actions generalizing scan r with
  | nil => exact tracks
  | cons action actions ih =>
    unfold performAll
    split
    · rename_i zero
      rcases tracks.unfailed zero with rfl | ⟨current, span, account, rfl⟩
      · rw [foldl_astray]
        trivial
      · exact ih (perform_tracks keeps inText tracks action)
    · rename_i stopped
      cases r with
      | astray =>
        rw [foldl_astray]
        trivial
      | failed code =>
        rw [foldl_failed]
        exact tracks
      | going current span account => cases span <;> exact absurd tracks.1 stopped

theorem Tracks.going_on {current next : State} {span : Option Kind} {account : Account}
    (keeps : Keeps callbacks accounting relation) (inText : p < text.length)
    (tracks : Tracks accounting relation text p scan (.going current span account)) :
    Tracks accounting relation text (p + 1) { scan with current := next }
      (.going next span (accounting.byte span text[p] account)) := by
  cases span with
  | none =>
    obtain ⟨fine, _, closed, related⟩ := tracks
    exact ⟨fine, rfl, closed, keeps.passed inText related⟩
  | some kind =>
    obtain ⟨fine, _, loc, before, opened, behind, related, rfl⟩ := tracks
    refine ⟨fine, rfl, loc, before, opened, by omega, related, ?_⟩
    have more : p + 1 - loc = p - loc + 1 := by omega
    have byte : (text.drop loc)[p - loc]? = some text[p] := by
      rw [List.getElem?_drop, Nat.add_sub_cancel' behind, List.getElem?_eq_getElem inText]
    rw [more, List.take_add_one, byte]
    simp [grown, List.foldl_append]

variable (machine) in
theorem readByte_tracks (keeps : Keeps callbacks accounting relation)
    (inText : p < text.length) (zero : scan.error = 0) {r : Reading State Kind Account}
    (tracks : Tracks accounting relation text p scan r) :
    Tracks accounting relation text (p + 1) (readByte machine callbacks p scan)
      (readOn machine accounting r text[p]) := by
  rcases tracks.unfailed zero with rfl | ⟨current, span, account, rfl⟩
  · trivial
  · have byte : callbacks.byteAt scan.context p = text[p] := by
      cases span with
      | none => exact keeps.ahead tracks.2.2.2 p inText (Nat.le_refl p)
      | some kind =>
        obtain ⟨_, _, loc, before, _, behind, related, _⟩ := tracks
        exact related.ahead keeps p inText behind
    have at_ : scan.current = current := by
      cases span <;> exact tracks.2.1
    have front := performAll_tracks keeps (Nat.le_of_lt inText) tracks
      (machine.step current text[p]).1
    unfold readByte readOn
    simp only [byte, at_]
    generalize performAll callbacks p scan (machine.step current text[p]).1 = scan at front
    cases noted : (machine.step current text[p]).1.foldl (note accounting)
        (.going current span account) with
    | astray => trivial
    | failed code =>
      rw [noted] at front
      have stopped : ¬ scan.error = 0 := front.1 ▸ front.2
      rw [if_neg stopped]
      exact front
    | going last span account =>
      rw [noted] at front
      have fine : scan.error = 0 := by cases span <;> exact front.1
      rw [if_pos fine]
      exact performAll_tracks keeps inText (front.going_on keeps inText) _

theorem foldl_readOn_astray (bytes : List UInt8) :
    bytes.foldl (readOn machine accounting) .astray = .astray := by
  induction bytes with
  | nil => rfl
  | cons b bytes ih => exact ih

theorem foldl_readOn_failed (code : Nat) (bytes : List UInt8) :
    bytes.foldl (readOn machine accounting) (.failed code) = .failed code := by
  induction bytes with
  | nil => rfl
  | cons b bytes ih => exact ih

theorem foldl_stopped {r : Reading State Kind Account}
    (stopped : ∀ current span account, r ≠ .going current span account) (bytes : List UInt8) :
    bytes.foldl (readOn machine accounting) r = r := by
  cases r with
  | going current span account => exact absurd rfl (stopped current span account)
  | astray => exact foldl_readOn_astray bytes
  | failed code => exact foldl_readOn_failed code bytes

theorem Tracks.stopped {r : Reading State Kind Account} (failed : scan.error ≠ 0)
    (tracks : Tracks accounting relation text p scan r) :
    ∀ current span account, r ≠ .going current span account := by
  rintro current span account rfl
  cases span <;> exact failed tracks.1

theorem Tracks.anywhere {r : Reading State Kind Account} (failed : scan.error ≠ 0)
    (tracks : Tracks accounting relation text p scan r) (q : Nat) :
    Tracks accounting relation text q scan r := by
  cases r with
  | going current span account => exact absurd rfl (tracks.stopped failed current span account)
  | _ => exact tracks

variable (machine) in
theorem run_tracks (keeps : Keeps callbacks accounting relation) {n : Nat}
    (inText : p + n ≤ text.length) {r : Reading State Kind Account}
    (tracks : Tracks accounting relation text p scan r) :
    Tracks accounting relation text (p + n) (run machine callbacks p scan n)
      (((text.drop p).take n).foldl (readOn machine accounting) r) := by
  induction n generalizing p scan r with
  | zero => exact tracks
  | succ n ih =>
    have here : p < text.length := by omega
    unfold run
    split
    · rename_i zero
      rw [List.drop_eq_getElem_cons here, List.take_succ_cons, List.foldl_cons]
      have next := ih (by omega) (readByte_tracks machine keeps here zero tracks)
      rwa [Nat.add_right_comm, Nat.add_assoc] at next
    · rename_i failed
      rw [foldl_stopped (tracks.stopped failed)]
      exact tracks.anywhere failed _

theorem Settled.tracks {r : Reading State Kind Account}
    (settled : Settled relation text p scan r) :
    Tracks accounting relation text p
      { scan with span := scan.span.map fun open_ => (open_.1, p) } r := by
  cases r with
  | astray => trivial
  | failed code => exact settled
  | going current span account =>
    cases span with
    | none =>
      obtain ⟨fine, at_, closed, related⟩ := settled
      exact ⟨fine, at_, by simp [closed], related⟩
    | some kind =>
      obtain ⟨fine, at_, ⟨loc, opened⟩, related⟩ := settled
      exact ⟨fine, at_, p, account, by simp [opened], Nat.le_refl p, Or.inr related,
        by simp [grown]⟩

theorem execute_failed (failed : scan.error ≠ 0) (n : Nat) :
    execute machine callbacks scan p n = scan :=
  if_neg failed

variable (machine) in
/-- A segment of the text is scanned: whatever it cuts, the callbacks' context agrees with the
    account of the bytes up to its end. -/
theorem execute_settles (keeps : Keeps callbacks accounting relation) {n : Nat}
    (inText : p + n ≤ text.length) {r : Reading State Kind Account}
    (settled : Settled relation text p scan r) :
    Settled relation text (p + n) (execute machine callbacks scan p n)
      (((text.drop p).take n).foldl (readOn machine accounting) r) := by
  unfold execute
  split
  · have tracks := run_tracks machine keeps inText settled.tracks
    generalize ((text.drop p).take n).foldl (readOn machine accounting) r = r at tracks
    simp only
    generalize run machine callbacks p _ n = scan at tracks
    split
    · rename_i zero
      rcases tracks.unfailed zero with rfl | ⟨current, span, account, rfl⟩
      · trivial
      · cases span with
        | none =>
          obtain ⟨fine, at_, closed, related⟩ := tracks
          simp only [closed]
          exact ⟨fine, at_, closed, related⟩
        | some kind =>
          obtain ⟨fine, at_, loc, before, opened, behind, related, rfl⟩ := tracks
          have told := @Keeps.told _ _ _ _ _ _ _ keeps _ _ _ _ _ (p + n - loc) related (by omega)
          rw [Nat.add_sub_cancel' behind] at told
          simp only [opened, report]
          exact ⟨told.1, at_, ⟨loc, rfl⟩, told.2⟩
    · rename_i failed
      cases r with
      | going current span account =>
        exact absurd rfl (tracks.stopped failed current span account)
      | _ => exact tracks
  · rename_i failed
    cases r with
    | astray =>
      rw [foldl_readOn_astray]
      trivial
    | failed code =>
      rw [foldl_readOn_failed]
      exact settled
    | going current span account => cases span <;> exact absurd settled.1 failed

end Following

end SpanScanner
