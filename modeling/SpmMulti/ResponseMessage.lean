import SpmMulti.ResponseParser

/- A message is what the bytes of a response say by themselves, read one by one, without places
   and segments. Every callback keeps the parsing context and the response buffer in agreement
   with the message of the bytes up to there, though it is only told of a part of a header or of
   the body, and though it moves the body's bytes up in the buffer that the parser reads from. -/
namespace SpmResponseMessage
open SpmMachine SpmHttp SpmCoreHttp SpmResponseParser SpanScanner OverlaidMemory

structure Message where
  state : HTTPParsingState
  statusCode : BitVec 16
  /-- The header that is not complete yet. -/
  field : Option (List UInt8)
  value : Option (List UInt8)
  headers : List Header
  contentLength : Option U32
  respFlags : U32
  body : Option (List UInt8)
  /-- How many bytes were read, how many of them up to the last span's end, and how many in front
      of the first field. -/
  seen : Nat
  last : Nat
  first : Option Nat
  /-- Between which two places the end of the headers lies. -/
  headersEnd : Option (Nat × Nat)

def Message.blank : Message where
  state := .HTTP_PARSING_NONE
  statusCode := 0
  field := none
  value := none
  headers := []
  contentLength := none
  respFlags := 0
  body := none
  seen := 0
  last := 0
  first := none
  headersEnd := none

def Message.complete (m : Message) : Message :=
  match m.field, m.value with
  | some field, some value =>
    { m with
      headers := m.headers ++ [{ field := field, value := value, statusCode := m.statusCode }]
      field := none
      value := none }
  | _, _ => m

/-- A header's value stands in one span, behind that of its field: a value that is folded over
    lines would be told in two, which the callbacks take for neighbours. -/
def Message.begun (m : Message) : SpanKind → Option Message
  | .status status_code =>
    if m.field = none ∧ m.value = none then
      some { m with statusCode := status_code, last := m.seen }
    else none
  | .header_field =>
    if m.complete.field = none ∧ m.complete.value = none then
      some { m.complete with
        field := some []
        last := m.seen
        first := some (m.first.getD m.seen) }
    else none
  | .header_value =>
    if m.field.isSome ∧ m.value = none then some { m with value := some [], last := m.seen }
    else none
  | .body =>
    if m.field = none ∧ m.value = none then
      some { m with body := some (m.body.getD []), last := m.seen }
    else none

def Message.byte (span : Option SpanKind) (b : UInt8) (m : Message) : Message :=
  match span with
  | none => { m with seen := m.seen + 1 }
  | some kind =>
    let m := { m with seen := m.seen + 1, last := m.seen + 1 }
    match kind with
    | .status _ => m
    | .header_field => { m with field := m.field.map (· ++ [b]) }
    | .header_value => { m with value := m.value.map (· ++ [b]) }
    | .body => { m with body := m.body.map (· ++ [b]) }

def flagsOf (flags : BitVec 16) (respFlags : U32) : U32 :=
  let respFlags :=
    if flags &&& F_CONNECTION_CLOSE ≠ 0 then respFlags ||| HTTP_RESPONSE_CONNECTION_CLOSE_FLAG
    else respFlags
  if flags &&& F_CONNECTION_KEEP_ALIVE ≠ 0 then
    respFlags ||| HTTP_RESPONSE_CONNECTION_KEEP_ALIVE_FLAG
  else respFlags

def Message.event (m : Message) : Event → Option Message
  | .message_begin => some { m with state := .HTTP_PARSING_INCOMPLETE }
  | .headers_complete content_length flags =>
    if m.body = none then
      some { m.complete with
        headersEnd := m.first.map fun _ => (m.last, m.seen)
        contentLength :=
          some (if content_length ≠ UINT64_MAX then content_length.setWidth 32 else 0)
        respFlags := flagsOf flags m.respFlags }
    else none
  | .message_complete => some { m with state := .HTTP_PARSING_COMPLETE }

def messages : Accounting Message SpanKind Event where
  opened kind m := m.begun kind
  byte := Message.byte
  event event m := m.event event

/-- The token that a pointer and a length describe lies in text, between floor and p. -/
def Holds (text : List UInt8) (floor p : Nat) (loc : Option Nat) (length : Nat)
    (token : Option (List UInt8)) : Prop :=
  match loc, token with
  | none, none => True
  | some loc, some bytes =>
    length = bytes.length ∧ floor ≤ loc ∧ loc + length ≤ p ∧ bytesAt text loc length = bytes
  | _, _ => False

def bodyEnd (response : HTTPResponse) : Nat :=
  match response.body with
  | none => 0
  | some body => body + response.bodyLen

/-- No byte of the body was put there. -/
def Apart (response : HTTPResponse) (i : Nat) : Prop :=
  ∀ body, response.body = some body → i < body ∨ body + response.bodyLen ≤ i

def Agrees (c : HTTPParsingContext) (m : Message) : Prop :=
  c.state = m.state ∧ c.response.statusCode = m.statusCode ∧
    c.response.headerCount = m.headers.length ∧
    c.onHeaderCallback = (if c.response.headerParsingCallback then m.headers else []) ∧
    (∀ length, m.contentLength = some length → c.response.contentLength = length) ∧
    c.response.respFlags = m.respFlags ∧ c.response.headers = m.first

/-- What does not change while a response is received. -/
structure Frame where
  bufferLen : Nat
  isHeadResponse : Bool

structure Outside (frame : Frame) (text : List UInt8) (p : Nat) (c : HTTPParsingContext)
    (m : Message) : Prop where
  framed : c.response.buffer.length = frame.bufferLen ∧ c.isHeadResponse = frame.isHeadResponse ∧
    c.attached = true
  seen : m.seen = p
  inText : p ≤ text.length
  agrees : Agrees c m
  current : m.last ≤ c.bufferCur ∧ c.bufferCur ≤ p
  first : ∀ first, m.first = some first → first ≤ m.last
  field : Holds text (bodyEnd c.response) p c.lastHeaderField c.lastHeaderFieldLen m.field
  value : Holds text (bodyEnd c.response) p c.lastHeaderValue c.lastHeaderValueLen m.value
  fits : text.length ≤ frame.bufferLen
  intact : ∀ i, i < text.length → Apart c.response i → c.response.buffer[i]? = text[i]?
  body : Holds c.response.buffer 0 p c.response.body c.response.bodyLen m.body
  headersEnd : ∀ least most, m.headersEnd = some (least, most) → ∃ headers,
    m.first = some headers ∧ headers ≤ least ∧ least ≤ headers + c.response.headersLen ∧
      headers + c.response.headersLen ≤ most ∧ most ≤ p ∧
      ∀ body, c.response.body = some body → most ≤ body

/-- In an open span that has been told up to p. -/
def Inside (frame : Frame) (kind : SpanKind) (text : List UInt8) (p : Nat) (c : HTTPParsingContext)
    (m : Message) : Prop :=
  Outside frame text p c m ∧ m.last = p ∧
    match kind with
    | .status status_code => m.statusCode = status_code ∧ m.field = none ∧ m.value = none
    | .header_field => m.first.isSome ∧ m.value = none ∧
      ∃ loc, c.lastHeaderField = some loc ∧ loc + c.lastHeaderFieldLen = p
    | .header_value => ∃ loc, c.lastHeaderValue = some loc ∧ loc + c.lastHeaderValueLen = p
    | .body => m.field = none ∧ m.value = none ∧ m.body.isSome

def following (frame : Frame) : Relation SpanKind HTTPParsingContext Message :=
  ⟨Outside frame, Inside frame⟩

section Tokens
variable {text buffer : List UInt8} {floor p loc length : Nat}

theorem Holds.none_iff {at_ : Option Nat} {token : Option (List UInt8)}
    (holds : Holds text floor p at_ length token) : at_ = none ↔ token = none := by
  cases at_ <;> cases token <;> simp_all [Holds]

theorem Holds.mono {at_ : Option Nat} {token : Option (List UInt8)} {q : Nat}
    (holds : Holds text floor p at_ length token) (later : p ≤ q) :
    Holds text floor q at_ length token := by
  cases at_ <;> cases token
  · trivial
  · exact holds
  · exact holds
  · exact ⟨holds.1, holds.2.1, by have := holds.2.2.1; omega, holds.2.2.2⟩

theorem bytesAt_length (fits : loc + length ≤ text.length) :
    (bytesAt text loc length).length = length := by
  simp only [bytesAt, List.length_take, List.length_drop]
  omega

theorem bytesAt_add (text : List UInt8) (loc m n : Nat) :
    bytesAt text loc (m + n) = bytesAt text loc m ++ bytesAt text (loc + m) n := by
  simp [bytesAt, List.take_add, List.drop_drop]

theorem bytesAt_congr (same : ∀ i, loc ≤ i → i < loc + length → buffer[i]? = text[i]?) :
    bytesAt buffer loc length = bytesAt text loc length := by
  apply List.ext_getElem?
  intro i
  simp only [bytesAt, List.getElem?_take, List.getElem?_drop]
  split
  · exact same (loc + i) (by omega) (by omega)
  · rfl

theorem Holds.congr {at_ : Option Nat} {token : Option (List UInt8)}
    (holds : Holds text floor p at_ length token)
    (same : ∀ i, i < p → buffer[i]? = text[i]?) : Holds buffer floor p at_ length token := by
  cases at_ with
  | none => cases token <;> exact holds
  | some loc =>
    cases token with
    | none => exact holds
    | some bytes =>
      obtain ⟨counted, above, below, is⟩ := holds
      refine ⟨counted, above, below, (bytesAt_congr ?_).trans is⟩
      intro i _ inside
      exact same i (by omega)

/-- A token that begins at p, or one that was told up to there and goes on. -/
theorem Holds.goOn {at_ : Option Nat} {token : Option (List UInt8)} {n : Nat}
    (holds : Holds text floor p at_ length token) (above : floor ≤ p)
    (goesOn : ∀ loc, at_ = some loc → loc + length = p) (inText : p + n ≤ text.length) :
    Holds text floor (p + n) (some (at_.getD p)) (if at_.isSome then length + n else n)
      (some (token.getD [] ++ bytesAt text p n)) := by
  cases at_ with
  | none =>
    obtain rfl := holds.none_iff.mp rfl
    exact ⟨(bytesAt_length inText).symm, above, Nat.le_refl _, rfl⟩
  | some loc =>
    cases token with
    | none => exact holds.elim
    | some bytes =>
      obtain ⟨counted, above, _, same⟩ := holds
      have told := goesOn loc rfl
      refine ⟨?_, above, ?_, ?_⟩
      · simp [bytesAt_length inText, counted]
      · simp only [Option.getD_some, Option.isSome_some, if_true]
        omega
      · simp [bytesAt_add, same, told]

end Tokens

/-- The bytes of a span at once. -/
def Message.grow (kind : SpanKind) (bytes : List UInt8) (m : Message) : Message :=
  let m := { m with seen := m.seen + bytes.length, last := m.seen + bytes.length }
  match kind with
  | .status _ => m
  | .header_field => { m with field := m.field.map (· ++ bytes) }
  | .header_value => { m with value := m.value.map (· ++ bytes) }
  | .body => { m with body := m.body.map (· ++ bytes) }

theorem grown_eq (kind : SpanKind) (bytes : List UInt8) :
    ∀ m : Message, m.last = m.seen → grown messages kind m bytes = m.grow kind bytes := by
  induction bytes with
  | nil =>
    intro m level
    cases m
    cases kind <;> simp_all [grown, Message.grow]
  | cons b bytes ih =>
    intro m level
    have next : (m.byte (some kind) b).last = (m.byte (some kind) b).seen := by
      cases kind <;> rfl
    have rest := ih (m.byte (some kind) b) next
    unfold grown at rest ⊢
    rw [List.foldl_cons]
    refine rest.trans ?_
    cases m
    cases kind <;>
      simp [Message.grow, Message.byte, Nat.add_assoc, Nat.add_comm 1, Function.comp_def]

section Callbacks
variable {frame : Frame} {text : List UInt8} {p n : Nat} {c : HTTPParsingContext} {m : Message}

/-- Behind the body the buffer holds what was received. -/
theorem Outside.read {loc length : Nat} (kept : Outside frame text p c m)
    (behind : bodyEnd c.response ≤ loc) (inText : loc + length ≤ text.length) :
    bytesAt c.response.buffer loc length = bytesAt text loc length := by
  apply bytesAt_congr
  intro i above below
  apply kept.intact i (by omega)
  intro body some_
  right
  simp only [bodyEnd, some_] at behind
  omega

theorem complete_seen (m : Message) : m.complete.seen = m.seen := by
  unfold Message.complete
  split <;> rfl

theorem complete_first (m : Message) : m.complete.first = m.first := by
  unfold Message.complete
  split <;> rfl

theorem complete_pending (pending : m.field = none ∨ m.value = none) : m.complete = m := by
  unfold Message.complete
  split
  · simp_all
  · rfl

theorem processCompleteHeader_pending
    (pending : c.lastHeaderField = none ∨ c.lastHeaderValue = none) :
    processCompleteHeader c = c := by
  unfold processCompleteHeader
  split
  · simp_all
  · rfl

theorem processCompleteHeader_keeps (kept : Outside frame text p c m) :
    Outside frame text p (processCompleteHeader c) m.complete := by
  have field := kept.field
  have value := kept.value
  cases fieldAt : c.lastHeaderField with
  | none =>
    rw [processCompleteHeader_pending (Or.inl fieldAt),
      complete_pending (Or.inl (field.none_iff.mp fieldAt))]
    exact kept
  | some fieldLoc =>
    cases valueAt : c.lastHeaderValue with
    | none =>
      rw [processCompleteHeader_pending (Or.inr valueAt),
        complete_pending (Or.inr (value.none_iff.mp valueAt))]
      exact kept
    | some valueLoc =>
      cases fieldIs : m.field with
      | none => rw [fieldAt, fieldIs] at field; exact field.elim
      | some name =>
        cases valueIs : m.value with
        | none => rw [valueAt, valueIs] at value; exact value.elim
        | some content =>
          rw [fieldAt, fieldIs] at field
          rw [valueAt, valueIs] at value
          obtain ⟨_, fieldAbove, fieldBelow, fieldBytes⟩ := field
          obtain ⟨_, valueAbove, valueBelow, valueBytes⟩ := value
          have inText := kept.inText
          have nameRead := (kept.read fieldAbove (by omega)).trans fieldBytes
          have contentRead := (kept.read valueAbove (by omega)).trans valueBytes
          obtain ⟨state, status, count, calls, length, flags, first⟩ := kept.agrees
          simp only [processCompleteHeader, Message.complete, fieldAt, valueAt, fieldIs, valueIs]
          exact {
            framed := kept.framed
            seen := kept.seen
            inText := kept.inText
            agrees := by
              refine ⟨state, status, by simp [count], ?_, length, flags, first⟩
              simp only [nameRead, contentRead, status]
              split
              · rename_i called
                rw [calls, if_pos called]
              · rename_i uncalled
                rw [calls, if_neg uncalled]
            current := kept.current
            first := kept.first
            field := trivial
            value := trivial
            fits := kept.fits
            intact := kept.intact
            body := kept.body
            headersEnd := kept.headersEnd }
theorem Outside.last_le (kept : Outside frame text p c m) : m.last ≤ p :=
  kept.current.1.trans kept.current.2

theorem Outside.bodyEnd_le (kept : Outside frame text p c m) : bodyEnd c.response ≤ p := by
  have body := kept.body
  unfold bodyEnd
  cases at_ : c.response.body with
  | none => exact Nat.zero_le p
  | some loc =>
    cases is : m.body with
    | none => rw [at_, is] at body; exact body.elim
    | some bytes => rw [at_, is] at body; exact body.2.2.1

theorem Outside.headersEnd_later (kept : Outside frame text p c m) (n : Nat) :
    ∀ least most, m.headersEnd = some (least, most) → ∃ headers, m.first = some headers ∧
      headers ≤ least ∧ least ≤ headers + c.response.headersLen ∧
      headers + c.response.headersLen ≤ most ∧ most ≤ p + n ∧
      ∀ body, c.response.body = some body → most ≤ body := by
  intro least most ended
  obtain ⟨headers, first, above, least_, most_, read, apart⟩ := kept.headersEnd least most ended
  exact ⟨headers, first, above, least_, most_, by omega, apart⟩

theorem status_told (kept : Outside frame text p c m) (status_code : BitVec 16)
    (pending : m.field = none ∧ m.value = none) (inText : p + n ≤ text.length) :
    Inside frame (.status status_code) text (p + n) (httpParserOnStatusCallback status_code c p n).2
      { m with statusCode := status_code, seen := p + n, last := p + n } := by
  obtain ⟨state, _, count, calls, length, flags, first⟩ := kept.agrees
  refine ⟨?_, rfl, rfl, pending⟩
  exact {
    framed := kept.framed
    seen := rfl
    inText := inText
    agrees := ⟨state, rfl, count, calls, length, flags, first⟩
    current := ⟨Nat.le_refl _, Nat.le_refl _⟩
    first := fun at_ some_ => by
      have := kept.first at_ some_
      have := kept.last_le
      simp only
      omega
    field := by simp [httpParserOnStatusCallback, pending.1, Holds]
    value := by simp [httpParserOnStatusCallback, pending.2, Holds]
    fits := kept.fits
    intact := kept.intact
    body := kept.body.mono (Nat.le_add_right p n)
    headersEnd := kept.headersEnd_later n }

theorem fieldCallback_eq (c : HTTPParsingContext) (loc n : Nat) :
    (httpParserOnHeaderFieldCallback c loc n).2 =
      { processCompleteHeader c with
        response := { (processCompleteHeader c).response with
          headers := some (c.response.headers.getD loc) }
        bufferCur := loc + n
        lastHeaderField := some ((processCompleteHeader c).lastHeaderField.getD loc)
        lastHeaderFieldLen :=
          if (processCompleteHeader c).lastHeaderField.isSome then
            (processCompleteHeader c).lastHeaderFieldLen + n
          else n } := by
  cases field : c.lastHeaderField <;> cases value : c.lastHeaderValue <;>
    simp [httpParserOnHeaderFieldCallback, processCompleteHeader, field, value]

/-- A part of a field, the first one or one that goes on with it. -/
theorem field_told (kept : Outside frame text p (processCompleteHeader c) m) (noValue : m.value = none)
    (goesOn : ∀ loc, (processCompleteHeader c).lastHeaderField = some loc →
      loc + (processCompleteHeader c).lastHeaderFieldLen = p)
    (inText : p + n ≤ text.length) :
    Inside frame .header_field text (p + n) (httpParserOnHeaderFieldCallback c p n).2
      { m with
        field := some (m.field.getD [] ++ bytesAt text p n)
        first := some (m.first.getD p)
        seen := p + n
        last := p + n } := by
  have headers : c.response.headers = (processCompleteHeader c).response.headers := by
    unfold processCompleteHeader
    split <;> rfl
  rw [fieldCallback_eq, headers]
  generalize processCompleteHeader c = c at kept goesOn
  obtain ⟨state, status, count, calls, length, flags, first⟩ := kept.agrees
  have lastLe := kept.last_le
  refine ⟨?_, rfl, by simp, noValue, _, rfl, ?_⟩
  · exact {
      framed := kept.framed
      seen := rfl
      inText := inText
      agrees := ⟨state, status, count, calls, length, flags, by simp [first]⟩
      current := ⟨Nat.le_refl _, Nat.le_refl _⟩
      first := by
        intro at_ some_
        cases before : m.first with
        | none =>
          simp only [before, Option.getD_none, Option.some.injEq] at some_ ⊢
          omega
        | some first =>
          have := kept.first first before
          simp only [before, Option.getD_some, Option.some.injEq] at some_ ⊢
          omega
      field := kept.field.goOn kept.bodyEnd_le goesOn inText
      value := kept.value.mono (Nat.le_add_right p n)
      fits := kept.fits
      intact := kept.intact
      body := kept.body.mono (Nat.le_add_right p n)
      headersEnd := by
        intro least most ended
        obtain ⟨at_, some_, rest⟩ := kept.headersEnd_later n least most ended
        exact ⟨at_, by simp [some_], rest⟩ }
  · cases at_ : c.lastHeaderField with
    | none => simp
    | some loc =>
      have := goesOn loc at_
      simp only [Option.getD_some, Option.isSome_some, if_true]
      omega

theorem valueCallback_eq (c : HTTPParsingContext) (loc n : Nat) :
    (httpParserOnHeaderValueCallback c loc n).2 =
      { c with
        bufferCur := loc + n
        lastHeaderValue := some (c.lastHeaderValue.getD loc)
        lastHeaderValueLen :=
          if c.lastHeaderValue.isSome then c.lastHeaderValueLen + n else n } := by
  cases value : c.lastHeaderValue <;> simp [httpParserOnHeaderValueCallback, value]

theorem value_told (kept : Outside frame text p c m)
    (goesOn : ∀ loc, c.lastHeaderValue = some loc → loc + c.lastHeaderValueLen = p)
    (inText : p + n ≤ text.length) :
    Inside frame .header_value text (p + n) (httpParserOnHeaderValueCallback c p n).2
      { m with
        value := some (m.value.getD [] ++ bytesAt text p n)
        seen := p + n
        last := p + n } := by
  rw [valueCallback_eq]
  refine ⟨?_, rfl, _, rfl, ?_⟩
  · exact {
      framed := kept.framed
      seen := rfl
      inText := inText
      agrees := kept.agrees
      current := ⟨Nat.le_refl _, Nat.le_refl _⟩
      first := fun at_ some_ => by
        have := kept.first at_ some_
        have := kept.last_le
        simp only
        omega
      field := kept.field.mono (Nat.le_add_right p n)
      value := kept.value.goOn kept.bodyEnd_le goesOn inText
      fits := kept.fits
      intact := kept.intact
      body := kept.body.mono (Nat.le_add_right p n)
      headersEnd := kept.headersEnd_later n }
  · cases at_ : c.lastHeaderValue with
    | none => simp
    | some loc =>
      have := goesOn loc at_
      simp only [Option.getD_some, Option.isSome_some, if_true]
      omega

/-- Where the next bytes of the body go. -/
def nextWriteLoc (response : HTTPResponse) (p : Nat) : Nat :=
  if response.body.isSome then bodyEnd response else p

theorem bodyCallback_eq (c : HTTPParsingContext) (loc n : Nat) :
    (httpParserOnBodyCallback c loc n).2 =
      { c with
        response := { c.response with
          buffer :=
            if loc > nextWriteLoc c.response loc then
              overlay c.response.buffer (nextWriteLoc c.response loc)
                (bytesAt c.response.buffer loc n)
            else c.response.buffer
          body := some (c.response.body.getD loc)
          bodyLen := (if c.response.body.isSome then c.response.bodyLen else 0) + n }
        bufferCur := loc + n } := by
  cases body : c.response.body <;>
    simp [httpParserOnBodyCallback, nextWriteLoc, bodyEnd, body]

theorem nextWriteLoc_le (kept : Outside frame text p c m) : nextWriteLoc c.response p ≤ p := by
  unfold nextWriteLoc
  split
  · exact kept.bodyEnd_le
  · exact Nat.le_refl p

theorem nextWriteLoc_eq (response : HTTPResponse) (p : Nat) :
    nextWriteLoc response p =
      response.body.getD p + if response.body.isSome then response.bodyLen else 0 := by
  cases body : response.body <;> simp [nextWriteLoc, bodyEnd, body]

theorem body_room (kept : Outside frame text p c m) (inText : p + n ≤ text.length) :
    nextWriteLoc c.response p + (bytesAt c.response.buffer p n).length ≤
      c.response.buffer.length := by
  have := nextWriteLoc_le kept
  have := kept.fits
  have := kept.framed.1
  rw [bytesAt_length (by omega)]
  omega

/-- The bytes of a part of the body stand behind the body so far, wherever they were received;
    no other byte of the buffer changes. -/
theorem body_moved (kept : Outside frame text p c m) (inText : p + n ≤ text.length) (i : Nat) :
    (httpParserOnBodyCallback c p n).2.response.buffer[i]? =
      if nextWriteLoc c.response p ≤ i ∧ i < nextWriteLoc c.response p + n then
        text[p + (i - nextWriteLoc c.response p)]?
      else c.response.buffer[i]? := by
  have behind := nextWriteLoc_le kept
  have room := body_room kept inText
  have received : bytesAt c.response.buffer p n = bytesAt text p n :=
    kept.read kept.bodyEnd_le inText
  rw [bodyCallback_eq]
  simp only
  split
  · rw [overlay_getElem? room, received, bytesAt_length inText]
    split
    · simp only [bytesAt]
      rw [List.getElem?_take_of_lt (by omega), List.getElem?_drop]
    · rfl
  · split
    · have same : nextWriteLoc c.response p = p := by omega
      rw [same, kept.intact i (by omega), Nat.add_sub_cancel' (by omega)]
      intro body some_
      have := kept.bodyEnd_le
      simp only [bodyEnd, some_] at this
      omega
    · rfl

theorem body_length (kept : Outside frame text p c m) (inText : p + n ≤ text.length) :
    (httpParserOnBodyCallback c p n).2.response.buffer.length =
      c.response.buffer.length := by
  rw [bodyCallback_eq]
  simp only
  split
  · exact overlay_length (body_room kept inText)
  · rfl

theorem body_stored (kept : Outside frame text p c m) (inText : p + n ≤ text.length) :
    Holds (httpParserOnBodyCallback c p n).2.response.buffer 0 (p + n)
      (httpParserOnBodyCallback c p n).2.response.body
      (httpParserOnBodyCallback c p n).2.response.bodyLen
      (some (m.body.getD [] ++ bytesAt text p n)) := by
  have moved := body_moved kept inText
  have behind := nextWriteLoc_le kept
  have place := nextWriteLoc_eq c.response p
  have written : bytesAt (httpParserOnBodyCallback c p n).2.response.buffer
      (nextWriteLoc c.response p) n = bytesAt text p n := by
    apply List.ext_getElem?
    intro i
    simp only [bytesAt, List.getElem?_take, List.getElem?_drop]
    split
    · rw [moved, if_pos (by omega), Nat.add_sub_cancel_left]
    · rfl
  have body := kept.body
  rw [bodyCallback_eq] at moved written ⊢
  generalize (if p > nextWriteLoc c.response p then
    overlay c.response.buffer (nextWriteLoc c.response p) (bytesAt c.response.buffer p n)
    else c.response.buffer) = buffer at moved written
  cases at_ : c.response.body with
  | none =>
    obtain none_ := body.none_iff.mp at_
    simp only [at_, Option.getD_none, Option.isSome_none, Bool.false_eq_true, if_false,
      Nat.add_zero] at place
    rw [place] at written
    simp only [none_, Option.getD_none, Option.isSome_none, Bool.false_eq_true, if_false,
      List.nil_append, Nat.zero_add]
    exact ⟨(bytesAt_length inText).symm, Nat.zero_le _, Nat.le_refl _, written⟩
  | some loc =>
    cases is : m.body with
    | none => rw [at_, is] at body; exact body.elim
    | some bytes =>
      rw [at_, is] at body
      obtain ⟨counted, _, below, same⟩ := body
      simp only [at_, Option.getD_some, Option.isSome_some, if_true] at place ⊢
      have before : bytesAt buffer loc c.response.bodyLen = bytes := by
        refine Eq.trans (bytesAt_congr ?_) same
        intro i _ inside
        rw [moved, if_neg (by omega)]
      refine ⟨?_, Nat.zero_le _, by omega, ?_⟩
      · rw [List.length_append, bytesAt_length inText, counted]
      · rw [bytesAt_add, before, ← place, written]

theorem body_intact (kept : Outside frame text p c m) (inText : p + n ≤ text.length) :
    ∀ i, i < text.length → Apart (httpParserOnBodyCallback c p n).2.response i →
      (httpParserOnBodyCallback c p n).2.response.buffer[i]? = text[i]? := by
  intro i inside apart
  have place := nextWriteLoc_eq c.response p
  have away : i < c.response.body.getD p ∨ nextWriteLoc c.response p + n ≤ i := by
    rw [bodyCallback_eq] at apart
    have := apart _ rfl
    simp only at this
    omega
  rw [body_moved kept inText, if_neg (by omega)]
  apply kept.intact i inside
  intro body some_
  simp only [some_, Option.getD_some, Option.isSome_some, if_true] at place away
  omega

theorem body_told (kept : Outside frame text p c m) (pending : m.field = none ∧ m.value = none)
    (inText : p + n ≤ text.length) :
    Inside frame .body text (p + n) (httpParserOnBodyCallback c p n).2
      { m with
        body := some (m.body.getD [] ++ bytesAt text p n)
        seen := p + n
        last := p + n } := by
  have noField := kept.field.none_iff.mpr pending.1
  have noValue := kept.value.none_iff.mpr pending.2
  refine ⟨?_, rfl, pending.1, pending.2, rfl⟩
  exact {
    framed := by
      refine ⟨(body_length kept inText).trans kept.framed.1, ?_⟩
      rw [bodyCallback_eq]
      exact kept.framed.2
    seen := rfl
    inText := inText
    agrees := by
      rw [bodyCallback_eq]
      exact kept.agrees
    current := by
      rw [bodyCallback_eq]
      exact ⟨Nat.le_refl _, Nat.le_refl _⟩
    first := fun at_ some_ => by
      have := kept.first at_ some_
      have := kept.last_le
      simp only
      omega
    field := by simp [bodyCallback_eq, noField, pending.1, Holds]
    value := by simp [bodyCallback_eq, noValue, pending.2, Holds]
    fits := kept.fits
    intact := body_intact kept inText
    body := body_stored kept inText
    headersEnd := by
      intro least most ended
      obtain ⟨headers, some_, above, least_, most_, read, apart⟩ :=
        kept.headersEnd_later n least most ended
      rw [bodyCallback_eq]
      refine ⟨headers, some_, above, least_, most_, read, ?_⟩
      intro body is
      cases at_ : c.response.body with
      | none =>
        obtain ⟨_, _, _, _, _, before, _⟩ := kept.headersEnd least most ended
        simp only [at_, Option.getD_none, Option.some.injEq] at is
        omega
      | some loc =>
        have := apart loc at_
        simp only [at_, Option.getD_some, Option.some.injEq] at is
        omega }

theorem Outside.ahead (kept : Outside frame text p c m) :
    ∀ i (h : i < text.length), p ≤ i → llhttpSettings.byteAt c i = text[i] := by
  intro i inside behind
  have same : c.response.buffer[i]? = text[i]? := by
    apply kept.intact i inside
    intro body some_
    have := kept.bodyEnd_le
    simp only [bodyEnd, some_] at this
    omega
  rw [List.getElem?_eq_getElem inside] at same
  simp [llhttpSettings, List.getD_eq_getElem?_getD, same]

/-- What a part of a span makes of the message, from the place where the part begins. -/
theorem Message.grow_at (kind : SpanKind) (level : m.last = m.seen) (seen : m.seen = p)
    (inText : p + n ≤ text.length) :
    grown messages kind m (bytesAt text p n) =
      (match kind with
      | .status _ => { m with seen := p + n, last := p + n }
      | .header_field =>
        { m with field := m.field.map (· ++ bytesAt text p n), seen := p + n, last := p + n }
      | .header_value =>
        { m with value := m.value.map (· ++ bytesAt text p n), seen := p + n, last := p + n }
      | .body =>
        { m with body := m.body.map (· ++ bytesAt text p n), seen := p + n, last := p + n }) := by
  rw [grown_eq kind _ m level]
  cases kind <;> simp [Message.grow, bytesAt_length inText, seen]

theorem status_part {status_code : BitVec 16}
    (opened : Opened messages (following frame) (.status status_code) text p c m)
    (inText : p + n ≤ text.length) :
    Inside frame (.status status_code) text (p + n) (httpParserOnStatusCallback status_code c p n).2
      (grown messages (.status status_code) m (bytesAt text p n)) := by
  rcases opened with ⟨before, kept, begun⟩ | ⟨kept, level, status, pending⟩
  · simp only [messages, Message.begun] at begun
    split at begun
    · rename_i pending
      have is := Option.some.inj begun
      have level : m.last = m.seen := by rw [← is]
      have seen : m.seen = p := by rw [← is]; exact kept.seen
      rw [Message.grow_at _ level seen inText, ← is]
      exact status_told kept status_code pending inText
    · contradiction
  · rw [Message.grow_at _ (level.trans kept.seen.symm) kept.seen inText]
    have told := status_told kept status_code pending inText
    rwa [← status] at told ⊢

theorem field_part (opened : Opened messages (following frame) .header_field text p c m)
    (inText : p + n ≤ text.length) :
    Inside frame .header_field text (p + n) (httpParserOnHeaderFieldCallback c p n).2
      (grown messages .header_field m (bytesAt text p n)) := by
  rcases opened with ⟨before, kept, begun⟩ | ⟨kept, level, first, noValue, loc, at_, told⟩
  · simp only [messages, Message.begun] at begun
    split at begun
    · rename_i pending
      have is := Option.some.inj begun
      have level : m.last = m.seen := by rw [← is, complete_seen]
      have start : before.seen = p := kept.seen
      have seen : m.seen = p := by rw [← is, ← start, complete_seen]
      have kept := processCompleteHeader_keeps kept
      have fresh := kept.field.none_iff.mpr pending.1
      have told := field_told kept pending.2 (by simp [fresh]) inText
      rw [Message.grow_at _ level seen inText, ← is]
      simpa only [pending.1, Option.getD_none, complete_first, start, Option.map_some] using told
    · contradiction
  · rw [Message.grow_at _ (level.trans kept.seen.symm) kept.seen inText]
    have same := processCompleteHeader_pending (Or.inr (kept.value.none_iff.mpr noValue))
    have field := kept.field
    cases is : m.field with
    | none => rw [at_, is] at field; exact field.elim
    | some bytes =>
      obtain ⟨headers, first_⟩ := Option.isSome_iff_exists.mp first
      have begun : some (m.first.getD p) = m.first := by simp [first_]
      have told := field_told (same.symm ▸ kept) noValue (by simp [same, at_, told]) inText
      simpa only [is, Option.getD_some, Option.map_some, begun] using told

theorem value_part (opened : Opened messages (following frame) .header_value text p c m)
    (inText : p + n ≤ text.length) :
    Inside frame .header_value text (p + n) (httpParserOnHeaderValueCallback c p n).2
      (grown messages .header_value m (bytesAt text p n)) := by
  rcases opened with ⟨before, kept, begun⟩ | ⟨kept, level, loc, at_, told⟩
  · simp only [messages, Message.begun] at begun
    split at begun
    · rename_i pending
      have is := Option.some.inj begun
      have level : m.last = m.seen := by rw [← is]
      have seen : m.seen = p := by rw [← is]; exact kept.seen
      have fresh := kept.value.none_iff.mpr pending.2
      have told := value_told kept (by simp [fresh]) inText
      rw [Message.grow_at _ level seen inText, ← is]
      simpa only [pending.2, Option.getD_none, Option.map_some] using told
    · contradiction
  · rw [Message.grow_at _ (level.trans kept.seen.symm) kept.seen inText]
    have value := kept.value
    cases is : m.value with
    | none => rw [at_, is] at value; exact value.elim
    | some bytes =>
      have told := value_told kept (by simp [at_, told]) inText
      simpa only [is, Option.getD_some, Option.map_some] using told

theorem body_part (opened : Opened messages (following frame) .body text p c m)
    (inText : p + n ≤ text.length) :
    Inside frame .body text (p + n) (httpParserOnBodyCallback c p n).2
      (grown messages .body m (bytesAt text p n)) := by
  rcases opened with ⟨before, kept, begun⟩ | ⟨kept, level, noField, noValue, some_⟩
  · simp only [messages, Message.begun] at begun
    split at begun
    · rename_i pending
      have is := Option.some.inj begun
      have level : m.last = m.seen := by rw [← is]
      have seen : m.seen = p := by rw [← is]; exact kept.seen
      have told := body_told kept pending inText
      rw [Message.grow_at _ level seen inText, ← is]
      simpa only [Option.map_some] using told
    · contradiction
  · rw [Message.grow_at _ (level.trans kept.seen.symm) kept.seen inText]
    obtain ⟨bytes, is⟩ := Option.isSome_iff_exists.mp some_
    have told := body_told kept ⟨noField, noValue⟩ inText
    simpa only [is, Option.getD_some, Option.map_some] using told

theorem Outside.passed (kept : Outside frame text p c m) (inText : p < text.length) :
    Outside frame text (p + 1) c { m with seen := m.seen + 1 } where
  framed := kept.framed
  seen := by simp only [kept.seen]
  inText := inText
  agrees := kept.agrees
  current := ⟨kept.current.1, Nat.le_succ_of_le kept.current.2⟩
  first := kept.first
  field := kept.field.mono (Nat.le_succ p)
  value := kept.value.mono (Nat.le_succ p)
  fits := kept.fits
  intact := kept.intact
  body := kept.body.mono (Nat.le_succ p)
  headersEnd := kept.headersEnd_later 1

theorem Outside.state_changed (kept : Outside frame text p c m) (state : HTTPParsingState) :
    Outside frame text p { c with state := state } { m with state := state } where
  framed := kept.framed
  seen := kept.seen
  inText := kept.inText
  agrees := ⟨rfl, kept.agrees.2⟩
  current := kept.current
  first := kept.first
  field := kept.field
  value := kept.value
  fits := kept.fits
  intact := kept.intact
  body := kept.body
  headersEnd := kept.headersEnd

/-- The length of the headers, as far as the parser has come. -/
def headersLenAt (c : HTTPParsingContext) : Nat :=
  match c.response.headers with
  | some headers => c.bufferCur - headers
  | none => 0

theorem headersEnd_recorded (kept : Outside frame text p c m) (noBody : m.body = none) :
    ∀ least most, (m.first.map fun _ => (m.last, m.seen)) = some (least, most) → ∃ headers,
      m.first = some headers ∧ headers ≤ least ∧ least ≤ headers + headersLenAt c ∧
        headers + headersLenAt c ≤ most ∧ most ≤ p ∧
        ∀ body, c.response.body = some body → most ≤ body := by
  intro least most ended
  cases some_ : m.first with
  | none => simp [some_] at ended
  | some headers =>
    obtain ⟨rfl, rfl⟩ : m.last = least ∧ m.seen = most := by simpa [some_] using ended
    have above := kept.first headers some_
    have current := kept.current
    have seen := kept.seen
    have noBodyAt := kept.body.none_iff.mpr noBody
    have length : headersLenAt c = c.bufferCur - headers := by
      simp [headersLenAt, kept.agrees.2.2.2.2.2.2, some_]
    rw [length]
    exact ⟨headers, rfl, above, by omega, by omega, by omega, by simp [noBodyAt]⟩

theorem headers_completed (kept : Outside frame text p c m) (noBody : m.body = none)
    (content_length : BitVec 64) (flags : BitVec 16) :
    Outside frame text p (httpParserOnHeadersCompleteCallback content_length flags c).2
      { m.complete with
        headersEnd := m.first.map fun _ => (m.last, m.seen)
        contentLength :=
          some (if content_length ≠ UINT64_MAX then content_length.setWidth 32 else 0)
        respFlags := flagsOf flags m.respFlags } := by
  obtain ⟨state, status, count, calls, _, respFlags, first⟩ := kept.agrees
  have recorded : Outside frame text p
      { c with response := { c.response with
          headersLen := headersLenAt c
          contentLength := if content_length ≠ UINT64_MAX then content_length.setWidth 32 else 0
          respFlags := flagsOf flags c.response.respFlags } }
      { m with
        headersEnd := m.first.map fun _ => (m.last, m.seen)
        contentLength :=
          some (if content_length ≠ UINT64_MAX then content_length.setWidth 32 else 0)
        respFlags := flagsOf flags m.respFlags } :=
    { framed := kept.framed
      seen := kept.seen
      inText := kept.inText
      agrees := ⟨state, status, count, calls, fun _ => Option.some.inj, by simp [respFlags], first⟩
      current := kept.current
      first := kept.first
      field := kept.field
      value := kept.value
      fits := kept.fits
      intact := kept.intact
      body := kept.body
      headersEnd := headersEnd_recorded kept noBody }
  have completed := processCompleteHeader_keeps recorded
  cases field : m.field <;> cases value : m.value <;>
    simp only [Message.complete, field, value] at completed ⊢ <;> exact completed

theorem settings_keep : Keeps llhttpSettings messages (following frame) where
  ahead := Outside.ahead
  aheadInside inside := inside.1.ahead
  closed inside := inside.1
  told := by
    intro kind text loc c m n opened inText
    cases kind with
    | status status_code => exact ⟨rfl, status_part opened inText⟩
    | header_field => exact ⟨rfl, field_part opened inText⟩
    | header_value => exact ⟨rfl, value_part opened inText⟩
    | body => exact ⟨rfl, body_part opened inText⟩
  passed := by
    intro text p c m inText kept
    exact kept.passed inText
  event := by
    intro event text p c m next kept took
    cases event with
    | message_begin =>
      cases took
      exact kept.state_changed _
    | message_complete =>
      cases took
      exact kept.state_changed _
    | headers_complete content_length flags =>
      simp only [messages, Message.event] at took
      split at took
      · rename_i noBody
        rw [← Option.some.inj took]
        exact headers_completed kept noBody content_length flags
      · contradiction

end Callbacks

end SpmResponseMessage
