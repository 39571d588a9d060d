import SpmMulti.ResponseMessage

/- What a response that arrives in any segments amounts to: the message of the bytes received, as
   long as the parser finds no fault with them, and the status that follows from it. -/
namespace SpmResponseGuarantees
open SpmMachine SpmHttp SpmResponseParser SpmResponseMessage SpanScanner
open SpmCoreHttp hiding receiveLoop receiveAndParseHttpResponse
open OverlaidMemory

section Segments
variable {State : Type} {frame : Frame} {text : List UInt8} {c : HTTPParsingContext} {m : Message}
variable {kind : SpanKind}

/-- What arrives is put behind everything that the context points to. -/
theorem Outside.stored (kept : Outside frame text text.length c m) {bytes : List UInt8}
    (room : text.length + bytes.length ≤ frame.bufferLen) :
    Outside frame (text ++ bytes) text.length
      { c with response := { c.response with
          buffer := overlay c.response.buffer text.length bytes } } m := by
  have fits : text.length + bytes.length ≤ c.response.buffer.length := by
    rw [kept.framed.1]
    exact room
  have stored := overlay_getElem? fits
  have extended : ∀ i, i < text.length → (text ++ bytes)[i]? = text[i]? :=
    fun i inside => List.getElem?_append_left inside
  exact {
    framed := ⟨(overlay_length fits).trans kept.framed.1, kept.framed.2⟩
    seen := kept.seen
    inText := by simp
    agrees := kept.agrees
    current := kept.current
    first := kept.first
    field := kept.field.congr extended
    value := kept.value.congr extended
    fits := by
      rw [List.length_append]
      exact room
    intact := by
      intro i inside apart
      rw [List.length_append] at inside
      simp only [stored]
      split
      · rw [List.getElem?_append_right (by omega)]
      · rw [extended i (by omega)]
        exact kept.intact i (by omega) apart
    body := by
      apply kept.body.congr
      intro i inside
      simp only [stored]
      rw [if_neg (by omega)]
    headersEnd := kept.headersEnd }

theorem Inside.stored (kept : Inside frame kind text text.length c m) {bytes : List UInt8}
    (room : text.length + bytes.length ≤ frame.bufferLen) :
    Inside frame kind (text ++ bytes) text.length
      { c with response := { c.response with
          buffer := overlay c.response.buffer text.length bytes } } m := by
  refine ⟨Outside.stored kept.1 room, kept.2.1, ?_⟩
  cases kind <;> exact kept.2.2

theorem Outside.located (kept : Outside frame text text.length c m) :
    Outside frame text text.length { c with bufferCur := text.length } m where
  framed := kept.framed
  seen := kept.seen
  inText := kept.inText
  agrees := kept.agrees
  current := ⟨kept.last_le, Nat.le_refl _⟩
  first := kept.first
  field := kept.field
  value := kept.value
  fits := kept.fits
  intact := kept.intact
  body := kept.body
  headersEnd := kept.headersEnd

theorem Inside.located (kept : Inside frame kind text text.length c m) :
    Inside frame kind text text.length { c with bufferCur := text.length } m := by
  refine ⟨Outside.located kept.1, kept.2.1, ?_⟩
  cases kind <;> exact kept.2.2

variable {scan : Parsing State} {r : Reading State SpanKind Message}

theorem Settled.stored (settled : Settled (following frame) text text.length scan r)
    {bytes : List UInt8} (room : text.length + bytes.length ≤ frame.bufferLen) :
    Settled (following frame) (text ++ bytes) text.length (store scan text.length bytes) r := by
  cases r with
  | astray => trivial
  | failed code => exact settled
  | going current span m =>
    cases span with
    | none =>
      obtain ⟨fine, at_, closed, kept⟩ := settled
      exact ⟨fine, at_, closed, Outside.stored kept room⟩
    | some kind =>
      obtain ⟨fine, at_, opened, kept⟩ := settled
      exact ⟨fine, at_, opened, Inside.stored kept room⟩

theorem Settled.located (settled : Settled (following frame) text text.length scan r) :
    Settled (following frame) text text.length
      { scan with context := { scan.context with bufferCur := text.length } } r := by
  cases r with
  | astray => trivial
  | failed code => exact settled
  | going current span m =>
    cases span with
    | none =>
      obtain ⟨fine, at_, closed, kept⟩ := settled
      exact ⟨fine, at_, closed, Outside.located kept⟩
    | some kind =>
      obtain ⟨fine, at_, opened, kept⟩ := settled
      exact ⟨fine, at_, opened, Inside.located kept⟩

theorem Settled.outside {p : Nat} {current : State} {span : Option SpanKind}
    (settled : Settled (following frame) text p scan (.going current span m)) :
    Outside frame text p scan.context m := by
  cases span with
  | none => exact settled.2.2.2
  | some kind => exact settled.2.2.2.1

end Segments

section Receiving
variable {State : Type} (llhttp : Nat → Machine State SpanKind Event)
variable {frame : Frame} {text : List UInt8} {parsing : Parsing State}

/-- What the bytes of a response say to the parser. -/
def messageOf (isHeadResponse : Bool) (text : List UInt8) : Reading State SpanKind Message :=
  reading (llhttp (shouldContinueParse isHeadResponse)) messages Message.blank text

theorem messageOf_append (isHeadResponse : Bool) (text bytes : List UInt8) :
    messageOf llhttp isHeadResponse (text ++ bytes) =
      bytes.foldl (readOn (llhttp (shouldContinueParse isHeadResponse)) messages)
        (messageOf llhttp isHeadResponse text) :=
  List.foldl_append

/-- Between two segments, before the first one as well. -/
def Caught (frame : Frame) (text : List UInt8) (parsing : Parsing State)
    (r : Reading State SpanKind Message) : Prop :=
  Settled (following frame) text text.length { parsing with context := attach parsing.context } r ∧
    ∀ current span m, r = .going current span m →
      (attach parsing.context).bufferCur = text.length

theorem Caught.astray : Caught frame text parsing .astray :=
  ⟨trivial, by simp⟩

theorem Caught.failed {code : Nat} (failed : parsing.error = code ∧ code ≠ 0) :
    Caught frame text parsing (.failed code) :=
  ⟨failed, by simp⟩

theorem attach_store (total : Nat) (bytes : List UInt8) :
    { store parsing total bytes with context := attach (store parsing total bytes).context } =
      store { parsing with context := attach parsing.context } total bytes := by
  unfold attach store
  cases parsing.context.attached <;> rfl

theorem attach_attached {c : HTTPParsingContext} (attached : c.attached = true) :
    attach c = c := by
  simp [attach, attached]

theorem parse_caught {bytes : List UInt8}
    (caught : Caught frame text parsing (messageOf llhttp frame.isHeadResponse text))
    (room : text.length + bytes.length ≤ frame.bufferLen) :
    let parsed := (parseHttpResponse llhttp (store parsing text.length bytes) bytes.length).2
    let r := messageOf llhttp frame.isHeadResponse (text ++ bytes)
    Caught frame (text ++ bytes) parsed r ∧
      ∀ current span m, r = .going current span m → parsed.context.attached = true := by
  obtain ⟨settled, located⟩ := caught
  have stored := Settled.stored settled room
  have located : ∀ current span m, messageOf llhttp frame.isHeadResponse text =
      .going current span m →
        (store { parsing with context := attach parsing.context } text.length
          bytes).context.bufferCur = text.length := located
  have context : attach (store parsing text.length bytes).context =
      (store { parsing with context := attach parsing.context } text.length bytes).context := by
    rw [← attach_store]
  unfold parseHttpResponse
  simp only
  rw [attach_store, context, messageOf_append]
  generalize store { parsing with context := attach parsing.context } text.length bytes = start
    at stored located ⊢
  generalize messageOf llhttp frame.isHeadResponse text = r at stored located ⊢
  cases r with
  | astray =>
    rw [foldl_readOn_astray]
    exact ⟨Caught.astray, by simp⟩
  | failed code =>
    have failed : start.error ≠ 0 := by
      rw [stored.1]
      exact stored.2
    rw [foldl_readOn_failed, execute_failed failed]
    exact ⟨Caught.failed stored, by simp⟩
  | going current span m =>
    have at_ := located current span m rfl
    have head := (Settled.outside stored).framed.2.1
    have all : ((text ++ bytes).drop text.length).take bytes.length = bytes := by
      rw [List.drop_left, List.take_length]
    have inText : text.length + bytes.length ≤ (text ++ bytes).length := by simp
    have executed := execute_settles (llhttp (shouldContinueParse frame.isHeadResponse))
      settings_keep inText stored
    rw [all, ← List.length_append] at executed
    have settled := Settled.located executed
    rw [at_, head, ← List.length_append]
    generalize execute (llhttp (shouldContinueParse frame.isHeadResponse)) llhttpSettings start
      text.length bytes.length = scan at settled ⊢
    generalize bytes.foldl (readOn (llhttp (shouldContinueParse frame.isHeadResponse)) messages)
      (.going current span m) = r at settled ⊢
    cases r with
    | astray => exact ⟨Caught.astray, by simp⟩
    | failed code => exact ⟨Caught.failed settled, by simp⟩
    | going current span m =>
      have attached := (Settled.outside settled).framed.2.2
      refine ⟨⟨?_, fun _ _ _ _ => ?_⟩, fun _ _ _ _ => attached⟩
      · simp only
        rw [attach_attached attached]
        exact settled
      · rw [attach_attached attached]

/-- What a finished response tells its caller. The headers' length alone depends on how the
    response was cut: it reaches from the last value's end as far as its segment went, at most
    up to the end of the headers. -/
structure Shows (c : HTTPParsingContext) (text : List UInt8) (m : Message) : Prop where
  state : c.state = m.state
  statusCode : c.response.statusCode = m.statusCode
  headerCount : c.response.headerCount = m.headers.length
  onHeaderCallback : c.onHeaderCallback = if c.response.headerParsingCallback then m.headers else []
  contentLength : ∀ length, m.contentLength = some length → c.response.contentLength = length
  respFlags : c.response.respFlags = m.respFlags
  body : Holds c.response.buffer 0 text.length c.response.body c.response.bodyLen m.body
  headers : c.response.headers = m.first
  headersLen : ∀ least most, m.headersEnd = some (least, most) → ∃ headers,
    m.first = some headers ∧ least ≤ headers + c.response.headersLen ∧
      headers + c.response.headersLen ≤ most ∧
      bytesAt c.response.buffer headers c.response.headersLen =
        bytesAt text headers c.response.headersLen

theorem Outside.shows {frame : Frame} {text : List UInt8} {p : Nat} {c : HTTPParsingContext}
    {m : Message} (kept : Outside frame text p c m) : Shows c text m := by
  obtain ⟨state, status, count, calls, length, flags, first⟩ := kept.agrees
  refine ⟨state, status, count, calls, length, flags, kept.body.mono kept.inText, first, ?_⟩
  intro least most ended
  obtain ⟨headers, some_, _, least_, most_, read, apart⟩ := kept.headersEnd least most ended
  refine ⟨headers, some_, least_, most_, bytesAt_congr ?_⟩
  intro i _ below
  have inText := kept.inText
  apply kept.intact i (by omega)
  intro body is
  have := apart body is
  omega

/-- The bytes that the transport's recv gave in calls, which follow others. -/
def handedOver (transport : Transport) (before : List TransportCall) :
    List TransportCall → List UInt8
  | [] => []
  | .recv room ret :: calls =>
    (match transport.recv before room with
      | .failed _ => []
      | .chunk bytes => bytes.val) ++
      handedOver transport (before ++ [.recv room ret]) calls
  | call :: calls => handedOver transport (before ++ [call]) calls

/-- The last call is a recv that failed. -/
def Broken (calls : List TransportCall) : Prop :=
  ∃ room code, calls.getLast? = some (.recv room code) ∧ code < 0

/-- What the loop returns when received is everything that arrived; error is the parser's. -/
structure Tells (frame : Frame) (recvs : List TransportCall) (received : List UInt8)
    (status : HTTPStatus) (error : Nat) (c : HTTPParsingContext)
    (r : Reading State SpanKind Message) : Prop where
  fits : received.length ≤ frame.bufferLen
  broken : status = .HTTPNetworkError ↔ Broken recvs
  failed : ∀ code, r = .failed code → processLlhttpError code ≠ .HTTPSuccess →
    status = processLlhttpError code
  told : ∀ current span m, r = .going current span m → ¬ Broken recvs →
    status = getFinalResponseStatus m.state received.length frame.bufferLen ∧ Shows c received m
  code : ∀ code, r = .failed code → error = code
  fine : ∀ current span m, r = .going current span m → error = 0
  final : ¬ Broken recvs → status =
    if processLlhttpError error = .HTTPSuccess then
      getFinalResponseStatus c.state received.length frame.bufferLen
    else processLlhttpError error

theorem Broken.cons {call : TransportCall} {calls : List TransportCall} (some_ : calls ≠ []) :
    Broken (call :: calls) ↔ Broken calls := by
  unfold Broken
  rw [List.getLast?_cons_of_ne_nil some_]

theorem Tells.cons {received : List UInt8} {c : HTTPParsingContext}
    {r : Reading State SpanKind Message} {status : HTTPStatus} {error : Nat}
    {call : TransportCall} {calls : List TransportCall} (some_ : calls ≠ [])
    (tells : Tells frame calls received status error c r) :
    Tells frame (call :: calls) received status error c r where
  fits := tells.fits
  broken := tells.broken.trans (Broken.cons some_).symm
  failed := tells.failed
  told := by
    intro current span m going sound
    exact tells.told current span m going fun broken => sound ((Broken.cons some_).mpr broken)
  code := tells.code
  fine := tells.fine
  final := fun sound => tells.final fun broken => sound ((Broken.cons some_).mpr broken)

theorem processLlhttpError_other (code : Nat) : processLlhttpError code ≠ .HTTPNetworkError := by
  unfold processLlhttpError
  split <;> simp

theorem getFinalResponseStatus_other (state : HTTPParsingState) (total bufferLen : Nat) :
    getFinalResponseStatus state total bufferLen ≠ .HTTPNetworkError := by
  unfold getFinalResponseStatus
  cases state <;> simp
  split <;> simp

variable {r : Reading State SpanKind Message} {status : HTTPStatus}

theorem not_broken_chunk (calls : List TransportCall) {room received : Nat} :
    ¬ Broken (calls ++ [.recv room received]) := by
  rintro ⟨_, code, last, negative⟩
  rw [List.getLast?_concat] at last
  cases last
  omega

theorem Caught.error {code : Nat} (caught : Caught frame text parsing (.failed code)) :
    parsing.error = code :=
  caught.1.1

theorem Caught.fine {current : State} {span : Option SpanKind} {m : Message}
    (caught : Caught frame text parsing (.going current span m)) : parsing.error = 0 := by
  have settled := caught.1
  cases span <;> exact settled.1

/-- The loop ends behind a segment, without another one. -/
theorem Caught.ends (caught : Caught frame text parsing r) (fits : text.length ≤ frame.bufferLen)
    {recvs : List TransportCall} (sound : ¬ Broken recvs)
    (other : status ≠ .HTTPNetworkError)
    (failed : processLlhttpError parsing.error ≠ .HTTPSuccess →
      status = processLlhttpError parsing.error)
    (told : processLlhttpError parsing.error = .HTTPSuccess →
      status = getFinalResponseStatus parsing.context.state text.length frame.bufferLen)
    (attached : ∀ current span m, r = .going current span m → parsing.context.attached = true) :
    Tells frame recvs text status parsing.error parsing.context r where
  fits := fits
  broken := ⟨fun bad => absurd bad other, fun bad => absurd bad sound⟩
  failed := by
    rintro code rfl bad
    rw [← caught.error] at bad ⊢
    exact failed bad
  told := by
    rintro current span m rfl _
    have kept := Settled.outside caught.1
    simp only [attach_attached (attached current span m rfl)] at kept
    refine ⟨?_, Outside.shows kept⟩
    rw [← kept.agrees.1]
    exact told (by rw [caught.fine]; rfl)
  code := by
    rintro code rfl
    exact caught.error
  fine := by
    rintro current span m rfl
    exact caught.fine
  final := by
    intro _
    split
    · exact told ‹_›
    · exact failed ‹_›

theorem parse_error {start parsed : Parsing State} {parseLen : Nat}
    (parses : parseHttpResponse llhttp start parseLen = (status, parsed)) :
    status = processLlhttpError parsed.error := by
  simp only [parseHttpResponse, Prod.mk.injEq] at parses
  rw [← parses.1, ← parses.2]

/-- The statuses of the bytes so far let the loop go on. -/
def Unfaulted (r : Reading State SpanKind Message) : Prop :=
  ∀ code, r = .failed code → processLlhttpError code = .HTTPSuccess

theorem receiveLoop_tells (transport : Transport) {bufferLen total : Nat}
    (calls : List TransportCall) (size : frame.bufferLen = bufferLen)
    (here : total = text.length) (fits : text.length ≤ frame.bufferLen)
    (caught : Caught frame text parsing (messageOf llhttp frame.isHeadResponse text))
    (unfaulted : Unfaulted (messageOf llhttp frame.isHeadResponse text)) :
    let (status, after, parsed) := receiveLoop llhttp transport bufferLen total parsing calls
    ∃ recvs, recvs ≠ [] ∧ after = calls ++ recvs ∧
      let received := text ++ handedOver transport calls recvs
      Tells frame recvs received status parsed.error parsed.context
        (messageOf llhttp frame.isHeadResponse received) := by
  induction total, parsing, calls using receiveLoop.induct llhttp transport bufferLen
    generalizing text with
  | case1 total parsing calls room code =>
    rename_i failed
    subst here
    rw [receiveLoop]
    simp only [room] at failed
    simp only [failed]
    refine ⟨_, List.cons_ne_nil _ _, rfl, ?_⟩
    simp only [handedOver, failed, List.append_nil]
    have broken : Broken [TransportCall.recv (bufferLen - text.length) code] :=
      ⟨_, code, rfl, code.2⟩
    exact {
      fits := fits
      broken := ⟨fun _ => broken, fun _ => rfl⟩
      failed := fun code is bad => absurd (unfaulted code is) bad
      told := fun _ _ _ _ sound => absurd broken sound
      code := fun code is => Caught.error (is ▸ caught)
      fine := fun current span m is => Caught.fine (is ▸ caught)
      final := fun sound => absurd broken sound }
  | case2 total parsing calls room bytes got received status parsed =>
    rename_i parses bad
    subst here
    have inRoom := bytes.2
    simp only [room] at got inRoom
    simp only [received] at parses
    have all : text.length + bytes.val.length ≤ frame.bufferLen := by omega
    have next := parse_caught llhttp caught all
    have error := parse_error llhttp parses
    rw [receiveLoop]
    simp only [got, parses, if_pos bad] at next ⊢
    refine ⟨_, List.cons_ne_nil _ _, rfl, ?_⟩
    simp only [handedOver, got, List.append_nil]
    apply next.1.ends (by simpa using all) (not_broken_chunk [])
      (error ▸ processLlhttpError_other _) (fun _ => error) _ next.2
    intro good
    exact absurd (error.trans good) bad
  | case3 total parsing calls room bytes got received status parsed parses more state good =>
    rename_i ended
    subst here
    have inRoom := bytes.2
    simp only [room] at got inRoom
    simp only [received, state, more] at parses ended
    have all : text.length + bytes.val.length ≤ frame.bufferLen := by omega
    have next := parse_caught llhttp caught all
    have error := parse_error llhttp parses
    rw [receiveLoop]
    simp only [got, parses, if_neg good, dif_pos ended] at next ⊢
    refine ⟨_, List.cons_ne_nil _ _, rfl, ?_⟩
    simp only [handedOver, got, List.append_nil]
    apply next.1.ends (by simpa using all) (not_broken_chunk [])
      (getFinalResponseStatus_other _ _ _) _ _ next.2
    · intro bad
      exact absurd error (by rw [not_not.mp good]; exact bad.symm)
    · intro _
      rw [List.length_append, size]
  | case4 total parsing calls room bytes got received calls_ status parsed parses more state =>
    rename_i good going ih
    subst here
    have inRoom := bytes.2
    simp only [room] at got inRoom
    simp only [received, state, more] at parses going
    have all : text.length + bytes.val.length ≤ frame.bufferLen := by omega
    have next := parse_caught llhttp caught all
    have error := parse_error llhttp parses
    rw [receiveLoop]
    simp only [got, parses, if_neg good, dif_neg going] at next ⊢
    have last := @ih (text ++ bytes.val) (by simp [more, received]) (by simpa using all) next.1 ?_
    · simp only [more, received, calls_, room] at last
      generalize receiveLoop llhttp transport bufferLen (text.length + bytes.val.length) parsed
        (calls ++ [.recv (bufferLen - text.length) bytes.val.length]) = outcome at last ⊢
      obtain ⟨recvs, some_, after, tells⟩ := last
      refine ⟨.recv (bufferLen - text.length) bytes.val.length :: recvs,
        List.cons_ne_nil _ _, ?_, ?_⟩
      · rw [after, List.append_assoc, List.singleton_append]
      · simp only [handedOver, got, ← List.append_assoc]
        exact tells.cons some_
    · intro code failed
      have caught := next.1
      rw [failed] at caught
      rw [← caught.error, ← error]
      exact not_not.mp good

def frameOf (requestHeaders : HTTPRequestHeaders) (response : HTTPResponse) : Frame where
  bufferLen := response.buffer.length
  isHeadResponse := requestHeaders.buffer.take HTTP_METHOD_HEAD.length = HTTP_METHOD_HEAD

theorem initialised_caught (requestHeaders : HTTPRequestHeaders) (response : HTTPResponse) :
    Caught (frameOf requestHeaders response) []
      (initializeParsingContextForFirstResponse llhttp requestHeaders response)
      (messageOf llhttp (frameOf requestHeaders response).isHeadResponse []) := by
  refine ⟨⟨rfl, rfl, rfl, ?_⟩, fun _ _ _ _ => rfl⟩
  exact {
    framed := ⟨rfl, rfl, rfl⟩
    seen := rfl
    inText := Nat.le_refl 0
    agrees := ⟨rfl, rfl, rfl, (ite_self _).symm, by simp [Message.blank], rfl, rfl⟩
    current := ⟨Nat.le_refl 0, Nat.le_refl 0⟩
    first := by simp [Message.blank]
    field := trivial
    value := trivial
    fits := Nat.zero_le _
    intact := by simp
    body := trivial
    headersEnd := by simp [Message.blank] }

/-- Whatever the transport hands over and wherever it cuts the response, its caller is told what
    the bytes received say by themselves. -/
theorem response_assembled (transport : Transport) (requestHeaders : HTTPRequestHeaders)
    (response : HTTPResponse) (calls : List TransportCall) :
    let (status, after, parsed) :=
      receiveAndParseHttpResponse llhttp transport requestHeaders response calls
    ∃ recvs, after = calls ++ recvs ∧
      let received := handedOver transport calls recvs
      Tells (frameOf requestHeaders response) recvs received status parsed.error parsed.context
        (messageOf llhttp (frameOf requestHeaders response).isHeadResponse received) := by
  obtain ⟨recvs, _, after, tells⟩ := receiveLoop_tells llhttp transport calls rfl rfl
    (Nat.zero_le _) (initialised_caught llhttp requestHeaders response) (by rintro code ⟨⟩)
  exact ⟨recvs, after, tells⟩

/-- The chunks received so far, parsed one after the other. -/
def parseChunks (start : Parsing State) (chunks : List (List UInt8)) :
    HTTPStatus × Nat × Parsing State :=
  chunks.foldl (fun (_, total, parsing) bytes =>
    let (status, parsing) := parseHttpResponse llhttp (store parsing total bytes) bytes.length
    (status, total + bytes.length, parsing)) (.HTTPSuccess, 0, start)

def responseParser (start : Parsing State) : Parser := fun chunks =>
  let (status, _, parsing) := parseChunks llhttp start chunks
  (status, parsing.context.state)

theorem parseChunks_concat {start : Parsing State} {chunks : List (List UInt8)} {total : Nat}
    (parsed : (parseChunks llhttp start chunks).2 = (total, parsing)) (bytes : List UInt8) :
    parseChunks llhttp start (chunks ++ [bytes]) =
      ((parseHttpResponse llhttp (store parsing total bytes) bytes.length).1,
        total + bytes.length,
        (parseHttpResponse llhttp (store parsing total bytes) bytes.length).2) := by
  unfold parseChunks at parsed ⊢
  rw [List.foldl_append, List.foldl_cons, List.foldl_nil]
  simp only [parsed]

theorem receiveLoop_refines (transport : Transport) (start : Parsing State)
    {bufferLen total : Nat} {chunks : List (List UInt8)} (calls : List TransportCall)
    (parsed : (parseChunks llhttp start chunks).2 = (total, parsing)) :
    SpmCoreHttp.receiveLoop transport (responseParser llhttp start) bufferLen total chunks calls =
      ((receiveLoop llhttp transport bufferLen total parsing calls).1,
        (receiveLoop llhttp transport bufferLen total parsing calls).2.1) := by
  induction total, parsing, calls using receiveLoop.induct llhttp transport bufferLen
    generalizing chunks with
  | case1 total parsing calls room code =>
    rename_i failed
    simp only [room] at failed
    rw [receiveLoop, SpmCoreHttp.receiveLoop]
    simp only [failed]
  | case2 total parsing calls room bytes got received status now =>
    rename_i parses bad
    have next := parseChunks_concat llhttp parsed bytes.val
    simp only [room] at got
    simp only [received] at parses
    rw [receiveLoop, SpmCoreHttp.receiveLoop]
    simp only [got, responseParser, next, parses, if_pos bad]
  | case3 total parsing calls room bytes got received status now parses more state good =>
    rename_i ended
    have next := parseChunks_concat llhttp parsed bytes.val
    simp only [room] at got
    simp only [received, state, more] at parses ended
    rw [receiveLoop, SpmCoreHttp.receiveLoop]
    simp only [got, responseParser, next, parses, if_neg good, dif_pos ended]
  | case4 total parsing calls room bytes got received calls_ status now parses more state =>
    rename_i good going ih
    have next := parseChunks_concat llhttp parsed bytes.val
    simp only [room] at got
    simp only [received, state, more] at parses going
    simp only [parses] at next
    have rest := @ih (chunks ++ [bytes.val]) (by rw [next])
    rw [receiveLoop, SpmCoreHttp.receiveLoop]
    simp only [got, responseParser, next, parses, if_neg good, dif_neg going]
    exact rest

/-- The client library's model, in which any parser judges the chunks received so far, with the
    parser of the response. -/
theorem receive_refines (transport : Transport) (requestHeaders : HTTPRequestHeaders)
    (response : HTTPResponse) (calls : List TransportCall) :
    SpmCoreHttp.receiveAndParseHttpResponse transport
      (responseParser llhttp
        (initializeParsingContextForFirstResponse llhttp requestHeaders response))
      response.buffer.length calls =
      ((receiveAndParseHttpResponse llhttp transport requestHeaders response calls).1,
        (receiveAndParseHttpResponse llhttp transport requestHeaders response calls).2.1) :=
  receiveLoop_refines llhttp transport _ calls rfl

/-- These calls of recv were made, and each gave what the transport gives. -/
def Served (transport : Transport) (before : List TransportCall) : List TransportCall → Prop
  | [] => True
  | .recv room ret :: calls =>
    (∃ bytes, transport.recv before room = .chunk bytes ∧ ret = bytes.val.length) ∧
      Served transport (before ++ [.recv room ret]) calls
  | .send _ _ :: _ => False

/-- As long as text has not arrived in full, recv gives a part of what is missing. -/
def Delivers (transport : Transport) (calls : List TransportCall) (text : List UInt8) : Prop :=
  ∀ recvs n room, Served transport calls recvs → handedOver transport calls recvs = text.take n →
    n < text.length → 0 < room →
      ∃ bytes, transport.recv (calls ++ recvs) room = .chunk bytes ∧ bytes.val ≠ [] ∧
        bytes.val <+: text.drop n

def Completes : Reading State SpanKind Message → Prop
  | .going _ _ m => m.state = .HTTP_PARSING_COMPLETE
  | _ => False

instance (r : Reading State SpanKind Message) : Decidable (Completes r) :=
  match r with
  | .going _ _ m => inferInstanceAs (Decidable (m.state = .HTTP_PARSING_COMPLETE))
  | .astray => isFalse id
  | .failed _ => isFalse id

/-- The message is complete with the last byte of text and not before. -/
structure EndsWith (isHeadResponse : Bool) (text : List UInt8) (m : Message) : Prop where
  message : ∃ current span, messageOf llhttp isHeadResponse text = .going current span m
  complete : m.state = .HTTP_PARSING_COMPLETE
  early : ∀ n, n < text.length → ¬ Completes (messageOf llhttp isHeadResponse (text.take n))

variable {llhttp} in
theorem EndsWith.nonempty {isHeadResponse : Bool} {m : Message}
    (ends : EndsWith llhttp isHeadResponse text m) : 0 < text.length := by
  by_contra empty
  obtain rfl : text = [] := List.eq_nil_of_length_eq_zero (by omega)
  obtain ⟨_, _, going⟩ := ends.message
  cases going
  exact absurd ends.complete (by simp [Message.blank])

theorem handedOver_append (transport : Transport) (calls more : List TransportCall) :
    ∀ before, handedOver transport before (calls ++ more) =
      handedOver transport before calls ++ handedOver transport (before ++ calls) more := by
  induction calls with
  | nil =>
    intro before
    simp [handedOver]
  | cons call calls ih =>
    intro before
    cases call <;> simp [handedOver, ih]

theorem served_append (transport : Transport) (calls more : List TransportCall) :
    ∀ before, Served transport before (calls ++ more) ↔
      Served transport before calls ∧ Served transport (before ++ calls) more := by
  induction calls with
  | nil =>
    intro before
    simp [Served]
  | cons call calls ih =>
    intro before
    cases call <;> simp [Served, ih, and_assoc]

/-- The bytes that recv has returned. -/
def totalReceived : List TransportCall → Nat
  | [] => 0
  | .recv _ ret :: calls => ret.toNat + totalReceived calls
  | .send _ _ :: calls => totalReceived calls

theorem totalReceived_append (calls more : List TransportCall) :
    totalReceived (calls ++ more) = totalReceived calls + totalReceived more := by
  induction calls with
  | nil => simp [totalReceived]
  | cons call calls ih => cases call <;> simp [totalReceived, ih, Nat.add_assoc]

theorem served_total {transport : Transport} {calls : List TransportCall} :
    ∀ {before}, Served transport before calls →
      totalReceived calls = (handedOver transport before calls).length := by
  induction calls with
  | nil =>
    intro before _
    rfl
  | cons call calls ih =>
    intro before served
    cases call with
    | send bytes ret => exact served.elim
    | recv room ret =>
      obtain ⟨⟨bytes, gives, rfl⟩, rest⟩ := served
      simp [totalReceived, handedOver, gives, ih rest]

/-- A message is read on only from one that is being read. -/
theorem going_before {isHeadResponse : Bool} {text bytes : List UInt8} {current : State}
    {span : Option SpanKind} {m : Message}
    (going : messageOf llhttp isHeadResponse (text ++ bytes) = .going current span m) :
    ∃ current span m, messageOf llhttp isHeadResponse text = .going current span m := by
  rw [messageOf_append] at going
  cases is : messageOf llhttp isHeadResponse text with
  | going current span m => exact ⟨current, span, m, rfl⟩
  | astray =>
    rw [is, foldl_readOn_astray] at going
    contradiction
  | failed code =>
    rw [is, foldl_readOn_failed] at going
    contradiction

theorem delivered_chunk {transport : Transport} {start recvs : List TransportCall}
    {n room : Nat} (delivers : Delivers transport start text)
    (served : Served transport start recvs)
    (handed : handedOver transport start recvs = text.take n) (missing : n < text.length)
    (positive : 0 < room) {bytes : { l : List UInt8 // l.length ≤ room }}
    (got : transport.recv (start ++ recvs) room = .chunk bytes) :
    0 < bytes.val.length ∧ n + bytes.val.length ≤ text.length ∧
      text.take n ++ bytes.val = text.take (n + bytes.val.length) ∧
      Served transport start (recvs ++ [.recv room bytes.val.length]) ∧
      handedOver transport start (recvs ++ [.recv room bytes.val.length]) =
        text.take (n + bytes.val.length) := by
  obtain ⟨given, gives, some_, front⟩ := delivers recvs n room served handed missing positive
  obtain rfl : bytes = given := by simpa [got] using gives
  have short := front.length_le
  rw [List.length_drop] at short
  have joined : text.take n ++ bytes.val = text.take (n + bytes.val.length) := by
    rw [List.take_add, ← List.prefix_iff_eq_take.mp front]
  refine ⟨List.length_pos_iff.mpr some_, by omega, joined, ?_, ?_⟩
  · rw [served_append]
    exact ⟨served, ⟨bytes, got, rfl⟩, trivial⟩
  · rw [handedOver_append, handed]
    simp [handedOver, got, joined]

theorem Caught.agrees {current : State} {span : Option SpanKind} {m : Message}
    (caught : Caught frame text parsing (.going current span m))
    (attached : parsing.context.attached = true) :
    parsing.error = 0 ∧ parsing.context.state = m.state ∧ Shows parsing.context text m := by
  have kept := Settled.outside caught.1
  simp only [attach_attached attached] at kept
  exact ⟨caught.fine, kept.agrees.1, Outside.shows kept⟩

/-- A segment of a text that the parser reads through: the loop goes on with it, or it was the
    last one. -/
theorem parse_delivered {n : Nat} {m : Message} {bytes : List UInt8} {parsed : Parsing State}
    (fits : text.length ≤ frame.bufferLen) (ends : EndsWith llhttp frame.isHeadResponse text m)
    (caught : Caught frame (text.take n) parsing
      (messageOf llhttp frame.isHeadResponse (text.take n)))
    (short : n + bytes.length ≤ text.length)
    (joined : text.take n ++ bytes = text.take (n + bytes.length))
    (parses : parseHttpResponse llhttp (store parsing n bytes) bytes.length = (status, parsed)) :
    status = .HTTPSuccess ∧
      Caught frame (text.take (n + bytes.length)) parsed
        (messageOf llhttp frame.isHeadResponse (text.take (n + bytes.length))) ∧
      (parsed.context.state = .HTTP_PARSING_COMPLETE → n + bytes.length = text.length) ∧
      (n + bytes.length = text.length →
        parsed.context.state = .HTTP_PARSING_COMPLETE ∧ Shows parsed.context text m) := by
  obtain ⟨current, span, all⟩ := ends.message
  have length : (text.take n).length = n := by
    rw [List.length_take]
    omega
  have next := @parse_caught State llhttp frame (text.take n) parsing bytes caught (by omega)
  rw [length] at next
  simp only [parses, joined] at next
  obtain ⟨caught, attached⟩ := next
  have whole : messageOf llhttp frame.isHeadResponse
      (text.take (n + bytes.length) ++ text.drop (n + bytes.length)) = .going current span m := by
    rw [List.take_append_drop]
    exact all
  obtain ⟨now, open_, so_far, going⟩ := going_before llhttp whole
  have agrees := (going ▸ caught).agrees (attached now open_ so_far going)
  have error := parse_error llhttp parses
  refine ⟨by rw [error, agrees.1]; rfl, caught, ?_, ?_⟩
  · intro done
    by_contra before
    have early := ends.early _ (show n + bytes.length < text.length by omega)
    rw [going] at early
    exact early (agrees.2.1.symm.trans done)
  · intro last
    rw [last, List.take_length] at going agrees
    obtain ⟨_, _, rfl⟩ : now = current ∧ open_ = span ∧ so_far = m := by
      simpa [going] using all
    exact ⟨agrees.2.1.trans ends.complete, agrees.2.2⟩

theorem receiveLoop_delivers (transport : Transport) (start : List TransportCall)
    {bufferLen total : Nat} {calls recvs : List TransportCall} {m : Message}
    (size : frame.bufferLen = bufferLen) (fits : text.length ≤ frame.bufferLen)
    (delivers : Delivers transport start text)
    (ends : EndsWith llhttp frame.isHeadResponse text m)
    (at_ : calls = start ++ recvs) (served : Served transport start recvs)
    (handed : handedOver transport start recvs = text.take total) (missing : total < text.length)
    (caught : Caught frame (text.take total) parsing
      (messageOf llhttp frame.isHeadResponse (text.take total))) :
    let (status, _, parsed) := receiveLoop llhttp transport bufferLen total parsing calls
    status = .HTTPSuccess ∧ Shows parsed.context text m := by
  induction total, parsing, calls using receiveLoop.induct llhttp transport bufferLen
    generalizing recvs with
  | case1 total parsing calls room code =>
    rename_i failed
    subst at_
    obtain ⟨bytes, gives, _⟩ := delivers recvs total room served handed missing (by omega)
    rw [failed] at gives
    contradiction
  | case2 total parsing calls room bytes got received status parsed =>
    rename_i parses bad
    subst at_
    obtain ⟨_, short, joined, _⟩ :=
      delivered_chunk delivers served handed missing (by omega) got
    exact absurd (parse_delivered llhttp fits ends caught short joined parses).1 bad
  | case3 total parsing calls room bytes got received status parsed parses more state good =>
    rename_i ended
    subst at_
    obtain ⟨some_, short, joined, _⟩ :=
      delivered_chunk delivers served handed missing (by omega) got
    obtain ⟨_, _, last, complete⟩ :=
      parse_delivered llhttp fits ends caught short joined parses
    simp only [room] at got
    simp only [received, state, more] at parses ended
    have done : total + bytes.val.length = text.length := by
      rcases ended with none_ | complete | full
      · omega
      · exact last complete
      · omega
    obtain ⟨finished, told⟩ := complete done
    rw [receiveLoop]
    simp only [got, parses, if_neg good, dif_pos ended]
    refine ⟨?_, told⟩
    rw [finished, getFinalResponseStatus]
  | case4 total parsing calls room bytes got received calls_ status parsed parses more state =>
    rename_i good going ih
    subst at_
    obtain ⟨_, short, joined, served, handed⟩ :=
      delivered_chunk delivers served handed missing (by omega) got
    obtain ⟨_, caught, _, complete⟩ :=
      parse_delivered llhttp fits ends caught short joined parses
    simp only [room] at got
    simp only [received, state, more] at parses going
    have before : total + bytes.val.length < text.length := by
      by_contra done
      exact going (Or.inr (Or.inl (complete (by omega)).1))
    rw [receiveLoop]
    simp only [got, parses, if_neg good, dif_neg going]
    exact ih (List.append_assoc _ _ _) served handed before caught

/-- A response that fits and is delivered in full is received in full, in any segments. -/
theorem response_received {transport : Transport} {requestHeaders : HTTPRequestHeaders}
    {response : HTTPResponse} {calls : List TransportCall} {text : List UInt8} {m : Message}
    (fits : text.length ≤ response.buffer.length) (delivers : Delivers transport calls text)
    (ends : EndsWith llhttp (frameOf requestHeaders response).isHeadResponse text m) :
    let (status, _, parsed) :=
      receiveAndParseHttpResponse llhttp transport requestHeaders response calls
    status = .HTTPSuccess ∧ Shows parsed.context text m := by
  exact receiveLoop_delivers llhttp transport calls rfl fits delivers ends
    (List.append_nil calls).symm trivial rfl ends.nonempty
    (initialised_caught llhttp requestHeaders response)

end Receiving

/-- The text, at most so many bytes at a time. -/
def inParts (text : List UInt8) (most : Nat) : Transport where
  send _ bytes := ⟨bytes.length, Int.le_refl _⟩
  recv calls bytesToRecv := .chunk ⟨(text.drop (totalReceived calls)).take (min most bytesToRecv),
    by rw [List.length_take]; omega⟩

theorem inParts_delivers (text : List UInt8) {most : Nat} (positive : 0 < most)
    {calls : List TransportCall} (none_ : totalReceived calls = 0) :
    Delivers (inParts text most) calls text := by
  intro recvs n room served handed missing open_
  have total := served_total served
  rw [handed, List.length_take, Nat.min_eq_left (Nat.le_of_lt missing)] at total
  have all : totalReceived (calls ++ recvs) = n := by
    rw [totalReceived_append, none_, total, Nat.zero_add]
  refine ⟨_, rfl, ?_, ?_⟩
  · simp only [all]
    apply List.ne_nil_of_length_pos
    rw [List.length_take, List.length_drop]
    omega
  · simp only [all]
    exact List.take_prefix _ _

def shortText : List UInt8 := text "HTTP/1.1 200 OK\r\nContent-Length:1\r\n\r\nx"

/-- What llhttp does with the bytes of the short text; other bytes it does not take. -/
def shortMachine : Machine Nat SpanKind Event where
  start := 0
  step p b :=
    if shortText[p]? = some b then
      (match p with
        | 0 => [.call .message_begin]
        | 13 => [.opens (.status 200)]
        | 15 => [.closes]
        | 17 => [.opens .header_field]
        | 31 => [.closes]
        | 32 => [.opens .header_value]
        | 33 => [.closes]
        | 37 => [.opens .body]
        | _ => [],
      p + 1,
      match p with
        | 36 => [.call (.headers_complete 1 0x20)]
        | 37 => [.closes, .call .message_complete]
        | _ => [])
    else ([.fail 6], p, [])

def shortMessage : Message where
  state := .HTTP_PARSING_COMPLETE
  statusCode := 200
  field := none
  value := none
  headers := [{ field := text "Content-Length", value := text "1", statusCode := 200 }]
  contentLength := some 1
  respFlags := 0
  body := some (text "x")
  seen := 38
  last := 38
  first := some 17
  headersEnd := some (33, 37)

def shortRequest : HTTPRequestHeaders where
  buffer := text "GET / HTTP/1.1\r\n\r\n"
  headersLen := 18

def blankResponse (bufferLen : Nat) : HTTPResponse where
  buffer := List.replicate bufferLen 0
  headerParsingCallback := false
  headers := none
  headersLen := 0
  body := none
  bodyLen := 0
  statusCode := 0
  contentLength := 0
  headerCount := 0
  respFlags := 0

theorem short_ends (isHeadResponse : Bool) :
    EndsWith (fun _ => shortMachine) isHeadResponse shortText shortMessage where
  message := ⟨38, none, by cases isHeadResponse <;> rfl⟩
  complete := rfl
  early := by cases isHeadResponse <;> decide +kernel

theorem response_received_short :
    shortText.length ≤ (blankResponse 64).buffer.length ∧
      Delivers (inParts shortText 10) [] shortText ∧
      EndsWith (fun _ => shortMachine) (frameOf shortRequest (blankResponse 64)).isHeadResponse
        shortText shortMessage ∧
      let (status, _, parsed) := receiveAndParseHttpResponse (fun _ => shortMachine)
        (inParts shortText 10) shortRequest (blankResponse 64) []
      status = .HTTPSuccess ∧ Shows parsed.context shortText shortMessage := by
  have fits : shortText.length ≤ (blankResponse 64).buffer.length := by decide
  have delivers := inParts_delivers shortText (show 0 < 10 by omega) (show totalReceived [] = 0 from rfl)
  have ends := short_ends (frameOf shortRequest (blankResponse 64)).isHeadResponse
  exact ⟨fits, delivers, ends, response_received _ fits delivers ends⟩

end SpmResponseGuarantees
