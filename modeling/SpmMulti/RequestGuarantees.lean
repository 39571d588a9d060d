import SpmMulti.Transfer

/- What HTTPSendRequest hands to the transport: the header block that was asked for, or a part of
   it when building it failed and the status was overwritten. -/
namespace SpmRequestGuarantees
open SpmMachine SpmHttp SpmCoreHttp SpmHeaderBuffer SpmTransfer OverlaidMemory
variable {request : Request}

def requestLine (method path : List UInt8) : List UInt8 :=
  method ++ [SPACE_CHARACTER] ++ (if path.length = 0 then HTTP_EMPTY_PATH else path) ++
    [SPACE_CHARACTER] ++ HTTP_PROTOCOL_VERSION ++ HTTP_HEADER_LINE_SEPARATOR

/-- The lines of a request's headers, one more at a time. -/
def line (request : Request) : List UInt8 :=
  requestLine (cstr request.method) (cstr request.path)

def withAgent (request : Request) : List UInt8 :=
  line request ++ headerLine HTTP_USER_AGENT_FIELD HTTP_USER_AGENT_VALUE

def withHost (request : Request) : List UInt8 :=
  withAgent request ++ headerLine HTTP_HOST_FIELD (cstr request.host)

def headerBlock (request : Request) : List UInt8 :=
  withHost request ++ lengthLine request.body.length ++ HTTP_HEADER_LINE_SEPARATOR

def requestInfo (request : Request) : HTTPRequestInfo :=
  ⟨cstr request.method, cstr request.path, cstr request.host, 0⟩

def emptyHeaders : HTTPRequestHeaders := ⟨List.replicate REQUEST_BUF_SIZE 0, 0⟩

def initialised (request : Request) : HTTPStatus × HTTPRequestHeaders :=
  HTTPClient_InitializeRequestHeaders emptyHeaders (requestInfo request)

/-- Whether these lines and the blank line fit in the buffer. -/
def Fits (lines : List UInt8) : Prop :=
  (lines ++ HTTP_HEADER_LINE_SEPARATOR).length ≤ REQUEST_BUF_SIZE

def Named (request : Request) : Prop := cstr request.method ≠ [] ∧ cstr request.host ≠ []

/-- After a failure, the text behind which a further header goes: the request line, the lines up
    to the User-Agent, or these and the H and o that are written over the blank line. -/
def standing (request : Request) : List UInt8 :=
  if (withAgent request ++ HTTP_HEADER_LINE_SEPARATOR).length > REQUEST_BUF_SIZE then line request
  else if (withHost request ++ HTTP_HEADER_LINE_SEPARATOR).length > REQUEST_BUF_SIZE then
    withAgent request
  else withAgent request ++ HTTP_HOST_FIELD.take 2

theorem next_succeeds (done : HTTPStatus × HTTPRequestHeaders) :
    next done (fun h => (.HTTPSuccess, h)) = done := by
  obtain ⟨status, h⟩ := done
  by_cases success : status = .HTTPSuccess
  · simp [next, success]
  · simp [next, success]

def written (request : Request) : HTTPStatus × HTTPRequestHeaders :=
  writeRequestLine emptyHeaders (cstr request.method) (cstr request.path)

theorem initialised_eq (named : Named request) :
    initialised request =
      next (next (written request) fun h => addHeader h HTTP_USER_AGENT_FIELD HTTP_USER_AGENT_VALUE)
        fun h => addHeader h HTTP_HOST_FIELD (cstr request.host) := by
  have method : (cstr request.method).length ≠ 0 := by simpa using named.1
  have host : (cstr request.host).length ≠ 0 := by simpa using named.2
  have unflagged : ¬ HTTP_REQUEST_KEEP_ALIVE_FLAG &&& (requestInfo request).reqFlags ≠ 0#32 := by
    simp [requestInfo]
  simp only [initialised, HTTPClient_InitializeRequestHeaders, unflagged, if_false]
  simp only [requestInfo, method, host, if_false]
  exact next_succeeds _

theorem requestLine_length (method path : List UInt8) :
    (requestLine method path).length = method.length + 1 + 1 + HTTP_PROTOCOL_VERSION.length +
      HTTP_HEADER_LINE_SEPARATOR.length +
      (if path.length = 0 then HTTP_EMPTY_PATH else path).length := by
  simp only [requestLine, List.length_append, List.length_singleton]
  omega

theorem emptyHeaders_length : emptyHeaders.buffer.length = REQUEST_BUF_SIZE :=
  List.length_replicate

/-- Behind the request line there is no blank line to go back to. -/
theorem line_written (fits : (line request).length ≤ REQUEST_BUF_SIZE) :
    ∃ h, written request = (.HTTPSuccess, h) ∧ Behind (line request) h ∧
      h.headersLen = (line request).length ∧ h.buffer.length = REQUEST_BUF_SIZE := by
  have short := fits
  rw [line, requestLine_length] at short
  have tail : HTTP_PROTOCOL_VERSION ++ HTTP_HEADER_LINE_SEPARATOR =
      text "HTTP/1" ++ [46, 49, 13, 10] := by
    decide +kernel
  obtain ⟨front, ends⟩ : ∃ front, line request = front ++ [46, 49, 13, 10] := by
    rw [line, requestLine, List.append_assoc _ HTTP_PROTOCOL_VERSION, tail, ← List.append_assoc]
    exact ⟨_, rfl⟩
  have started := overlay_start emptyHeaders.buffer (line request)
  refine ⟨⟨overlay emptyHeaders.buffer 0 (line request), (line request).length⟩, ?_,
    ⟨?_, _, started⟩, rfl, ?_⟩
  · simp only [written, writeRequestLine, emptyHeaders, List.length_replicate, Nat.add_zero]
    rw [if_neg (by omega), line, requestLine_length]
    rfl
  · rw [ends] at started ⊢
    rw [backtrack_at started rfl rfl, if_neg (by decide)]
  · rw [overlay_length, emptyHeaders_length]
    rw [emptyHeaders_length, Nat.zero_add]
    exact fits

theorem line_unwritten (long : (line request).length > REQUEST_BUF_SIZE) :
    written request = (.HTTPInsufficientMemory, emptyHeaders) := by
  rw [line, requestLine_length] at long
  simp only [written, writeRequestLine, emptyHeaders, List.length_replicate, Nat.add_zero]
  rw [if_pos long]

theorem agent_name : Name HTTP_USER_AGENT_FIELD := by
  refine ⟨?_, ?_⟩ <;> decide +kernel

theorem agent_clean : Clean HTTP_USER_AGENT_VALUE := by decide +kernel

theorem host_name : Name HTTP_HOST_FIELD := by
  refine ⟨?_, ?_⟩ <;> decide +kernel

theorem withAgent_length : (withAgent request).length = (line request).length + 30 := by
  have added : (headerLine HTTP_USER_AGENT_FIELD HTTP_USER_AGENT_VALUE).length = 30 := by
    decide +kernel
  rw [withAgent, List.length_append, added]

theorem initialised_refused (refused : ¬ Named request ∨ (line request).length > REQUEST_BUF_SIZE) :
    (initialised request).1 ≠ .HTTPSuccess ∧ (initialised request).2.headersLen = 0 := by
  by_cases named : Named request
  · have long := refused.resolve_left (not_not.mpr named)
    rw [initialised_eq named, line_unwritten long]
    simp [next, emptyHeaders]
  · simp only [Named, not_and_or, not_not] at named
    rcases named with method | host
    · simp [initialised, HTTPClient_InitializeRequestHeaders, requestInfo, method, emptyHeaders]
    · simp only [initialised, HTTPClient_InitializeRequestHeaders, requestInfo, host]
      split <;> simp [emptyHeaders]

/-- The User-Agent header is the same for every request, so only its size matters. -/
theorem agent_added (named : Named request) (fits : Fits (withAgent request)) :
    ∃ h, initialised request = addHeader h HTTP_HOST_FIELD (cstr request.host) ∧
      Built (withAgent request) h ∧ h.buffer.length = REQUEST_BUF_SIZE := by
  have short : (line request).length ≤ REQUEST_BUF_SIZE := by
    rw [Fits, List.length_append, withAgent_length] at fits
    omega
  obtain ⟨start, wrote, behind, _, size⟩ := line_written short
  rw [Fits, withAgent, ← size] at fits
  obtain ⟨h, adds, built, same⟩ := addHeader_added behind agent_name agent_clean fits
  refine ⟨h, ?_, built, same.trans size⟩
  rw [initialised_eq named, wrote]
  simp [next, adds]

theorem initialised_built (named : Named request) (clean : Clean (cstr request.host))
    (fits : Fits (withHost request)) :
    ∃ h, initialised request = (.HTTPSuccess, h) ∧ Built (withHost request) h ∧
      h.buffer.length = REQUEST_BUF_SIZE := by
  have agent : Fits (withAgent request) := by
    rw [Fits, withHost] at fits
    rw [Fits]
    simp only [List.length_append] at fits ⊢
    omega
  obtain ⟨h, same, built, size⟩ := agent_added named agent
  rw [Fits, withHost, ← size] at fits
  obtain ⟨added, adds, done, kept⟩ := addHeader_added built.behind host_name clean fits
  exact ⟨added, same.trans adds, done, kept.trans size⟩

/-- A host that is rejected: its name has been written over the blank line. -/
theorem host_rejected {h : HTTPRequestHeaders} (built : Built (withAgent request) h)
    (size : h.buffer.length = REQUEST_BUF_SIZE) (unclean : ¬ Clean (cstr request.host))
    (fits : Fits (withHost request)) :
    ∃ bad, addHeader h HTTP_HOST_FIELD (cstr request.host) =
        (.HTTPSecurityAlertInvalidCharacter, bad) ∧
      Behind (withAgent request ++ HTTP_HOST_FIELD.take 2) bad ∧ bad.headersLen = h.headersLen ∧
      bad.buffer.length = REQUEST_BUF_SIZE := by
  rw [Fits, withHost, ← size] at fits
  obtain ⟨after, adds, same⟩ := addHeader_rejected built.behind host_name unclean fits
  have text_ : withAgent request ++ HTTP_HOST_FIELD ++ after =
      withAgent request ++ HTTP_HOST_FIELD.take 2 ++ (HTTP_HOST_FIELD.drop 2 ++ after) := by
    rw [List.append_assoc, List.append_assoc, ← List.append_assoc (HTTP_HOST_FIELD.take 2),
      List.take_append_drop]
  refine ⟨_, adds, ⟨?_, _, text_⟩, rfl, same.trans size⟩
  have four : (HTTP_HEADER_LINE_SEPARATOR ++ HTTP_HOST_FIELD.take 2).length = 4 := by
    decide +kernel
  have two : (HTTP_HOST_FIELD.take 2).length = HTTP_HEADER_LINE_SEPARATOR.length := by
    decide +kernel
  have headersLen : h.headersLen = (withAgent request ++ HTTP_HOST_FIELD.take 2).length := by
    rw [built.headersLen, List.length_append, List.length_append, two]
  rw [withAgent, headerLine_ends, List.append_assoc _ _ (HTTP_HOST_FIELD.take 2)]
    at text_ headersLen ⊢
  refine (backtrack_at text_ four headersLen).trans ?_
  rw [if_neg (by decide +kernel)]
  exact headersLen

theorem initialised_partial (named : Named request)
    (short : (line request).length ≤ REQUEST_BUF_SIZE)
    (unbuilt : ¬ (Clean (cstr request.host) ∧ Fits (withHost request))) :
    ∃ status h, initialised request = (status, h) ∧ status ≠ .HTTPSuccess ∧
      Behind (standing request) h ∧ HTTP_MINIMUM_REQUEST_LINE_LENGTH ≤ h.headersLen ∧
      h.headersLen ≤ h.buffer.length ∧ h.buffer.length = REQUEST_BUF_SIZE := by
  by_cases agent : Fits (withAgent request)
  · obtain ⟨h, same, built, size⟩ := agent_added named agent
    have long :
        HTTP_MINIMUM_REQUEST_LINE_LENGTH ≤ h.headersLen ∧ h.headersLen ≤ h.buffer.length := by
      rw [built.headersLen, size]
      refine ⟨?_, agent⟩
      rw [List.length_append, withAgent_length, HTTP_MINIMUM_REQUEST_LINE_LENGTH]
      omega
    rw [standing, if_neg (Nat.not_lt.mpr agent)]
    by_cases fits : Fits (withHost request)
    · have unclean : ¬ Clean (cstr request.host) := fun clean => unbuilt ⟨clean, fits⟩
      obtain ⟨bad, adds, behind, kept, size'⟩ := host_rejected built size unclean fits
      rw [if_neg (Nat.not_lt.mpr fits)]
      refine ⟨_, bad, same.trans adds, by simp, behind, ?_, ?_, size'⟩
      · exact kept ▸ long.1
      · rw [kept, size', ← size]
        exact long.2
    · rw [if_pos (Nat.not_le.mp fits)]
      rw [Fits, withHost, ← size] at fits
      exact ⟨_, h, same.trans (addHeader_full built.behind fits), by simp, built.behind, long.1,
        long.2, size⟩
  · obtain ⟨h, wrote, behind, headersLen, size⟩ := line_written short
    rw [standing, if_pos (Nat.not_le.mp agent)]
    have full := agent
    rw [Fits, withAgent, ← size] at full
    refine ⟨.HTTPInsufficientMemory, h, ?_, by simp, behind, ?_, ?_, size⟩
    · rw [initialised_eq named, wrote]
      simp [next, addHeader_full behind full]
    · rw [Fits, List.length_append, withAgent_length, HTTP_HEADER_LINE_SEPARATOR] at agent
      simp only [REQUEST_BUF_SIZE, List.length_cons, List.length_nil] at agent
      rw [headersLen, HTTP_MINIMUM_REQUEST_LINE_LENGTH]
      omega
    · rw [headersLen, size]
      exact short

/-- What must hold for a request's header block to be built. -/
structure Buildable (request : Request) : Prop where
  named : Named request
  clean : Clean (cstr request.host)
  fits : (headerBlock request).length ≤ REQUEST_BUF_SIZE

def sendCall : NetCall → Option (List UInt8 × Int)
  | .send _ bytes ret => some (bytes, ret)
  | .socket _ => none
  | .gethostbyname _ => none
  | .connect _ _ _ => none
  | .recv _ _ _ => none
  | .close _ => none

def sends (calls : List NetCall) : List (List UInt8 × Int) := calls.filterMap sendCall

/-- Bytes are only handed over when the whole block for the request was built, and then the block
    comes first; without a block nothing is sent, and that is no success. -/
structure Untruncated (request : Request) (outcome : HTTPStatus × List NetCall) : Prop where
  complete : sends outcome.2 ≠ [] → (initialised request).1 = .HTTPSuccess ∧
    (∃ ret rest, sends outcome.2 = (headerBlock request, ret) :: rest) ∧
    accepted (sends outcome.2) <+: headerBlock request ++ request.body
  refused : ¬ Buildable request → sends outcome.2 = [] ∧ outcome.1 ≠ .HTTPSuccess

def Connects (net : Network) (request : Request) : Prop :=
  (net.Mynet_gethostbyname request.host).isSome ∧ 0 ≤ net.Mynet_connect.toInt

/-- Initialisation fails with a request line in the buffer, and what HTTPClient_Send looks at is
    as it should be. -/
structure Slips (request : Request) : Prop where
  named : Named request
  line : (line request).length ≤ REQUEST_BUF_SIZE
  unbuilt : ¬ (Clean (cstr request.host) ∧ Fits (withHost request))
  short : request.body.length ≤ INT32_MAX
  room : request.body = [] ∨ Fits (standing request ++ lengthLine request.body.length)

variable {net : Network} {transport : Transport} {parser : Parser}

theorem sends_onSocket (sockfd : U32) (calls : List TransportCall) :
    sends (calls.map (onSocket sockfd)) = calls.filterMap sendOf := by
  rw [sends, List.filterMap_map]
  congr
  funext call
  cases call <;> rfl

theorem unconnected {http : HTTPClient} (refused : ¬ Connects net request) :
    sends (HTTPSendRequest net http request).2 = [] ∧
      (HTTPSendRequest net http request).1 ≠ .HTTPSuccess := by
  have unsigned : ¬ net.Mynet_socket < 0#32 := by simp [BitVec.lt_def]
  simp only [HTTPSendRequest, unsigned, if_false]
  cases found : net.Mynet_gethostbyname request.host with
  | none => simp [sends, sendCall]
  | some server =>
    have negative : net.Mynet_connect.toInt < 0 := by
      simpa [Connects, found] using refused
    simp [negative, sends, sendCall]

theorem connected {http : HTTPClient} (connects : Connects net request) :
    sends (HTTPSendRequest net http request).2 = (clientSend http request).2.filterMap sendOf ∧
      (HTTPSendRequest net http request).1 = (clientSend http request).1 := by
  have unsigned : ¬ net.Mynet_socket < 0#32 := by simp [BitVec.lt_def]
  obtain ⟨found, some_⟩ := connects
  obtain ⟨server, found⟩ := Option.isSome_iff_exists.mp found
  simp only [HTTPSendRequest, unsigned, if_false, found, Int.not_lt.mpr some_]
  refine ⟨?_, trivial⟩
  rw [← sends_onSocket net.Mynet_socket]
  simp [sends, sendCall, List.filterMap_cons]

theorem block_headers {h : HTTPRequestHeaders} (built : Built (withHost request) h)
    (size : h.buffer.length = REQUEST_BUF_SIZE)
    (fits : (headerBlock request).length ≤ REQUEST_BUF_SIZE) :
    sendHttpHeaders transport h request.body.length 0#32 =
      sendHttpData transport [] (headerBlock request) := by
  by_cases empty : request.body.length = 0
  · obtain ⟨headersLen, rest, buffer⟩ := built
    rw [headerBlock, empty, sendHttpHeaders_empty, headersLen, buffer, List.take_left, lengthLine,
      if_pos rfl, List.append_nil]
  · rw [← size] at fits
    exact sendHttpHeaders_added transport built.behind empty fits

theorem built_long {h : HTTPRequestHeaders} (built : Built (withHost request) h) :
    HTTP_MINIMUM_REQUEST_LINE_LENGTH ≤ h.headersLen := by
  rw [built.headersLen, withHost, List.length_append, List.length_append, withAgent_length,
    HTTP_MINIMUM_REQUEST_LINE_LENGTH]
  omega

theorem fits_withHost (fits : (headerBlock request).length ≤ REQUEST_BUF_SIZE) :
    Fits (withHost request) := by
  rw [headerBlock] at fits
  rw [Fits]
  simp only [List.length_append] at fits ⊢
  omega

theorem block_ne_nil : headerBlock request ≠ [] := by
  simp [headerBlock, HTTP_HEADER_LINE_SEPARATOR]

theorem clientSend_eq {status : HTTPStatus} {h : HTTPRequestHeaders}
    (result : initialised request = (status, h)) :
    clientSend (coreHttp transport parser) request =
      HTTPClient_Send transport parser 0#32 h request.body RESPONSE_BUF_SIZE := by
  rw [← show (initialised request).2 = h by rw [result]]
  rfl

theorem buildable_sent (buildable : Buildable request) (short : request.body.length ≤ INT32_MAX) :
    (initialised request).1 = .HTTPSuccess ∧
      ∃ ret rest, (clientSend (coreHttp transport parser) request).2.filterMap sendOf =
          (headerBlock request, ret) :: rest ∧
        accepted ((headerBlock request, ret) :: rest) <+: headerBlock request ++ request.body := by
  have fits := fits_withHost buildable.fits
  obtain ⟨h, success, built, size⟩ := initialised_built buildable.named buildable.clean fits
  have inside : h.headersLen ≤ h.buffer.length := by
    rw [built.headersLen, size]
    exact fits
  rw [clientSend_eq success, success]
  exact ⟨rfl, send_data transport (built_long built) inside short block_ne_nil
    (block_headers built size buildable.fits)⟩

theorem slips_sends (slips : Slips request) :
    (initialised request).1 ≠ .HTTPSuccess ∧
      (clientSend (coreHttp transport parser) request).2.filterMap sendOf ≠ [] := by
  obtain ⟨status, h, result, failed, behind, long, inside, size⟩ :=
    initialised_partial slips.named slips.line slips.unbuilt
  obtain ⟨data, some_, headers⟩ : ∃ data ≠ [],
      sendHttpHeaders transport h request.body.length 0#32 = sendHttpData transport [] data := by
    by_cases empty : request.body.length = 0
    · refine ⟨h.buffer.take h.headersLen, ?_, by rw [empty, sendHttpHeaders_empty]⟩
      intro none_
      have zero := congrArg List.length none_
      rw [List.length_take, List.length_nil] at zero
      rw [HTTP_MINIMUM_REQUEST_LINE_LENGTH] at long
      omega
    · have room := slips.room.resolve_left (fun none_ => empty (by rw [none_]; rfl))
      rw [Fits, ← size] at room
      exact ⟨_, by simp [HTTP_HEADER_LINE_SEPARATOR],
        sendHttpHeaders_added transport behind empty room⟩
  obtain ⟨ret, rest, sent, _⟩ := send_data transport long inside slips.short some_ headers
  rw [clientSend_eq result, sent, result]
  exact ⟨failed, by simp⟩

/-- The Content-Length header does not fit behind what there is. -/
theorem full_refused {h : HTTPRequestHeaders} {front : List UInt8} (behind : Behind front h)
    (long : HTTP_MINIMUM_REQUEST_LINE_LENGTH ≤ h.headersLen)
    (inside : h.headersLen ≤ h.buffer.length) (size : h.buffer.length = REQUEST_BUF_SIZE)
    (short : request.body.length ≤ INT32_MAX) (some_ : request.body ≠ [])
    (full : ¬ Fits (front ++ lengthLine request.body.length)) :
    HTTPClient_Send transport parser 0#32 h request.body RESPONSE_BUF_SIZE =
      (.HTTPInsufficientMemory, []) := by
  rw [Fits, ← size] at full
  exact send_failed transport long inside short (by simp)
    (sendHttpHeaders_full transport behind (by simpa using some_) full)

theorem nothing_sent (unslipped : ¬ Slips request)
    (unbuildable : ¬ (Buildable request ∧ request.body.length ≤ INT32_MAX)) :
    ∃ status, status ≠ .HTTPSuccess ∧
      clientSend (coreHttp transport parser) request = (status, []) := by
  by_cases short : request.body.length ≤ INT32_MAX
  swap
  · exact ⟨_, by simp, send_invalid transport (.inr (Nat.not_le.mp short))⟩
  by_cases started : Named request ∧ (line request).length ≤ REQUEST_BUF_SIZE
  swap
  · have refused : ¬ Named request ∨ (line request).length > REQUEST_BUF_SIZE := by
      rcases not_and_or.mp started with unnamed | long
      · exact .inl unnamed
      · exact .inr (Nat.not_le.mp long)
    have none_ := (initialised_refused refused).2
    refine ⟨_, by simp, send_invalid transport (.inl ?_)⟩
    show (initialised request).2.headersLen < HTTP_MINIMUM_REQUEST_LINE_LENGTH
    rw [none_]
    decide
  obtain ⟨named, line⟩ := started
  by_cases built : Clean (cstr request.host) ∧ Fits (withHost request)
  · obtain ⟨h, success, block, size⟩ := initialised_built named built.1 built.2
    have full : ¬ Fits (withHost request ++ lengthLine request.body.length) := fun fits =>
      unbuildable ⟨⟨named, built.1, fits⟩, short⟩
    have some_ : request.body ≠ [] := by
      intro empty
      rw [empty, List.length_nil, lengthLine, if_pos rfl, List.append_nil] at full
      exact full built.2
    have inside : h.headersLen ≤ h.buffer.length := by
      rw [block.headersLen, size]
      exact built.2
    rw [clientSend_eq success]
    exact ⟨_, by simp, full_refused block.behind (built_long block) inside size short some_ full⟩
  · obtain ⟨status, h, result, failed, behind, long, inside, size⟩ :=
      initialised_partial named line built
    have full : ¬ (request.body = [] ∨ Fits (standing request ++ lengthLine request.body.length)) :=
      fun room => unslipped ⟨named, line, built, short, room⟩
    obtain ⟨some_, full⟩ := not_or.mp full
    rw [clientSend_eq result]
    exact ⟨_, by simp, full_refused behind long inside size short some_ full⟩

theorem slips_truncated (connects : Connects net request) (slips : Slips request) :
    ¬ Untruncated request (HTTPSendRequest net (coreHttp transport parser) request) := by
  intro untruncated
  obtain ⟨failed, some_⟩ := @slips_sends request transport parser slips
  rw [← (connected connects).1] at some_
  exact failed (untruncated.complete some_).1

/-- A request is sent whole or not at all exactly when it is not connected or not one that
    slips through. -/
theorem untruncated_iff (net : Network) (transport : Transport) (parser : Parser)
    (request : Request) :
    Untruncated request (HTTPSendRequest net (coreHttp transport parser) request) ↔
      ¬ (Connects net request ∧ Slips request) := by
  constructor
  · rintro untruncated ⟨connects, slips⟩
    exact slips_truncated connects slips untruncated
  · intro allowed
    by_cases connects : Connects net request
    swap
    · obtain ⟨none_, failed⟩ := @unconnected request net (coreHttp transport parser) connects
      exact ⟨fun some_ => absurd none_ some_, fun _ => ⟨none_, failed⟩⟩
    obtain ⟨same, status⟩ := @connected request net (coreHttp transport parser) connects
    by_cases buildable : Buildable request ∧ request.body.length ≤ INT32_MAX
    · obtain ⟨success, ret, rest, sent, prefix_⟩ :=
        @buildable_sent request transport parser buildable.1 buildable.2
      rw [← same] at sent
      exact ⟨fun _ => ⟨success, ⟨ret, rest, sent⟩, sent ▸ prefix_⟩,
        fun unbuildable => absurd buildable.1 unbuildable⟩
    · obtain ⟨failure, failed, result⟩ := @nothing_sent request transport parser
        (fun slips => allowed ⟨connects, slips⟩) buildable
      rw [result] at same status
      exact ⟨fun some_ => absurd same some_, fun _ => ⟨same, status ▸ failed⟩⟩

/-- The host ends with a line feed, so that it is rejected, and a part of the headers is sent. -/
theorem rejected_host_sent :
    let net : Network := ⟨3, fun _ => some ⟨[127, 0, 0, 1]⟩, 0⟩
    let transport : Transport :=
      ⟨fun _ bytes => ⟨bytes.length, le_refl _⟩, fun _ _ => .failed ⟨-1, by decide⟩⟩
    let parser : Parser := fun _ => (.HTTPSuccess, .HTTP_PARSING_COMPLETE)
    let request : Request := ⟨text "example.org\n", 80, text "/", text "GET", []⟩
    ¬ Untruncated request (HTTPSendRequest net (coreHttp transport parser) request) := by
  intro net transport parser request
  have slips : Slips request := by
    refine ⟨⟨?_, ?_⟩, ?_, fun built => absurd built.1 ?_, ?_, .inl rfl⟩ <;> decide +kernel
  exact slips_truncated ⟨rfl, by decide⟩ slips

end SpmRequestGuarantees
