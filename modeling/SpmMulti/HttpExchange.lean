import SpmMulti.RequestGuarantees
import SpmMulti.ResponseGuarantees

/- One exchange of HTTPSendRequest from end to end: a transport that takes what it is given and
   then delivers the answer in any segments gets the whole request and has the whole answer
   received. -/
namespace SpmHttpExchange
open SpmMachine SpmHttp SpmHeaderBuffer SpmTransfer SpmRequestGuarantees SpmResponseParser
open SpmResponseMessage SpmResponseGuarantees SpanScanner OverlaidMemory
open SpmCoreHttp hiding receiveLoop receiveAndParseHttpResponse

section Exchange
variable {State : Type} (llhttp : Nat → Machine State SpanKind Event) (transport : Transport)

/-- With the parsing context, which holds the response, once there is one. -/
def HTTPClient_Send (sendFlags : U32) (h : HTTPRequestHeaders) (body : List UInt8)
    (response : HTTPResponse) : HTTPStatus × List TransportCall × Option HTTPParsingContext :=
  if h.headersLen < HTTP_MINIMUM_REQUEST_LINE_LENGTH then (.HTTPInvalidParameter, [], none)
  else if h.headersLen > h.buffer.length then (.HTTPInvalidParameter, [], none)
  else if response.buffer.length = 0 then (.HTTPInvalidParameter, [], none)
  else if body.length > INT32_MAX then (.HTTPInvalidParameter, [], none)
  else
    let (returnStatus, calls) := sendHttpRequest transport h body sendFlags
    if returnStatus = .HTTPSuccess then
      let (returnStatus, calls, parsing) :=
        receiveAndParseHttpResponse llhttp transport h response calls
      (returnStatus, calls, some parsing.context)
    else (returnStatus, calls, none)

/-- What new gives for the response's buffer is left as it was. -/
abbrev ResponseBuffer := { l : List UInt8 // l.length = RESPONSE_BUF_SIZE }

def buffered (response : HTTPResponse) (responseBuffer : ResponseBuffer) : HTTPResponse :=
  { response with buffer := responseBuffer.val }

def HTTPSendRequest (net : Network) (request : Request) (response : HTTPResponse)
    (responseBuffer : ResponseBuffer) :
    HTTPStatus × List NetCall × Option HTTPParsingContext :=
  let sockfd := net.Mynet_socket
  let calls := [NetCall.socket sockfd]
  if sockfd < 0#32 then (.HTTPNetworkError, calls, none)
  else
    let calls := calls ++ [NetCall.gethostbyname request.host]
    match net.Mynet_gethostbyname request.host with
    | none => (.HTTPNetworkError, calls ++ [NetCall.close sockfd], none)
    | some server =>
      let calls := calls ++ [NetCall.connect sockfd (request.port.setWidth 16) server.h_addr]
      if net.Mynet_connect.toInt < 0 then
        (.HTTPNetworkError, calls ++ [NetCall.close sockfd], none)
      else
        let requestHeaders : HTTPRequestHeaders := ⟨List.replicate REQUEST_BUF_SIZE 0, 0⟩
        let requestInfo : HTTPRequestInfo :=
          ⟨cstr request.method, cstr request.path, cstr request.host, 0⟩
        let (_, requestHeaders) := HTTPClient_InitializeRequestHeaders requestHeaders requestInfo
        let (httpStatus, transportCalls, context) := HTTPClient_Send llhttp transport 0#32
          requestHeaders request.body (buffered response responseBuffer)
        (httpStatus, calls ++ transportCalls.map (onSocket sockfd) ++ [NetCall.close sockfd],
          context)

/-- The model of the library in which any parser may judge, with the one of this response. -/
theorem send_refines (sendFlags : U32) (h : HTTPRequestHeaders) (body : List UInt8)
    (response : HTTPResponse) :
    SpmCoreHttp.HTTPClient_Send transport
      (responseParser llhttp (initializeParsingContextForFirstResponse llhttp h response))
      sendFlags h body response.buffer.length =
      ((HTTPClient_Send llhttp transport sendFlags h body response).1,
        (HTTPClient_Send llhttp transport sendFlags h body response).2.1) := by
  unfold SpmCoreHttp.HTTPClient_Send HTTPClient_Send
  split_ifs
  · rfl
  · rfl
  · rfl
  · rfl
  · simp only
    split_ifs
    · exact receive_refines llhttp transport h response _
    · rfl

def coreHttpFor (request : Request) (response : HTTPResponse) : HTTPClient :=
  coreHttp transport (responseParser llhttp
    (initializeParsingContextForFirstResponse llhttp (initialised request).2 response))

theorem sendRequest_refines (net : Network) (request : Request) (response : HTTPResponse)
    (responseBuffer : ResponseBuffer) :
    SpmHttp.HTTPSendRequest net
      (coreHttpFor llhttp transport request (buffered response responseBuffer)) request =
      ((HTTPSendRequest llhttp transport net request response responseBuffer).1,
        (HTTPSendRequest llhttp transport net request response responseBuffer).2.1) := by
  have size : (buffered response responseBuffer).buffer.length = RESPONSE_BUF_SIZE :=
    responseBuffer.2
  have sent := send_refines llhttp transport 0#32 (initialised request).2 request.body
    (buffered response responseBuffer)
  rw [size] at sent
  have client : clientSend (coreHttpFor llhttp transport request
      (buffered response responseBuffer)) request = _ := sent
  simp only [SpmHttp.HTTPSendRequest, HTTPSendRequest, client]
  by_cases closed : net.Mynet_socket < 0#32
  · simp only [if_pos closed]
  simp only [if_neg closed]
  cases net.Mynet_gethostbyname request.host with
  | none => rfl
  | some server =>
    by_cases refused : net.Mynet_connect.toInt < 0
    · simp only [if_pos refused]
    · simp only [if_neg refused]
      rfl

end Exchange

variable {request : Request} {transport : Transport}

/-- Of bytes that it is given, the transport takes at least one. -/
def Takes (transport : Transport) : Prop :=
  ∀ calls bytes, bytes ≠ [] → 0 < (transport.send calls bytes).val

/-- These calls hand over text, and nothing has been received yet. -/
structure Asked (calls : List TransportCall) (text : List UInt8) : Prop where
  sending : ∀ call ∈ calls, (sendOf call).isSome
  accepted : accepted (calls.filterMap sendOf) = text

/-- Whoever is behind the transport gives this answer once it has the whole question. -/
def Answers (transport : Transport) (question answer : List UInt8) : Prop :=
  ∀ calls, Asked calls question → Delivers transport calls answer

theorem sendHttpData_sending (transport : Transport) {calls : List TransportCall}
    (data : List UInt8) (sending : ∀ call ∈ calls, (sendOf call).isSome) :
    ∀ call ∈ (sendHttpData transport calls data).2, (sendOf call).isSome := by
  have longer (bytes : List UInt8) (ret : Int) {calls : List TransportCall}
      (sending : ∀ call ∈ calls, (sendOf call).isSome) :
      ∀ call ∈ calls ++ [.send bytes ret], (sendOf call).isSome := by
    intro call member
    rcases List.mem_append.mp member with before | last
    · exact sending call before
    · rw [List.mem_singleton.mp last]
      rfl
  induction calls, data using sendHttpData.induct transport with
  | case1 calls data none_ =>
    rw [sendHttpData, if_pos none_]
    exact sending
  | case2 calls data some_ bytesSent failed =>
    rw [sendHttpData, if_neg some_]
    simp only [bytesSent] at failed
    simp only [failed, if_true]
    exact longer data _ sending
  | case3 calls data some_ bytesSent calls_ unfailed more ih =>
    rw [sendHttpData, if_neg some_]
    simp only [bytesSent] at unfailed more
    simp only [unfailed, more, if_false, if_true]
    exact ih (longer data _ sending)
  | case4 calls data some_ bytesSent unfailed nothing =>
    rw [sendHttpData, if_neg some_]
    simp only [bytesSent] at unfailed nothing
    simp only [unfailed, nothing, if_false]
    exact longer data _ sending

theorem sendHttpData_taken (takes : Takes transport) (calls : List TransportCall)
    (data : List UInt8) : (sendHttpData transport calls data).1 = .HTTPSuccess := by
  induction calls, data using sendHttpData.induct transport with
  | case1 calls data none_ => rw [sendHttpData, if_pos none_]
  | case2 calls data some_ bytesSent failed =>
    have taken := takes calls data (by simpa using some_)
    simp only [bytesSent] at failed
    omega
  | case3 calls data some_ bytesSent calls_ unfailed more ih =>
    rw [sendHttpData, if_neg some_]
    simp only [bytesSent] at unfailed more
    simp only [unfailed, more, if_false, if_true]
    exact ih
  | case4 calls data some_ bytesSent unfailed nothing =>
    have taken := takes calls data (by simpa using some_)
    simp only [bytesSent] at nothing
    omega

theorem accepted_sent {outcome : HTTPStatus × List TransportCall} {data : List UInt8}
    {calls : List TransportCall} {sends : List (List UInt8 × Int)}
    (sent : Sent data outcome calls sends) (success : outcome.1 = .HTTPSuccess) :
    accepted (outcome.2.filterMap sendOf) = accepted (calls.filterMap sendOf) ++ data := by
  rw [sent.calls, accepted, List.flatMap_append]
  exact congrArg (_ ++ ·) (sent.success success)

theorem sendHttpData_hands {calls : List TransportCall} {text : List UInt8}
    (asked : Asked calls text) (data : List UInt8)
    (success : (sendHttpData transport calls data).1 = .HTTPSuccess) :
    Asked (sendHttpData transport calls data).2 (text ++ data) := by
  obtain ⟨sends, sent⟩ := sendHttpData_sent transport calls data
  refine ⟨sendHttpData_sending transport data asked.sending, ?_⟩
  rw [accepted_sent sent success, asked.accepted]

theorem asked_nothing : Asked [] [] := ⟨by simp, rfl⟩

theorem sendHttpRequest_asked {h : HTTPRequestHeaders} {data body : List UInt8}
    (headers : sendHttpHeaders transport h body.length 0#32 = sendHttpData transport [] data)
    (success : (sendHttpRequest transport h body 0#32).1 = .HTTPSuccess) :
    Asked (sendHttpRequest transport h body 0#32).2 (data ++ body) := by
  simp only [sendHttpRequest, headers] at success ⊢
  by_cases good : (sendHttpData transport [] data).1 = .HTTPSuccess
  · simp only [good, if_true] at success ⊢
    exact sendHttpData_hands (sendHttpData_hands asked_nothing data good) body success
  · rw [if_neg good] at success
    exact absurd success good

/-- The calls into the network when the request is connected. -/
def session (net : Network) (request : Request) (s_addr : List UInt8)
    (calls : List TransportCall) : List NetCall :=
  [NetCall.socket net.Mynet_socket] ++ [NetCall.gethostbyname request.host] ++
    [NetCall.connect net.Mynet_socket (request.port.setWidth 16) s_addr] ++
    calls.map (onSocket net.Mynet_socket) ++ [NetCall.close net.Mynet_socket]

theorem session_sends (net : Network) (request : Request) (s_addr : List UInt8)
    (calls : List TransportCall) :
    sends (session net request s_addr calls) = calls.filterMap sendOf := by
  rw [← sends_onSocket net.Mynet_socket]
  simp [session, sends, sendCall, List.filterMap_cons]

def transportCall : NetCall → Option TransportCall
  | .send _ bytes ret => some (.send bytes ret)
  | .recv _ bytesToRecv ret => some (.recv bytesToRecv ret)
  | _ => none

theorem session_transport (net : Network) (request : Request) (s_addr : List UInt8)
    (calls : List TransportCall) :
    (session net request s_addr calls).filterMap transportCall = calls := by
  have inverse : transportCall ∘ onSocket net.Mynet_socket = some := by
    funext call
    cases call <;> rfl
  simp [session, transportCall, List.filterMap_cons, inverse]

/-- HEAD requests get no body; the request line's first bytes decide. -/
def asksHead (request : Request) : Bool :=
  (cstr request.method).take HTTP_METHOD_HEAD.length = HTTP_METHOD_HEAD

theorem take_head_iff (method rest : List UInt8) :
    (method ++ [SPACE_CHARACTER] ++ rest).take HTTP_METHOD_HEAD.length = HTTP_METHOD_HEAD ↔
      method.take HTTP_METHOD_HEAD.length = HTTP_METHOD_HEAD := by
  have head : HTTP_METHOD_HEAD = [72, 69, 65, 68] := by decide
  rw [head]
  match method with
  | [] => simp [SPACE_CHARACTER]
  | [_] => simp [SPACE_CHARACTER]
  | [_, _] => simp [SPACE_CHARACTER]
  | [_, _, _] => simp [SPACE_CHARACTER]
  | _ :: _ :: _ :: _ :: _ => simp

theorem built_head {h : HTTPRequestHeaders} (built : Built (withHost request) h)
    (response : HTTPResponse) : (frameOf h response).isHeadResponse = asksHead request := by
  obtain ⟨rest, buffer⟩ := built.buffer
  have front : cstr request.method ++ [SPACE_CHARACTER] <+: h.buffer := by
    rw [buffer, withHost, withAgent, line, requestLine]
    simp only [List.append_assoc]
    rw [← List.append_assoc]
    exact List.prefix_append _ _
  obtain ⟨behind, buffer⟩ := front
  simp only [frameOf, asksHead, ← buffer, take_head_iff]

section Exchange
variable {State : Type} (llhttp : Nat → Machine State SpanKind Event)
variable {data body answer : List UInt8} {m : Message}

theorem receive_sends (h : HTTPRequestHeaders) (response : HTTPResponse)
    (calls : List TransportCall) :
    (receiveAndParseHttpResponse llhttp transport h response calls).2.1.filterMap sendOf =
      calls.filterMap sendOf := by
  have sends := receiveLoop_sends transport
    (responseParser llhttp (initializeParsingContextForFirstResponse llhttp h response))
    response.buffer.length 0 [] calls
  have refines := receive_refines llhttp transport h response calls
  rw [SpmCoreHttp.receiveAndParseHttpResponse] at refines
  rwa [refines] at sends

theorem receive_recvs (h : HTTPRequestHeaders) (response : HTTPResponse)
    {calls recvs : List TransportCall}
    (after : (receiveAndParseHttpResponse llhttp transport h response calls).2.1 =
      calls ++ recvs) : ∀ call ∈ recvs, sendOf call = none := by
  have sends := @receive_sends transport State llhttp h response calls
  rw [after, List.filterMap_append, List.append_right_eq_self] at sends
  exact List.filterMap_eq_nil_iff.mp sends

theorem send_answered {h : HTTPRequestHeaders} {response : HTTPResponse}
    (long : HTTP_MINIMUM_REQUEST_LINE_LENGTH ≤ h.headersLen)
    (inside : h.headersLen ≤ h.buffer.length) (short : body.length ≤ INT32_MAX)
    (headers : sendHttpHeaders transport h body.length 0#32 = sendHttpData transport [] data)
    (takes : Takes transport) (answers : Answers transport (data ++ body) answer)
    (fits : answer.length ≤ response.buffer.length) (some_ : response.buffer.length ≠ 0)
    (ends : EndsWith llhttp (frameOf h response).isHeadResponse answer m) :
    let (status, calls, context) := HTTPClient_Send llhttp transport 0#32 h body response
    status = .HTTPSuccess ∧ accepted (calls.filterMap sendOf) = data ++ body ∧
      ∃ c, context = some c ∧ Shows c answer m := by
  have first := sendHttpData_taken takes [] data
  have second := sendHttpData_taken takes (sendHttpData transport [] data).2 body
  have asked := sendHttpData_hands (sendHttpData_hands asked_nothing data first) body second
  have received := receiveLoop_delivers llhttp transport _ rfl fits (answers _ asked) ends
    (List.append_nil _).symm trivial rfl ends.nonempty (initialised_caught llhttp h response)
  simp only [HTTPClient_Send, Nat.not_lt.mpr long, Nat.not_lt.mpr inside, Nat.not_lt.mpr short,
    some_, if_false, sendHttpRequest, headers, first, second, if_true]
  refine ⟨received.1, ?_, _, rfl, received.2⟩
  rw [receive_sends]
  exact asked.accepted

variable {net : Network} {response : HTTPResponse} {responseBuffer : ResponseBuffer}

theorem sendRequest_connected (connects : Connects net request) :
    ∃ s_addr,
      HTTPSendRequest llhttp transport net request response responseBuffer =
        let (httpStatus, calls, context) := HTTPClient_Send llhttp transport 0#32
          (initialised request).2 request.body (buffered response responseBuffer)
        (httpStatus, session net request s_addr calls, context) := by
  have unsigned : ¬ net.Mynet_socket < 0#32 := by simp [BitVec.lt_def]
  obtain ⟨found, accepts⟩ := connects
  obtain ⟨server, found⟩ := Option.isSome_iff_exists.mp found
  refine ⟨server.h_addr, ?_⟩
  simp only [HTTPSendRequest, if_neg unsigned, found, if_neg (Int.not_lt.mpr accepts)]
  rfl

theorem sendRequest_unconnected (refused : ¬ Connects net request) :
    (HTTPSendRequest llhttp transport net request response responseBuffer).1 ≠ .HTTPSuccess := by
  have refines := sendRequest_refines llhttp transport net request response responseBuffer
  have failed := (@unconnected request net
    (coreHttpFor llhttp transport request (buffered response responseBuffer)) refused).2
  rwa [refines] at failed

theorem buildable_built (buildable : Buildable request) :
    ∃ h, initialised request = (.HTTPSuccess, h) ∧ Built (withHost request) h ∧
      h.buffer.length = REQUEST_BUF_SIZE ∧ h.headersLen ≤ h.buffer.length := by
  have block := fits_withHost buildable.fits
  obtain ⟨h, success, built, size⟩ := initialised_built buildable.named buildable.clean block
  refine ⟨h, success, built, size, ?_⟩
  rw [built.headersLen, size]
  exact block

/-- A request that can be built reaches the other side whole, and an answer that fits in the
    response's buffer is received whole, in whatever segments both of them go. -/
theorem request_answered (connects : Connects net request) (buildable : Buildable request)
    (short : request.body.length ≤ INT32_MAX) (takes : Takes transport)
    (answers : Answers transport (headerBlock request ++ request.body) answer)
    (fits : answer.length ≤ RESPONSE_BUF_SIZE)
    (ends : EndsWith llhttp (asksHead request) answer m) :
    let outcome := HTTPSendRequest llhttp transport net request response responseBuffer
    outcome.1 = .HTTPSuccess ∧
      accepted (sends outcome.2.1) = headerBlock request ++ request.body ∧
      ∃ c, outcome.2.2 = some c ∧ Shows c answer m := by
  obtain ⟨h, success, built, size, inside⟩ := buildable_built buildable
  have room : (buffered response responseBuffer).buffer.length = RESPONSE_BUF_SIZE :=
    responseBuffer.2
  rw [← built_head built (buffered response responseBuffer)] at ends
  have sent := send_answered llhttp (built_long built) inside short
    (block_headers built size buildable.fits) takes answers (room ▸ fits)
    (by rw [room]; decide) ends
  obtain ⟨s_addr, outcome⟩ := @sendRequest_connected request transport State llhttp net response
    responseBuffer connects
  rw [success] at outcome
  simp only [outcome, session_sends]
  exact sent

theorem final_complete {state : HTTPParsingState} {totalReceived responseBufferLen : Nat}
    (success : getFinalResponseStatus state totalReceived responseBufferLen = .HTTPSuccess) :
    state = .HTTP_PARSING_COMPLETE := by
  cases state with
  | HTTP_PARSING_NONE => simp [getFinalResponseStatus] at success
  | HTTP_PARSING_INCOMPLETE =>
    simp only [getFinalResponseStatus] at success
    split at success <;> contradiction
  | HTTP_PARSING_COMPLETE => rfl

/-- Success means that all of data and body was taken and that what came back is complete. -/
theorem send_earned {h : HTTPRequestHeaders}
    (long : HTTP_MINIMUM_REQUEST_LINE_LENGTH ≤ h.headersLen) (inside : h.headersLen ≤ h.buffer.length)
    (headers : sendHttpHeaders transport h body.length 0#32 = sendHttpData transport [] data)
    (success : (HTTPClient_Send llhttp transport 0#32 h body response).1 = .HTTPSuccess) :
    ∃ asked recvs c,
      (HTTPClient_Send llhttp transport 0#32 h body response).2 = (asked ++ recvs, some c) ∧
      Asked asked (data ++ body) ∧ (∀ call ∈ recvs, sendOf call = none) ∧
      let reads :=
        messageOf llhttp (frameOf h response).isHeadResponse (handedOver transport asked recvs)
      (∀ code, reads = .failed code → processLlhttpError code = .HTTPSuccess) ∧
      ∀ current span m, reads = .going current span m →
        m.state = .HTTP_PARSING_COMPLETE ∧ Shows c (handedOver transport asked recvs) m := by
  simp only [HTTPClient_Send, if_neg (Nat.not_lt.mpr long), if_neg (Nat.not_lt.mpr inside)]
    at success ⊢
  split_ifs at success ⊢ with empty large sent
  swap
  · exact absurd success sent
  obtain ⟨recvs, _, after, tells⟩ := receiveLoop_tells llhttp transport
    (sendHttpRequest transport h body 0#32).2 rfl rfl (Nat.zero_le _)
    (initialised_caught llhttp h response) (by simp [Unfaulted, messageOf, reading])
  refine ⟨_, recvs, _, Prod.ext after rfl, sendHttpRequest_asked headers sent,
    receive_recvs llhttp h response after, fun code faulted => ?_, ?_⟩
  · by_contra bad
    exact bad ((tells.failed code faulted bad).symm.trans success)
  intro current span m reads
  have sound : ¬ Broken recvs := by
    intro broken
    have failed := success.symm.trans (tells.broken.mpr broken)
    contradiction
  obtain ⟨final, shows_⟩ := tells.told current span m reads sound
  exact ⟨final_complete (final.symm.trans success), shows_⟩

theorem asked_accepted {asked recvs : List TransportCall} {text : List UInt8}
    (asks : Asked asked text) (receives : ∀ call ∈ recvs, sendOf call = none) :
    accepted ((asked ++ recvs).filterMap sendOf) = text := by
  rw [List.filterMap_append, List.filterMap_eq_nil_iff.mpr receives, List.append_nil,
    asks.accepted]

/-- No success is reported unless the request was taken whole, and after it a whole response
    came back. -/
theorem success_earned (buildable : Buildable request)
    (success : (HTTPSendRequest llhttp transport net request response responseBuffer).1 =
      .HTTPSuccess) :
    let outcome := HTTPSendRequest llhttp transport net request response responseBuffer
    accepted (sends outcome.2.1) = headerBlock request ++ request.body ∧
      ∃ asked recvs c, outcome.2.1.filterMap transportCall = asked ++ recvs ∧
        Asked asked (headerBlock request ++ request.body) ∧
        (∀ call ∈ recvs, sendOf call = none) ∧ outcome.2.2 = some c ∧
        let reads := messageOf llhttp (asksHead request) (handedOver transport asked recvs)
        (∀ code, reads = .failed code → processLlhttpError code = .HTTPSuccess) ∧
        ∀ current span m, reads = .going current span m →
          m.state = .HTTP_PARSING_COMPLETE ∧ Shows c (handedOver transport asked recvs) m := by
  have connects : Connects net request := by
    by_contra refused
    exact sendRequest_unconnected llhttp refused success
  obtain ⟨h, done, built, size, inside⟩ := buildable_built buildable
  obtain ⟨s_addr, outcome⟩ := @sendRequest_connected request transport State llhttp net response
    responseBuffer connects
  rw [done] at outcome
  rw [outcome] at success
  obtain ⟨asked, recvs, c, sent, asks, receives, told⟩ := send_earned llhttp (built_long built)
    inside (block_headers built size buildable.fits) success
  simp only [outcome, session_sends, session_transport, sent]
  rw [built_head built] at told
  exact ⟨asked_accepted asks receives, asked, recvs, c, rfl, asks, receives, rfl, told⟩

end Exchange

theorem inParts_takes (text : List UInt8) (most : Nat) : Takes (inParts text most) := by
  intro calls bytes some_
  have taken := List.length_pos_iff.mpr some_
  exact Int.natCast_pos.mpr taken

theorem sending_received {calls : List TransportCall}
    (sending : ∀ call ∈ calls, (sendOf call).isSome) : totalReceived calls = 0 := by
  induction calls with
  | nil => rfl
  | cons call calls ih =>
    obtain ⟨first, later⟩ := List.forall_mem_cons.mp sending
    cases call with
    | send bytes ret => exact ih later
    | recv room ret => exact absurd first (by simp [sendOf])

theorem inParts_answers (question answer : List UInt8) {most : Nat} (positive : 0 < most) :
    Answers (inParts answer most) question answer := by
  intro calls asked
  exact inParts_delivers answer positive (sending_received asked.sending)

def localNetwork : Network := ⟨3, fun _ => some ⟨[127, 0, 0, 1]⟩, 0⟩

def shortGet : Request := ⟨text "example.org", 80, text "/", text "GET", []⟩

def zeroBuffer : ResponseBuffer :=
  ⟨List.replicate RESPONSE_BUF_SIZE 0, List.length_replicate⟩

theorem shortGet_buildable : Buildable shortGet where
  named := ⟨by decide +kernel, by decide +kernel⟩
  clean := by decide +kernel
  fits := by decide +kernel

theorem request_answered_short :
    Connects localNetwork shortGet ∧ Buildable shortGet ∧
      shortGet.body.length ≤ INT32_MAX ∧ Takes (inParts shortText 10) ∧
      Answers (inParts shortText 10) (headerBlock shortGet ++ shortGet.body) shortText ∧
      shortText.length ≤ RESPONSE_BUF_SIZE ∧
      EndsWith (fun _ => shortMachine) (asksHead shortGet) shortText shortMessage ∧
      let outcome := HTTPSendRequest (fun _ => shortMachine) (inParts shortText 10) localNetwork
        shortGet (blankResponse 0) zeroBuffer
      outcome.1 = .HTTPSuccess ∧
        accepted (sends outcome.2.1) = headerBlock shortGet ++ shortGet.body ∧
        ∃ c, outcome.2.2 = some c ∧ Shows c shortText shortMessage := by
  have connects : Connects localNetwork shortGet := ⟨rfl, by decide⟩
  have short : shortGet.body.length ≤ INT32_MAX := by decide
  have takes := inParts_takes shortText 10
  have answers := inParts_answers (headerBlock shortGet ++ shortGet.body) shortText
    (show 0 < 10 by omega)
  have fits : shortText.length ≤ RESPONSE_BUF_SIZE := by decide
  have ends := short_ends (asksHead shortGet)
  exact ⟨connects, shortGet_buildable, short, takes, answers, fits, ends,
    request_answered _ connects shortGet_buildable short takes answers fits ends⟩

theorem short_succeeds :
    (HTTPSendRequest (fun _ => shortMachine) (inParts shortText 10) localNetwork shortGet
      (blankResponse 0) zeroBuffer).1 = .HTTPSuccess := by
  decide +kernel

theorem success_earned_short :
    let outcome := HTTPSendRequest (fun _ => shortMachine) (inParts shortText 10) localNetwork
      shortGet (blankResponse 0) zeroBuffer
    Buildable shortGet ∧ outcome.1 = .HTTPSuccess ∧
      accepted (sends outcome.2.1) = headerBlock shortGet ++ shortGet.body ∧
      ∃ asked recvs c, outcome.2.1.filterMap transportCall = asked ++ recvs ∧
        Asked asked (headerBlock shortGet ++ shortGet.body) ∧
        (∀ call ∈ recvs, sendOf call = none) ∧ outcome.2.2 = some c ∧
        let reads := messageOf (fun _ => shortMachine) (asksHead shortGet)
          (handedOver (inParts shortText 10) asked recvs)
        (∀ code, reads = .failed code → processLlhttpError code = .HTTPSuccess) ∧
        ∀ current span m, reads = .going current span m →
          m.state = .HTTP_PARSING_COMPLETE ∧
            Shows c (handedOver (inParts shortText 10) asked recvs) m :=
  ⟨shortGet_buildable, short_succeeds, success_earned _ shortGet_buildable short_succeeds⟩

end SpmHttpExchange
