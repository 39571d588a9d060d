import SpmMulti.CoreHttp
import SpmMulti.Lib.SpanScanner

/- How the HTTP client library reads a response (source/corehttp/core_http_client.cpp): the
   callbacks it gives to llhttp, parseHttpResponse and the loop that receives. Of llhttp the
   generated llhttp__internal__run is a parameter, a machine for each code that on_headers_complete
   may return; llhttp__internal_execute around it is SpanScanner.execute. Pointers into the
   response buffer are offsets, and the response is kept in the context that points to it. -/
namespace SpmResponseParser
open SpmMachine SpmHttp SpmCoreHttp SpanScanner OverlaidMemory

inductive SpanKind where
  | status (status_code : BitVec 16) | header_field | header_value | body
  deriving DecidableEq

inductive Event where
  | message_begin
  | headers_complete (content_length : BitVec 64) (flags : BitVec 16)
  | message_complete

def F_CONNECTION_KEEP_ALIVE : BitVec 16 := 1
def F_CONNECTION_CLOSE : BitVec 16 := 2

def HTTP_RESPONSE_CONNECTION_CLOSE_FLAG : U32 := 1
def HTTP_RESPONSE_CONNECTION_KEEP_ALIVE_FLAG : U32 := 2

def LLHTTP_CONTINUE_PARSING : Nat := 0
def LLHTTP_STOP_PARSING_NO_BODY : Nat := 1
def UINT64_MAX : BitVec 64 := BitVec.allOnes 64
def HTTP_METHOD_HEAD : List UInt8 := text "HEAD"

/-- What onHeaderCallback is called with. -/
structure Header where
  field : List UInt8
  value : List UInt8
  statusCode : BitVec 16
  deriving DecidableEq

structure HTTPResponse where
  buffer : List UInt8
  /-- Whether there is a header callback. -/
  headerParsingCallback : Bool
  headers : Option Nat
  headersLen : Nat
  body : Option Nat
  bodyLen : Nat
  statusCode : BitVec 16
  contentLength : U32
  headerCount : Nat
  respFlags : U32

structure HTTPParsingContext where
  state : HTTPParsingState
  response : HTTPResponse
  /-- Whether pResponse is set. -/
  attached : Bool
  isHeadResponse : Bool
  bufferCur : Nat
  lastHeaderField : Option Nat
  lastHeaderFieldLen : Nat
  lastHeaderValue : Option Nat
  lastHeaderValueLen : Nat
  /-- The calls of onHeaderCallback so far. -/
  onHeaderCallback : List Header

def bytesAt (buffer : List UInt8) (loc length : Nat) : List UInt8 :=
  (buffer.drop loc).take length

def processCompleteHeader (c : HTTPParsingContext) : HTTPParsingContext :=
  match c.lastHeaderField, c.lastHeaderValue with
  | some field, some value =>
    let found : Header :=
      { field := bytesAt c.response.buffer field c.lastHeaderFieldLen
        value := bytesAt c.response.buffer value c.lastHeaderValueLen
        statusCode := c.response.statusCode }
    { c with
      response := { c.response with headerCount := c.response.headerCount + 1 }
      onHeaderCallback :=
        if c.response.headerParsingCallback then c.onHeaderCallback ++ [found]
        else c.onHeaderCallback
      lastHeaderField := none
      lastHeaderFieldLen := 0
      lastHeaderValue := none
      lastHeaderValueLen := 0 }
  | _, _ => c

def httpParserOnMessageBeginCallback (c : HTTPParsingContext) : HTTPParsingContext :=
  { c with state := .HTTP_PARSING_INCOMPLETE }

def httpParserOnStatusCallback (status_code : BitVec 16) (c : HTTPParsingContext)
    (loc length : Nat) : Nat × HTTPParsingContext :=
  (LLHTTP_CONTINUE_PARSING,
    { c with
      bufferCur := loc + length
      lastHeaderField := none
      lastHeaderFieldLen := 0
      lastHeaderValue := none
      lastHeaderValueLen := 0
      response := { c.response with statusCode := status_code } })

def httpParserOnHeaderFieldCallback (c : HTTPParsingContext) (loc length : Nat) :
    Nat × HTTPParsingContext :=
  let c := { c with
    response := { c.response with headers := some (c.response.headers.getD loc) }
    bufferCur := loc + length }
  let c := processCompleteHeader c
  (LLHTTP_CONTINUE_PARSING,
    match c.lastHeaderField with
    | none => { c with lastHeaderField := some loc, lastHeaderFieldLen := length }
    | some _ => { c with lastHeaderFieldLen := c.lastHeaderFieldLen + length })

def httpParserOnHeaderValueCallback (c : HTTPParsingContext) (loc length : Nat) :
    Nat × HTTPParsingContext :=
  let c := { c with bufferCur := loc + length }
  (LLHTTP_CONTINUE_PARSING,
    match c.lastHeaderValue with
    | none => { c with lastHeaderValue := some loc, lastHeaderValueLen := length }
    | some _ => { c with lastHeaderValueLen := c.lastHeaderValueLen + length })

/-- A HEAD response has no body, whatever its Content-Length says. -/
def shouldContinueParse (isHeadResponse : Bool) : Nat :=
  if isHeadResponse then LLHTTP_STOP_PARSING_NO_BODY else LLHTTP_CONTINUE_PARSING

def httpParserOnHeadersCompleteCallback (content_length : BitVec 64) (flags : BitVec 16)
    (c : HTTPParsingContext) : Nat × HTTPParsingContext :=
  let headersLen :=
    match c.response.headers with
    | some headers => c.bufferCur - headers
    | none => 0
  let contentLength := if content_length ≠ UINT64_MAX then content_length.setWidth 32 else 0
  let respFlags := c.response.respFlags
  let respFlags :=
    if flags &&& F_CONNECTION_CLOSE ≠ 0 then respFlags ||| HTTP_RESPONSE_CONNECTION_CLOSE_FLAG
    else respFlags
  let respFlags :=
    if flags &&& F_CONNECTION_KEEP_ALIVE ≠ 0 then
      respFlags ||| HTTP_RESPONSE_CONNECTION_KEEP_ALIVE_FLAG
    else respFlags
  (shouldContinueParse c.isHeadResponse,
    processCompleteHeader { c with
      response := { c.response with
        headersLen := headersLen
        contentLength := contentLength
        respFlags := respFlags } })

def httpParserOnBodyCallback (c : HTTPParsingContext) (loc length : Nat) :
    Nat × HTTPParsingContext :=
  let (body, bodyLen) :=
    match c.response.body with
    | none => (loc, 0)
    | some body => (body, c.response.bodyLen)
  let nextWriteLoc := body + bodyLen
  -- behind a chunk header the body's bytes are moved up to those in front of it
  let buffer :=
    if loc > nextWriteLoc then
      overlay c.response.buffer nextWriteLoc (bytesAt c.response.buffer loc length)
    else c.response.buffer
  (LLHTTP_CONTINUE_PARSING,
    { c with
      response := { c.response with
        buffer := buffer
        body := some body
        bodyLen := bodyLen + length }
      bufferCur := loc + length })

def httpParserOnMessageCompleteCallback (c : HTTPParsingContext) : HTTPParsingContext :=
  { c with state := .HTTP_PARSING_COMPLETE }

def llhttpSettings : Callbacks HTTPParsingContext SpanKind Event where
  byteAt c i := c.response.buffer.getD i 0
  span
    | .status status_code => httpParserOnStatusCallback status_code
    | .header_field => httpParserOnHeaderFieldCallback
    | .header_value => httpParserOnHeaderValueCallback
    | .body => httpParserOnBodyCallback
  event
    | .message_begin, c => httpParserOnMessageBeginCallback c
    | .headers_complete content_length flags, c =>
      (httpParserOnHeadersCompleteCallback content_length flags c).2
    | .message_complete, c => httpParserOnMessageCompleteCallback c

/-- By llhttp's error numbers. -/
def processLlhttpError : Nat → HTTPStatus
  | 0 => .HTTPSuccess
  | 14 => .HTTPSuccess
  | 5 => .HTTPSecurityAlertExtraneousResponseData
  | 12 => .HTTPSecurityAlertInvalidChunkHeader
  | 9 => .HTTPSecurityAlertInvalidProtocolVersion
  | 13 => .HTTPSecurityAlertInvalidStatusCode
  | 2 | 8 | 3 | 10 => .HTTPSecurityAlertInvalidCharacter
  | 11 | 4 => .HTTPSecurityAlertInvalidContentLength
  | _ => .HTTPParserInternalError

section Parsing
variable {State : Type} (llhttp : Nat → Machine State SpanKind Event)

abbrev Parsing (State : Type) := Scan State SpanKind HTTPParsingContext

def initializeParsingContextForFirstResponse (requestHeaders : HTTPRequestHeaders)
    (response : HTTPResponse) : Parsing State :=
  let isHeadResponse := requestHeaders.buffer.take HTTP_METHOD_HEAD.length = HTTP_METHOD_HEAD
  { current := (llhttp (shouldContinueParse isHeadResponse)).start
    error := 0
    span := none
    context :=
      { state := .HTTP_PARSING_NONE
        response := response
        attached := false
        isHeadResponse := isHeadResponse
        bufferCur := 0
        lastHeaderField := none
        lastHeaderFieldLen := 0
        lastHeaderValue := none
        lastHeaderValueLen := 0
        onHeaderCallback := [] } }

def attach (c : HTTPParsingContext) : HTTPParsingContext :=
  if c.attached then c
  else
    { c with
      attached := true
      bufferCur := 0
      response := { c.response with
        statusCode := 0
        body := none
        bodyLen := 0
        headers := none
        headersLen := 0
        headerCount := 0
        respFlags := 0 } }

def parseHttpResponse (parsing : Parsing State) (parseLen : Nat) : HTTPStatus × Parsing State :=
  let c := attach parsing.context
  let parsingStartLoc := c.bufferCur
  let parsing := execute (llhttp (shouldContinueParse c.isHeadResponse)) llhttpSettings
    { parsing with context := c } parsingStartLoc parseLen
  (processLlhttpError parsing.error,
    { parsing with
      context := { parsing.context with bufferCur := parsingStartLoc + parseLen } })

/-- The transport's recv puts the bytes behind those received before. -/
def store (parsing : Parsing State) (totalReceived : Nat) (bytes : List UInt8) : Parsing State :=
  let response := parsing.context.response
  { parsing with
    context := { parsing.context with
      response := { response with buffer := overlay response.buffer totalReceived bytes } } }

/-- The loop of receiveAndParseHttpResponse, with the parsing context that it carries on. -/
def receiveLoop (transport : Transport) (bufferLen totalReceived : Nat) (parsing : Parsing State)
    (calls : List TransportCall) : HTTPStatus × List TransportCall × Parsing State :=
  let room := bufferLen - totalReceived
  match transport.recv calls room with
  | .failed code => (.HTTPNetworkError, calls ++ [.recv room code], parsing)
  | .chunk bytes =>
    let received := bytes.val.length
    let calls := calls ++ [.recv room received]
    let (returnStatus, parsing) :=
      parseHttpResponse llhttp (store parsing totalReceived bytes.val) received
    let totalReceived := totalReceived + received
    let state := parsing.context.state
    if returnStatus ≠ .HTTPSuccess then (returnStatus, calls, parsing)
    else if _h : received = 0 ∨ state = .HTTP_PARSING_COMPLETE ∨ bufferLen ≤ totalReceived then
      (getFinalResponseStatus state totalReceived bufferLen, calls, parsing)
    else receiveLoop transport bufferLen totalReceived parsing calls
termination_by bufferLen - totalReceived
decreasing_by omega

def receiveAndParseHttpResponse (transport : Transport) (requestHeaders : HTTPRequestHeaders)
    (response : HTTPResponse) (calls : List TransportCall) :
    HTTPStatus × List TransportCall × Parsing State :=
  receiveLoop llhttp transport response.buffer.length 0
    (initializeParsingContextForFirstResponse llhttp requestHeaders response) calls

end Parsing
end SpmResponseParser
