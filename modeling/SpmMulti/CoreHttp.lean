import SpmMulti.Http
import SpmMulti.Lib.OverlaidMemory

/- The HTTP client library (source/corehttp/core_http_client.cpp) with which HTTPSendRequest
   builds, sends and receives. bufferLen is the length of the buffer. Sizes are natural
   numbers: strings and bodies that lie in the console's memory are too short for a sum of
   their lengths to wrap. The response that is passed in is empty, so its getTime is null and
   no time is ever measured. The response parser (llhttp and its callbacks) is a parameter. -/
namespace SpmCoreHttp
open SpmMachine SpmHttp OverlaidMemory

def HTTP_PROTOCOL_VERSION : List UInt8 := text "HTTP/1.1"
def HTTP_EMPTY_PATH : List UInt8 := text "/"
def HTTP_HEADER_LINE_SEPARATOR : List UInt8 := [13, 10]
def HTTP_HEADER_END_INDICATOR : List UInt8 := [13, 10, 13, 10]
def HTTP_HEADER_FIELD_SEPARATOR : List UInt8 := text ": "
def HTTP_USER_AGENT_FIELD : List UInt8 := text "User-Agent"
def HTTP_USER_AGENT_VALUE : List UInt8 := text "my-platform-name"
def HTTP_HOST_FIELD : List UInt8 := text "Host"
def HTTP_CONNECTION_FIELD : List UInt8 := text "Connection"
def HTTP_CONNECTION_KEEP_ALIVE_VALUE : List UInt8 := text "keep-alive"
def HTTP_CONTENT_LENGTH_FIELD : List UInt8 := text "Content-Length"

def SPACE_CHARACTER : UInt8 := 32
def LINEFEED_CHARACTER : UInt8 := 10
def CARRIAGE_RETURN_CHARACTER : UInt8 := 13
def COLON_CHARACTER : UInt8 := 58

def HTTP_REQUEST_KEEP_ALIVE_FLAG : U32 := 1
def HTTP_SEND_DISABLE_CONTENT_LENGTH_FLAG : U32 := 1
def HTTP_MINIMUM_REQUEST_LINE_LENGTH : Nat := 16
def INT32_MAX : Nat := 2 ^ 31 - 1

inductive HTTPParsingState where
  | HTTP_PARSING_NONE | HTTP_PARSING_INCOMPLETE | HTTP_PARSING_COMPLETE
  deriving DecidableEq

inductive Received (bytesToRecv : Nat) where
  | failed (code : { n : Int // n < 0 })
  | chunk (bytes : { l : List UInt8 // l.length ≤ bytesToRecv })

/-- What send and recv return, by the calls made so far; neither exceeds what it is asked. -/
structure Transport where
  send : List TransportCall → (bytes : List UInt8) → { ret : Int // ret ≤ bytes.length }
  recv : List TransportCall → (bytesToRecv : Nat) → Received bytesToRecv

/-- What parseHttpResponse makes of the last of the chunks received. -/
abbrev Parser := List (List UInt8) → HTTPStatus × HTTPParsingState

/-- Whether all of src was copied, and the buffer; what was copied before an invalid character
    stays there. -/
def httpHeaderStrncpy (buffer : List UInt8) (dest : Nat) (isField : Bool) :
    List UInt8 → Bool × List UInt8
  | [] => (true, buffer)
  | c :: src =>
    if c = CARRIAGE_RETURN_CHARACTER then (false, buffer)
    else if c = LINEFEED_CHARACTER then (false, buffer)
    else if isField ∧ c = COLON_CHARACTER then (false, buffer)
    else httpHeaderStrncpy (overlay buffer dest [c]) (dest + 1) isField src

/-- Where the next header goes: in front of a closing line separator. -/
def backtrackHeaderLen (h : HTTPRequestHeaders) : Nat :=
  if 4 ≤ h.headersLen ∧ (h.buffer.drop (h.headersLen - 4)).take 4 = HTTP_HEADER_END_INDICATOR then
    h.headersLen - HTTP_HEADER_LINE_SEPARATOR.length
  else h.headersLen

def addHeader (h : HTTPRequestHeaders) (field value : List UInt8) :
    HTTPStatus × HTTPRequestHeaders :=
  let cur := backtrackHeaderLen h
  let toAddLen := field.length + HTTP_HEADER_FIELD_SEPARATOR.length + value.length +
    HTTP_HEADER_LINE_SEPARATOR.length + HTTP_HEADER_LINE_SEPARATOR.length
  if cur + toAddLen ≤ h.buffer.length then
    match httpHeaderStrncpy h.buffer cur true field with
    | (false, buffer) => (.HTTPSecurityAlertInvalidCharacter, { h with buffer := buffer })
    | (true, buffer) =>
      let buffer := overlay buffer (cur + field.length) HTTP_HEADER_FIELD_SEPARATOR
      let valueCur := cur + field.length + HTTP_HEADER_FIELD_SEPARATOR.length
      match httpHeaderStrncpy buffer valueCur false value with
      | (false, buffer) => (.HTTPSecurityAlertInvalidCharacter, { h with buffer := buffer })
      | (true, buffer) =>
        let buffer := overlay buffer (valueCur + value.length) HTTP_HEADER_END_INDICATOR
        (.HTTPSuccess, ⟨buffer, cur + toAddLen⟩)
  else (.HTTPInsufficientMemory, h)

/-- The pieces are copied one behind the other. -/
def writeRequestLine (h : HTTPRequestHeaders) (method path : List UInt8) :
    HTTPStatus × HTTPRequestHeaders :=
  let path := if path.length = 0 then HTTP_EMPTY_PATH else path
  let toAddLen := method.length + 1 + 1 + HTTP_PROTOCOL_VERSION.length +
    HTTP_HEADER_LINE_SEPARATOR.length + path.length
  if toAddLen + h.headersLen > h.buffer.length then (.HTTPInsufficientMemory, h)
  else
    let line := method ++ [SPACE_CHARACTER] ++ path ++ [SPACE_CHARACTER] ++
      HTTP_PROTOCOL_VERSION ++ HTTP_HEADER_LINE_SEPARATOR
    (.HTTPSuccess, ⟨overlay h.buffer 0 line, toAddLen⟩)

/-- One step of the request's headers, when those before it have succeeded. -/
def next (done : HTTPStatus × HTTPRequestHeaders)
    (step : HTTPRequestHeaders → HTTPStatus × HTTPRequestHeaders) :
    HTTPStatus × HTTPRequestHeaders :=
  if done.1 = .HTTPSuccess then step done.2 else done

def HTTPClient_InitializeRequestHeaders (h : HTTPRequestHeaders) (requestInfo : HTTPRequestInfo) :
    HTTPStatus × HTTPRequestHeaders :=
  if requestInfo.method.length = 0 then (.HTTPInvalidParameter, h)
  else if requestInfo.host.length = 0 then (.HTTPInvalidParameter, h)
  else
    let done := writeRequestLine { h with headersLen := 0 } requestInfo.method requestInfo.path
    let done := next done fun h => addHeader h HTTP_USER_AGENT_FIELD HTTP_USER_AGENT_VALUE
    let done := next done fun h => addHeader h HTTP_HOST_FIELD requestInfo.host
    next done fun h =>
      if HTTP_REQUEST_KEEP_ALIVE_FLAG &&& requestInfo.reqFlags ≠ 0#32 then
        addHeader h HTTP_CONNECTION_FIELD HTTP_CONNECTION_KEEP_ALIVE_VALUE
      else (.HTTPSuccess, h)

/-- The digits from the last to the first. -/
def reversedDigits (absoluteValue : Nat) : List UInt8 :=
  UInt8.ofNat (absoluteValue % 10 + 48) ::
    if absoluteValue / 10 = 0 then [] else reversedDigits (absoluteValue / 10)
termination_by absoluteValue

def convertInt32ToAscii (value : Int) : List UInt8 :=
  if value < 0 then '-'.toUInt8 :: (reversedDigits value.natAbs).reverse
  else (reversedDigits value.natAbs).reverse

def addContentLengthHeader (h : HTTPRequestHeaders) (contentLength : Nat) :
    HTTPStatus × HTTPRequestHeaders :=
  addHeader h HTTP_CONTENT_LENGTH_FIELD (convertInt32ToAscii contentLength)

section Transfer
variable (transport : Transport)

/-- When nothing was sent the loop ends, since the retry timeout is 0. -/
def sendHttpData (calls : List TransportCall) (data : List UInt8) :
    HTTPStatus × List TransportCall :=
  if data.length = 0 then (.HTTPSuccess, calls)
  else
    let bytesSent := (transport.send calls data).val
    let calls := calls ++ [.send data bytesSent]
    if bytesSent < 0 then (.HTTPNetworkError, calls)
    else if bytesSent > 0 then sendHttpData calls (data.drop bytesSent.toNat)
    else (.HTTPNetworkError, calls)
termination_by data.length
decreasing_by
  rw [List.length_drop]
  omega

def sendHttpHeaders (h : HTTPRequestHeaders) (reqBodyLen : Nat) (sendFlags : U32) :
    HTTPStatus × List TransportCall :=
  let shouldSendContentLength :=
    sendFlags &&& HTTP_SEND_DISABLE_CONTENT_LENGTH_FLAG = 0#32 ∧ reqBodyLen > 0
  let done :=
    if shouldSendContentLength then addContentLengthHeader h reqBodyLen else (.HTTPSuccess, h)
  if done.1 = .HTTPSuccess then
    sendHttpData transport [] (done.2.buffer.take done.2.headersLen)
  else (done.1, [])

def sendHttpRequest (h : HTTPRequestHeaders) (body : List UInt8) (sendFlags : U32) :
    HTTPStatus × List TransportCall :=
  let (returnStatus, calls) := sendHttpHeaders transport h body.length sendFlags
  if returnStatus = .HTTPSuccess then sendHttpData transport calls body
  else (returnStatus, calls)

def getFinalResponseStatus (state : HTTPParsingState) (totalReceived responseBufferLen : Nat) :
    HTTPStatus :=
  match state with
  | .HTTP_PARSING_NONE => .HTTPNoResponse
  | .HTTP_PARSING_INCOMPLETE =>
    if totalReceived = responseBufferLen then .HTTPInsufficientMemory else .HTTPPartialResponse
  | .HTTP_PARSING_COMPLETE => .HTTPSuccess

/-- An empty chunk is the last: the retry timeout is 0, and the parser is told of the end. -/
def receiveLoop (parser : Parser) (bufferLen totalReceived : Nat) (chunks : List (List UInt8))
    (calls : List TransportCall) : HTTPStatus × List TransportCall :=
  let room := bufferLen - totalReceived
  match transport.recv calls room with
  | .failed code => (.HTTPNetworkError, calls ++ [.recv room code])
  | .chunk bytes =>
    let received := bytes.val.length
    let calls := calls ++ [.recv room received]
    let chunks := chunks ++ [bytes.val]
    let (returnStatus, state) := parser chunks
    let totalReceived := totalReceived + received
    if returnStatus ≠ .HTTPSuccess then (returnStatus, calls)
    else if _h : received = 0 ∨ state = .HTTP_PARSING_COMPLETE ∨ bufferLen ≤ totalReceived then
      (getFinalResponseStatus state totalReceived bufferLen, calls)
    else receiveLoop parser bufferLen totalReceived chunks calls
termination_by bufferLen - totalReceived
decreasing_by omega

def receiveAndParseHttpResponse (parser : Parser) (bufferLen : Nat) (calls : List TransportCall) :
    HTTPStatus × List TransportCall :=
  receiveLoop transport parser bufferLen 0 [] calls

def HTTPClient_Send (parser : Parser) (sendFlags : U32) (h : HTTPRequestHeaders)
    (body : List UInt8) (bufferLen : Nat) : HTTPStatus × List TransportCall :=
  if h.headersLen < HTTP_MINIMUM_REQUEST_LINE_LENGTH then (.HTTPInvalidParameter, [])
  else if h.headersLen > h.buffer.length then (.HTTPInvalidParameter, [])
  else if bufferLen = 0 then (.HTTPInvalidParameter, [])
  else if body.length > INT32_MAX then (.HTTPInvalidParameter, [])
  else
    let (returnStatus, calls) := sendHttpRequest transport h body sendFlags
    if returnStatus = .HTTPSuccess then
      receiveAndParseHttpResponse transport parser bufferLen calls
    else (returnStatus, calls)

/-- The library as HTTPSendRequest calls it, without flags. -/
def coreHttp (parser : Parser) : HTTPClient where
  InitializeRequestHeaders := HTTPClient_InitializeRequestHeaders
  Send := HTTPClient_Send transport parser 0#32

end Transfer
end SpmCoreHttp
