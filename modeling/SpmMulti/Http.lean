import SpmMulti.Machine

/- HTTPSendRequest (source/net/spmhttp.cpp). What the network answers and what the HTTP client
   library (source/corehttp) makes of a request are parameters; the library reaches the
   network through the transport it is given, so on the descriptor of the network context. -/
namespace SpmHttp
open SpmMachine

def REQUEST_BUF_SIZE : Nat := 1024
def RESPONSE_BUF_SIZE : Nat := 2048

inductive HTTPStatus where
  | HTTPSuccess | HTTPInvalidParameter | HTTPNetworkError | HTTPPartialResponse
  | HTTPNoResponse | HTTPInsufficientMemory | HTTPSecurityAlertExtraneousResponseData
  | HTTPSecurityAlertInvalidChunkHeader | HTTPSecurityAlertInvalidProtocolVersion
  | HTTPSecurityAlertInvalidStatusCode | HTTPSecurityAlertInvalidCharacter
  | HTTPSecurityAlertInvalidContentLength | HTTPParserInternalError | HTTPHeaderNotFound
  | HTTPInvalidResponse
  deriving DecidableEq

/-- The h_length bytes of h_addr. -/
structure HostEnt where
  h_addr : List UInt8

/-- The results of the calls, the s32 ones as their 32 bits; no host is the null pointer. -/
structure Network where
  Mynet_socket : U32
  Mynet_gethostbyname : List UInt8 → Option HostEnt
  Mynet_connect : U32

structure HTTPRequestInfo where
  method : List UInt8
  path : List UInt8
  host : List UInt8
  reqFlags : U32

structure HTTPRequestHeaders where
  buffer : List UInt8
  headersLen : Nat

/-- A call of the transport's send or recv, with what it returned. -/
inductive TransportCall where
  | send (bytes : List UInt8) (ret : Int)
  | recv (bytesToRecv : Nat) (ret : Int)

structure HTTPClient where
  InitializeRequestHeaders : HTTPRequestHeaders → HTTPRequestInfo → HTTPStatus × HTTPRequestHeaders
  Send : HTTPRequestHeaders → List UInt8 → Nat → HTTPStatus × List TransportCall

inductive NetCall where
  | socket (ret : U32)
  | gethostbyname (host : List UInt8)
  | connect (s : U32) (sin_port : BitVec 16) (s_addr : List UInt8)
  | send (s : U32) (bytes : List UInt8) (ret : Int)
  | recv (s : U32) (bytesToRecv : Nat) (ret : Int)
  | close (s : U32)

/-- The transport's functions, on the context's descriptor. -/
def onSocket (sockfd : U32) : TransportCall → NetCall
  | .send bytes ret => .send sockfd bytes ret
  | .recv bytesToRecv ret => .recv sockfd bytesToRecv ret

structure Request where
  host : List UInt8
  port : U32
  path : List UInt8
  method : List UInt8
  body : List UInt8

/-- What HTTPClient_Send returns and does once the headers are there; the status of their
    initialisation is reported and then overwritten. -/
def clientSend (http : HTTPClient) (request : Request) : HTTPStatus × List TransportCall :=
  let requestHeaders : HTTPRequestHeaders := ⟨List.replicate REQUEST_BUF_SIZE 0, 0⟩
  let requestInfo : HTTPRequestInfo :=
    ⟨cstr request.method, cstr request.path, cstr request.host, 0⟩
  let (_, requestHeaders) := http.InitializeRequestHeaders requestHeaders requestInfo
  http.Send requestHeaders request.body RESPONSE_BUF_SIZE

/-- The status returned, and the calls into the network. sockfd is a u32, so it is compared
    with 0 as an unsigned number. -/
def HTTPSendRequest (net : Network) (http : HTTPClient) (request : Request) :
    HTTPStatus × List NetCall :=
  let sockfd := net.Mynet_socket
  let calls := [NetCall.socket sockfd]
  if sockfd < 0#32 then (.HTTPNetworkError, calls)
  else
    let calls := calls ++ [NetCall.gethostbyname request.host]
    match net.Mynet_gethostbyname request.host with
    | none => (.HTTPNetworkError, calls ++ [NetCall.close sockfd])
    | some server =>
      let calls := calls ++ [NetCall.connect sockfd (request.port.setWidth 16) server.h_addr]
      if net.Mynet_connect.toInt < 0 then (.HTTPNetworkError, calls ++ [NetCall.close sockfd])
      else
        let (httpStatus, transport) := clientSend http request
        (httpStatus, calls ++ transport.map (onSocket sockfd) ++ [NetCall.close sockfd])

end SpmHttp
