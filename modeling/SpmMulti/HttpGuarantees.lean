import SpmMulti.Http
import SpmMulti.Lib.DescriptorSessions

/- The life of the socket of an HTTP request, for every result of the calls it takes. -/
namespace SpmHttpGuarantees
open SpmMachine SpmHttp DescriptorSessions
variable {net : Network} {http : HTTPClient} {request : Request}

/-- A failed call of Mynet_socket opens nothing. -/
def event : NetCall → Option (Event U32)
  | .socket ret => if ret.toInt < 0 then none else some (.opened ret)
  | .gethostbyname _ => none
  | .connect s _ _ => some (.used s)
  | .send s _ _ => some (.used s)
  | .recv s _ _ => some (.used s)
  | .close s => some (.closed s)

def events (calls : List NetCall) : List (Event U32) := calls.filterMap event

/-- The descriptors used are the one opened, which is not negative, and it is closed once; a
    failure of Mynet_socket ends the request at once; success means that all went well. -/
structure SocketLife (net : Network) (http : HTTPClient) (request : Request)
    (outcome : HTTPStatus × List NetCall) : Prop where
  session : follow none (events outcome.2) = some none
  further : ∀ call ∈ outcome.2, call ≠ .socket net.Mynet_socket → 0 ≤ net.Mynet_socket.toInt
  failed : net.Mynet_socket.toInt < 0 →
    outcome = (.HTTPNetworkError, [.socket net.Mynet_socket])
  success : outcome.1 = .HTTPSuccess → 0 ≤ net.Mynet_socket.toInt ∧
    (net.Mynet_gethostbyname request.host).isSome ∧ 0 ≤ net.Mynet_connect.toInt ∧
      (clientSend http request).1 = .HTTPSuccess

theorem not_below_zero (sockfd : U32) : ¬ sockfd < 0#32 := by
  simp [BitVec.lt_def]

/-- The calls between Mynet_socket and the close: they open and close nothing, and those that
    take a descriptor take this one. -/
def Uses (sockfd : U32) (calls : List NetCall) : Prop :=
  ∀ call ∈ calls, event call = none ∨ event call = some (.used sockfd)

theorem transport_uses (sockfd : U32) (transport : List TransportCall) :
    Uses sockfd (transport.map (onSocket sockfd)) := by
  intro call member
  obtain ⟨transported, _, rfl⟩ := List.mem_map.mp member
  cases transported with
  | send bytes ret => exact Or.inr rfl
  | recv bytesToRecv ret => exact Or.inr rfl

theorem session_followed {sockfd : U32} (opened : 0 ≤ sockfd.toInt) {calls : List NetCall}
    (uses : Uses sockfd calls) :
    follow none (events (.socket sockfd :: (calls ++ [.close sockfd]))) = some none := by
  have shape : events (.socket sockfd :: (calls ++ [.close sockfd])) =
      .opened sockfd :: (events calls ++ [.closed sockfd]) := by
    rw [events, List.filterMap_cons, event, if_neg (Int.not_lt.mpr opened),
      List.filterMap_append]
    rfl
  have used : follow (some sockfd) (events calls) = some (some sockfd) := by
    apply follow_uses
    intro e member
    obtain ⟨call, among, kind⟩ := List.mem_filterMap.mp member
    rcases uses call among with nothing | use
    · rw [nothing] at kind
      contradiction
    · rw [use] at kind
      exact (Option.some.inj kind).symm
  rw [shape, follow_opened, follow_append, used]
  exact follow_closed sockfd []

/-- Every way through the function closes the socket last; the exit for a negative result of
    Mynet_socket is not one of them. -/
theorem sendRequest_calls (net : Network) (http : HTTPClient) (request : Request) :
    ∃ calls, (HTTPSendRequest net http request).2 =
        .socket net.Mynet_socket :: (calls ++ [.close net.Mynet_socket]) ∧
      Uses net.Mynet_socket calls ∧
      ((HTTPSendRequest net http request).1 = .HTTPSuccess →
        (net.Mynet_gethostbyname request.host).isSome ∧ 0 ≤ net.Mynet_connect.toInt ∧
          (clientSend http request).1 = .HTTPSuccess) := by
  cases found : net.Mynet_gethostbyname request.host with
  | none =>
    simp only [HTTPSendRequest, if_neg (not_below_zero net.Mynet_socket), found]
    exact ⟨[.gethostbyname request.host], rfl, by simp [Uses, event], by simp⟩
  | some server =>
    have tried : Uses net.Mynet_socket [.gethostbyname request.host,
        .connect net.Mynet_socket (request.port.setWidth 16) server.h_addr] := by
      simp [Uses, event]
    simp only [HTTPSendRequest, if_neg (not_below_zero net.Mynet_socket), found]
    by_cases refused : net.Mynet_connect.toInt < 0
    · rw [if_pos refused]
      exact ⟨_, rfl, tried, by simp⟩
    · rw [if_neg refused]
      refine ⟨_ ++ (clientSend http request).2.map (onSocket net.Mynet_socket), rfl, ?_, ?_⟩
      · intro call member
        rcases List.mem_append.mp member with earlier | transported
        · exact tried call earlier
        · exact transport_uses _ _ call transported
      · exact fun success => ⟨rfl, Int.not_lt.mp refused, success⟩

theorem negative_socket_used (negative : net.Mynet_socket.toInt < 0) :
    ¬ SocketLife net http request (HTTPSendRequest net http request) := by
  intro life
  obtain ⟨calls, shape, _⟩ := sendRequest_calls net http request
  rw [life.failed negative] at shape
  simp at shape

/-- The socket's life is as it should be exactly when Mynet_socket has not failed. -/
theorem socket_life_iff (net : Network) (http : HTTPClient) (request : Request) :
    SocketLife net http request (HTTPSendRequest net http request) ↔
      0 ≤ net.Mynet_socket.toInt := by
  constructor
  · intro life
    by_contra negative
    exact negative_socket_used (Int.not_le.mp negative) life
  · intro opened
    obtain ⟨calls, shape, uses, success⟩ := sendRequest_calls net http request
    refine ⟨?_, fun _ _ _ => opened, fun negative => absurd opened (Int.not_le.mpr negative),
      fun succeeded => ⟨opened, success succeeded⟩⟩
    rw [shape]
    exact session_followed opened uses

theorem failed_socket_used :
    let net : Network := ⟨BitVec.ofInt 32 (-6), fun _ => none, 0⟩
    let http : HTTPClient :=
      ⟨fun headers _ => (.HTTPSuccess, headers), fun _ _ _ => (.HTTPSuccess, [])⟩
    let request : Request := ⟨text "example.org", 80, text "/", text "GET", []⟩
    ¬ SocketLife net http request (HTTPSendRequest net http request) :=
  negative_socket_used (by decide)

end SpmHttpGuarantees
