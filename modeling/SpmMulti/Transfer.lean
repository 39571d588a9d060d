import SpmMulti.HeaderBuffer

/- What the library hands to the transport, for every transport and every response: the bytes it
   is given to send, from the first on, as far as they are taken. -/
namespace SpmTransfer
open SpmMachine SpmHttp SpmCoreHttp SpmHeaderBuffer PositionalNumeral
variable (transport : Transport)

def sendOf : TransportCall → Option (List UInt8 × Int)
  | .send bytes ret => some (bytes, ret)
  | .recv _ _ => none

/-- The bytes that the transport accepted. -/
def accepted (sends : List (List UInt8 × Int)) : List UInt8 :=
  sends.flatMap fun send => send.1.take send.2.toNat

/-- What sendHttpData adds to the calls. -/
structure Sent (data : List UInt8) (outcome : HTTPStatus × List TransportCall)
    (calls : List TransportCall) (sends : List (List UInt8 × Int)) : Prop where
  calls : outcome.2.filterMap sendOf = calls.filterMap sendOf ++ sends
  first : data ≠ [] → ∃ ret rest, sends = (data, ret) :: rest
  prefix_ : accepted sends <+: data
  success : outcome.1 = .HTTPSuccess → accepted sends = data

theorem sent_nothing {data : List UInt8} {ret : Int} (nothing : ret ≤ 0)
    (calls : List TransportCall) :
    Sent data (.HTTPNetworkError, calls ++ [.send data ret]) calls [(data, ret)] where
  calls := by simp [sendOf]
  first _ := ⟨ret, [], rfl⟩
  prefix_ := by simp [accepted, Int.toNat_of_nonpos nothing]
  success failed := by contradiction

theorem sendHttpData_sent (calls : List TransportCall) (data : List UInt8) :
    ∃ sends, Sent data (sendHttpData transport calls data) calls sends := by
  induction calls, data using sendHttpData.induct transport with
  | case1 calls data none_ =>
    have empty := List.length_eq_zero_iff.mp none_
    rw [sendHttpData, if_pos none_, empty]
    exact ⟨[], by simp, by simp, by simp [accepted], fun _ => rfl⟩
  | case2 calls data some_ bytesSent failed =>
    rw [sendHttpData, if_neg some_]
    simp only [bytesSent] at failed
    simp only [failed, if_true]
    exact ⟨_, sent_nothing (by omega) calls⟩
  | case3 calls data some_ bytesSent calls_ unfailed more ih =>
    obtain ⟨sends, sent⟩ := ih
    rw [sendHttpData, if_neg some_]
    simp only [bytesSent] at unfailed more
    simp only [unfailed, more, if_false, if_true]
    have both : accepted ((data, bytesSent) :: sends) =
        data.take bytesSent.toNat ++ accepted sends := List.flatMap_cons
    refine ⟨(data, bytesSent) :: sends, ?_, fun _ => ⟨bytesSent, sends, rfl⟩, ?_, fun success => ?_⟩
    · rw [sent.calls]
      simp [calls_, sendOf]
    · have extended := (List.prefix_append_right_inj (data.take bytesSent.toNat)).mpr sent.prefix_
      rwa [List.take_append_drop, ← both] at extended
    · rw [both, sent.success success, List.take_append_drop]
  | case4 calls data some_ bytesSent unfailed nothing =>
    rw [sendHttpData, if_neg some_]
    simp only [bytesSent] at unfailed nothing
    simp only [unfailed, nothing, if_false]
    exact ⟨_, sent_nothing (by omega) calls⟩

theorem receiveLoop_sends (parser : Parser) (bufferLen totalReceived : Nat)
    (chunks : List (List UInt8)) (calls : List TransportCall) :
    (receiveLoop transport parser bufferLen totalReceived chunks calls).2.filterMap sendOf =
      calls.filterMap sendOf := by
  induction totalReceived, chunks, calls using receiveLoop.induct transport parser bufferLen with
  | case1 totalReceived chunks calls room code failed =>
    rw [receiveLoop]
    simp only [room] at failed
    simp [failed, sendOf]
  | case2 totalReceived chunks calls room bytes received chunks_ returnStatus state parsed bad =>
    rw [receiveLoop]
    simp only [room] at received
    simp only [chunks_] at parsed
    simp [received, parsed, bad, sendOf]
  | case3 totalReceived chunks calls room bytes got received chunks_ returnStatus state parsed
      total good ended =>
    rw [receiveLoop]
    simp only [room] at got
    simp only [chunks_] at parsed
    simp only [received, total] at ended
    simp only [got, parsed, good, ended, if_false, dite_true]
    simp [sendOf]
  | case4 totalReceived chunks calls room bytes got received calls_ chunks_ returnStatus state
      parsed total good more ih =>
    rw [receiveLoop]
    simp only [room] at got
    simp only [chunks_] at parsed
    simp only [received, total] at more
    simp only [got, parsed, good, more, if_false, dite_false]
    exact ih.trans (by simp [calls_, sendOf])

def lengthLine (bodyLen : Nat) : List UInt8 :=
  if bodyLen = 0 then [] else headerLine HTTP_CONTENT_LENGTH_FIELD (numeral 10 bodyLen)

variable {h : HTTPRequestHeaders} {front lines body data : List UInt8} {parser : Parser}

theorem contentLength_name : Name HTTP_CONTENT_LENGTH_FIELD := by
  refine ⟨?_, ?_⟩ <;> decide +kernel

theorem noFlag : 0#32 &&& HTTP_SEND_DISABLE_CONTENT_LENGTH_FLAG = 0#32 := by decide

theorem sendHttpHeaders_empty :
    sendHttpHeaders transport h 0 0#32 =
      sendHttpData transport [] (h.buffer.take h.headersLen) := by
  simp [sendHttpHeaders]

theorem sendHttpHeaders_added (behind : Behind front h) {bodyLen : Nat} (some_ : bodyLen ≠ 0)
    (fits : (front ++ lengthLine bodyLen ++ HTTP_HEADER_LINE_SEPARATOR).length ≤ h.buffer.length) :
    sendHttpHeaders transport h bodyLen 0#32 =
      sendHttpData transport [] (front ++ lengthLine bodyLen ++ HTTP_HEADER_LINE_SEPARATOR) := by
  rw [lengthLine, if_neg some_] at fits ⊢
  obtain ⟨added, adds, ⟨headersLen, rest, buffer⟩, _⟩ :=
    addHeader_added behind contentLength_name (numeral_clean bodyLen) fits
  have positive : bodyLen > 0 := by omega
  simp only [sendHttpHeaders, addContentLengthHeader, convert_numeral, positive, adds,
    noFlag, and_self, if_true]
  rw [headersLen, buffer, List.take_left]

theorem sendHttpHeaders_full (behind : Behind front h) {bodyLen : Nat} (some_ : bodyLen ≠ 0)
    (full : ¬ (front ++ lengthLine bodyLen ++ HTTP_HEADER_LINE_SEPARATOR).length ≤
      h.buffer.length) :
    sendHttpHeaders transport h bodyLen 0#32 = (.HTTPInsufficientMemory, []) := by
  rw [lengthLine, if_neg some_] at full
  have positive : bodyLen > 0 := by omega
  simp [sendHttpHeaders, addContentLengthHeader, convert_numeral, positive,
    addHeader_full behind full]

theorem sendHttpRequest_sent (some_ : data ≠ [])
    (headers : sendHttpHeaders transport h body.length 0#32 = sendHttpData transport [] data) :
    ∃ ret rest, (sendHttpRequest transport h body 0#32).2.filterMap sendOf =
        (data, ret) :: rest ∧ accepted ((data, ret) :: rest) <+: data ++ body := by
  obtain ⟨sends, sent⟩ := sendHttpData_sent transport [] data
  obtain ⟨ret, rest, rfl⟩ := sent.first some_
  simp only [sendHttpRequest, headers]
  generalize sendHttpData transport [] data = outcome at sent
  obtain ⟨status, calls⟩ := outcome
  by_cases success : status = .HTTPSuccess
  · rw [if_pos success]
    obtain ⟨more, behind⟩ := sendHttpData_sent transport calls body
    refine ⟨ret, rest ++ more, ?_, ?_⟩
    · rw [behind.calls, sent.calls]
      simp
    · have both : accepted ((data, ret) :: (rest ++ more)) = data ++ accepted more := by
        rw [← List.cons_append, accepted, List.flatMap_append]
        exact congrArg (· ++ _) (sent.success success)
      rw [both]
      exact (List.prefix_append_right_inj data).mpr behind.prefix_
  · rw [if_neg success]
    exact ⟨ret, rest, by simpa using sent.calls, sent.prefix_.trans (List.prefix_append data body)⟩

theorem send_valid (long : HTTP_MINIMUM_REQUEST_LINE_LENGTH ≤ h.headersLen)
    (inside : h.headersLen ≤ h.buffer.length) (short : body.length ≤ INT32_MAX) :
    HTTPClient_Send transport parser 0#32 h body RESPONSE_BUF_SIZE =
      if (sendHttpRequest transport h body 0#32).1 = .HTTPSuccess then
        receiveAndParseHttpResponse transport parser RESPONSE_BUF_SIZE
          (sendHttpRequest transport h body 0#32).2
      else sendHttpRequest transport h body 0#32 := by
  have some_ : RESPONSE_BUF_SIZE ≠ 0 := by decide
  simp only [HTTPClient_Send, gt_iff_lt, Nat.not_lt.mpr long, Nat.not_lt.mpr inside,
    Nat.not_lt.mpr short, some_, if_false]

theorem send_data (long : HTTP_MINIMUM_REQUEST_LINE_LENGTH ≤ h.headersLen)
    (inside : h.headersLen ≤ h.buffer.length) (short : body.length ≤ INT32_MAX) (some_ : data ≠ [])
    (headers : sendHttpHeaders transport h body.length 0#32 = sendHttpData transport [] data) :
    ∃ ret rest,
      (HTTPClient_Send transport parser 0#32 h body RESPONSE_BUF_SIZE).2.filterMap sendOf =
        (data, ret) :: rest ∧ accepted ((data, ret) :: rest) <+: data ++ body := by
  obtain ⟨ret, rest, sends, prefix_⟩ := sendHttpRequest_sent transport some_ headers
  refine ⟨ret, rest, ?_, prefix_⟩
  rw [send_valid transport long inside short, ← sends]
  split
  · exact receiveLoop_sends transport parser _ _ _ _
  · rfl

theorem send_failed (long : HTTP_MINIMUM_REQUEST_LINE_LENGTH ≤ h.headersLen)
    (inside : h.headersLen ≤ h.buffer.length) (short : body.length ≤ INT32_MAX)
    {status : HTTPStatus} (failed : status ≠ .HTTPSuccess)
    (headers : sendHttpHeaders transport h body.length 0#32 = (status, [])) :
    HTTPClient_Send transport parser 0#32 h body RESPONSE_BUF_SIZE = (status, []) := by
  have request : sendHttpRequest transport h body 0#32 = (status, []) := by
    simp [sendHttpRequest, headers, failed]
  rw [send_valid transport long inside short, request, if_neg failed]

theorem send_invalid (invalid : h.headersLen < HTTP_MINIMUM_REQUEST_LINE_LENGTH ∨
    body.length > INT32_MAX) :
    HTTPClient_Send transport parser 0#32 h body RESPONSE_BUF_SIZE =
      (.HTTPInvalidParameter, []) := by
  rw [HTTPClient_Send]
  rcases invalid with short | long
  · rw [if_pos short]
  · simp only [long, if_true, ite_self]

end SpmTransfer
