import SpmMulti.Receive

/- What one pass of the receive loop guarantees, and on which reads: where it stores, when
   it ends, and which string it hands on. No bound on the number of reads is assumed, nor
   anything about the stack above recvBuff. -/
namespace SpmReceiveGuarantees
open SpmMachine SpmReceive StepRuns StreamSegments

/-- The bytes delivered by the reads that the loop makes, of those that are there to make:
    all up to the error, or up to and with the chunk that shows the end mark. -/
def consumed (above got : List UInt8) : List ReadResult → List UInt8
  | [] => got
  | .failed _ :: _ => got
  | .received chunk :: results =>
    if endMark above (got ++ chunk.val) then got ++ chunk.val
    else consumed above (got ++ chunk.val) results

/-- They are what totalReceived counts, after any number of the reads. -/
theorem totalReceived_consumed (above got : List UInt8) (results : List ReadResult) :
    (run recvStep (reading above got) results).totalReceived =
      (consumed above got results).length := by
  induction results generalizing got with
  | nil => rfl
  | cons result results ih =>
    cases result with
    | failed code =>
      rw [run_cons, recvStep_failed, run_absorbed (recvStep_ended (by simp))]
      rfl
    | received chunk =>
      rw [run_cons, recvStep_received, consumed]
      split
      · rw [run_absorbed (recvStep_ended (by simp))]
        rfl
      · exact ih _

def failsEmpty : List ReadResult → Bool
  | [] => false
  | .failed _ :: _ => true
  | .received chunk :: results => chunk.val = [] && failsEmpty results

theorem run_inBuffer_iff (above got : List UInt8) (results : List ReadResult) :
    InBuffer (run recvStep (reading above got) results) ↔
      (consumed above got results).length ≤ BUFSIZE ∧
        ¬ (got = [] ∧ failsEmpty results = true) := by
  induction results generalizing got with
  | nil => simp [consumed, failsEmpty, inBuffer_reading]
  | cons result results ih =>
    cases result with
    | failed code =>
      rw [run_cons, recvStep_failed, run_absorbed (recvStep_ended (by simp))]
      simp [consumed, failsEmpty, inBuffer_recvEnd]
    | received chunk =>
      rw [run_cons, recvStep_received]
      by_cases mark : endMark above (got ++ chunk.val) = true
      · have some_ : got ++ chunk.val ≠ [] := by
          intro none_
          rw [none_, endMark_nil] at mark
          contradiction
        rw [if_pos mark, run_absorbed (recvStep_ended (by simp)), inBuffer_recvEnd]
        simp only [consumed, if_pos mark, failsEmpty, Bool.and_eq_true, decide_eq_true_eq]
        have first : ¬ (got = [] ∧ chunk.val = []) := by simpa using some_
        tauto
      · rw [if_neg mark, ih]
        simp only [consumed, if_neg mark, failsEmpty, Bool.and_eq_true, decide_eq_true_eq,
          List.append_eq_nil_iff]
        tauto

/-- Every byte is stored inside recvBuff exactly when the reads the loop makes deliver at
    most BUFSIZE bytes and do not fail before the first of them. -/
theorem recv_stores_in_buffer_iff (above : List UInt8) (results : List ReadResult) :
    InBuffer (run recvStep (recvStart above) results) ↔
      (consumed above [] results).length ≤ BUFSIZE ∧ failsEmpty results = false := by
  rw [recvStart_eq, run_inBuffer_iff]
  simp

theorem recv_stores_below_buffer :
    ¬ InBuffer (run recvStep (recvStart []) [.failed ⟨-1, by decide⟩]) := by
  intro all
  have bad := all (-1) (by decide)
  omega

inductive Ending where
  | closes
  | fails (code : { n : Int // n < 0 })
  | staysOpen

structure Peer where
  chunks : List Chunk
  ending : Ending

def Peer.bytes (p : Peer) : List UInt8 := (p.chunks.map Subtype.val).flatten

/-- The results of the first reads: those that deliver the bytes, then up to k more, which
    a closed connection answers with 0 and an open one not at all. -/
def Peer.delivered (p : Peer) (k : Nat) : List ReadResult :=
  p.chunks.map .received ++
    match p.ending with
    | .closes => List.replicate k (.received ⟨[], by decide⟩)
    | .fails code => List.replicate k (.failed code)
    | .staysOpen => []

def Peer.LoopEnds (p : Peer) (above : List UInt8) : Prop :=
  ∃ k, (run recvStep (recvStart above) (p.delivered k)).ended ≠ none

theorem run_bytes {above : List UInt8} {p : Peer} (room : p.bytes.length < BUFSIZE)
    (quiet : NETMEMORYACCESS_EOF ∉ cstr p.bytes) :
    run recvStep (recvStart above) (p.chunks.map .received) = reading above p.bytes := by
  rw [recvStart_eq]
  exact (run_received above [] p.chunks room (by simp [cstr])).1 quiet

theorem run_closed {above got : List UInt8} (room : got.length < BUFSIZE)
    (quiet : NETMEMORYACCESS_EOF ∉ cstr got) (k : Nat) :
    run recvStep (reading above got) (List.replicate k (.received ⟨[], by decide⟩)) =
      reading above got := by
  have flat : ((List.replicate k (⟨[], by decide⟩ : Chunk)).map Subtype.val).flatten = [] := by
    simp
  have stay := (run_received above got
    (List.replicate k (⟨[], by decide⟩ : Chunk)) (by rw [flat]; simpa using room) quiet).1
  rw [flat, List.append_nil, List.map_replicate] at stay
  exact stay quiet

theorem unfailing_never_ends {above : List UInt8} {p : Peer} (room : p.bytes.length < BUFSIZE)
    (quiet : NETMEMORYACCESS_EOF ∉ cstr p.bytes) (unfailing : ∀ code, p.ending ≠ .fails code) :
    ¬ p.LoopEnds above := by
  rintro ⟨k, ended⟩
  rw [Peer.delivered, run_append, run_bytes room quiet] at ended
  cases shape : p.ending with
  | closes => simp only [shape, run_closed room quiet] at ended; exact ended rfl
  | fails code => exact unfailing code shape
  | staysOpen => simp only [shape] at ended; exact ended rfl

theorem marked_ends {above : List UInt8} {p : Peer} (room : p.bytes.length < BUFSIZE)
    (mark : NETMEMORYACCESS_EOF ∈ cstr p.bytes) : p.LoopEnds above := by
  refine ⟨0, ?_⟩
  have ended := (run_received above [] p.chunks room (by simp [cstr])).2 mark
  rw [← recvStart_eq] at ended
  rw [Peer.delivered, run_append, run_absorbed (recvStep_ended ended)]
  exact ended

theorem failed_ends {above : List UInt8} {p : Peer} {code : { n : Int // n < 0 }}
    (room : p.bytes.length < BUFSIZE) (fails : p.ending = .fails code) : p.LoopEnds above := by
  by_cases mark : NETMEMORYACCESS_EOF ∈ cstr p.bytes
  · exact marked_ends room mark
  · refine ⟨1, ?_⟩
    rw [Peer.delivered, fails, run_append, run_bytes room mark]
    simp [recvStep_failed]

/-- For a peer of fewer than BUFSIZE bytes, however they are cut, the loop ends exactly
    when an end mark stands before the first NUL of them or the connection fails. -/
theorem recv_loop_ends_iff (above : List UInt8) (p : Peer) (room : p.bytes.length < BUFSIZE) :
    p.LoopEnds above ↔
      NETMEMORYACCESS_EOF ∈ cstr p.bytes ∨ ∃ code, p.ending = .fails code := by
  constructor
  · intro ends
    by_contra neither
    rw [not_or, not_exists] at neither
    exact unfailing_never_ends room neither.1 neither.2 ends
  · rintro (mark | ⟨code, fails⟩)
    · exact marked_ends room mark
    · exact failed_ends room fails

theorem recv_loop_ends_on_request :
    (⟨[⟨text "read 800", by decide⟩, ⟨text "00000 6\n", by decide⟩], .staysOpen⟩ :
      Peer).LoopEnds [] :=
  (recv_loop_ends_iff [] _ (by decide)).mpr (Or.inl (by decide))

theorem recv_loop_outlives_close :
    let peer : Peer := ⟨[⟨text "A", by decide⟩], .closes⟩
    peer.bytes.length < BUFSIZE ∧ peer.ending = .closes ∧ ¬ peer.LoopEnds [] :=
  ⟨by decide, rfl, unfailing_never_ends (by decide) (by decide) (by simp)⟩

def FramesExactly (above : List UInt8) (chunks : List Chunk) : Prop :=
  handed (run recvStep (recvStart above) (chunks.map .received)) =
    some ((chunks.map Subtype.val).flatten.takeWhile (· ≠ NETMEMORYACCESS_EOF))

/-- The string handed on is the stream before its first end mark exactly when the chunk
    that brings this end mark ends with it. -/
theorem framing_exact_iff (above : List UInt8) (chunks : List Chunk)
    (clean : 0 ∉ (chunks.map Subtype.val).flatten)
    (marked : NETMEMORYACCESS_EOF ∈ (chunks.map Subtype.val).flatten)
    (fits : (chunks.map Subtype.val).flatten.length ≤ BUFSIZE) :
    FramesExactly above chunks ↔
      ∃ before front after, chunks.map Subtype.val =
          before ++ (front ++ [NETMEMORYACCESS_EOF]) :: after ∧
        NETMEMORYACCESS_EOF ∉ before.flatten ∧ NETMEMORYACCESS_EOF ∉ front := by
  obtain ⟨before, chunk, after, first⟩ := first_with_exists marked
  rw [FramesExactly, handed_request first clean fits, Option.some.injEq,
    dropLast_eq_takeWhile_iff first]
  constructor
  · rintro ⟨front, plain, rfl⟩
    exact ⟨before, front, after, first.1, first.2.1, plain⟩
  · rintro ⟨before', front, after', cut, absent, plain⟩
    have other : FirstWith NETMEMORYACCESS_EOF (chunks.map Subtype.val) before'
        (front ++ [NETMEMORYACCESS_EOF]) after' := ⟨cut, absent, by simp⟩
    exact ⟨front, plain, (first_with_unique first other).2⟩

theorem framing_exact_on_last_byte :
    FramesExactly [] [⟨text "msgbox", by decide⟩, ⟨text " A 0\n", by decide⟩] :=
  (framing_exact_iff [] _ (by decide) (by decide) (by decide)).mpr
    ⟨[text "msgbox"], text " A 0", [], rfl, by decide, by decide⟩

theorem framing_keeps_padding :
    let chunks : List Chunk := [⟨text "read 8 1", by decide⟩, ⟨text "\n\n", by decide⟩]
    0 ∉ (chunks.map Subtype.val).flatten ∧
      NETMEMORYACCESS_EOF ∈ (chunks.map Subtype.val).flatten ∧
      (chunks.map Subtype.val).flatten.length ≤ BUFSIZE ∧ ¬ FramesExactly [] chunks := by
  refine ⟨by decide, by decide, by decide, ?_⟩
  unfold FramesExactly
  decide

end SpmReceiveGuarantees
