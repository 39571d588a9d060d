import SpmMulti.Machine
import SpmMulti.Lib.StepRuns
import SpmMulti.Lib.StreamSegments
import SpmMulti.Lib.OverlaidMemory

/- The do-while of receiverLoop (source/netmemoryaccess.cpp) that reads one request, over
   the results of Mynet_read (source/net/network_wii.cpp). The stack is recvBuff followed
   by whatever lies above it, so that strchr and the stores may run past the buffer; a
   store below the buffer is recorded but hits nothing the loop reads. -/
namespace SpmReceive
open SpmMachine StepRuns StreamSegments OverlaidMemory

def READ_CHUNK_SIZE : Nat := 8
def BUFSIZE : Nat := 1024
def NETMEMORYACCESS_EOF : UInt8 := 10
def NETMEMORYACCESS_EOF_SIZE : Nat := 1
def EOVERFLOW : Nat := 139

abbrev Chunk := { bytes : List UInt8 // bytes.length ≤ READ_CHUNK_SIZE }

inductive ReadResult where
  | received (chunk : Chunk)
  | failed (code : { n : Int // n < 0 })
  deriving DecidableEq

/-- Mynet_read of READ_CHUNK_SIZE bytes, by the converted answer of the ioctl and the
    message buffer it filled. An answer longer than asked for is an error. -/
def Mynet_read (ret : Int) (message_buf : Fin READ_CHUNK_SIZE → UInt8) : ReadResult :=
  if negative : ret < 0 then .failed ⟨ret, negative⟩
  else if ret > READ_CHUNK_SIZE then .failed ⟨-EOVERFLOW, by decide⟩
  else .received ⟨(List.ofFn message_buf).take ret.toNat, by
    rw [List.length_take, List.length_ofFn]; exact Nat.min_le_right _ _⟩

/-- stores lists the index of every byte stored, relative to recvBuff; ended holds the
    value of bytes with which the loop was left. -/
structure RecvState where
  stack : List UInt8
  totalReceived : Nat
  stores : List Int
  ended : Option Int

def recvStart (above : List UInt8) : RecvState :=
  ⟨List.replicate BUFSIZE 0 ++ above, 0, [], none⟩

/-- The store of the NUL behind the loop, made before bytes is tested. -/
def recvEnd (s : RecvState) (bytes : Int) : RecvState :=
  let index : Int := s.totalReceived - NETMEMORYACCESS_EOF_SIZE
  { s with
    stack := if index < 0 then s.stack else s.stack.set index.toNat 0
    stores := s.stores ++ [index]
    ended := some bytes }

def recvStep (s : RecvState) (result : ReadResult) : RecvState :=
  match s.ended, result with
  | some _, _ => s
  | none, .failed code => recvEnd s code.val
  | none, .received chunk =>
    let s := { s with
      stack := overlay s.stack s.totalReceived chunk.val
      totalReceived := s.totalReceived + chunk.val.length
      stores := s.stores ++
        (List.range chunk.val.length).map fun i => ((s.totalReceived + i : Nat) : Int) }
    if strchr s.stack NETMEMORYACCESS_EOF then recvEnd s chunk.val.length else s

/-- The string given to parseAndExecute; nothing while the loop runs or after an error. -/
def handed (s : RecvState) : Option (List UInt8) :=
  match s.ended with
  | some bytes => if bytes < 0 then none else some (cstr s.stack)
  | none => none

/-- The stack once the bytes got have been received and the loop goes on. -/
def image (above got : List UInt8) : List UInt8 :=
  got ++ (List.replicate BUFSIZE 0 ++ above).drop got.length

def reading (above got : List UInt8) : RecvState :=
  ⟨image above got, got.length, (List.range got.length).map fun i : Nat => (i : Int), none⟩

def endMark (above got : List UInt8) : Bool := strchr (image above got) NETMEMORYACCESS_EOF

def InBuffer (s : RecvState) : Prop := ∀ i ∈ s.stores, 0 ≤ i ∧ i < (BUFSIZE : Int)

theorem recvStart_eq (above : List UInt8) : recvStart above = reading above [] := by
  simp [recvStart, reading, image]

theorem recvStep_ended {s : RecvState} (ended : s.ended ≠ none) (result : ReadResult) :
    recvStep s result = s := by
  obtain ⟨bytes, done⟩ := Option.ne_none_iff_exists'.mp ended
  simp [recvStep, done]

@[simp] theorem recvEnd_ended (s : RecvState) (bytes : Int) :
    (recvEnd s bytes).ended = some bytes := rfl

theorem recvStep_failed (above got : List UInt8) (code : { n : Int // n < 0 }) :
    recvStep (reading above got) (.failed code) = recvEnd (reading above got) code.val := rfl

/-- One successful read: the stack still shows the bytes received so far, then what was
    there before; the loop is left when the end mark shows in it. -/
theorem recvStep_received (above got : List UInt8) (chunk : Chunk) :
    recvStep (reading above got) (.received chunk) =
      if endMark above (got ++ chunk.val)
        then recvEnd (reading above (got ++ chunk.val)) chunk.val.length
        else reading above (got ++ chunk.val) := by
  have stack : overlay (image above got) got.length chunk.val =
      image above (got ++ chunk.val) := by
    rw [image, overlay_behind, List.drop_drop, image, List.length_append]
  have stores : (List.range got.length).map (fun i : Nat => (i : Int)) ++
      (List.range chunk.val.length).map (fun i => ((got.length + i : Nat) : Int)) =
      (List.range (got ++ chunk.val).length).map fun i : Nat => (i : Int) := by
    rw [List.length_append, List.range_add, List.map_append, List.map_map]
    rfl
  simp only [recvStep, reading, stack, stores, endMark, List.length_append]

theorem endMark_iff {above got : List UInt8} (room : got.length < BUFSIZE) :
    endMark above got = true ↔ NETMEMORYACCESS_EOF ∈ cstr got := by
  obtain ⟨k, zeros⟩ : ∃ k, BUFSIZE - got.length = k + 1 := ⟨BUFSIZE - got.length - 1, by omega⟩
  have shown : image above got = got ++ 0 :: (List.replicate k 0 ++ above) := by
    rw [image, List.drop_append_of_le_length (by simp; omega), List.drop_replicate, zeros,
      List.replicate_succ, List.cons_append]
  rw [endMark, strchr_iff (by decide), shown, cstr_append_nul]

theorem endMark_of_mem {above got : List UInt8} (member : NETMEMORYACCESS_EOF ∈ cstr got) :
    endMark above got = true :=
  (strchr_iff (by decide)).mpr (mem_cstr_append member _)

theorem endMark_nil (above : List UInt8) : endMark above [] = false := by
  rw [Bool.eq_false_iff, Ne, endMark_iff (by decide)]
  simp [cstr]

/-- Reads that fit the buffer with room to spare: the loop is still reading exactly while
    no end mark stands before the first NUL of what was received. -/
theorem run_received (above got : List UInt8) (chunks : List Chunk)
    (room : (got ++ (chunks.map Subtype.val).flatten).length < BUFSIZE)
    (quiet : NETMEMORYACCESS_EOF ∉ cstr got) :
    (NETMEMORYACCESS_EOF ∉ cstr (got ++ (chunks.map Subtype.val).flatten) →
      run recvStep (reading above got) (chunks.map .received) =
        reading above (got ++ (chunks.map Subtype.val).flatten)) ∧
    (NETMEMORYACCESS_EOF ∈ cstr (got ++ (chunks.map Subtype.val).flatten) →
      (run recvStep (reading above got) (chunks.map .received)).ended ≠ none) := by
  induction chunks generalizing got with
  | nil => simp [quiet]
  | cons chunk chunks ih =>
    simp only [List.map_cons, List.flatten_cons, ← List.append_assoc] at room ⊢
    have fits : (got ++ chunk.val).length < BUFSIZE := by
      rw [List.length_append] at room
      omega
    rw [run_cons, recvStep_received]
    by_cases mark : NETMEMORYACCESS_EOF ∈ cstr (got ++ chunk.val)
    · rw [if_pos (endMark_of_mem mark),
        run_absorbed (recvStep_ended (by simp))]
      exact ⟨fun no => absurd (mem_cstr_append mark _) no, fun _ => by simp⟩
    · rw [if_neg (fun shown => mark ((endMark_iff fits).mp shown))]
      exact ih (got ++ chunk.val) room mark

/-- A NUL-free stream with an end mark, no longer than the buffer: the loop ends with the
    chunk that brings the first end mark, and stores a NUL over the last byte of it. -/
theorem run_request {above : List UInt8} {chunks : List Chunk}
    {before after : List (List UInt8)} {chunk : List UInt8}
    (first : FirstWith NETMEMORYACCESS_EOF (chunks.map Subtype.val) before chunk after)
    (clean : 0 ∉ (chunks.map Subtype.val).flatten)
    (fits : (chunks.map Subtype.val).flatten.length ≤ BUFSIZE) :
    run recvStep (recvStart above) (chunks.map .received) =
      recvEnd (reading above (before.flatten ++ chunk)) chunk.length := by
  obtain ⟨cut, absent, found⟩ := first
  obtain ⟨front, tail, rfl, rfl, split⟩ := List.map_eq_append_iff.mp cut
  obtain ⟨middle, rest, rfl, rfl, rfl⟩ := List.map_eq_cons_iff.mp split
  have positive : 0 < middle.val.length := List.length_pos_of_mem found
  simp only [List.map_append, List.map_cons, List.flatten_append, List.flatten_cons,
    List.mem_append, not_or, List.length_append] at clean fits
  have quiet : NETMEMORYACCESS_EOF ∉ cstr (front.map Subtype.val).flatten := fun bad =>
    absent (mem_of_mem_cstr bad)
  have room : ([] ++ (front.map Subtype.val).flatten).length < BUFSIZE := by
    simp only [List.nil_append]
    omega
  have start := (run_received above [] front room (by simp [cstr])).1 quiet
  have mark : NETMEMORYACCESS_EOF ∈ cstr ((front.map Subtype.val).flatten ++ middle.val) := by
    rw [cstr_eq_self (by rw [List.mem_append]; exact not_or.mpr ⟨clean.1, clean.2.1⟩)]
    exact List.mem_append_right _ found
  rw [recvStart_eq, List.map_append, run_append, start, List.map_cons, run_cons,
    recvStep_received, List.nil_append, if_pos (endMark_of_mem mark),
    run_absorbed (recvStep_ended (by simp))]

theorem handed_recvEnd {above got : List UInt8} {n : Nat} (clean : 0 ∉ got) (some_ : got ≠ []) :
    handed (recvEnd (reading above got) n) = some got.dropLast := by
  obtain ⟨front, last, rfl⟩ := (List.eq_nil_or_concat' got).resolve_left some_
  have index : ¬ ((front ++ [last]).length : Int) - (1 : Nat) < 0 := by simp
  have place : (((front ++ [last]).length : Int) - (1 : Nat)).toNat = front.length := by simp
  simp only [handed, recvEnd, reading, NETMEMORYACCESS_EOF_SIZE, if_neg index, place,
    Int.natCast_nonneg, if_neg (Int.not_lt.mpr _), List.dropLast_concat, image,
    List.append_assoc, List.singleton_append]
  rw [List.set_append_right _ _ (Nat.le_refl _), Nat.sub_self, List.set_cons_zero,
    cstr_append_nul, cstr_eq_self (fun bad => clean (List.mem_append_left _ bad))]

/-- What is handed on is everything up to the end of the chunk that brings the first end
    mark, less one byte. -/
theorem handed_request {above : List UInt8} {chunks : List Chunk}
    {before after : List (List UInt8)} {chunk : List UInt8}
    (first : FirstWith NETMEMORYACCESS_EOF (chunks.map Subtype.val) before chunk after)
    (clean : 0 ∉ (chunks.map Subtype.val).flatten)
    (fits : (chunks.map Subtype.val).flatten.length ≤ BUFSIZE) :
    handed (run recvStep (recvStart above) (chunks.map .received)) =
      some (before.flatten ++ chunk).dropLast := by
  rw [run_request first clean fits]
  apply handed_recvEnd
  · rw [first.1, List.flatten_append, List.flatten_cons, ← List.append_assoc] at clean
    exact fun bad => clean (List.mem_append_left _ bad)
  · exact List.append_ne_nil_of_right_ne_nil _ (List.ne_nil_of_mem first.2.2)

theorem inBuffer_reading (above got : List UInt8) :
    InBuffer (reading above got) ↔ got.length ≤ BUFSIZE := by
  simp only [InBuffer, reading, List.mem_map, List.mem_range]
  constructor
  · intro all
    by_contra long
    have := all (BUFSIZE : Nat) ⟨BUFSIZE, by omega, rfl⟩
    omega
  · rintro fits i ⟨j, bound, rfl⟩
    omega

theorem inBuffer_recvEnd (above got : List UInt8) (bytes : Int) :
    InBuffer (recvEnd (reading above got) bytes) ↔ got.length ≤ BUFSIZE ∧ got ≠ [] := by
  have stores : (recvEnd (reading above got) bytes).stores =
      (reading above got).stores ++ [(got.length : Int) - 1] := rfl
  have body := inBuffer_reading above got
  simp only [InBuffer] at body
  simp only [InBuffer, stores, List.forall_mem_append, body, List.mem_singleton, forall_eq]
  rw [Ne, ← List.length_eq_zero_iff]
  simp only [BUFSIZE]
  omega

/-- A line of a request, padded with end marks, however it is cut: every byte is stored in
    the buffer, and the line is handed on, perhaps with some of the end marks behind it. -/
theorem line_received {chunks : List Chunk} {line : List UInt8} {k : Nat}
    (cut : (chunks.map Subtype.val).flatten = line ++ List.replicate k NETMEMORYACCESS_EOF)
    (padded : 0 < k) (plain : NETMEMORYACCESS_EOF ∉ line) (clean : 0 ∉ line)
    (fits : (chunks.map Subtype.val).flatten.length ≤ BUFSIZE) :
    ∃ j, ∀ above, InBuffer (run recvStep (recvStart above) (chunks.map .received)) ∧
      handed (run recvStep (recvStart above) (chunks.map .received)) =
        some (line ++ List.replicate j NETMEMORYACCESS_EOF) := by
  have marked : NETMEMORYACCESS_EOF ∈ (chunks.map Subtype.val).flatten := by
    rw [cut]
    exact List.mem_append_right _ (List.mem_replicate.mpr ⟨by omega, rfl⟩)
  have whole : 0 ∉ (chunks.map Subtype.val).flatten := by
    rw [cut, List.mem_append, List.mem_replicate]
    rintro (inside | ⟨_, zero⟩)
    · exact clean inside
    · exact absurd zero (by decide)
  obtain ⟨before, chunk, after, first⟩ := first_with_exists marked
  obtain ⟨j, _, upto⟩ := first_with_padded first cut plain
  refine ⟨j, fun above => ⟨?_, ?_⟩⟩
  · rw [run_request first whole fits, inBuffer_recvEnd]
    refine ⟨?_, List.append_ne_nil_of_right_ne_nil _ (List.ne_nil_of_mem first.2.2)⟩
    rw [first.1, List.flatten_append, List.flatten_cons, ← List.append_assoc,
      List.length_append] at fits
    omega
  · rw [handed_request first whole fits, upto, List.replicate_succ', ← List.append_assoc,
      List.dropLast_concat]

end SpmReceive
