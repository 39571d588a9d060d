import SpmMulti.ReceiverLoop

/- Two runs of the loop that wait for a connection on the same console memory answer the
   same chunks alike. Buffers, heap, stack, registry and addrlen of the two runs are whatever
   their earlier connections made of them. -/
namespace SpmIsolation
open SpmMachine SpmSplit SpmReceive SpmReceiverLoop SpmReplies StepRuns StreamSegments
variable {lib : Snprintf}

/-- The string a read loop over these chunks hands on; the stack above recvBuff, empty here,
    has no part in it while the chunks fit. -/
def requestOf (chunks : List Chunk) : Option (List UInt8) :=
  handed (run recvStep (recvStart []) (chunks.map .received))

theorem requestOf_above {chunks : List Chunk}
    (marked : NETMEMORYACCESS_EOF ∈ (chunks.map Subtype.val).flatten)
    (clean : 0 ∉ (chunks.map Subtype.val).flatten)
    (fits : (chunks.map Subtype.val).flatten.length ≤ BUFSIZE) :
    ∃ str, requestOf chunks = some str ∧ ∀ above,
      handed (run recvStep (recvStart above) (chunks.map .received)) = some str := by
  obtain ⟨before, chunk, after, first⟩ := first_with_exists marked
  exact ⟨(before.flatten ++ chunk).dropLast, handed_request first clean fits,
    fun _ => handed_request first clean fits⟩

theorem connection_passed {s : Server} (reached : Reached lib s) (waiting : s.pc = .accept)
    {opened : Answer} (accepted : 0 ≤ opened.ret) {chunks : List Chunk} {reads : List Answer}
    (delivers : Delivers reads chunks) {str : List UInt8}
    (request : ∀ above,
      handed (run recvStep (recvStart above) (chunks.map .received)) = some str)
    {size : U32} {bytes : List UInt8}
    (answered : ∀ c : SpmConsole.Console, c.mem = s.mem → ∃ result,
      ((SpmCommands.registry lib).parseAndExecute lib str BUFSIZE c).outcome = .ok result ∧
        Replies result size bytes) :
    ((s.step lib opened).readAll lib reads).passed = some (bytes, size) := by
  obtain ⟨u, above, made, same, commands, mem, _⟩ :=
    connection_executes reached waiting accepted delivers request
  obtain ⟨result, handled, replies⟩ := answered u.console mem
  rw [same]
  exact execute_passed commands handled replies

/-- Runs that reach an accept with the same memory give Mynet_write the same bytes and the
    same length for a connection that delivers the same chunks. -/
theorem reply_isolated {s t : Server} (first : Reached lib s) (second : Reached lib t)
    (waiting : s.pc = .accept) (waiting' : t.pc = .accept) (same : s.mem = t.mem)
    {opened opened' : Answer} (accepted : 0 ≤ opened.ret) (accepted' : 0 ≤ opened'.ret)
    {chunks : List Chunk} {reads reads' : List Answer} (delivers : Delivers reads chunks)
    (delivers' : Delivers reads' chunks)
    (marked : NETMEMORYACCESS_EOF ∈ (chunks.map Subtype.val).flatten)
    (clean : 0 ∉ (chunks.map Subtype.val).flatten)
    (fits : (chunks.map Subtype.val).flatten.length ≤ BUFSIZE)
    (token : ∀ str ∈ requestOf chunks, split (cstr str) 32 ≠ []) :
    ∃ bytes size, ((s.step lib opened).readAll lib reads).passed = some (bytes, size) ∧
      ((t.step lib opened').readAll lib reads').passed = some (bytes, size) := by
  obtain ⟨str, request, everywhere⟩ := requestOf_above marked clean fits
  obtain ⟨size, bytes, answered⟩ := reply_of_memory lib (show 0 < BUFSIZE by decide)
    (by decide) (token str request) s.mem
  refine ⟨bytes, size, ?_, ?_⟩
  · exact connection_passed first waiting accepted delivers everywhere answered
  · rw [same] at answered
    exact connection_passed second waiting' accepted' delivers' everywhere answered

theorem reply_isolated_after_failure :
    let mem : Memory := fun a => UInt8.ofNat a.toNat
    let heap : Nat → SpmConsole.HeapBlock := fun _ => ⟨0, fun _ => 0⟩
    let opened : Answer := ⟨3, fun _ => 0⟩
    let failing : Answer := ⟨-1, fun _ => 0⟩
    let fresh := start mslSnprintf mem heap []
    let used := run (Server.step mslSnprintf) (start mslSnprintf mem heap [10, 65])
      [opened, failing, failing]
    let reads := [⟨text "read 800", by decide⟩, ⟨text "00010 2\n", by decide⟩].map chunkAnswer
    ∃ bytes size,
      ((fresh.step mslSnprintf opened).readAll mslSnprintf reads).passed = some (bytes, size) ∧
      ((used.step mslSnprintf opened).readAll mslSnprintf reads).passed = some (bytes, size) := by
  intro mem heap opened failing fresh used reads
  have first : Reached mslSnprintf fresh := ⟨fresh, [], ⟨mem, heap, [], rfl⟩, rfl⟩
  have second : Reached mslSnprintf used := ⟨_, _, ⟨mem, heap, [10, 65], rfl⟩, rfl⟩
  have again : used.pc = .accept := by decide
  have same : fresh.mem = used.mem := rfl
  refine reply_isolated first second rfl again same (by decide) (by decide) (delivers_chunks _)
    (delivers_chunks _) (by decide) (by decide) (by decide) ?_
  decide

end SpmIsolation
