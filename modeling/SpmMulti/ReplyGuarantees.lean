import SpmMulti.ReceiverLoop

/- The bound on a reply: what a request stores in the response buffer, what of it the
   returned count covers, and so what Mynet_write is given in any run of the loop. -/
namespace SpmReplyGuarantees
open SpmMachine SpmStrtoul SpmSplit SpmConsole SpmCommandManager SpmCommands SpmReceive
open SpmHandling SpmReplies SpmReceiverLoop StepRuns OverlaidMemory
variable {lib : Snprintf} {responseSize : Nat} {before : Console}

/-- The effects added are those of this request; a respond stores from the buffer's start. -/
structure ReplyBounded (responseSize : Nat) (before : Console) (result : U32 × Console)
    (added : List Effect) : Prop where
  effects : result.2.effects = before.effects ++ added
  count : result.1.toNat ≤ responseSize
  stores : ∀ bytes, .respond bytes ∈ added → bytes.length ≤ responseSize
  beyond : result.2.response.drop responseSize = before.response.drop responseSize
  extent : responseSize ≤ before.response.length →
    result.2.response.length = before.response.length
  produced : ∀ i < result.1.toNat, ∃ bytes b, .respond bytes ∈ added ∧ bytes[i]? = some b ∧
    result.2.response[i]? = some b

def silent : Effect → Bool
  | .respond _ => false
  | _ => true

/-- A request whose last effect is its only store in the response, made over the buffer as it
    was before. -/
theorem respond_bounded {c : Console} {quiet : List Effect} {bytes : List UInt8} {count : U32}
    (same : c.response = before.response) (effects : c.effects = before.effects ++ quiet)
    (silence : ∀ e ∈ quiet, silent e = true) (counted : count.toNat ≤ bytes.length)
    (small : bytes.length ≤ responseSize) :
    ReplyBounded responseSize before (count, c.respond bytes) (quiet ++ [.respond bytes]) where
  effects := by rw [respond_effects, effects, List.append_assoc]
  count := counted.trans small
  stores stored member := by
    rcases List.mem_append.mp member with earlier | last
    · exact absurd (silence _ earlier) (by simp [silent])
    · obtain rfl := Effect.respond.inj (List.mem_singleton.mp last)
      exact small
  beyond := by
    rw [Console.respond, same]
    exact overlay_beyond before.response small
  extent room := by
    rw [Console.respond, same]
    exact overlay_length (by omega)
  produced i inside := by
    have stored : i < bytes.length := Nat.lt_of_lt_of_le inside counted
    exact ⟨bytes, bytes[i], by simp, List.getElem?_eq_getElem stored,
      overlay_within c.response bytes stored⟩

theorem report_bounded (positive : 0 < responseSize) (small : responseSize ≤ 2 ^ 32)
    (format : String) (args : List U32) :
    ∃ added, ReplyBounded responseSize before (before.report lib responseSize format args)
      added := by
  have shorter := lib.fits responseSize format args positive
  have counted : (before.report lib responseSize format args).1.toNat ≤
      (lib.stored responseSize format args).length := by
    rw [(report_replies positive small before format args).1, BitVec.toNat_ofNat,
      Nat.mod_eq_of_lt (by omega)]
    simp [Snprintf.stored, Nat.ne_of_gt positive]
  exact ⟨_, respond_bounded rfl (List.append_nil _).symm (by simp) counted
    (stored_length_le lib responseSize format args)⟩

theorem answers_bounded {str : List UInt8} {result : U32 × Console} (room : 4 ≤ responseSize)
    (small : responseSize ≤ 2 ^ 32) (answered : Answers lib str responseSize before result) :
    ∃ added, ReplyBounded responseSize before result added := by
  cases answered with
  | unknown tokens missing =>
    exact ⟨[], (List.append_nil _).symm, Nat.zero_le _, by simp, rfl, fun _ => rfl, by simp⟩
  | rejected registered tokens reply =>
    obtain ⟨format, _, args, rfl⟩ := reply
    exact report_bounded (by omega) small format args
  | @read address n tokens passes =>
    have length := blockRead_length before.mem (strtoul address 16) (strtoul n 10).toNat
    exact ⟨_, respond_bounded (c := { before with effects := before.effects ++
      [Effect.load (strtoul address 16) (strtoul n 10)] }) rfl rfl (by simp [silent])
        length.ge (length.trans_le passes.1)⟩
  | @write address b64data size tokens passes =>
    exact ⟨_, respond_bounded rfl (List.append_assoc _ _ _) (by simp [silent]) (by simp) room⟩
  | @msgbox b64data size tokens valid =>
    exact ⟨_, respond_bounded rfl ((List.append_assoc _ _ _).trans (List.append_assoc _ _ _))
      (by simp [silent]) (by simp) room⟩

theorem handled_bounded {str : List UInt8} {result : U32 × Console} (room : 4 ≤ responseSize)
    (small : responseSize ≤ 2 ^ 32)
    (handled : ((registry lib).parseAndExecute lib str responseSize before).outcome =
      .ok result) : ∃ added, ReplyBounded responseSize before result added :=
  answers_bounded room small (answers handled)

/-- While a reply waits to be sent, sendBuff is as its request has left it. -/
structure Sendable (lib : Snprintf) (s : Server) : Prop where
  buffer : s.sendBuff.length = BUFSIZE
  request : s.pc = .write → ∃ str before after added, before.response.length = BUFSIZE ∧
    ((registry lib).parseAndExecute lib str BUFSIZE before).outcome = .ok (s.size, after) ∧
    ReplyBounded BUFSIZE before (s.size, after) added ∧ s.sendBuff = after.response

theorem execute_sendable {s : Server} (commands : s.commandManager = registry lib)
    (buffer : s.sendBuff.length = BUFSIZE) (str : List UInt8) :
    Sendable lib (s.execute lib str) := by
  unfold Server.execute
  simp only [commands]
  cases handled : ((registry lib).parseAndExecute lib str BUFSIZE s.console).outcome with
  | error fault => exact ⟨buffer, by simp⟩
  | ok result =>
    obtain ⟨added, bounded⟩ := handled_bounded (by decide) (by decide) handled
    exact ⟨(bounded.extent buffer.ge).trans buffer,
      fun _ => ⟨str, s.console, result.2, added, buffer, handled, bounded, rfl⟩⟩

theorem step_sendable {s : Server} (sound : Sound lib s) (sendable : Sendable lib s)
    (answer : Answer) : Sendable lib (s.step lib answer) := by
  have buffer := sendable.buffer
  cases place : s.pc with
  | accept =>
    simp only [Server.step, place]
    split
    · exact ⟨buffer, by simp⟩
    · exact ⟨buffer, by simp⟩
  | read =>
    simp only [Server.step, place]
    split
    · exact ⟨buffer, by simp⟩
    · split
      · exact ⟨buffer, by simp⟩
      · apply execute_sendable
        · exact sound.commands
        · exact buffer
  | write =>
    simp only [Server.step, place]
    exact ⟨buffer, by simp⟩
  | close =>
    simp only [Server.step, place]
    refine ⟨?_, by simp [Server.top]⟩
    exact (overlay_length (by simp [buffer])).trans buffer
  | stopped fault =>
    simp only [Server.step, place]
    exact sendable

theorem reached_sendable {s : Server} (reached : Reached lib s) : Sendable lib s := by
  have both : Sound lib s ∧ Sendable lib s := by
    refine @reachable_invariant _ _ _ _ (fun s => Sound lib s ∧ Sendable lib s) ?_ ?_ s reached
    · rintro s ⟨mem, heap, above, rfl⟩
      exact ⟨start_sound ⟨mem, heap, above, rfl⟩, ⟨by simp [start], by simp [start]⟩⟩
    · intro s answer sound
      exact ⟨step_sound sound.1 answer, step_sendable sound.1 sound.2 answer⟩
  exact both.2

/-- A request's count is at most responseSize and covers only bytes the request stored, and
    nothing is stored behind responseSize; so the bytes given to Mynet_write are bytes of
    sendBuff, and of the request that is being answered. -/
theorem replies_bounded (lib : Snprintf) :
    (∀ str (responseSize : U32) before, split (cstr str) 32 ≠ [] → 4 ≤ responseSize.toNat →
      ∃ result added,
        ((registry lib).parseAndExecute lib str responseSize.toNat before).outcome =
          .ok result ∧ ReplyBounded responseSize.toNat before result added) ∧
    ∀ s, Reached lib s → s.pc = .write →
      s.sendBuff.length = BUFSIZE ∧ s.size.toNat ≤ s.sendBuff.length ∧
      ∃ str before after added, s.sendBuff = after.response ∧
        ((registry lib).parseAndExecute lib str BUFSIZE before).outcome = .ok (s.size, after) ∧
        ReplyBounded BUFSIZE before (s.size, after) added := by
  constructor
  · intro str responseSize before some_ room
    obtain ⟨body, _, runs⟩ := dispatched lib some_ responseSize.toNat
    obtain ⟨added, bounded⟩ := handled_bounded room responseSize.isLt.le (runs before)
    exact ⟨body before, added, runs before, bounded⟩
  · intro s reached place
    obtain ⟨buffer, request⟩ := reached_sendable reached
    obtain ⟨str, before, after, added, _, handled, bounded, same⟩ := request place
    exact ⟨buffer, buffer ▸ bounded.count, str, before, after, added, same, handled, bounded⟩

theorem replies_bounded_four_bytes :
    let before : Console := ⟨fun _ => 0, fun _ => ⟨0, fun _ => 0⟩, List.replicate 8 1, []⟩
    let s := run (Server.step mslSnprintf) (start mslSnprintf (fun _ => 0) (fun _ => ⟨0, fun _ => 0⟩) [])
      [⟨3, fun _ => 0⟩, chunkAnswer ⟨text "x\n", by decide⟩]
    (∃ result added, ((registry mslSnprintf).parseAndExecute mslSnprintf
        (text "read 80000000 4") 4 before).outcome = .ok result ∧
      ReplyBounded 4 before result added) ∧ s.size.toNat ≤ s.sendBuff.length := by
  intro before s
  have reached : Reached mslSnprintf s := ⟨_, _, ⟨_, _, _, rfl⟩, rfl⟩
  obtain ⟨requests, writes⟩ := replies_bounded mslSnprintf
  exact ⟨requests (text "read 80000000 4") 4 before (by decide) (by decide),
    (writes s reached (by decide)).2.1⟩

end SpmReplyGuarantees
