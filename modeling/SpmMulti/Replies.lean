import SpmMulti.Handling

/- The bytes of the response buffer that a request's return value counts. Every way through
   a request stores all of them, so they are a function of the text and of console memory,
   whatever the response buffer, the heap or the record of effects held before. -/
namespace SpmReplies
open SpmMachine SpmStrtoul SpmSplit SpmBase64 SpmConsole SpmCommandManager SpmCommands
open SpmHandling OverlaidMemory
variable {lib : Snprintf} {responseSize : Nat}

/-- The return value, and what the response shows of that length. -/
def Replies (result : U32 × Console) (size : U32) (bytes : List UInt8) : Prop :=
  result.1 = size ∧ result.2.response.take size.toNat = bytes

theorem respond_shows (c : Console) (stored : List UInt8) :
    (c.respond stored).response.take stored.length = stored := by
  rw [Console.respond, overlay_start, List.take_left']
  rfl

theorem report_replies (positive : 0 < responseSize) (small : responseSize ≤ 2 ^ 32)
    (c : Console) (format : String) (args : List U32) :
    Replies (c.report lib responseSize format args)
      (BitVec.ofNat 32 (lib.formed responseSize format args).length)
      (lib.formed responseSize format args) := by
  have shorter := lib.fits responseSize format args positive
  have response : (c.respond (lib.stored responseSize format args)).response =
      lib.formed responseSize format args ++ 0 ::
        c.response.drop (lib.stored responseSize format args).length := by
    rw [Console.respond, overlay_start]
    simp [Snprintf.stored, Nat.ne_of_gt positive]
  refine ⟨?_, ?_⟩
  · simp only [Console.report, response, strlen, cstr_append_nul,
      cstr_eq_self (lib.noNul responseSize format args)]
  · simp only [Console.report, response]
    rw [BitVec.toNat_ofNat, Nat.mod_eq_of_lt (by omega)]
    exact List.take_left' rfl

theorem copyOut_replies (c : Console) (ptr size : U32) :
    Replies (size, c.copyOut ptr size) size (blockRead c.mem ptr size.toNat) := by
  refine ⟨rfl, ?_⟩
  have shows := respond_shows { c with effects := c.effects ++ [Effect.load ptr size] }
    (blockRead c.mem ptr size.toNat)
  rwa [blockRead_length] at shows

theorem word_replies (c : Console) (v : U32) :
    Replies (4, c.respond (wordBytes v)) 4 (wordBytes v) :=
  ⟨rfl, respond_shows c (wordBytes v)⟩

theorem readBody_replies (lib : Snprintf) (positive : 0 < responseSize)
    (small : responseSize ≤ 2 ^ 32) (ptr size : U32) (mem : Memory) :
    ∃ count bytes, ∀ c : Console, c.mem = mem →
      Replies (readBody lib ptr size responseSize c) count bytes := by
  unfold readBody
  split
  · exact ⟨_, _, fun c _ => report_replies positive small c _ _⟩
  · split
    · exact ⟨_, _, fun c _ => report_replies positive small c _ _⟩
    · exact ⟨size, blockRead mem ptr size.toNat, fun c same => same ▸ copyOut_replies c ptr size⟩

theorem writeBody_replies (lib : Snprintf) (positive : 0 < responseSize)
    (small : responseSize ≤ 2 ^ 32) (dest : U32) (b64data : List UInt8) (decodedLen : U32) :
    ∃ count bytes, ∀ c : Console,
      Replies (writeBody lib dest b64data decodedLen responseSize c) count bytes := by
  unfold writeBody
  split
  · exact ⟨_, _, fun c => report_replies positive small c _ _⟩
  · split
    · exact ⟨_, _, fun c => report_replies positive small c _ _⟩
    · exact ⟨4, wordBytes decodedLen, fun c => word_replies _ decodedLen⟩

theorem msgboxBody_replies (lib : Snprintf) (positive : 0 < responseSize)
    (small : responseSize ≤ 2 ^ 32) (b64data : List UInt8) (msgboxTextLen : U32) :
    ∃ count bytes, ∀ c : Console,
      Replies (msgboxBody lib b64data msgboxTextLen responseSize c) count bytes := by
  unfold msgboxBody
  split
  · exact ⟨_, _, fun c => report_replies positive small c _ _⟩
  · exact ⟨4, wordBytes msgboxTextLen, fun c => word_replies _ msgboxTextLen⟩

/-- What a request with a token is answered depends on its text and on memory alone. -/
theorem reply_of_memory (lib : Snprintf) (positive : 0 < responseSize)
    (small : responseSize ≤ 2 ^ 32) {str : List UInt8} (some_ : split (cstr str) 32 ≠ [])
    (mem : Memory) :
    ∃ count bytes, ∀ c : Console, c.mem = mem → ∃ result,
      ((registry lib).parseAndExecute lib str responseSize c).outcome = .ok result ∧
        Replies result count bytes := by
  obtain ⟨body, kind, runs⟩ := dispatched lib some_ responseSize
  have replies :
      ∃ count bytes, ∀ c : Console, c.mem = mem → Replies (body c) count bytes := by
    cases kind with
    | unknown tokens missing => exact ⟨0, [], fun c _ => ⟨rfl, rfl⟩⟩
    | mismatch registered tokens differ =>
      exact ⟨_, _, fun c _ => report_replies positive small c _ _⟩
    | read tokens => exact readBody_replies lib positive small _ _ mem
    | @write address b64data size tokens =>
      obtain ⟨count, bytes, replies⟩ := writeBody_replies lib positive small
        (strtoul address 16) b64data (strtoul size 10)
      exact ⟨count, bytes, fun c _ => replies c⟩
    | @msgbox b64data size tokens =>
      obtain ⟨count, bytes, replies⟩ := msgboxBody_replies lib positive small
        b64data (strtoul size 10)
      exact ⟨count, bytes, fun c _ => replies c⟩
  obtain ⟨count, bytes, shows⟩ := replies
  exact ⟨count, bytes, fun c same => ⟨body c, runs c, shows c same⟩⟩

end SpmReplies
