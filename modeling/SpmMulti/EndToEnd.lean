import SpmMulti.ReceiverLoop
import SpmMulti.Client

/- A request of the Python client, from its text to the reply: both programs, with the
   network between them cutting the text as it likes. The server may have run for any time
   and be waiting for a connection. -/
namespace SpmEndToEnd
open SpmMachine SpmStrtoul SpmSplit SpmBase64 SpmConsole SpmCommandManager SpmCommands SpmHandling
open SpmReceive SpmReceiverLoop SpmReplies SpmClient StepRuns PositionalNumeral SextetCode
open DelimitedWords OverlaidMemory
variable {lib : Snprintf}

/-- Words joined and padded by the client arrive as these words, the last one perhaps with
    newlines behind it, if it differs from the word before it also with these. -/
theorem client_request {s : Server} (reached : Reached lib s) (waiting : s.pc = .accept)
    {opened : Answer} (accepted : 0 ≤ opened.ret) {chunks : List Chunk} {reads : List Answer}
    (delivers : Delivers reads chunks) {name last : List UInt8} {args : List (List UInt8)}
    (cut : (chunks.map Subtype.val).flatten = sendData (requestText name (args ++ [last])))
    (fits : (chunks.map Subtype.val).flatten.length ≤ BUFSIZE)
    (words : ∀ a ∈ name :: (args ++ [last]), Word a ∧ 10 ∉ a)
    (differ : ∀ j, repeatsLast (name :: (args ++ [last ++ List.replicate j 10])) = false) :
    ∃ (u : Server) (str : List UInt8) (j : Nat) (made : List Answer),
      (s.step lib opened).readAll lib reads = u.execute lib str ∧
      split (cstr str) 32 = name :: (args ++ [last ++ List.replicate j 10]) ∧
      u.commandManager = registry lib ∧ u.mem = s.mem ∧ InBuffer u.recv ∧ made <+: reads ∧
      u.calls = s.calls ++ Call.accept opened.ret ::
        made.map fun answer : Answer => Call.read opened.ret answer.result := by
  obtain ⟨k, padded, positive⟩ := sendData_padded (requestText name (args ++ [last]))
  have plain : 10 ∉ requestText name (args ++ [last]) :=
    not_mem_requestText (fun a member => (words a member).2) (by decide)
  have clean : 0 ∉ requestText name (args ++ [last]) :=
    not_mem_requestText (fun a member => (words a member).1.2.2) (by decide)
  obtain ⟨j, received⟩ := line_received (cut.trans padded) positive plain clean fits
  obtain ⟨u, above, made, same, commands, mem, recv, before, calls⟩ :=
    connection_executes reached waiting accepted delivers fun above => (received above).2
  refine ⟨u, _, j, made, same, ?_, commands, mem, recv ▸ (received above).1, before, calls⟩
  rw [NETMEMORYACCESS_EOF, requestText_padded, requestText_tokens, differ j]
  · rfl
  · intro a member
    rcases List.mem_cons.mp member with rfl | later
    · exact (words _ List.mem_cons_self).1
    · rcases List.mem_append.mp later with among | final
      · exact (words a (by simp [among])).1
      · obtain rfl := List.mem_singleton.mp final
        exact padded_word (words last (by simp)).1 j

theorem strtoul_padded {base n : Nat} (radix : 1 < base) (small : base ≤ 16) (fits : n < 2 ^ 32)
    (j : Nat) : strtoul (numeral base n ++ List.replicate j 10) base = BitVec.ofNat 32 n := by
  apply strtoul_numeral radix small fits
  cases j with
  | zero => simp [Stops]
  | succ j =>
    simp only [Stops, List.replicate_succ, List.head?_cons, Option.mem_some_iff, forall_eq']
    decide

theorem strtoul_plain {base n : Nat} (radix : 1 < base) (small : base ≤ 16) (fits : n < 2 ^ 32) :
    strtoul (numeral base n) base = BitVec.ofNat 32 n := by
  simpa using strtoul_padded radix small fits 0

theorem word_toNat {n : Nat} (fits : n < 2 ^ 32) : (BitVec.ofNat 32 n).toNat = n := by
  rw [BitVec.toNat_ofNat, Nat.mod_eq_of_lt fits]

theorem word_add {m n : Nat} (fits : m + n < 2 ^ 32) :
    (BitVec.ofNat 32 m + BitVec.ofNat 32 n).toNat = m + n := by
  rw [BitVec.toNat_add, word_toNat (by omega), word_toNat (by omega), Nat.mod_eq_of_lt fits]

theorem numeral_plain {base n : Nat} (radix : 1 < base) (small : base ≤ 16) :
    Word (numeral base n) ∧ 10 ∉ numeral base n :=
  ⟨numeral_word radix small, fun bad => absurd (numeral_octet radix small bad) (by decide)⟩

theorem encode_plain {data : List UInt8} (nonempty : data ≠ []) :
    Word (encode data) ∧ 10 ∉ encode data :=
  ⟨encode_word nonempty, fun bad => absurd (encode_octet bad) (by decide)⟩

/-- The code has at least four characters and the length at most three digits. -/
theorem code_size_differ {d : List UInt8} (nonempty : d ≠ []) {n : Nat} (short : n < 1000)
    (j : Nat) : encode d ≠ numeral 10 n ++ List.replicate j 10 := by
  have code : 4 ≤ (encode d).length := by
    have positive := List.length_pos_iff.mpr nonempty
    rw [encode_length]
    omega
  have size : (numeral 10 n).length ≤ 3 := by
    rw [numeral_length]
    exact digitsOf_length_le (by decide) (by decide) short
  exact padded_ne (encode_plain nonempty).2 (by omega) j

section Read
variable {a n : Nat}

theorem read_fits (space : a < 2 ^ 32) (small : n ≤ 1024) :
    (SpmClient.read a n).length ≤ BUFSIZE := by
  have address : (numeral 16 a).length ≤ 8 := by
    rw [numeral_length]
    exact digitsOf_length_le (by decide) (by decide) space
  have size : (numeral 10 n).length ≤ 4 := by
    rw [numeral_length]
    exact digitsOf_length_le (by decide) (by decide) (by omega)
  have name : (text "read ").length = 5 := rfl
  have gap : (text " ").length = 1 := rfl
  simp only [SpmClient.read, sendData, List.length_append, List.length_replicate, BUFSIZE]
  omega

theorem read_words :
    ∀ w ∈ text "read" :: ([numeral 16 a] ++ [numeral 10 n]), Word w ∧ 10 ∉ w := by
  intro w member
  simp only [List.singleton_append, List.mem_cons, List.not_mem_nil, or_false] at member
  rcases member with rfl | rfl | rfl
  · exact ⟨by unfold Word; decide, by decide⟩
  · exact numeral_plain (by decide) (by decide)
  · exact numeral_plain (by decide) (by decide)

/-- The address has eight digits and the size at most four. -/
theorem read_words_differ (low : 0x80000000 ≤ a) (small : n ≤ 1024) (j : Nat) :
    repeatsLast (text "read" :: ([numeral 16 a] ++ [numeral 10 n ++ List.replicate j 10])) =
      false := by
  have address : 7 < (numeral 16 a).length := by
    rw [numeral_length]
    exact length_lt_of_lower (by decide) (by omega)
  have size : (numeral 10 n).length ≤ 4 := by
    rw [numeral_length]
    exact digitsOf_length_le (by decide) (by decide) (by omega)
  have differ := padded_ne (numeral_plain (by decide) (by decide)).2
    (show (numeral 10 n).length < (numeral 16 a).length by omega) j
  simpa [repeatsLast] using differ

theorem read_passes (low : 0x80000000 ≤ a) (small : n ≤ 1024) (high : a + n ≤ 0x817fffff) :
    ReadPasses (BitVec.ofNat 32 a) (BitVec.ofNat 32 n) BUFSIZE := by
  rw [ReadPasses, word_add (by omega), word_toNat (by omega), word_toNat (by omega)]
  exact ⟨small, low, high⟩

/-- A client's read is dispatched to read with two arguments from which strtoul recovers the
    address and the size, the reply is the memory there, and memory stays as it is. -/
theorem read_end_to_end {s : Server} (reached : Reached lib s) (waiting : s.pc = .accept)
    {opened : Answer} (accepted : 0 ≤ opened.ret) (low : 0x80000000 ≤ a) (small : n ≤ 1024)
    (high : a + n ≤ 0x817fffff) {chunks : List Chunk} {reads : List Answer}
    (cut : (chunks.map Subtype.val).flatten = SpmClient.read a n)
    (delivers : Delivers reads chunks) :
    let t := (s.step lib opened).readAll lib reads
    (∃ str sizeText, t.calls.getLast? =
        some (.parseAndExecute str [(text "read", [numeral 16 a, sizeText])]) ∧
      (strtoul (numeral 16 a) 16).toNat = a ∧ (strtoul sizeText 10).toNat = n) ∧
    t.passed = some (peek s.mem a n, BitVec.ofNat 32 n) ∧ t.mem = s.mem := by
  intro t
  have ptr := word_toNat (show a < 2 ^ 32 by omega)
  have size := word_toNat (show n < 2 ^ 32 by omega)
  obtain ⟨u, str, j, made, same, tokens, commands, mem, _⟩ :=
    client_request reached waiting accepted delivers (cut.trans (read_eq a n))
      (cut ▸ read_fits (by omega) small) read_words (read_words_differ low small)
  have address : strtoul (numeral 16 a) 16 = BitVec.ofNat 32 a :=
    strtoul_plain (by decide) (by decide) (by omega)
  have count : strtoul (numeral 10 n ++ List.replicate j 10) 10 = BitVec.ofNat 32 n :=
    strtoul_padded (by decide) (by decide) (by omega) j
  have handled := handled_read lib tokens BUFSIZE u.console
  rcases readBody_cases lib (BitVec.ofNat 32 a) (BitVec.ofNat 32 n) BUFSIZE u.console
    with ⟨_, body⟩ | ⟨fails, _⟩
  · rw [address, count, body] at handled
    obtain ⟨last, passed, memory, _⟩ := execute_answers same commands handled
      (copyOut_replies u.console (BitVec.ofNat 32 a) (BitVec.ofNat 32 n))
    refine ⟨⟨str, numeral 10 n ++ List.replicate j 10, last, ?_, ?_⟩, ?_, memory.trans mem⟩
    · rw [address, ptr]
    · rw [count, size]
    · rw [blockRead_eq_peek, ptr, size] at passed
      exact mem ▸ passed
  · exact absurd (read_passes low small high) fails

theorem read_end_to_end_two_bytes :
    let mem : Memory := fun a => UInt8.ofNat a.toNat
    let s := start mslSnprintf mem (fun _ => ⟨0, fun _ => 0⟩) []
    let opened : Answer := ⟨3, fun _ => 0⟩
    let chunks : List Chunk := [⟨text "read 800", by decide⟩, ⟨text "00040 2\n", by decide⟩]
    let t := (s.step mslSnprintf opened).readAll mslSnprintf (chunks.map chunkAnswer)
    t.passed = some (peek mem 0x80000040 2, 2) ∧ t.mem = mem := by
  intro mem s opened chunks t
  have reached : Reached mslSnprintf s := ⟨s, [], ⟨mem, _, _, rfl⟩, rfl⟩
  have accepted : 0 ≤ opened.ret := by decide
  have cut : (chunks.map Subtype.val).flatten = SpmClient.read 0x80000040 2 := by decide
  exact (read_end_to_end reached rfl accepted (by decide) (by decide) (by decide) cut
    (delivers_chunks chunks)).2

end Read

section Write
variable {a : Nat} {d : List UInt8}

theorem write_short (fits : (SpmClient.write a d).length ≤ BUFSIZE) : d.length < 1000 := by
  have code := encode_length d
  simp only [SpmClient.write, sendData, List.length_append, List.length_replicate,
    BUFSIZE] at fits
  omega

theorem write_words (nonempty : d ≠ []) :
    ∀ w ∈ text "write" :: ([numeral 16 a, encode d] ++ [numeral 10 d.length]),
      Word w ∧ 10 ∉ w := by
  intro w member
  simp only [List.cons_append, List.nil_append, List.mem_cons, List.not_mem_nil,
    or_false] at member
  rcases member with rfl | rfl | rfl | rfl
  · exact ⟨by unfold Word; decide, by decide⟩
  · exact numeral_plain (by decide) (by decide)
  · exact encode_plain nonempty
  · exact numeral_plain (by decide) (by decide)

theorem write_words_differ (nonempty : d ≠ []) (short : d.length < 1000) (j : Nat) :
    repeatsLast (text "write" :: ([numeral 16 a, encode d] ++
      [numeral 10 d.length ++ List.replicate j 10])) = false := by
  simpa [repeatsLast] using code_size_differ nonempty short j

theorem write_passes (low : 0x80000000 ≤ a) (high : a + d.length ≤ 0x817fffff) :
    WritePasses (BitVec.ofNat 32 a) (encode d) (BitVec.ofNat 32 d.length) := by
  have dest := word_toNat (show a < 2 ^ 32 by omega)
  exact code_passes (word_toNat (by omega)) (by omega) (by omega)

/-- A client's write is dispatched to write with three arguments that pass its checks, the
    data replaces the memory there and nothing else, and the reply is the data's length. -/
theorem write_end_to_end {s : Server} (reached : Reached lib s) (waiting : s.pc = .accept)
    {opened : Answer} (accepted : 0 ≤ opened.ret) (low : 0x80000000 ≤ a)
    (high : a + d.length ≤ 0x817fffff) (nonempty : d ≠ [])
    (fits : (SpmClient.write a d).length ≤ BUFSIZE) {chunks : List Chunk} {reads : List Answer}
    (cut : (chunks.map Subtype.val).flatten = SpmClient.write a d)
    (delivers : Delivers reads chunks) :
    let t := (s.step lib opened).readAll lib reads
    InBuffer t.recv ∧
    (∃ str sizeText, t.calls.getLast? =
        some (.parseAndExecute str [(text "write", [numeral 16 a, encode d, sizeText])]) ∧
      (strtoul (numeral 16 a) 16).toNat = a ∧ (strtoul sizeText 10).toNat = d.length ∧
      isValidBase64 (encode d) (strtoul sizeText 10).toInt = true ∧
      isWithinMem1Range (strtoul (numeral 16 a) 16) = true ∧
      isWithinMem1Range (strtoul (numeral 16 a) 16 + strtoul sizeText 10) = true) ∧
    t.mem = poke s.mem a d ∧
    t.passed = some (wordBytes (BitVec.ofNat 32 d.length), 4) := by
  intro t
  have short := write_short fits
  have dest := word_toNat (show a < 2 ^ 32 by omega)
  have size := word_toNat (show d.length < 2 ^ 32 by omega)
  have passes := write_passes low high
  obtain ⟨u, str, j, made, same, tokens, commands, mem, inside, _⟩ :=
    client_request reached waiting accepted delivers (cut.trans (write_eq a d)) (cut ▸ fits)
      (write_words nonempty) (write_words_differ nonempty short)
  have address : strtoul (numeral 16 a) 16 = BitVec.ofNat 32 a :=
    strtoul_plain (by decide) (by decide) (by omega)
  have count : strtoul (numeral 10 d.length ++ List.replicate j 10) 10 =
      BitVec.ofNat 32 d.length := strtoul_padded (by decide) (by decide) (by omega) j
  have handled := handled_write lib tokens BUFSIZE u.console
  rcases writeBody_cases lib (BitVec.ofNat 32 a) (encode d) (BitVec.ofNat 32 d.length)
    BUFSIZE u.console with ⟨_, body⟩ | ⟨fails, _⟩
  · rw [address, count, body] at handled
    obtain ⟨last, passed, memory, recv⟩ := execute_answers same commands handled
      (word_replies _ (BitVec.ofNat 32 d.length))
    refine ⟨recv ▸ inside, ⟨str, numeral 10 d.length ++ List.replicate j 10, last, ?_, ?_, ?_, ?_,
      ?_⟩, ?_, passed⟩
    · rw [address, dest]
    · rw [count, size]
    · rw [count]
      exact passes.1
    · rw [address]
      exact (isWithinMem1Range_iff _).mpr passes.2.1
    · rw [address, count]
      exact (isWithinMem1Range_iff _).mpr passes.2.2
    · have copied := written_code u.console size (by rw [dest]; omega)
      rw [dest] at copied
      rw [memory]
      exact copied.trans (congrArg (poke · a d) mem)
  · exact absurd passes fails

theorem write_end_to_end_one_byte :
    let mem : Memory := fun a => UInt8.ofNat a.toNat
    let s := start mslSnprintf mem (fun _ => ⟨0, fun _ => 0⟩) []
    let opened : Answer := ⟨3, fun _ => 0⟩
    let chunks : List Chunk := [⟨text "write 80", by decide⟩, ⟨text "000000 Q", by decide⟩,
      ⟨text "Q== 1\n\n", by decide⟩, ⟨text "\n", by decide⟩]
    let t := (s.step mslSnprintf opened).readAll mslSnprintf (chunks.map chunkAnswer)
    t.mem = poke mem 0x80000000 [65] ∧ t.passed = some ([0, 0, 0, 1], 4) := by
  intro mem s opened chunks t
  have reached : Reached mslSnprintf s := ⟨s, [], ⟨mem, _, _, rfl⟩, rfl⟩
  have accepted : 0 ≤ opened.ret := by decide
  have cut : (chunks.map Subtype.val).flatten = SpmClient.write 0x80000000 [65] := by decide
  exact (write_end_to_end reached rfl accepted (by decide) (by decide) (by decide) (by decide) cut
    (delivers_chunks chunks)).2.2

end Write

section Msgbox
variable {m : List Char}

/-- The message box is started once, on a buffer of just these bytes and a NUL, and nothing
    is stored outside that buffer. -/
def MessageShown (lib : Snprintf) (str bytes : List UInt8) : Prop :=
  ∀ c : Console, c.effects = [] → ∃ result allocated index buffer stored reply,
    ((registry lib).parseAndExecute lib str BUFSIZE c).outcome = .ok result ∧
    result.2.effects = [.decode allocated stored, .terminate allocated index,
      .evtEntry allocated buffer, .respond reply] ∧
    allocated = bytes.length + 1 ∧ (stored.length : Int) ≤ allocated ∧
    0 ≤ index ∧ index < allocated ∧
    (∀ i (inside : i < bytes.length), buffer i = bytes[i]) ∧ buffer bytes.length = 0

/-- The last request was a msgbox of these bytes; they are shown, and their number is the
    reply. -/
def MessageAnswered (lib : Snprintf) (t : Server) (bytes : List UInt8) : Prop :=
  (∃ str sizeText, t.calls.getLast? =
      some (.parseAndExecute str [(text "msgbox", [encode bytes, sizeText])]) ∧
    MessageShown lib str bytes) ∧
  t.passed = some (wordBytes (BitVec.ofNat 32 bytes.length), 4)

theorem utf8_nonempty (nonempty : m ≠ []) : utf8 m ≠ [] := by
  have positive := List.length_pos_iff.mpr nonempty
  exact List.length_pos_iff.mp (positive.trans_le (utf8_length_ge m))

theorem msgbox_short (fits : (SpmClient.msgbox m).length ≤ BUFSIZE) : (utf8 m).length < 1000 := by
  have code := encode_length (utf8 m)
  simp only [SpmClient.msgbox, sendData, List.length_append, List.length_replicate,
    BUFSIZE] at fits
  omega

theorem msgbox_words (nonempty : m ≠ []) :
    ∀ w ∈ text "msgbox" :: ([encode (utf8 m)] ++ [numeral 10 m.length]), Word w ∧ 10 ∉ w := by
  intro w member
  simp only [List.singleton_append, List.mem_cons, List.not_mem_nil, or_false] at member
  rcases member with rfl | rfl | rfl
  · exact ⟨by unfold Word; decide, by decide⟩
  · exact encode_plain (utf8_nonempty nonempty)
  · exact numeral_plain (by decide) (by decide)

theorem small_word {n : Nat} (small : n < 1000) :
    (BitVec.ofNat 32 n).toInt = n ∧ (BitVec.ofNat 32 n + 1).toInt = n + 1 := by
  have word := word_toNat (show n < 2 ^ 32 by omega)
  have next := word_add (show n + 1 < 2 ^ 32 by omega)
  constructor
  · rw [BitVec.toInt_eq_toNat_cond, word, if_pos (by omega)]
  · rw [BitVec.toInt_eq_toNat_cond, show (BitVec.ofNat 32 n + 1).toNat = n + 1 from next,
      if_pos (by omega)]
    rfl

section Handled
variable {str d size : List UInt8} {n : Nat}

theorem msgbox_handled (lib : Snprintf)
    (tokens : split (cstr str) 32 = [text "msgbox", encode d, size])
    (count : strtoul size 10 = BitVec.ofNat 32 n) (fewer : n ≤ d.length) (short : d.length < 1000)
    (c : Console) : (registry lib).parseAndExecute lib str BUFSIZE c =
      ⟨[(text "msgbox", [encode d, size])], .ok (4, shown c (encode d) (BitVec.ofNat 32 n))⟩ := by
  have valid : isValidBase64 (encode d) (BitVec.ofNat 32 n).toInt = true := by
    apply code_is_valid
    rw [(small_word (show n < 1000 by omega)).1, encode_length]
    omega
  rw [handled_msgbox lib tokens, count]
  rcases msgboxBody_cases lib (encode d) (BitVec.ofNat 32 n) BUFSIZE c with ⟨_, body⟩ | ⟨fails, _⟩
  · rw [body]
  · exact absurd valid fails

/-- A box declared with at most as many characters as the code has bytes shows them exactly
    when it is declared with as many. -/
theorem message_shown_iff (tokens : split (cstr str) 32 = [text "msgbox", encode d, size])
    (count : strtoul size 10 = BitVec.ofNat 32 n) (fewer : n ≤ d.length)
    (short : d.length < 1000) : MessageShown lib str d ↔ n = d.length := by
  obtain ⟨index, allocated⟩ := small_word (show n < 1000 by omega)
  constructor
  · intro shows
    obtain ⟨result, room, _, _, _, _, handled, effects, exact_, _⟩ :=
      shows ⟨fun _ => 0, fun _ => ⟨0, fun _ => 0⟩, [], []⟩ rfl
    rw [msgbox_handled lib tokens count fewer short] at handled
    obtain rfl := Except.ok.inj handled
    have first := (List.cons.inj ((shown_effects _ _ _).symm.trans effects)).1
    have same := (Effect.decode.inj first).1
    rw [allocated, exact_] at same
    omega
  · rintro rfl c fresh
    have handled := msgbox_handled lib tokens count fewer short c
    refine ⟨_, _, _, _, _, _, congrArg Handled.outcome handled,
      (shown_effects c _ _).trans (by rw [fresh]; rfl), allocated, ?_, ?_, ?_, ?_, ?_⟩
    · rw [decode_code, allocated, List.length_append]
      exact le_rfl
    · omega
    · omega
    · intro i inside
      rw [shownText, terminated_beside (by omega), decode_code]
      simp [Console.freshBlock, List.getElem?_append_left, inside]
    · exact terminated_at index.symm

end Handled

/-- What a client's msgbox leads to: the request that was handed on, and the reply, which is
    the number of characters that the client declared. -/
theorem msgbox_run {s : Server} (reached : Reached lib s) (waiting : s.pc = .accept)
    {opened : Answer} (accepted : 0 ≤ opened.ret) (nonempty : m ≠ [])
    (fits : (SpmClient.msgbox m).length ≤ BUFSIZE) {chunks : List Chunk} {reads : List Answer}
    (cut : (chunks.map Subtype.val).flatten = SpmClient.msgbox m)
    (delivers : Delivers reads chunks) :
    let t := (s.step lib opened).readAll lib reads
    ∃ str sizeText,
      t.calls.getLast? =
        some (.parseAndExecute str [(text "msgbox", [encode (utf8 m), sizeText])]) ∧
      (MessageShown lib str (utf8 m) ↔ m.length = (utf8 m).length) ∧
      t.passed = some (wordBytes (BitVec.ofNat 32 m.length), 4) := by
  intro t
  have short := msgbox_short fits
  have fewer := utf8_length_ge m
  obtain ⟨u, str, j, made, same, tokens, commands, _⟩ :=
    client_request reached waiting accepted delivers (cut.trans (msgbox_eq m)) (cut ▸ fits)
      (msgbox_words nonempty) fun j => by
        simpa [repeatsLast] using code_size_differ (utf8_nonempty nonempty)
          (show m.length < 1000 by omega) j
  have count : strtoul (numeral 10 m.length ++ List.replicate j 10) 10 =
      BitVec.ofNat 32 m.length := strtoul_padded (by decide) (by decide) (by omega) j
  have handled := msgbox_handled lib tokens count fewer short u.console
  obtain ⟨last, passed, _⟩ := execute_answers same commands handled
    (word_replies _ (BitVec.ofNat 32 m.length))
  exact ⟨str, numeral 10 m.length ++ List.replicate j 10, last,
    message_shown_iff tokens count fewer short, passed⟩

theorem msgbox_miscounted {s : Server} (reached : Reached lib s) (waiting : s.pc = .accept)
    {opened : Answer} (accepted : 0 ≤ opened.ret) (nonempty : m ≠ [])
    (fits : (SpmClient.msgbox m).length ≤ BUFSIZE) {chunks : List Chunk} {reads : List Answer}
    (cut : (chunks.map Subtype.val).flatten = SpmClient.msgbox m)
    (delivers : Delivers reads chunks) (differ : m.length ≠ (utf8 m).length) :
    ¬ MessageAnswered lib ((s.step lib opened).readAll lib reads) (utf8 m) := by
  rintro ⟨⟨other, otherSize, final, shown⟩, _⟩
  obtain ⟨str, sizeText, last, shows, _⟩ :=
    msgbox_run reached waiting accepted nonempty fits cut delivers
  obtain ⟨rfl, -⟩ := Call.parseAndExecute.inj (Option.some.inj (last.symm.trans final))
  exact differ (shows.mp shown)

/-- A client's msgbox is answered as it should be exactly when all of its characters are
    ASCII, whatever the cuts of its text. -/
theorem msgbox_end_to_end_iff {s : Server} (reached : Reached lib s) (waiting : s.pc = .accept)
    {opened : Answer} (accepted : 0 ≤ opened.ret) (nonempty : m ≠ [])
    (fits : (SpmClient.msgbox m).length ≤ BUFSIZE) {chunks : List Chunk} {reads : List Answer}
    (cut : (chunks.map Subtype.val).flatten = SpmClient.msgbox m)
    (delivers : Delivers reads chunks) :
    MessageAnswered lib ((s.step lib opened).readAll lib reads) (utf8 m) ↔
      ∀ ch ∈ m, ch.toNat < 128 := by
  rw [← utf8_length_iff]
  constructor
  · intro answered
    by_contra differ
    exact msgbox_miscounted reached waiting accepted nonempty fits cut delivers (Ne.symm differ)
      answered
  · intro equal
    obtain ⟨str, sizeText, last, shows, passed⟩ :=
      msgbox_run reached waiting accepted nonempty fits cut delivers
    exact ⟨⟨str, sizeText, last, shows.mpr equal.symm⟩, by rw [equal]; exact passed⟩

theorem msgbox_end_to_end_two_characters :
    let s := start mslSnprintf (fun _ => 0) (fun _ => ⟨0, fun _ => 0⟩) []
    let opened : Answer := ⟨3, fun _ => 0⟩
    let chunks : List Chunk := [⟨text "msgbox S", by decide⟩, ⟨text "Gk= 2\n\n\n", by decide⟩]
    let t := (s.step mslSnprintf opened).readAll mslSnprintf (chunks.map chunkAnswer)
    MessageAnswered mslSnprintf t (utf8 ['H', 'i']) := by
  intro s opened chunks t
  have reached : Reached mslSnprintf s := ⟨s, [], ⟨_, _, _, rfl⟩, rfl⟩
  have accepted : 0 ≤ opened.ret := by decide
  have cut : (chunks.map Subtype.val).flatten = SpmClient.msgbox ['H', 'i'] := by decide
  exact (msgbox_end_to_end_iff reached rfl accepted (by decide) (by decide) cut
    (delivers_chunks chunks)).mpr (by simp)

theorem msgbox_end_to_end_accent :
    let s := start mslSnprintf (fun _ => 0) (fun _ => ⟨0, fun _ => 0⟩) []
    let opened : Answer := ⟨3, fun _ => 0⟩
    let chunks : List Chunk := [⟨text "msgbox w", by decide⟩, ⟨text "6k= 1\n\n\n", by decide⟩]
    let t := (s.step mslSnprintf opened).readAll mslSnprintf (chunks.map chunkAnswer)
    (chunks.map Subtype.val).flatten = SpmClient.msgbox [Char.ofNat 0xe9] ∧
      ¬ MessageAnswered mslSnprintf t (utf8 [Char.ofNat 0xe9]) := by
  intro s opened chunks t
  have reached : Reached mslSnprintf s := ⟨s, [], ⟨_, _, _, rfl⟩, rfl⟩
  have accepted : 0 ≤ opened.ret := by decide
  have cut : (chunks.map Subtype.val).flatten = SpmClient.msgbox [Char.ofNat 0xe9] := by decide
  exact ⟨cut, msgbox_miscounted reached rfl accepted (by decide) (by decide) cut
    (delivers_chunks chunks) (by decide)⟩

end Msgbox

end SpmEndToEnd
