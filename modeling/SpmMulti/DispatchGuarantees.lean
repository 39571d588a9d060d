import SpmMulti.Handling

/- From a request text to the callback it invokes: the text is a name and its arguments joined
   by single spaces, the registry any. What the tokeniser makes of that text decides everything,
   and it loses a last word that repeats the one before. -/
namespace SpmDispatchGuarantees
open SpmMachine SpmSplit SpmConsole SpmCommandManager SpmCommands DelimitedWords
variable {lib : Snprintf} {m : CommandManager} {cmd : Command} {args : List (List UInt8)}

/-- One invocation, of this command's callback with these arguments, and its result is the
    result of the request. -/
def InvokesOnce (lib : Snprintf) (m : CommandManager) (cmd : Command)
    (args : List (List UInt8)) : Prop :=
  ∀ responseSize c, m.parseAndExecute lib (requestText cmd.name args) responseSize c =
    ⟨[(cmd.name, args)], cmd.cb args responseSize c⟩

theorem tokens_of_calls {str name : List UInt8} {responseSize : Nat} {c : Console}
    (calls : (m.parseAndExecute lib str responseSize c).calls = [(name, args)]) :
    split (cstr str) 32 = name :: args := by
  cases tokens : split (cstr str) 32 with
  | nil => simp [CommandManager.parseAndExecute, tokens, vectorAt] at calls
  | cons first rest =>
    cases found : m.findCommand first with
    | none => simp [CommandManager.parseAndExecute, tokens, vectorAt, found] at calls
    | some other =>
      obtain ⟨registered, rfl⟩ := findCommand_name found
      rw [parseAndExecute_tokens registered tokens, Command.execute] at calls
      split at calls
      · simp at calls
      · obtain ⟨rfl, rfl⟩ := Prod.mk.inj (List.singleton_inj.mp calls)
        rfl

theorem invoked_tokens (invoked : InvokesOnce lib m cmd args) :
    split (cstr (requestText cmd.name args)) 32 = cmd.name :: args :=
  tokens_of_calls (congrArg Handled.calls (invoked 0 ⟨fun _ => 0, fun _ => ⟨0, fun _ => 0⟩, [], []⟩))

theorem repeated_not_invoked (words : ∀ a ∈ cmd.name :: args, Word a)
    (repeated : repeatsLast (cmd.name :: args) = true) : ¬ InvokesOnce lib m cmd args := by
  intro invoked
  have tokens := invoked_tokens invoked
  rw [requestText_tokens words, if_pos repeated] at tokens
  have shorter := congrArg List.length tokens
  simp at shorter

/-- The callback is invoked as the text says exactly when the command's name is a word and
    the last two words of the text, the name counted, differ. -/
theorem dispatch_invokes_once_iff (registered : cmd ∈ m.commands)
    (arity : cmd.argc = args.length) (words : ∀ a ∈ args, Word a) :
    InvokesOnce lib m cmd args ↔
      Word cmd.name ∧ ¬ ∃ front w, cmd.name :: args = front ++ [w, w] := by
  rw [← repeatsLast_iff]
  constructor
  · intro invoked
    have name : Word cmd.name := token_word (invoked_tokens invoked ▸ List.mem_cons_self)
    refine ⟨name, fun repeated => ?_⟩
    exact repeated_not_invoked (List.forall_mem_cons.mpr ⟨name, words⟩) repeated invoked
  · rintro ⟨name, distinct⟩ responseSize c
    have tokens := requestText_tokens (List.forall_mem_cons.mpr ⟨name, words⟩)
    rw [if_neg distinct] at tokens
    rw [parseAndExecute_tokens registered tokens, execute_matching lib arity]

theorem dispatch_invokes_read_once :
    InvokesOnce mslSnprintf (registry mslSnprintf) (SpmCommands.read mslSnprintf)
      [text "80000000", text "4"] :=
  (dispatch_invokes_once_iff (by simp [registry_commands]) (by rfl)
    (by unfold Word; decide)).mpr
    ⟨by unfold Word; decide, by rw [← repeatsLast_iff]; decide⟩

theorem dispatch_drops_repeated_argument :
    let cmd := SpmCommands.read mslSnprintf
    let args := [text "80000000", text "80000000"]
    cmd ∈ (registry mslSnprintf).commands ∧ cmd.argc = args.length ∧ (∀ a ∈ args, Word a) ∧
      ¬ InvokesOnce mslSnprintf (registry mslSnprintf) cmd args :=
  ⟨by simp [registry_commands], by rfl, by unfold Word; decide,
    repeated_not_invoked (by unfold Word; decide) (by decide)⟩

end SpmDispatchGuarantees
