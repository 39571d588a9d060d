import SpmMulti.Split
import SpmMulti.Console
import SpmMulti.Lib.OrderedMaps

/- source/commandmanager.cpp: the command registry and the dispatch of a request text.
   The token pointers stay in use after split's vector is gone; the model keeps the text
   they pointed to. Console output of OSReport is left out. -/
namespace SpmCommandManager
open SpmMachine SpmSplit SpmConsole OrderedMaps

abbrev CommandCb := List (List UInt8) → Nat → Console → Outcome

structure Command where
  name : List UInt8
  helpMsg : String
  argc : Int
  cb : CommandCb

def ANY_ARGC : Int := -1

structure Handled where
  calls : List (List UInt8 × List (List UInt8))
  outcome : Outcome

def Command.execute (lib : Snprintf) (cmd : Command) (args : List (List UInt8))
    (responseSize : Nat) (c : Console) : Handled :=
  let realArgc : Int := args.length
  if realArgc ≠ cmd.argc ∧ cmd.argc ≠ ANY_ARGC then
    ⟨[], .ok (c.report lib responseSize "Error: expected %d arguments, got %d\n"
      [BitVec.ofInt 32 cmd.argc, BitVec.ofInt 32 realArgc])⟩
  else ⟨[(cmd.name, args)], cmd.cb args responseSize c⟩

/-- Names stay pairwise distinct; addCommand is the only way to extend the list. -/
structure CommandManager where
  commands : List Command
  distinct : (commands.map Command.name).Nodup

def CommandManager.empty : CommandManager := ⟨[], by simp⟩

def CommandManager.findCommand (m : CommandManager) (name : List UInt8) : Option Command :=
  m.commands.find? fun cmd => cmd.name = name

/-- The registry as a map keyed by name; findCommand is its lookup. -/
def CommandManager.asMap (m : CommandManager) : OrderedMap Command.name :=
  ⟨m.commands, m.distinct⟩

theorem asMap_findCommand (m : CommandManager) (name : List UInt8) :
    m.asMap.lookup name = m.findCommand name := rfl

theorem findCommand_none {m : CommandManager} {name : List UInt8}
    (missing : m.findCommand name = none) : name ∉ m.commands.map Command.name :=
  OrderedMap.lookup_none_iff.mp ((asMap_findCommand m name).trans missing)

def CommandManager.addCommand (m : CommandManager) (cmd : Command) : Bool × CommandManager :=
  match missing : m.findCommand cmd.name with
  | some _ => (false, m)
  | none => (true, ⟨m.commands ++ [cmd], by
      simpa [List.nodup_append, m.distinct] using findCommand_none missing⟩)

/-- The pointer given to erase is that of the local copy of the element. -/
def CommandManager.removeCommand (m : CommandManager) (name : List UInt8) :
    Except Fault (Bool × CommandManager) :=
  match m.findCommand name with
  | some _ => .error .foreignIterator
  | none => .ok (false, m)

def CommandManager.parseAndExecute (lib : Snprintf) (m : CommandManager) (str : List UInt8)
    (responseSize : Nat) (c : Console) : Handled :=
  let attrs := split (cstr str) 32
  match vectorAt attrs 0 with
  | .error fault => ⟨[], .error fault⟩
  | .ok name =>
    match m.findCommand name with
    | none => ⟨[], .ok (0, c)⟩
    | some pCmd => pCmd.execute lib (attrs.eraseIdx 0) responseSize c

theorem findCommand_name {m : CommandManager} {name : List UInt8} {cmd : Command}
    (found : m.findCommand name = some cmd) : cmd ∈ m.commands ∧ cmd.name = name :=
  OrderedMap.lookup_some_iff.mp ((asMap_findCommand m name).trans found)

theorem findCommand_registered {m : CommandManager} {cmd : Command}
    (registered : cmd ∈ m.commands) : m.findCommand cmd.name = some cmd :=
  (asMap_findCommand m cmd.name).symm.trans (OrderedMap.lookup_some_iff.mpr ⟨registered, rfl⟩)

theorem parseAndExecute_tokens {lib : Snprintf} {m : CommandManager} {cmd : Command}
    (registered : cmd ∈ m.commands) {str : List UInt8} {args : List (List UInt8)}
    (tokens : split (cstr str) 32 = cmd.name :: args) (responseSize : Nat) (c : Console) :
    m.parseAndExecute lib str responseSize c = cmd.execute lib args responseSize c := by
  simp [CommandManager.parseAndExecute, tokens, vectorAt, findCommand_registered registered]

theorem execute_matching (lib : Snprintf) {cmd : Command} {args : List (List UInt8)}
    (arity : cmd.argc = args.length) (responseSize : Nat) (c : Console) :
    cmd.execute lib args responseSize c = ⟨[(cmd.name, args)], cmd.cb args responseSize c⟩ := by
  simp [Command.execute, arity]

end SpmCommandManager
