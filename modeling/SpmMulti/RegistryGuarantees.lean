import SpmMulti.Commands
import SpmMulti.Lib.OrderedMaps

/- The registry of commands as a map keyed by the commands' names, over any sequence of the
   calls that use it. What the calls should do is said by the ordered map; the manager does
   it except that it cannot remove what is registered. -/
namespace SpmRegistryGuarantees
open SpmMachine SpmConsole SpmCommandManager SpmCommands OrderedMaps
variable {lib : Snprintf}

inductive RegistryCall where
  | initCommands
  | addCommand (cmd : Command)
  | removeCommand (name : List UInt8)
  | findCommand (name : List UInt8)

inductive Returned where
  | nothing
  | flag (done : Bool)
  | command (cmd : Option Command)

/-- CreateInstance gives initCommands the manager that is there. -/
def perform (lib : Snprintf) (m : CommandManager) :
    RegistryCall → Except Fault (Returned × CommandManager)
  | .initCommands => .ok (.nothing, initCommands lib (some m))
  | .addCommand cmd => .ok (.flag (m.addCommand cmd).1, (m.addCommand cmd).2)
  | .removeCommand name => do
    let (done, m) ← m.removeCommand name
    return (.flag done, m)
  | .findCommand name => .ok (.command (m.findCommand name), m)

def performAll (lib : Snprintf) (m : CommandManager) :
    List RegistryCall → Except Fault (List Returned × CommandManager)
  | [] => .ok ([], m)
  | call :: calls => do
    let (returned, m) ← perform lib m call
    let (rest, m) ← performAll lib m calls
    return (returned :: rest, m)

abbrev NameMap := OrderedMap Command.name

def mapped (lib : Snprintf) (a : NameMap) : RegistryCall → Returned × NameMap
  | .initCommands =>
    (.nothing, (((a.insert (read lib)).2.insert (write lib)).2.insert (msgbox lib)).2)
  | .addCommand cmd => (.flag (a.insert cmd).1, (a.insert cmd).2)
  | .removeCommand name => (.flag (a.erase name).1, (a.erase name).2)
  | .findCommand name => (.command (a.lookup name), a)

def mappedAll (lib : Snprintf) (a : NameMap) : List RegistryCall → List Returned × NameMap
  | [] => ([], a)
  | call :: calls =>
    let (returned, a) := mapped lib a call
    let (rest, a) := mappedAll lib a calls
    (returned :: rest, a)

/-- From a manager without commands every call returns what it returns on the map, and the
    manager is left with the entries of the map. -/
def BehavesAsMap (lib : Snprintf) (calls : List RegistryCall) : Prop :=
  ∃ returned m, performAll lib CommandManager.empty calls = .ok (returned, m) ∧
    mappedAll lib OrderedMap.empty calls = (returned, m.asMap)

def RemovesRegistered (a : NameMap) : RegistryCall → Prop
  | .removeCommand name => name ∈ a.keys
  | _ => False

/-- No call is a removal of a name that is registered when the call is made. -/
def SparesRegistered (lib : Snprintf) (a : NameMap) : List RegistryCall → Prop
  | [] => True
  | call :: calls =>
    ¬ RemovesRegistered a call ∧ SparesRegistered lib (mapped lib a call).2 calls

theorem asMap_addCommand (m : CommandManager) (cmd : Command) :
    m.asMap.insert cmd = ((m.addCommand cmd).1, (m.addCommand cmd).2.asMap) := by
  unfold CommandManager.addCommand
  split
  · rename_i other found
    obtain ⟨member, name⟩ := findCommand_name found
    exact OrderedMap.insert_present (name ▸ List.mem_map_of_mem member)
  · rename_i missing
    have absent : cmd.name ∉ m.asMap.keys := OrderedMap.lookup_none_iff.mp missing
    rw [OrderedMap.insert, dif_neg absent]
    rfl

theorem perform_mapped (lib : Snprintf) {m : CommandManager} {call : RegistryCall}
    (spared : ¬ RemovesRegistered m.asMap call) :
    ∃ returned next, perform lib m call = .ok (returned, next) ∧
      mapped lib m.asMap call = (returned, next.asMap) := by
  cases call with
  | initCommands =>
    refine ⟨_, _, rfl, ?_⟩
    simp only [mapped, asMap_addCommand, initCommands, Option.getD_some]
  | addCommand cmd =>
    refine ⟨_, _, rfl, ?_⟩
    simp only [mapped, asMap_addCommand]
  | removeCommand name =>
    have missing : m.findCommand name = none := by
      rw [← asMap_findCommand]
      exact OrderedMap.lookup_none_iff.mpr spared
    have absent : m.removeCommand name = .ok (false, m) := by
      simp only [CommandManager.removeCommand, missing]
    refine ⟨.flag false, m, by simp only [perform, absent]; rfl, ?_⟩
    simp only [mapped, OrderedMap.erase_absent spared]
  | findCommand name => exact ⟨_, _, rfl, rfl⟩

/-- The pointer that erase is given is not one into the vector. -/
theorem perform_faults {m : CommandManager} {call : RegistryCall}
    (hit : RemovesRegistered m.asMap call) :
    perform lib m call = .error .foreignIterator := by
  cases call with
  | removeCommand name =>
    obtain ⟨cmd, found⟩ : ∃ cmd, m.findCommand name = some cmd := by
      rw [← Option.ne_none_iff_exists', ← asMap_findCommand]
      exact fun missing => OrderedMap.lookup_none_iff.mp missing hit
    have fault : m.removeCommand name = .error .foreignIterator := by
      simp only [CommandManager.removeCommand, found]
    simp only [perform, fault]
    rfl
  | _ => exact hit.elim

theorem performAll_mapped {m : CommandManager} {calls : List RegistryCall} :
    (∃ returned next, performAll lib m calls = .ok (returned, next) ∧
      mappedAll lib m.asMap calls = (returned, next.asMap)) ↔
      SparesRegistered lib m.asMap calls := by
  induction calls generalizing m with
  | nil => exact ⟨fun _ => trivial, fun _ => ⟨[], m, rfl, rfl⟩⟩
  | cons call calls ih =>
    by_cases hit : RemovesRegistered m.asMap call
    · refine ⟨?_, fun spares => absurd hit spares.1⟩
      rintro ⟨returned, next, performed, _⟩
      simp only [performAll, perform_faults hit] at performed
      contradiction
    · obtain ⟨first, middle, step, same⟩ := perform_mapped lib hit
      simp only [SparesRegistered, same, ← ih, performAll, mappedAll, step, bind, Except.bind,
        pure, Except.pure]
      constructor
      · rintro ⟨returned, next, performed, mapped⟩
        refine ⟨hit, ?_⟩
        cases later : performAll lib middle calls with
        | error fault => simp [later] at performed
        | ok pair =>
          obtain ⟨rest, last⟩ := pair
          simp only [later, Except.ok.injEq, Prod.mk.injEq] at performed
          obtain ⟨rfl, rfl⟩ := performed
          simp only [Prod.mk.injEq, List.cons.injEq, true_and] at mapped
          exact ⟨rest, last, rfl, Prod.ext mapped.1 mapped.2⟩
      · rintro ⟨_, rest, next, performed, mapped⟩
        refine ⟨first :: rest, next, ?_, ?_⟩
        · simp only [performed]
        · simp only [mapped]

/-- The registry is a map through a sequence of calls exactly when no call removes a name that
    is registered. -/
theorem registry_behaves_iff (lib : Snprintf) (calls : List RegistryCall) :
    BehavesAsMap lib calls ↔ SparesRegistered lib OrderedMap.empty calls :=
  performAll_mapped (m := CommandManager.empty)

theorem registered_name_not_removed :
    ¬ BehavesAsMap mslSnprintf [.initCommands, .removeCommand (text "read")] := by
  intro behaves
  obtain ⟨_, spared, _⟩ := performAll_mapped.mp behaves
  refine spared ?_
  unfold RemovesRegistered
  decide

end SpmRegistryGuarantees
