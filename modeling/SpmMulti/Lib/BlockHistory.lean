import Mathlib

/- An address space into which blocks are written, one after another. A block is a partial
   function; what an address holds is decided by the last block that has it. -/
namespace BlockHistory
variable {α β : Type}

abbrev Block (α β : Type) := α → Option β

def apply (m : α → β) (block : Block α β) : α → β := fun x => (block x).getD (m x)

def replay (m : α → β) (blocks : List (Block α β)) : α → β := blocks.foldl apply m

theorem replay_append (m : α → β) (first second : List (Block α β)) :
    replay m (first ++ second) = replay (replay m first) second := List.foldl_append

theorem replay_snoc (m : α → β) (blocks : List (Block α β)) (block : Block α β) :
    replay m (blocks ++ [block]) = apply (replay m blocks) block := replay_append m blocks [block]

end BlockHistory
