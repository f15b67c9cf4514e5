import Sluice.Double

set_option autoImplicit false

namespace Sluice

/-- A place in a buffer; without an item it is a placeholder. -/
structure Slot (α : Type) where
  priority : Double
  order : Nat
  item : Option α

namespace Slot

variable {α : Type}

def before (a b : Slot α) : Bool :=
  decide (a.priority.rank < b.priority.rank) ||
    (a.priority.rank == b.priority.rank && decide (a.order < b.order))

def insert (slot : Slot α) : List (Slot α) → List (Slot α)
  | [] => [slot]
  | other :: rest =>
    if slot.before other then slot :: other :: rest else other :: insert slot rest

end Slot

structure Buffer (α : Type) where
  slots : List (Slot α)
  arrived : Nat

namespace Buffer

variable {α : Type}

def empty : Buffer α := ⟨[], 0⟩

/-- Placeholders leave before anything whose priority is above this. -/
def placeholderPriority : Double := Double.ofInt (-1000)

def addSlot (b : Buffer α) (priority : Double) (item : Option α) : Buffer α :=
  ⟨(Slot.mk priority (b.arrived + 1) item).insert b.slots, b.arrived + 1⟩

def push (b : Buffer α) (item : α) (priority : Option Double) : Buffer α :=
  b.addSlot (priority.getD (Double.ofInt (b.arrived + 1))) (some item)

def pushPlaceholder (b : Buffer α) : Buffer α := b.addSlot placeholderPriority none

def pop (b : Buffer α) : Option (Slot α × Buffer α) :=
  match b.slots with
  | [] => none
  | slot :: rest => some (slot, { b with slots := rest })

def size (b : Buffer α) : Nat := b.slots.length

def items (b : Buffer α) : List α := b.slots.filterMap Slot.item

def held (b : Buffer α) : Nat := b.items.length

end Buffer

end Sluice
