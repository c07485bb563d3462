/-
  StackCalc.Memory

  The memory of a session: three fixed slots, which start at zero, and variables
  by name, which start unbound.  The two never meet, even for a variable with the
  name of a slot.
-/

import StackCalc.Operation
import StackCalc.Table

namespace StackCalc

/-- The slots and the variables. -/
structure Memory where
  a : Cell
  b : Cell
  c : Cell
  bindings : Table Cell
deriving Repr

namespace Memory

/-- The memory at the start. -/
def fresh : Memory := ⟨.number 0.0, .number 0.0, .number 0.0, .empty⟩

/-- The content of a slot. -/
def slot (memory : Memory) : Slot → Cell
  | .a => memory.a
  | .b => memory.b
  | .c => memory.c

/-- The memory with a cell put into a slot. -/
def setSlot (memory : Memory) (slot : Slot) (cell : Cell) : Memory :=
  match slot with
  | .a => { memory with a := cell }
  | .b => { memory with b := cell }
  | .c => { memory with c := cell }

/-- The value of a variable. -/
def value? (memory : Memory) (name : String) : Option Cell :=
  memory.bindings.get? name

/-- The memory with a variable bound to a cell. -/
def setValue (memory : Memory) (name : String) (cell : Cell) : Memory :=
  { memory with bindings := memory.bindings.set name cell }

@[simp] theorem slot_setSlot (memory : Memory) (target other : Slot) (cell : Cell) :
    (memory.setSlot target cell).slot other = if other = target then cell else memory.slot other := by
  cases target <;> cases other <;> rfl

@[simp] theorem value?_setValue (memory : Memory) (name other : String) (cell : Cell) :
    (memory.setValue name cell).value? other
      = if other = name then some cell else memory.value? other :=
  Table.get?_set ..

@[simp] theorem slot_setValue (memory : Memory) (name : String) (slot : Slot) (cell : Cell) :
    (memory.setValue name cell).slot slot = memory.slot slot := by
  cases slot <;> rfl

@[simp] theorem value?_setSlot (memory : Memory) (name : String) (slot : Slot) (cell : Cell) :
    (memory.setSlot slot cell).value? name = memory.value? name := by
  cases slot <;> rfl

end Memory
end StackCalc
