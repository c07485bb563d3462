/-
  StackCalc.Machine

  What a run changes, and what it depends on.  The `Machine` is threaded through
  every step, also through steps that fail, so what was stored or printed before a
  failure is kept.
-/

import StackCalc.Config
import StackCalc.Library
import StackCalc.Memory

namespace StackCalc

/-- What a run prints: lines of its trace, and lines of the program itself. -/
inductive Event where
  | trace (line : String)
  | print (line : String)
deriving DecidableEq, Repr

/-- The printed line of an event. -/
def Event.line : Event → String
  | trace line => line
  | print line => line

/-- What a run changes: the memory, what it prints (last line first), how many
    steps the finished frames took and how many frames finished, and the state of
    the random numbers. -/
structure Machine where
  memory : Memory
  events : List Event
  steps : Nat
  frames : Nat
  seed : Nat

namespace Machine

/-- A machine with a memory, before a run. -/
def start (memory : Memory) (seed : Nat) : Machine := ⟨memory, [], 0, 0, seed⟩

/-- One more printed line. -/
def note (m : Machine) (event : Event) : Machine :=
  { m with events := event :: m.events }

/-- A frame that took a number of steps has finished. -/
def finish (m : Machine) (steps : Nat) : Machine :=
  { m with steps := m.steps + steps, frames := m.frames + 1 }

/-- The printed text, in order. -/
def output (m : Machine) : String :=
  String.join (m.events.reverse.map Event.line)

/-- The next random number, at least zero and below one, from a linear
    congruential sequence. -/
def draw (m : Machine) : Float × Machine :=
  let seed := (m.seed * 6364136223846793005 + 1442695040888963407) % Nat.pow 2 64
  (Double.ofUnits false (seed / Nat.pow 2 11 * Double.one) (Nat.pow 2 53), { m with seed := seed })

end Machine

/-- What a run depends on and never changes. -/
structure Setting where
  library : Library
  config : Config
  verbosity : Nat

/-- The outcome of a run, and the machine after it. -/
abbrev Reply (α : Type) := Except Error α × Machine

end StackCalc
