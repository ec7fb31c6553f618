import Exemplar.Fault
import Exemplar.Heap

/-!
Computations that leave a trace. What happens on the way is recorded in order, also where the
computation ends in a fault.
-/

namespace Exemplar

inductive Level where
  | debug
  | warning
deriving DecidableEq

inductive Event where
  | logged (level : Level) (text : String)
  | warned (text : String)
  | finished (record : Value)

abbrev Trace := List Event

abbrev Run := ExceptT Fault (StateM Trace)

namespace Run

def ofExcept {α : Type} (result : Except Fault α) : Run α := ExceptT.mk (pure result)

def record (event : Event) : Run Unit := modify (· ++ [event])

def debug (text : String) : Run Unit := record (.logged .debug text)

/-- The result of a computation, faults included. -/
def outcome {α : Type} (action : Run α) : Run (Except Fault α) :=
  ExceptT.mk do return .ok (← action.run)

end Run

instance : MonadLift (Except Fault) Run := ⟨Run.ofExcept⟩

end Exemplar
