import Exemplar.Trace
import Exemplar.Value.Text

/-!
The declaration of one field: its sample value, which is also its default and fixes its type, the
way missing input is treated, and the constraints on its values.
-/

namespace Exemplar

/-- The answer of a check. A check of the application may answer with something that is no failure
at all. -/
inductive Verdict where
  | pass
  | failure (failure : Failure)
  | other (value : Value)

structure CustomCheck where
  label : String
  check : Heap → Value → Run Verdict

structure Declaration where
  sample : Value
  mode : Mode := .required
  minimum : Option Value := none
  maximum : Option Value := none
  allowed : Option (List Value) := none
  fallback : Option Value := none
  integer : Option Value := none
  regex : Option Value := none
  custom : Option CustomCheck := none
  description : Option Value := none

/-- The mode that a setting selects: a mode, a truth value or the word for the default. -/
def Mode.ofSetting (heap : Heap) (setting : Value) : Except Fault Mode :=
  match heap.look setting with
  | .mode mode => .ok mode
  | .bool true => .ok .required
  | .bool false => .ok .optional
  | .text "default" => .ok .defaulted
  | _ =>
      match heap.literal setting with
      | .ok literal => .error (.badMode literal)
      | .error fault => .error fault

/-- The values that going through a setting yields. -/
def Heap.iterate (heap : Heap) (value : Value) : Except Fault (List Value) :=
  match heap.elements? value with
  | some elements => .ok elements
  | none => .error (.notIterable (heap.qualifiedName value))

namespace Declaration

/-- Settles the mode and the allowed values of a declaration; null stands for an absent list. -/
def settle (heap : Heap) (declaration : Declaration) (required allowed : Value) :
    Except Fault Declaration := do
  let mode ← Mode.ofSetting heap required
  match allowed with
  | .null => return { declaration with mode, allowed := none }
  | allowed =>
      let choices ← heap.iterate allowed
      return { declaration with mode, allowed := some choices }

def literalPart (heap : Heap) (name : String) : Option Value → Except Fault (List String)
  | none => .ok []
  | some value => do
      let literal ← heap.literal value
      return [name ++ "=" ++ literal]

def customPart (custom : Option CustomCheck) : List String :=
  match custom with
  | none => []
  | some custom => [s!"custom=<custom {custom.label}>"]

/-- The literal form shows what differs from a plain required field. -/
def literal (heap : Heap) (declaration : Declaration) : Except Fault String := do
  let sample ← heap.literal declaration.sample
  let mode := match declaration.mode with
    | .required => []
    | mode => ["required=" ++ mode.setting]
  let minimum ← literalPart heap "min" declaration.minimum
  let maximum ← literalPart heap "max" declaration.maximum
  let allowed ← literalPart heap "allowed" (declaration.allowed.map .tuple)
  let integer ← literalPart heap "integer" declaration.integer
  let regex ← literalPart heap "regex" declaration.regex
  let fallback ← literalPart heap "fallback" declaration.fallback
  let parts := [sample] ++ mode ++ minimum ++ maximum ++ allowed ++ integer ++ regex ++
    customPart declaration.custom ++ fallback
  return "Prop(" ++ ", ".intercalate parts ++ ")"

end Declaration

end Exemplar
