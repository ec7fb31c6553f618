/-!
How a field treats input that is absent or null.
-/

namespace Exemplar

inductive Mode where
  | required
  | optional
  | defaulted
deriving DecidableEq, Inhabited

namespace Mode

def name : Mode → String
  | .required => "REQUIRED"
  | .optional => "OPTIONAL"
  | .defaulted => "DEFAULT"

/-- The written form of the setting that selects the mode. -/
def setting : Mode → String
  | .required => "True"
  | .optional => "False"
  | .defaulted => "'default'"

def display (mode : Mode) : String := "Required." ++ mode.name

def literal (mode : Mode) : String := s!"<Required.{mode.name}: {mode.setting}>"

end Mode

end Exemplar
