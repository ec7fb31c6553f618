import Exemplar.Text.Naming
import Exemplar.Trace

/-!
Configurations: the policy on invalid parts, the hooks of the application, and the catalogue. A
catalogue is known by its number, so that two configurations may share one.
-/

namespace Exemplar

/-- A sink for warnings. Hooks of the library itself have no label. -/
structure WarningSink where
  label : Option String
  report : String → Run Unit

/-- What every new record goes through. -/
structure Finisher where
  label : Option String
  finish : Heap → Value → Run Value

/-- Maps a field's name to the key that input is looked up under. -/
structure KeyStrategy where
  label : Option String
  keyOf : String → Run String

namespace WarningSink

/-- Writes warnings to the log. -/
def log : WarningSink := ⟨none, fun text => Run.record (.logged .warning text)⟩

end WarningSink

namespace Finisher

def identity : Finisher := ⟨none, fun _ record => return record⟩

end Finisher

namespace KeyStrategy

def identity : KeyStrategy := ⟨none, fun name => return name⟩

def toCamelCase : KeyStrategy := ⟨none, fun name => return Text.toCamelCase name⟩

def toSnakeCase : KeyStrategy := ⟨none, fun name => return Text.toSnakeCase name⟩

end KeyStrategy

abbrev CatalogueId := Nat

/-- A lenient configuration leaves invalid elements and invalid optional nested records out, with a
warning, instead of failing. -/
structure Configuration where
  lenient : Bool := true
  sink : WarningSink := .log
  finisher : Finisher := .identity
  keys : KeyStrategy := .identity
  catalogue : CatalogueId

end Exemplar
