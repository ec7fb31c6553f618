/-!
A validation failure: where the value stands, a code, and a description of the problem.
-/

namespace Exemplar

structure Failure where
  path : String
  code : String
  message : String
deriving DecidableEq, Inhabited

namespace Failure

def movedTo (fail : Failure) (path : String) : Failure := { fail with path }

@[simp] theorem movedTo_path (fail : Failure) : fail.movedTo fail.path = fail := rfl

@[simp] theorem movedTo_movedTo (fail : Failure) (first second : String) :
    (fail.movedTo first).movedTo second = fail.movedTo second := rfl

/-- The path may be empty; the colon stands all the same. -/
def display (fail : Failure) : String := s!"{fail.path}: {fail.message}"

def type (path message : String) : Failure := ⟨path, "TYPE", message⟩
def minimum (path message : String) : Failure := ⟨path, "MIN", message⟩
def maximum (path message : String) : Failure := ⟨path, "MAX", message⟩
def missing (path : String) : Failure := ⟨path, "REQ", "missing required property"⟩
def allowed (path message : String) : Failure := ⟨path, "ALLOWED", message⟩
def regex (path message : String) : Failure := ⟨path, "REGEX", message⟩
def integer (path message : String) : Failure := ⟨path, "INTEGER", message⟩
def unknown (path message : String) : Failure := ⟨path, "UNKNOWN", message⟩
def bigInteger (path message : String) : Failure := ⟨path, "BIGINT", message⟩

end Failure

end Exemplar
