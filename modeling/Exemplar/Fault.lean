import Exemplar.Failure
import Exemplar.Number.Numeral
import Exemplar.Text.Quoted

/-!
What can go wrong outside of validation itself. Each fault is a cause; its kind and its text are
written in one place each, because a fault that arises while a field is processed is reported as a
failure with that text. Where the text comes from the application, asking for it can go wrong too.
-/

namespace Exemplar

inductive Fault where
  /-- Values nested without end. -/
  | tooDeep
  | unorderable (sign left right : String)
  | unsized (className : String)
  | unhashable (className : String)
  | notIterable (className : String)
  | notPair (position : Nat)
  | pairLength (position length : Nat)
  | malformedInteger (literal : String)
  | notInteger (className : String)
  | integerOfNan
  | integerOfInfinity
  /-- A numeral past the limit; the count of digits is known where the numeral was read. -/
  | longNumeral (digits : Option Nat)
  | badMode (literal : String)
  | reservedName (field : String)
  | notDeclaration (field className : String)
  | notCompiled (subject : String)
  /-- A key that is not there. -/
  | missingKey (key : String)
  /-- A position past the end of a list. -/
  | outOfRange
  | noType (literal : String)
  | samePriority (name : String) (priority : Int) (existing : String)
  | cyclicRecord (className : String)
  | noAttribute (className name : String)
  /-- An attribute that belongs to the class of a number. -/
  | unwritable (name : String)
  /-- An attribute that belongs to the class of a mode. -/
  | unsettable (name : String)
  | immutable (className : String)
  | abstractOperation
  | badPattern
  | badJson
  | badEncoding
  | notJsonText (className : String)
  | notArray (shapeName : String)
  | notFrame (className : String)
  /-- Validation failed where a record was demanded. -/
  | rejected (fail : Failure)
  | inconsistentBases (names : List String)
  | duplicateBase (name : String)
  /-- Raised by a hook, a check or a type of the application. -/
  | raised (kind text : String)
deriving DecidableEq

namespace Fault

/-- The kind of a fault, which stands in for an empty text. -/
def kind : Fault → String
  | .tooDeep => "RecursionError"
  | .unorderable .. | .unsized _ | .unhashable _ | .notIterable _ | .notPair _ | .notInteger _ =>
      "TypeError"
  | .pairLength .. | .malformedInteger _ | .integerOfNan | .longNumeral _ | .badMode _ =>
      "ValueError"
  | .integerOfInfinity => "OverflowError"
  | .reservedName _ | .notDeclaration .. | .notCompiled _ => "TypeError"
  | .missingKey _ => "KeyError"
  | .outOfRange => "IndexError"
  | .noType _ => "LookupError"
  | .samePriority .. | .cyclicRecord _ => "ValueError"
  | .noAttribute .. | .unwritable _ | .unsettable _ | .immutable _ => "AttributeError"
  | .abstractOperation => "NotImplementedError"
  | .badPattern => "error"
  | .badJson => "JSONDecodeError"
  | .badEncoding => "UnicodeDecodeError"
  | .notJsonText _ | .notArray _ | .notFrame _ => "TypeError"
  | .rejected _ => "CheckError"
  | .inconsistentBases _ | .duplicateBase _ => "TypeError"
  | .raised kind _ => kind

def longNumeralText : Option Nat → String
  | none =>
      s!"Exceeds the limit ({Number.digitLimit} digits) for integer string conversion; " ++
        "use sys.set_int_max_str_digits() to increase the limit"
  | some digits =>
      s!"Exceeds the limit ({Number.digitLimit} digits) for integer string conversion: " ++
        s!"value has {digits} digits; use sys.set_int_max_str_digits() to increase the limit"

/-- The text of a fault, with a missing key in quotes. -/
def text : Fault → String
  | .tooDeep => "maximum recursion depth exceeded"
  | .unorderable sign left right =>
      s!"'{sign}' not supported between instances of '{left}' and '{right}'"
  | .unsized className => s!"object of type '{className}' has no len()"
  | .unhashable className => s!"unhashable type: '{className}'"
  | .notIterable className => s!"'{className}' object is not iterable"
  | .notPair position =>
      s!"cannot convert dictionary update sequence element #{position} to a sequence"
  | .pairLength position length =>
      s!"dictionary update sequence element #{position} has length {length}; 2 is required"
  | .malformedInteger literal => s!"invalid literal for int() with base 10: {literal}"
  | .notInteger className =>
      "int() argument must be a string, a bytes-like object or a real number, " ++
        s!"not '{className}'"
  | .integerOfNan => "cannot convert float NaN to integer"
  | .integerOfInfinity => "cannot convert float infinity to integer"
  | .longNumeral digits => longNumeralText digits
  | .badMode literal => s!"Invalid required mode {literal}. Expected True, False or 'default'."
  | .reservedName field => s!"Field '{field}': field names must not start with an underscore"
  | .notDeclaration field className =>
      s!"Field '{field}': expected a Prop declaration, got {className}"
  | .notCompiled subject =>
      s!"{subject} is not a compiled schema. " ++
        "Subclass Schema or use define() to declare fields."
  | .missingKey key => Text.quoted key
  | .outOfRange => "list index out of range"
  | .noType literal => s!"No registered type applies to {literal}"
  | .samePriority name priority existing =>
      s!"Type '{name}' has the same priority ({priority}) as registered type '{existing}'"
  | .cyclicRecord className => s!"Cannot convert cyclic {className} record"
  | .noAttribute className name => s!"'{className}' object has no attribute '{name}'"
  | .unwritable name => s!"attribute '{name}' of 'int' objects is not writable"
  | .unsettable name => s!"<enum 'Enum'> cannot set attribute '{name}'"
  | .immutable className => s!"{className} is immutable"
  | .abstractOperation => ""
  | .badPattern | .badJson | .badEncoding => ""
  | .notJsonText className => s!"the JSON object must be str, bytes or bytearray, not {className}"
  | .notArray shapeName => s!"expected array but got {shapeName}"
  | .notFrame className => s!"expected a polars DataFrame but got {className}"
  | .rejected fail => fail.display
  | .inconsistentBases names =>
      let listed := ", ".intercalate names
      s!"Cannot create a consistent method resolution\norder (MRO) for bases {listed}"
  | .duplicateBase name => s!"duplicate base class {name}"
  | .raised _ text => text

/-- What a fault says where it is reported by itself: its text, or the bare missing key. -/
def message : Fault → String
  | .missingKey key => key
  | fault => fault.text

/-- What a fault says inside a failure: its text, or its kind where there is no text. -/
def summary (fault : Fault) : String := if fault.text = "" then fault.kind else fault.text

/-- How faults are put into words. The words of what an application raises are its own, and asking
for them may raise another fault. -/
class Telling where
  tell : Fault → Except Fault String

/-- Every fault has its text. -/
instance plain : Telling := ⟨fun fault => .ok fault.text⟩

/-- What goes into a failure on account of a fault: its words, or its kind where there are none. -/
def told [telling : Telling] (fault : Fault) : Except Fault String := do
  let text ← telling.tell fault
  return if text = "" then fault.kind else text

@[simp] theorem told_plain (fault : Fault) : fault.told = .ok fault.summary := rfl

end Fault

end Exemplar
