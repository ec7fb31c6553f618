import Exemplar.Regex.Matcher
import Exemplar.Regex.Reader
import Exemplar.Text.Quoted

/-!
A compiled regular expression together with the text it was read from.
-/

namespace Exemplar

structure Pattern where
  source : String
  options : Regex.Options
  node : Regex.Node
deriving DecidableEq, Inhabited

namespace Pattern

def compile? (source : String) (options : Regex.Options) : Option Pattern :=
  (Regex.read? source options).map fun (node, inForce) => ⟨source, inForce, node⟩

def occursIn (pattern : Pattern) (text : String) : Bool := pattern.node.occursIn text

def optionNames (options : Regex.Options) : List String :=
  (if options.ignoreCase then ["re.IGNORECASE"] else []) ++
  (if options.multiline then ["re.MULTILINE"] else []) ++
  (if options.dotAll then ["re.DOTALL"] else []) ++
  (if options.verbose then ["re.VERBOSE"] else []) ++
  (if options.ascii then ["re.ASCII"] else [])

/-- The source is shown up to its two hundredth character. -/
def literal (pattern : Pattern) : String :=
  let source := String.ofList ((Text.quoted pattern.source).toList.take 200)
  match optionNames pattern.options with
  | [] => s!"re.compile({source})"
  | names =>
      let shown := "|".intercalate names
      s!"re.compile({source}, {shown})"

end Pattern

end Exemplar
