import RustX.Library.Checked
import RustX.Workflow.Json

/-!
Limits and errors shared by the compiler and the executor of a workflow.
-/
namespace RustX

def maxReferenceComponents : Nat := 32
def maxValueDepth : Nat := 32
def maxValueBytes : Nat := 65536
def maxModelMessageParts : Nat := 64
def schemaDescriptionBytesMax : Nat := 4096

/-- The text Rust's debug formatter writes for a string without characters that
it would escape as unprintable. -/
def debug (text : String) : String :=
  quote text

inductive CompileError
  | at (path : String) (cause : CompileError)
  | invalidField (detail : String)
  | invalidSchema (detail : String)
  | danglingReference (detail : String)
  | invalidEntry (detail : String)
  | cycle (node : String)
  | unreachable (node : String)
  | unterminated (detail : String)
  | invalidBranch (detail : String)
  | invalidReference (detail : String)
  | incompatibleReference (detail : String)
  deriving DecidableEq

/-- `WorkflowCompileError::at`: the field path grows outwards. -/
def CompileError.under (part : String) : CompileError → CompileError
  | .at path cause => .at (part ++ "." ++ path) cause
  | cause => .at part cause

inductive RunError
  | invalidInput (detail : String)
  | invalidOutput (detail : String)
  | invalidProgram (detail : String)
  | uncommittedReference (path : List String)
  | invalidValue (detail : String)
  deriving DecidableEq

def RunError.text : RunError → String
  | .invalidInput detail => s!"invalid workflow input: {detail}"
  | .invalidOutput detail => s!"invalid workflow output: {detail}"
  | .invalidProgram detail => s!"invalid workflow program: {detail}"
  | .uncommittedReference path => s!"uncommitted reference {path.map debug}"
  | .invalidValue detail => s!"invalid workflow value: {detail}"

/-- `bounded_value_bytes`: the serialized size of a value that fits. -/
def boundedValueBytes [FloatText] (value : Json) : Except RunError Nat :=
  if value.serializedBytes > maxValueBytes then
    .error (.invalidValue "constructed value byte bound exceeded")
  else if value.height > maxValueDepth then
    .error (.invalidValue "constructed value depth exceeded")
  else .ok value.serializedBytes

end RustX
