import AnchorHarness.Account.Classify
import AnchorHarness.Program.Address
import AnchorHarness.Text.Quoted

/-!
# What can be wrong with a program

The faults that keep a program from being analysed, and their wording.
-/

namespace AnchorHarness.Program

/-- Why a program cannot be analysed. -/
inductive Fault where
  | moduleMissing
  | moduleAmbiguous (names : List String)
  /-- The program module has no body. -/
  | moduleEmpty
  /-- A handler does not begin with a context parameter. -/
  | malformedHandler (function : String)
  | contextMissing (struct : String)
  /-- The struct of a context has no named fields. -/
  | contextUnnamed (struct : String)
  | unsupportedField (struct field type : String) (reason : Account.Unsupported)
  /-- The declared address is none. -/
  | invalidAddress (literal : String) (fault : AddressFault)

/-- A fault, and the program it was found in if that is to be named. -/
structure Error where
  fault : Fault
  program : Option String

def Fault.message : Fault → String
  | .moduleMissing => "module with program attribute not found"
  | .moduleAmbiguous names =>
    "more than one module with program attribute: " ++ ", ".intercalate names
  | .moduleEmpty => "the content of program module is missing"
  | .malformedHandler function =>
    "The function " ++ function ++ " does not have the Context parameter and is malformed."
  | .contextMissing struct => "The Context struct " ++ struct ++ " was not found"
  | .contextUnnamed struct =>
    "Context struct parse error: " ++ struct ++ " must have named fields"
  | .unsupportedField struct field type reason =>
    "Unsupported account type `" ++ type ++ "` for field `" ++ field ++ "` of `" ++ struct ++
      "`: " ++ reason.message
  | .invalidAddress literal fault =>
    "invalid program id " ++ Text.quoted literal ++ ": " ++ fault.message

/-- The name of a program in brackets, before a message about it; an empty name is left out. -/
def programTag : Option String → String
  | some name => if name.isEmpty then "" else "[" ++ name ++ "] "
  | none => ""

def Error.message (e : Error) : String := programTag e.program ++ e.fault.message

end AnchorHarness.Program
