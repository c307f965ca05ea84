import InjectionCompiler.ClassName

/-!
# Failures

What makes a run stop, or a single artifact fail.  Faults in the classes that are compiled are no
failures: they are reported, and the run goes on where it can.
-/

namespace InjectionCompiler

inductive Failure where
  | classNotFound (name : ClassName)
  /-- A type that no class stands for. -/
  | invalidType (reason : String)
  /-- Every name that a pattern allows is taken. -/
  | nameExhausted (pattern : String)
  /-- A unit could not be written out as text. -/
  | emission (name : ClassName) (reason : String)
  | io (reason : String)
  | serialization (reason : String)
  | config (reason : String)
  deriving DecidableEq, Repr

namespace Failure

def message : Failure → String
  | .classNotFound name => "Class not found: " ++ name.display
  | .invalidType reason => "Invalid type: " ++ reason
  | .nameExhausted pattern => "Cannot generate a unique name with pattern: " ++ pattern
  | .emission name reason => "Failed to emit " ++ name.display ++ ": " ++ reason
  | .io reason => "I/O error: " ++ reason
  | .serialization reason => "Serialization failed: " ++ reason
  | .config reason => "Invalid configuration: " ++ reason

/-- The text of what lies behind the failure.  Only a failing destination has something behind
it. -/
def source? : Failure → Option String
  | .io reason => some reason
  | _ => none

end Failure

end InjectionCompiler
