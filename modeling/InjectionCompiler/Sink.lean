import InjectionCompiler.Failure
import InjectionCompiler.Table
import InjectionCompiler.Unit

/-!
# Backends and sinks

A backend turns a unit into the text of an artifact.  A sink takes artifacts and keeps them back
until it is flushed; it is any machine whose two operations may fail.
-/

namespace InjectionCompiler

/-! ## Backends -/

abbrev Backend := GeneratedUnit → Except Failure String

namespace Backend

def json : Backend :=
  fun unit => .ok unit.document.compact

def prettyJson : Backend :=
  fun unit => .ok unit.document.pretty

/-- Refuses the units for whose names there is a reason. -/
def refusing (backend : Backend) (reason? : ClassName → Option String) : Backend :=
  fun unit =>
    match reason? unit.name with
    | some reason => .error (.emission unit.name reason)
    | none => backend unit

end Backend

/-! ## Sinks -/

/-- The operations of a sink with states in `σ`.  A failure gives its reason. -/
structure Sink (σ : Type) where
  write : σ → ClassName → String → Except String Unit × σ
  flush : σ → Except String Unit × σ

/-- Refuses the writes for whose names there is a reason, and all flushes if there is one for them.
What is refused does not reach the sink. -/
def Sink.refusing {σ : Type} (sink : Sink σ) (write? : ClassName → Option String)
    (flush? : Option String) : Sink σ where
  write state name content :=
    match write? name with
    | some reason => (.error reason, state)
    | none => sink.write state name content
  flush state :=
    match flush? with
    | some reason => (.error reason, state)
    | none => sink.flush state

end InjectionCompiler
