import InjectionCompiler.Sink
import InjectionCompiler.Unit.Building

/-!
# Emission

Every unit of a plan is attempted once, in order.  A unit that fails is reported, and the others are
emitted all the same.  The sink is flushed once at the end, and only that can make emission fail.
-/

namespace InjectionCompiler

variable {σ : Type}

/-- One attempt: a unit that was built is turned into text, and the text is written. -/
def attempt (backend : Backend) (sink : Sink σ) (state : σ) (name : ClassName)
    (unit : Except Failure GeneratedUnit) : Except Failure Unit × σ :=
  match unit >>= backend with
  | .error failure => (.error failure, state)
  | .ok content =>
      match sink.write state name content with
      | (.ok (), state) => (.ok (), state)
      | (.error reason, state) => (.error (.io reason), state)

def emitAll (backend : Backend) (sink : Sink σ) (state : σ) :
    List (ClassName × Except Failure GeneratedUnit) → Logged (Nat × σ)
  | [] => return (0, state)
  | (name, unit) :: units => do
      let (result, state) := attempt backend sink state name unit
      match result with
      | .ok () =>
          .debug ("Emitted " ++ name.display) []
          let (count, state) ← emitAll backend sink state units
          return (count + 1, state)
      | .error failure =>
          .tell (.error ("Failed to generate " ++ name.display) (some failure))
          emitAll backend sink state units

def emit (backend : Backend) (sink : Sink σ) (state : σ)
    (units : List (ClassName × Except Failure GeneratedUnit)) :
    Logged (Except Failure Unit × σ) := do
  let (count, state) ← emitAll backend sink state units
  match sink.flush state with
  | (.ok (), state) =>
      .info ("Generated " ++ toString count ++ " artifacts") []
      return (.ok (), state)
  | (.error reason, state) => return (.error (.io reason), state)

end InjectionCompiler
