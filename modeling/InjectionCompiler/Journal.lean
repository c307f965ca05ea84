import InjectionCompiler.Failure

/-!
# The journal of a run

A run tells what it does in events.  The events of level `error` are the faults reported to the
user; the others only accompany the work.  `Logged` computes a value and says what happened on the
way, and `Work` does so for work that may also stop.
-/

namespace InjectionCompiler

/-! ## Events -/

inductive Event where
  | debug (message : String) (fields : List (String × String))
  | info (message : String) (fields : List (String × String))
  | warning (message : String)
  | error (message : String) (cause : Option Failure)
  deriving DecidableEq, Repr

namespace Event

def fault? : Event → Option String
  | .error message _ => some message
  | _ => none

end Event

def faults (events : List Event) : List String :=
  events.filterMap Event.fault?

def faultCauses (events : List Event) : List (Option Failure) :=
  events.filterMap fun
    | .error _ cause => some cause
    | _ => none

@[simp] theorem faults_nil : faults [] = [] := rfl

@[simp] theorem faults_append (before after : List Event) :
    faults (before ++ after) = faults before ++ faults after := by
  simp [faults]

/-! ## Values with events -/

structure Logged (α : Type) where
  value : α
  events : List Event

namespace Logged

variable {α β : Type}

instance : Monad Logged where
  pure value := ⟨value, []⟩
  bind step next :=
    let rest := next step.value
    ⟨rest.value, step.events ++ rest.events⟩

@[simp] theorem value_pure (value : α) : (pure value : Logged α).value = value := rfl

@[simp] theorem events_pure (value : α) : (pure value : Logged α).events = [] := rfl

@[simp] theorem value_bind (step : Logged α) (next : α → Logged β) :
    (step >>= next).value = (next step.value).value := rfl

@[simp] theorem events_bind (step : Logged α) (next : α → Logged β) :
    (step >>= next).events = step.events ++ (next step.value).events := rfl

theorem ext {a b : Logged α} (value : a.value = b.value) (events : a.events = b.events) :
    a = b := by
  cases a; cases b; simp_all

instance : LawfulMonad Logged :=
  .mk' Logged (fun _ => ext rfl (List.append_nil _)) (fun _ _ => ext rfl (List.nil_append _))
    (fun _ _ _ => ext rfl (List.append_assoc ..))

def tell (event : Event) : Logged Unit :=
  ⟨(), [event]⟩

def debug (message : String) (fields : List (String × String)) : Logged Unit :=
  tell (.debug message fields)

def info (message : String) (fields : List (String × String)) : Logged Unit :=
  tell (.info message fields)

def report (message : String) : Logged Unit :=
  tell (.error message none)

def faults (logged : Logged α) : List String :=
  InjectionCompiler.faults logged.events

end Logged

/-! ## Work that may stop -/

/-- Work that tells events and may end in a failure.  The events up to the failure are kept. -/
abbrev Work := ExceptT Failure Logged

namespace Work

variable {α : Type}

def result (work : Work α) : Except Failure α :=
  (ExceptT.run work).value

def events (work : Work α) : List Event :=
  (ExceptT.run work).events

end Work

end InjectionCompiler
