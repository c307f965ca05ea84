import InjectionCompiler.Failure

/-!
# The supply of names

Generated classes get names that no class has yet: none of those compiled before, and none handed
out earlier in the same run.  A pattern spells a name around a running number, and the smallest
number that is still free is taken.
-/

namespace InjectionCompiler

/-! ## Patterns -/

/-- Names that differ in the number between `stem` and `tail`. -/
structure NamePattern where
  stem : String
  tail : String
  deriving DecidableEq, Repr

namespace NamePattern

def candidate (pattern : NamePattern) (index : Nat) : ClassName :=
  ⟨pattern.stem ++ toString index ++ pattern.tail⟩

def display (pattern : NamePattern) : String :=
  pattern.stem ++ "\x7b\x7d" ++ pattern.tail

/-- How many numbers a pattern has: all of 32 bits. -/
def candidateCount : Nat := 4294967296

end NamePattern

/-! ## The supply -/

structure NameSupply where
  generated : List ClassName
  compiled : List ClassName
  deriving DecidableEq, Repr

namespace NameSupply

def ofCompiled (compiled : List ClassName) : NameSupply :=
  ⟨[], compiled⟩

def isFree (supply : NameSupply) (name : ClassName) : Bool :=
  !supply.generated.contains name && !supply.compiled.contains name

def take (supply : NameSupply) (name : ClassName) : NameSupply :=
  { supply with generated := name :: supply.generated }

/-- The smallest of `count` numbers from `index` on that a test accepts. -/
def firstAccepted (accepts : Nat → Bool) : (count index : Nat) → Option Nat
  | 0, _ => none
  | count + 1, index =>
      if accepts index then some index else firstAccepted accepts count (index + 1)

def unique (supply : NameSupply) (pattern : NamePattern) :
    Except Failure (ClassName × NameSupply) :=
  match firstAccepted (fun index => supply.isFree (pattern.candidate index))
      NamePattern.candidateCount 0 with
  | some index =>
      let name := pattern.candidate index
      .ok (name, supply.take name)
  | none => .error (.nameExhausted pattern.display)

/-- The name as it stands when it is free, and else with the smallest free number behind it. -/
def uniqueOrIndexed (supply : NameSupply) (base : String) :
    Except Failure (ClassName × NameSupply) :=
  if supply.isFree ⟨base⟩ then .ok (⟨base⟩, supply.take ⟨base⟩)
  else supply.unique ⟨base, ""⟩

end NameSupply

end InjectionCompiler
