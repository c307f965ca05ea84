import InjectionCompiler.Annotation

/-!
# Keys and dependencies

A key identifies what is provided and what is required: a type together with an optional qualifier.
Keys are matched in boxed form, so a primitive type and its boxed class name the same thing.  A
dependency adds how the value is to be delivered.
-/

namespace InjectionCompiler

structure Key where
  type : Signature
  qualifier : Option Annotation
  deriving DecidableEq, Repr

namespace Key

def ofClass (name : ClassName) : Key :=
  ⟨.ofClass name, none⟩

def boxed (key : Key) : Key :=
  { key with type := key.type.boxed }

@[simp] theorem boxed_boxed (key : Key) : key.boxed.boxed = key.boxed := by
  simp [boxed]

def asClass? (key : Key) : Option ClassName :=
  key.type.asClass?

def display (key : Key) : String :=
  match key.qualifier with
  | some qualifier => qualifier.display ++ " " ++ key.type.display
  | none => key.type.display

end Key

/-- How a value reaches the place that needs it. -/
inductive Delivery where
  /-- The instance itself, made at once. -/
  | direct
  /-- A handle that makes the instance on first use and then keeps it. -/
  | lazy
  /-- A handle that looks the instance up on every call. -/
  | provider
  deriving DecidableEq, Repr

namespace Delivery

/-- Whether creation is put off, which breaks a cycle of dependencies. -/
def isDeferred (delivery : Delivery) : Bool :=
  delivery ≠ .direct

def word : Delivery → String
  | .direct => "instance"
  | .lazy => "lazy"
  | .provider => "provider"

end Delivery

structure Dependency where
  key : Key
  delivery : Delivery
  deriving DecidableEq, Repr

namespace Dependency

def direct (key : Key) : Dependency :=
  ⟨key, .direct⟩

def boxed (dependency : Dependency) : Dependency :=
  { dependency with key := dependency.key.boxed }

@[simp] theorem boxed_boxed (dependency : Dependency) :
    dependency.boxed.boxed = dependency.boxed := by
  simp [boxed]

def display (dependency : Dependency) : String :=
  match dependency.delivery with
  | .direct => dependency.key.display
  | .lazy => "Lazy<" ++ dependency.key.display ++ ">"
  | .provider => "Provider<" ++ dependency.key.display ++ ">"

end Dependency

/-- A class that also stands in for an ancestor: whoever asks for `ancestor` is served by what
provides `implementation`. -/
structure Binding where
  implementation : Key
  ancestor : Key
  deriving DecidableEq, Repr

def Binding.display (binding : Binding) : String :=
  binding.ancestor.display ++ " -> " ++ binding.implementation.display

end InjectionCompiler
