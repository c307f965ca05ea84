import InjectionCompiler.ClassDecl

/-!
# Injection targets

A class with members that are to be injected: a constructor, fields, or methods.
-/

namespace InjectionCompiler

inductive InjectionPoint where
  | field (owner : ClassName) (decl : FieldDecl) (injectee : Dependency)
  /-- A constructor, or a method that takes what it is given. -/
  | method (owner : ClassName) (decl : MethodDecl) (injectees : List Dependency)
  deriving DecidableEq, Repr

namespace InjectionPoint

def isStatic : InjectionPoint → Bool
  | .field _ decl _ => decl.isStatic
  | .method _ decl _ => decl.isStatic

def injectees : InjectionPoint → List Dependency
  | .field _ _ injectee => [injectee]
  | .method _ _ injectees => injectees

def display : InjectionPoint → String
  | .field owner decl _ => owner.display ++ "." ++ decl.name
  | .method owner decl _ => owner.display ++ "." ++ decl.name

end InjectionPoint

/-- A target that can be provided has its constructor first; one that only receives members has
fields and methods alone. -/
structure InjectionTarget where
  name : ClassName
  points : List InjectionPoint
  deriving DecidableEq, Repr

namespace InjectionTarget

def constructorInjectees (target : InjectionTarget) : List Dependency :=
  match target.points with
  | .method _ decl injectees :: _ => if decl.isConstructor then injectees else []
  | _ => []

def dependencies (target : InjectionTarget) : List Dependency :=
  target.points.flatMap InjectionPoint.injectees

end InjectionTarget

end InjectionCompiler
