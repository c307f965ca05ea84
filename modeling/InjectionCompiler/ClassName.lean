/-!
# Class names

A class, an interface or an annotation type is known by its internal name: package segments and
the simple name, separated by slashes, as in `app/model/Order$Line`.  Messages show the dotted
spelling instead.  Any text is accepted as a name, the empty one included.
-/

namespace InjectionCompiler

structure ClassName where
  internal : String
  deriving DecidableEq, Repr, Inhabited

namespace ClassName

/-- The root of the class hierarchy, super class of every class that declares no other. -/
def object : ClassName := ⟨"java/lang/Object"⟩

/-- The spelling used in messages: every slash becomes a dot. -/
def display (name : ClassName) : String :=
  String.ofList (name.internal.toList.map fun c => if c = '/' then '.' else c)

def packageName (name : ClassName) : String :=
  String.ofList ((name.internal.toList.reverse.dropWhile (· ≠ '/')).drop 1).reverse

def descriptor (name : ClassName) : String :=
  "L" ++ name.internal ++ ";"

def debug (name : ClassName) : String :=
  "ObjectType(" ++ name.internal ++ ")"

/-- Names are ordered by their internal spelling, code point by code point. -/
instance : Ord ClassName := ⟨fun a b => compare a.internal b.internal⟩

def append (name : ClassName) (tail : String) : ClassName :=
  ⟨name.internal ++ tail⟩

end ClassName

end InjectionCompiler
