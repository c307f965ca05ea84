import InjectionCompiler.ClassName

/-!
# Types of members

`Descriptor` is an erased type as it stands in a member descriptor; `Signature` is a type as it
stands in a generic signature.  Each primitive type has a boxed class, and the two are treated as
one type wherever a requirement is matched with a source.
-/

namespace InjectionCompiler

/-! ## Primitive types -/

inductive Primitive where
  | void
  | boolean
  | byte
  | char
  | double
  | float
  | int
  | long
  | short
  deriving DecidableEq, Repr

namespace Primitive

def all : List Primitive :=
  [.void, .boolean, .byte, .char, .double, .float, .int, .long, .short]

def keyword : Primitive → String
  | .void => "void"
  | .boolean => "boolean"
  | .byte => "byte"
  | .char => "char"
  | .double => "double"
  | .float => "float"
  | .int => "int"
  | .long => "long"
  | .short => "short"

/-- The class whose instances hold one value of the primitive type. -/
def boxed : Primitive → ClassName
  | .void => ⟨"java/lang/Void"⟩
  | .boolean => ⟨"java/lang/Boolean"⟩
  | .byte => ⟨"java/lang/Byte"⟩
  | .char => ⟨"java/lang/Character"⟩
  | .double => ⟨"java/lang/Double"⟩
  | .float => ⟨"java/lang/Float"⟩
  | .int => ⟨"java/lang/Integer"⟩
  | .long => ⟨"java/lang/Long"⟩
  | .short => ⟨"java/lang/Short"⟩

def ofBoxed? (name : ClassName) : Option Primitive :=
  all.find? fun primitive => primitive.boxed = name

def ofKeyword? (word : String) : Option Primitive :=
  all.find? fun primitive => primitive.keyword = word

theorem mem_all (primitive : Primitive) : primitive ∈ all := by
  cases primitive <;> decide

@[simp] theorem ofBoxed?_boxed (primitive : Primitive) :
    ofBoxed? primitive.boxed = some primitive := by
  cases primitive <;> decide

end Primitive

/-! ## Erased types -/

inductive Descriptor where
  | primitive (type : Primitive)
  | object (name : ClassName)
  | array (element : Descriptor)
  /-- A method signature.  It never stands for a value that can be injected. -/
  | method (text : String)
  deriving DecidableEq, Repr

namespace Descriptor

def display : Descriptor → String
  | .primitive type => type.keyword
  | .object name => name.display
  | .array element => element.display ++ "[]"
  | .method text => text

def asObject? : Descriptor → Option ClassName
  | .object name => some name
  | _ => none

def isVoid (type : Descriptor) : Bool :=
  type = .primitive .void

/-- A primitive type becomes its boxed class; every other type stays. -/
def boxed : Descriptor → Descriptor
  | .primitive type => .object type.boxed
  | type => type

/-- A boxed class becomes its primitive type; every other type stays. -/
def unboxed : Descriptor → Descriptor
  | .object name =>
      match Primitive.ofBoxed? name with
      | some type => .primitive type
      | none => .object name
  | type => type

/-- The class at the bottom of all arrays, boxed.  A method signature has none, and is answered
by its text. -/
def elementClass : Descriptor → Except String ClassName
  | .primitive type => .ok type.boxed
  | .object name => .ok name
  | .array element => element.elementClass
  | .method text => .error text

@[simp] theorem boxed_boxed (type : Descriptor) : type.boxed.boxed = type.boxed := by
  cases type <;> rfl

@[simp] theorem unboxed_boxed_primitive (type : Primitive) :
    (Descriptor.primitive type).boxed.unboxed = .primitive type := by
  simp [boxed, unboxed]

end Descriptor

/-! ## Generic types -/

inductive Signature where
  | erased (type : Descriptor)
  | applied (raw : ClassName) (arguments : List Signature)
  | array (element : Signature)
  | typeVariable (name : String)
  /-- `? extends bound` -/
  | upper (bound : Signature)
  /-- `? super bound` -/
  | lower (bound : Signature)
  deriving Repr

namespace Signature

mutual

def same : Signature → Signature → Bool
  | .erased a, .erased b => a = b
  | .applied a as, .applied b bs => a = b && sameAll as bs
  | .array a, .array b => a.same b
  | .typeVariable a, .typeVariable b => a = b
  | .upper a, .upper b => a.same b
  | .lower a, .lower b => a.same b
  | _, _ => false

def sameAll : List Signature → List Signature → Bool
  | [], [] => true
  | a :: as, b :: bs => a.same b && sameAll as bs
  | _, _ => false

end

mutual

theorem same_iff : (a b : Signature) → (a.same b = true ↔ a = b)
  | .erased _, b => by cases b <;> simp [same]
  | .applied _ as, b => by cases b <;> simp [same, sameAll_iff as]
  | .array a, b => by cases b <;> simp [same, same_iff a]
  | .typeVariable _, b => by cases b <;> simp [same]
  | .upper a, b => by cases b <;> simp [same, same_iff a]
  | .lower a, b => by cases b <;> simp [same, same_iff a]

theorem sameAll_iff : (as bs : List Signature) → (sameAll as bs = true ↔ as = bs)
  | [], bs => by cases bs <;> simp [sameAll]
  | a :: as, bs => by cases bs <;> simp [sameAll, same_iff a, sameAll_iff as]

end

instance : DecidableEq Signature := fun a b => decidable_of_iff _ (same_iff a b)

def ofClass (name : ClassName) : Signature :=
  .erased (.object name)

/-- What is left of the type when its arguments are forgotten.  A type variable and a lower bound
stand for any object. -/
def erasure : Signature → Descriptor
  | .erased type => type
  | .applied raw _ => .object raw
  | .array element => .array element.erasure
  | .typeVariable _ => .object .object
  | .upper bound => bound.erasure
  | .lower _ => .object .object

def asClass? : Signature → Option ClassName
  | .erased (.object name) => some name
  | _ => none

def isErased : Signature → Bool
  | .erased _ => true
  | _ => false

def boxed : Signature → Signature
  | .erased type => .erased type.boxed
  | type => type

@[simp] theorem boxed_boxed (type : Signature) : type.boxed.boxed = type.boxed := by
  cases type <;> simp [boxed]

mutual

/-- Whether a wildcard or a type variable occurs, so that no value can be made for the type
before its arguments are known. -/
def isOpen : Signature → Bool
  | .erased _ => false
  | .applied _ arguments => anyOpen arguments
  | .array element => element.isOpen
  | .typeVariable _ => true
  | .upper _ => true
  | .lower _ => true

def anyOpen : List Signature → Bool
  | [] => false
  | type :: types => type.isOpen || anyOpen types

end

mutual

/-- Every type that the signature mentions, outermost first, without primitive types and type
variables. -/
def mentioned : Signature → List Descriptor
  | .erased (.primitive _) => []
  | .erased type => [type]
  | .applied raw arguments => .object raw :: mentionedAll arguments
  | .array element => element.mentioned
  | .typeVariable _ => []
  | .upper bound => bound.mentioned
  | .lower bound => bound.mentioned

def mentionedAll : List Signature → List Descriptor
  | [] => []
  | type :: types => type.mentioned ++ mentionedAll types

end

mutual

def display : Signature → String
  | .erased type => type.display
  | .applied raw arguments => raw.display ++ "<" ++ ", ".intercalate (displayAll arguments) ++ ">"
  | .array element => element.display ++ "[]"
  | .typeVariable name => name
  | .upper bound => "? extends " ++ bound.display
  | .lower bound => "? super " ++ bound.display

def displayAll : List Signature → List String
  | [] => []
  | type :: types => type.display :: displayAll types

end

end Signature

end InjectionCompiler
