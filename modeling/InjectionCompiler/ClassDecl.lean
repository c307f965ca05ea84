import InjectionCompiler.Key

/-!
# Class declarations

What the compiler knows of a class, an interface or an annotation type: its place in the hierarchy,
its members and the annotations on all of them.
-/

namespace InjectionCompiler

/-! ## Annotated elements -/

def annotationOf? (annotations : List Annotation) (type : ClassName) : Option Annotation :=
  annotations.find? fun annotation => annotation.type = type

def isAnnotated (annotations : List Annotation) (type : ClassName) : Bool :=
  (annotationOf? annotations type).isSome

/-- The list that an annotation carries as its unnamed argument.  A single value counts as a list
of one, and nothing is answered only when the annotation is absent. -/
def annotationList? (annotations : List Annotation) (type : ClassName) : Option (List Literal) :=
  (annotationOf? annotations type).map fun annotation =>
    match annotation.value? with
    | some (.array values) => values
    | some value => [value]
    | none => []

/-! ## Members -/

structure ParameterDecl where
  type : Signature
  annotations : List Annotation
  deriving DecidableEq, Repr

structure MethodDecl where
  name : String
  isStatic : Bool
  typeParameters : List String
  parameters : List ParameterDecl
  returns : Signature
  annotations : List Annotation
  deriving DecidableEq, Repr

namespace MethodDecl

def constructorName : String := "<init>"

def emptyConstructor : MethodDecl where
  name := constructorName
  isStatic := false
  typeParameters := []
  parameters := []
  returns := .erased (.primitive .void)
  annotations := []

def isConstructor (method : MethodDecl) : Bool :=
  method.name = constructorName

def isAnnotated (method : MethodDecl) (type : ClassName) : Bool :=
  InjectionCompiler.isAnnotated method.annotations type

end MethodDecl

structure FieldDecl where
  name : String
  type : Signature
  isStatic : Bool
  annotations : List Annotation
  deriving DecidableEq, Repr

def FieldDecl.isAnnotated (field : FieldDecl) (type : ClassName) : Bool :=
  InjectionCompiler.isAnnotated field.annotations type

/-! ## Classes -/

structure ClassDecl where
  name : ClassName
  isInterface : Bool
  isAbstract : Bool
  isPublic : Bool
  superClass : Option ClassName
  /-- The super class with its type arguments, where it has some. -/
  genericSuper : Option Signature
  interfaces : List ClassName
  typeParameters : List String
  annotations : List Annotation
  methods : List MethodDecl
  fields : List FieldDecl
  deriving DecidableEq, Repr

namespace ClassDecl

/-- A public concrete class without members, directly below the root class. -/
def ofClass (name : ClassName) : ClassDecl where
  name := name
  isInterface := false
  isAbstract := false
  isPublic := true
  superClass := some .object
  genericSuper := none
  interfaces := []
  typeParameters := []
  annotations := []
  methods := []
  fields := []

def ofInterface (name : ClassName) : ClassDecl :=
  { ofClass name with isInterface := true, isAbstract := true }

def extending (decl : ClassDecl) (parent : ClassName) : ClassDecl :=
  { decl with superClass := some parent, genericSuper := none }

/-- Puts the class below a type with arguments.  A type that is no class leaves it without a
super class. -/
def extendingGeneric (decl : ClassDecl) (parent : Signature) : ClassDecl :=
  { decl with superClass := parent.erasure.asObject?, genericSuper := some parent }

def isAnnotated (decl : ClassDecl) (type : ClassName) : Bool :=
  InjectionCompiler.isAnnotated decl.annotations type

def parents (decl : ClassDecl) : List ClassName :=
  decl.superClass.toList ++ decl.interfaces

def constructors (decl : ClassDecl) : List MethodDecl :=
  decl.methods.filter MethodDecl.isConstructor

def plainMethods (decl : ClassDecl) : List MethodDecl :=
  decl.methods.filter fun method => !method.isConstructor

/-- Whether an instance can be made without arguments.  A class that declares no constructor has
the implicit one. -/
def hasDefaultConstructor (decl : ClassDecl) : Bool :=
  decl.constructors.isEmpty ||
    decl.constructors.any fun constructor => constructor.parameters.isEmpty

end ClassDecl

end InjectionCompiler
