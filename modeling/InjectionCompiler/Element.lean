import InjectionCompiler.ClassPath
import InjectionCompiler.Journal
import InjectionCompiler.Provision

/-!
# Annotated elements

How the qualifier, the scope and the dependencies of a class, a member or a parameter are read from
its annotations and its type.  Every function takes the name of the element for its messages.
-/

namespace InjectionCompiler

/-- The name of a member in messages. -/
def memberName (owner : ClassName) (member : String) : String :=
  owner.display ++ "." ++ member

namespace ClassPath

/-! ## Qualifiers and scopes -/

/-- Whether an annotation type is a qualifier.  A type that is not on the class path is none. -/
def isQualifier (path : ClassPath) (type : ClassName) : Bool :=
  type = Vocabulary.named || path.bears type Vocabulary.qualifier

def isScope (path : ClassPath) (type : ClassName) : Bool :=
  type = Vocabulary.singleton || path.bears type Vocabulary.scope

def qualifiers (path : ClassPath) (annotations : List Annotation) : List Annotation :=
  annotations.filter fun annotation => path.isQualifier annotation.type

def scopes (path : ClassPath) (annotations : List Annotation) : List ClassName :=
  (annotations.map Annotation.type).filter path.isScope

def readQualifier (path : ClassPath) (annotations : List Annotation) (element : String) :
    Logged (Option Annotation) := do
  match path.qualifiers annotations with
  | [] => return none
  | [qualifier] => return some qualifier
  | qualifier :: _ =>
      .report ("Element " ++ element ++ " has multiple qualifiers")
      return some qualifier

/-- The scope of an element, which is none when there are several. -/
def readScope (path : ClassPath) (annotations : List Annotation) (element : String) :
    Logged Scope := do
  let scopes := path.scopes annotations
  let eager := isAnnotated annotations Vocabulary.eager
  if eager && scopes.isEmpty then
    .report ("Element " ++ element ++ " is annotated with @Eager but doesn't have a scope")
  match scopes with
  | [] => return .unscoped
  | [marker] => return .scoped marker eager
  | _ =>
      .report ("Element " ++ element ++ " has multiple scopes: " ++
        ", ".intercalate (scopes.map ClassName.display))
      return .unscoped

end ClassPath

/-! ## Dependencies -/

def wrapperDelivery? (type : Signature) : Option Delivery :=
  match type.erasure.asObject? with
  | some raw =>
      if raw = Vocabulary.lazy then some .lazy
      else if raw = Vocabulary.provider then some .provider
      else none
  | none => none

/-- The dependency that a declared type asks for.  A wrapper with one argument asks for its
argument; a wrapper without is a fault and is taken as it stands. -/
def readDependency (type : Signature) (qualifier : Option Annotation) (element : String) :
    Logged Dependency := do
  match wrapperDelivery? type, type with
  | none, _ => return ⟨⟨type, qualifier⟩, .direct⟩
  | some delivery, .applied _ [argument] => return ⟨⟨argument, qualifier⟩, delivery⟩
  | some _, _ =>
      .report ("Type " ++ type.display ++ " of " ++ element ++ " must be parameterized")
      return ⟨⟨type, qualifier⟩, .direct⟩

namespace ClassPath

def readInjectee (path : ClassPath) (type : Signature) (annotations : List Annotation)
    (element : String) : Logged Dependency := do
  let qualifier ← path.readQualifier annotations element
  readDependency type qualifier element

def readParameters (path : ClassPath) (owner : ClassName) (method : MethodDecl) :
    Logged (List Dependency) :=
  method.parameters.zipIdx.mapM fun (parameter, index) =>
    path.readInjectee parameter.type parameter.annotations
      (memberName owner method.name ++ "#" ++ toString index)

end ClassPath

end InjectionCompiler
