import InjectionCompiler.Element
import InjectionCompiler.InjectionTarget

/-!
# Finding injection targets

Every known class is searched for members that are to be injected.  A class with one injected
constructor can be provided; a class with other injected members can receive them.  A class with
several injected constructors is reported and cannot be provided.
-/

namespace InjectionCompiler

structure InjectionTargets where
  injectable : List InjectionTarget
  providable : List InjectionTarget
  deriving DecidableEq, Repr

namespace ClassPath

def readMethodPoint (path : ClassPath) (owner : ClassName) (method : MethodDecl) :
    Logged InjectionPoint := do
  let injectees ← path.readParameters owner method
  return .method owner method injectees

def readFieldPoint (path : ClassPath) (owner : ClassName) (field : FieldDecl) :
    Logged InjectionPoint := do
  let injectee ← path.readInjectee field.type field.annotations (memberName owner field.name)
  return .field owner field injectee

def injectedFields (decl : ClassDecl) : List FieldDecl :=
  decl.fields.filter (·.isAnnotated Vocabulary.inject)

def injectedMethods (decl : ClassDecl) : List MethodDecl :=
  decl.plainMethods.filter (·.isAnnotated Vocabulary.inject)

def injectedConstructors (decl : ClassDecl) : List MethodDecl :=
  decl.constructors.filter (·.isAnnotated Vocabulary.inject)

def readMemberPoints (path : ClassPath) (decl : ClassDecl) : Logged (List InjectionPoint) := do
  let fields ← (injectedFields decl).mapM (path.readFieldPoint decl.name)
  let methods ← (injectedMethods decl).mapM (path.readMethodPoint decl.name)
  return fields ++ methods

def readProvidable (path : ClassPath) (decl : ClassDecl) (members : List InjectionPoint) :
    Logged (Option InjectionTarget) := do
  match injectedConstructors decl with
  | [] => return none
  | [constructor] =>
      .debug ("Providable target: " ++ decl.name.display) []
      let point ← path.readMethodPoint decl.name constructor
      return some ⟨decl.name, point :: members⟩
  | _ =>
      .report ("Class " ++ decl.name.display ++ " has multiple @Inject constructors")
      return none

def readInjectable (decl : ClassDecl) (members : List InjectionPoint) :
    Logged (Option InjectionTarget) := do
  if members.isEmpty then
    return none
  .debug ("Injectable target: " ++ decl.name.display) []
  return some ⟨decl.name, members⟩

/-- What a class can receive and what can be provided of it. -/
def readTarget (path : ClassPath) (decl : ClassDecl) :
    Logged (Option InjectionTarget × Option InjectionTarget) := do
  let members ← path.readMemberPoints decl
  let providable ← path.readProvidable decl members
  let injectable ← readInjectable decl members
  return (injectable, providable)

def readTargets (path : ClassPath) : Logged InjectionTargets := do
  let targets ← path.decls.mapM path.readTarget
  return ⟨targets.filterMap Prod.fst, targets.filterMap Prod.snd⟩

end ClassPath

end InjectionCompiler
