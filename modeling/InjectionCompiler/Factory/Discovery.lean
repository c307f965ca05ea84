import InjectionCompiler.Element
import InjectionCompiler.Factory
import InjectionCompiler.Firsts

/-!
# Finding factories

An interface marked as a factory is read method by method: own methods first, then inherited ones
that no nearer method of the same name hides.  A method that cannot be generated is reported and
left out.
-/

namespace InjectionCompiler

namespace ClassPath

/-! ## Methods -/

def instanceMethods (decl : ClassDecl) : List MethodDecl :=
  decl.plainMethods.filter fun method => !method.isStatic

/-- The ancestors of a class that are on the class path. -/
def knownAncestors (path : ClassPath) (name : ClassName) : List ClassDecl :=
  (path.ancestors name).filterMap path.find?

/-- The methods of an interface, each with the interface that declares it. -/
def factoryMethods (path : ClassPath) (decl : ClassDecl) : List (ClassName × MethodDecl) :=
  let declaring := decl :: (path.knownAncestors decl.name).filter (·.isInterface)
  firsts (fun method => method.2.name)
    (declaring.flatMap fun owner => (instanceMethods owner).map fun method => (owner.name, method))

/-- The nearest ancestor whose method of the same name carries a return annotation that `method`
does not repeat. -/
def forgottenReturn? (path : ClassPath) (factory : ClassDecl) (method : MethodDecl) :
    Option ClassName :=
  if method.isAnnotated Vocabulary.factoryReturn then none
  else
    ((path.knownAncestors factory.name).find? fun ancestor =>
      ancestor.plainMethods.any fun candidate =>
        candidate.name = method.name && candidate.isAnnotated Vocabulary.factoryReturn).map
      ClassDecl.name

/-- What the messages about a method start with.  Faults of an inherited method are put down to
the factory that inherits it. -/
def factoryMethodContext (path : ClassPath) (factory : ClassDecl) (owner : ClassName)
    (method : MethodDecl) : String :=
  let name := memberName factory.name method.name
  if owner ≠ factory.name then
    "Method " ++ name ++ " inherited from " ++ owner.display ++ " is misconfigured: "
  else
    match path.forgottenReturn? factory method with
    | some ancestor =>
        "Method " ++ name ++ " is misconfigured, @Factory.Return of " ++ ancestor.display ++ "." ++
          method.name ++ " is not inherited: "
    | none => ""

def readImplementation (factory : ClassDecl) (method : MethodDecl) (context : String) :
    Logged (Option ClassName) := do
  let name := memberName factory.name method.name
  match annotationOf? method.annotations Vocabulary.factoryReturn with
  | some annotation =>
      match annotation.value? with
      | some (.type (.object type)) => return some type
      | some (.type other) =>
          .report (context ++ "Method " ++ name ++ " is annotated with @Factory.Return with " ++
            other.display ++ " value, but its value must be a class")
          return none
      | other =>
          .report (context ++ "Method " ++ name ++
            " is annotated with @Factory.Return that has a wrong parameter " ++
            (other.map Literal.display).getD "")
          return none
  | none =>
      match method.returns.erasure with
      | .object type => return some type
      | other =>
          .report (context ++ "Method " ++ name ++ " returns " ++ other.display ++
            ", but must return a class")
          return none

def readFactoryConstructor (target : ClassDecl) (context : String) :
    Logged (Option MethodDecl) := do
  match target.constructors.filter (·.isAnnotated Vocabulary.factoryInject) with
  | [constructor] => return some constructor
  | [] =>
      .report (context ++ "Class " ++ target.name.display ++
        " must have a constructor annotated with @Factory.Inject")
      return none
  | _ =>
      .report (context ++ "Class " ++ target.name.display ++
        " must have a single constructor annotated with @Factory.Inject")
      return none

/-- Where a parameter of the constructor gets its value.  A parameter that the caller supplies is
matched with the method's arguments in boxed form. -/
def readFactoryArgument (factory implementation : ClassName) (offered : List Dependency)
    (parameter : ParameterDecl) (dependency : Dependency) : Logged (Option FactoryArgument) := do
  if isAnnotated parameter.annotations Vocabulary.factoryParameter then
    match offered.findIdx? fun argument => argument.boxed = dependency.boxed with
    | some index => return some (.passed dependency index)
    | none =>
        .report ("Class " ++ implementation.display ++
          " contains a @Factory.Parameter not provided by factory " ++ factory.display ++ ": " ++
          dependency.display)
        return none
  else
    return some (.injected dependency)

/-- Reads one method; the class it builds has to be on the class path. -/
def readFactoryMethod (path : ClassPath) (factory : ClassDecl) (owner : ClassName)
    (method : MethodDecl) : Work (Option FactoryMethod) := do
  let name := memberName factory.name method.name
  let context := path.factoryMethodContext factory owner method
  if !method.typeParameters.isEmpty then
    Logged.report (context ++ "Method " ++ name ++ " mustn't contain generic parameters")
    return none
  let some implementation ← readImplementation factory method context | return none
  let some target := path.find? implementation | throw (.classNotFound implementation)
  let some constructor ← readFactoryConstructor target context | return none
  let offered ← path.readParameters factory.name method
  (repeats Dependency.boxed offered).forM fun argument =>
    Logged.report ("Method " ++ name ++ " accepts " ++ argument.display ++ " multiple times")
  let needed ← path.readParameters implementation constructor
  let arguments ← (constructor.parameters.zip needed).mapM fun (parameter, dependency) =>
    readFactoryArgument factory.name implementation offered parameter dependency
  Logged.debug ("  Method: " ++ name ++ " -> " ++ implementation.display) []
  return some {
    owner := owner
    method := method.name
    returns := (method.returns.erasure.asObject?).getD implementation
    implementation := implementation
    arguments := arguments.filterMap id }

/-! ## Factories -/

def readFactory (path : ClassPath) (decl : ClassDecl) : Work Factory := do
  Logged.debug ("Factory: " ++ decl.name.display) []
  let qualifier ← path.readQualifier decl.annotations decl.name.display
  let methods ← (path.factoryMethods decl).mapM fun (owner, method) =>
    path.readFactoryMethod decl owner method
  return {
    name := decl.name
    implementation := factoryImplementation decl.name
    key := ⟨.ofClass decl.name, qualifier⟩
    methods := methods.filterMap id }

end ClassPath

end InjectionCompiler
