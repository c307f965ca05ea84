import InjectionCompiler.Arena
import InjectionCompiler.Contract
import InjectionCompiler.Element
import InjectionCompiler.Firsts

/-!
# Finding contracts

A contract offers its own getters and those of the interfaces it extends.  The getters of an
interface are worked out once and kept in a book; an interface that extends itself, directly or
through others, adds nothing a second time.
-/

namespace InjectionCompiler

/-! ## Single getters -/

namespace ClassPath

/-- Whether a class can be a contract: an interface without type parameters. -/
def checkContractClass (decl : ClassDecl) : Logged Bool := do
  if !decl.isInterface then
    .report ("Contract must be an interface: " ++ decl.name.display)
    return false
  if !decl.typeParameters.isEmpty then
    .report ("Contract cannot have type parameters: " ++ decl.name.display)
    return false
  return true

def readGetter (path : ClassPath) (decl : ClassDecl) (method : MethodDecl) :
    Logged (Option Getter) := do
  let name := memberName decl.name method.name
  if !method.typeParameters.isEmpty then
    .report ("Contract's method cannot have type parameters: " ++ name)
    return none
  if !method.parameters.isEmpty then
    .report ("Contract's method cannot have parameters: " ++ name)
    return none
  let injectee ← path.readInjectee method.returns method.annotations name
  if injectee.key.type.isOpen then
    .report ("Contract's method " ++ name ++ " returns an open generic type " ++
      injectee.key.type.display)
    return none
  .debug ("  Method: " ++ name ++ " -> " ++ injectee.display) []
  return some ⟨decl.name, method.name, injectee⟩

def readOwnGetters (path : ClassPath) (decl : ClassDecl) : Logged (List Getter) := do
  let methods := decl.plainMethods.filter fun method => !method.isStatic
  let getters ← methods.mapM (path.readGetter decl)
  return getters.filterMap id

end ClassPath

/-! ## Own and inherited getters -/

/-- Inherited getters that no own getter of the same name hides. -/
def visibleGetters (own inherited : List Getter) : List Getter :=
  inherited.filter fun getter => !(own.map Getter.method).contains getter.method

/-- Inherited getters first, then own ones, the first of each name. -/
def mergedGetters (own inherited : List Getter) : List Getter :=
  firsts Getter.method (visibleGetters own inherited) ++ firsts Getter.method own

/-- Names that several own getters bear, with what these getters return. -/
def ownConflicts (own : List Getter) : List (String × List Getter) :=
  (Table.group Getter.method own).entries.filter fun entry => entry.2.length > 1

/-- Names under which getters with different dependencies are inherited. -/
def inheritedConflicts (own inherited : List Getter) : List (String × List Getter) :=
  (Table.group Getter.method (visibleGetters own inherited)).entries.filter fun entry =>
    match entry.2 with
    | [] => false
    | first :: rest => rest.any fun getter => getter.injectee ≠ first.injectee

def mergeGetters (name : ClassName) (own inherited : List Getter) : Logged (List Getter) := do
  (ownConflicts own).forM fun (method, getters) =>
    .report ("Interface " ++ name.display ++ " contains conflicting methods:\n" ++
      "\n".intercalate (getters.map fun getter =>
        "  " ++ getter.injectee.display ++ " " ++ method ++ "()"))
  (inheritedConflicts own inherited).forM fun (method, getters) =>
    .report ("Interface " ++ name.display ++ " inherits conflicting methods:\n" ++
      "\n".intercalate (getters.map fun getter =>
        "  " ++ getter.injectee.display ++ " " ++ method ++ "() from " ++ getter.owner.display))
  return mergedGetters own inherited

/-! ## The getters of an interface and of all it extends -/

abbrev GetterTable := Table ClassName (List Getter)

/-- The number of known names that are not on a trail. -/
def ClassPath.offTrail (path : ClassPath) (trail : List ClassName) : Nat :=
  SearchSpace.remaining path.registered trail

theorem ClassPath.offTrail_cons_lt {path : ClassPath} {trail : List ClassName} {name : ClassName}
    {decl : ClassDecl} (hdecl : path.find? name = some decl) (htrail : name ∉ trail) :
    path.offTrail (name :: trail) < path.offTrail trail := by
  have h := SearchSpace.remaining_append_singleton (mem_registered_of_find? hdecl) htrail
  simpa [offTrail, SearchSpace.remaining, and_comm, or_comm] using h

def readAllGetters (read : ClassName → GetterTable → Work (List Getter × GetterTable)) :
    List ClassName → GetterTable → Work (List Getter × GetterTable)
  | [], known => return ([], known)
  | name :: names, known => do
      let (getters, known) ← read name known
      let (others, known) ← readAllGetters read names known
      return (getters ++ others, known)

namespace ClassPath

def readGetters (path : ClassPath) (trail : List ClassName) (name : ClassName)
    (known : GetterTable) : Work (List Getter × GetterTable) :=
  match _ : path.find? name with
  | none => throw (.classNotFound name)
  | some decl =>
      match known.find? name with
      | some getters => return (getters, known)
      | none =>
          if _ : name ∈ trail then return ([], known)
          else do
            if ← checkContractClass decl then
              let (inherited, known) ←
                readAllGetters (path.readGetters (name :: trail)) decl.interfaces known
              let own ← path.readOwnGetters decl
              let getters ← mergeGetters name own inherited
              return (getters, known.insert name getters)
            else
              return ([], known.insert name [])
  termination_by path.offTrail trail
  decreasing_by exact offTrail_cons_lt ‹_› ‹_›

end ClassPath

/-! ## The book of contracts -/

/-- The contracts that were asked for, and the getters that were worked out for them. -/
structure ContractBook where
  contracts : Arena .contract Contract
  getters : GetterTable

namespace ContractBook

instance : EmptyCollection ContractBook := ⟨⟨∅, ∅⟩⟩

end ContractBook

abbrev BookWork := StateT ContractBook Work

namespace ClassPath

/-- The id of a contract, which is read when it is asked for the first time. -/
def readContract (path : ClassPath) (project : String) (name : ClassName) :
    BookWork (Id .contract) := do
  let book ← get
  match book.contracts.find? name with
  | some id => return id
  | none =>
      let some decl := path.find? name | throw (.classNotFound name)
      Logged.debug ("Contract: " ++ name.display) []
      let qualifier ← path.readQualifier decl.annotations name.display
      let (getters, known) ← path.readGetters [] name book.getters
      let contract : Contract := {
        name := name
        implementation := contractImplementation name project
        key := ⟨.ofClass name, qualifier⟩
        getters := getters }
      let (id, contracts) := book.contracts.insert name contract
      set (⟨contracts, known⟩ : ContractBook)
      return id

end ClassPath

end InjectionCompiler
