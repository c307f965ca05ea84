import InjectionCompiler.Element

/-!
# Finding bindings

A class lists the ancestors it stands in for in its annotation.  The bindings are kept under the
boxed key of their implementation, each once.
-/

namespace InjectionCompiler

/-- Bindings by the boxed key of their implementation. -/
abbrev BindingIndex := Table Key (List Binding)

namespace BindingIndex

/-- Adds a binding behind those of the same implementation, unless it is there already. -/
def add (index : BindingIndex) (binding : Binding) : BindingIndex :=
  Table.alter index binding.implementation.boxed [binding] fun held =>
    if binding ∈ held then held else held ++ [binding]

def ofImplementation (index : BindingIndex) (key : Key) : List Binding :=
  (Table.find? index key.boxed).getD []

def all (index : BindingIndex) : List Binding :=
  (Table.values index).flatten

end BindingIndex

namespace ClassPath

def readBinding (decl : ClassDecl) (qualifier : Option Annotation) (entry : Literal) :
    Logged (Option Binding) := do
  match entry with
  | .type (.object ancestor) =>
      return some ⟨.ofClass decl.name, ⟨.ofClass ancestor, qualifier⟩⟩
  | .type other =>
      .report ("Class " ++ decl.name.display ++
        " has a non-class type in its @ProvidedAs annotation: " ++ other.display)
      return none
  | other =>
      .report ("Class " ++ decl.name.display ++
        " has invalid type in its @ProvidedAs annotation: " ++ other.display)
      return none

/-- The bindings that a class declares.  The ancestors are provided under the qualifier of the
class. -/
def readClassBindings (path : ClassPath) (decl : ClassDecl) : Logged (List Binding) := do
  match annotationList? decl.annotations Vocabulary.providedAs with
  | none => return []
  | some entries =>
      let qualifier ← path.readQualifier decl.annotations decl.name.display
      let bindings ← entries.mapM (readBinding decl qualifier)
      let bindings := bindings.filterMap id
      bindings.forM fun binding => .debug ("Binding: " ++ binding.display) []
      return bindings

def readBindings (path : ClassPath) : Logged BindingIndex := do
  let bindings ← path.decls.mapM path.readClassBindings
  return bindings.flatten.foldl BindingIndex.add ∅

end ClassPath

end InjectionCompiler
