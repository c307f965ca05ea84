import InjectionCompiler.ClassName

/-!
# Vocabulary

The annotations and the runtime classes that have a meaning for the compiler.
-/

namespace InjectionCompiler.Vocabulary

/-! ## Standard annotations -/

def inject : ClassName := ⟨"javax/inject/Inject"⟩

/-- Marks an annotation type as a qualifier. -/
def qualifier : ClassName := ⟨"javax/inject/Qualifier"⟩

/-- Marks an annotation type as a scope. -/
def scope : ClassName := ⟨"javax/inject/Scope"⟩

def singleton : ClassName := ⟨"javax/inject/Singleton"⟩

def named : ClassName := ⟨"javax/inject/Named"⟩

def provider : ClassName := ⟨"javax/inject/Provider"⟩

/-! ## Annotations of the framework -/

def component : ClassName := ⟨"io/ferrous/inject/Component"⟩

def moduleMark : ClassName := ⟨"io/ferrous/inject/Module"⟩

/-- On a member of a container: its type is imported. -/
def importMark : ClassName := ⟨"io/ferrous/inject/Import"⟩

/-- On a module: the containers that import it. -/
def importedBy : ClassName := ⟨"io/ferrous/inject/ImportedBy"⟩

def provide : ClassName := ⟨"io/ferrous/inject/Provide"⟩

/-- On a class: the containers that host it. -/
def providedBy : ClassName := ⟨"io/ferrous/inject/ProvidedBy"⟩

/-- On a class: the ancestors it stands in for. -/
def providedAs : ClassName := ⟨"io/ferrous/inject/ProvidedAs"⟩

def contract : ClassName := ⟨"io/ferrous/inject/Contract"⟩

def eager : ClassName := ⟨"io/ferrous/inject/Eager"⟩

def factory : ClassName := ⟨"io/ferrous/inject/Factory"⟩

def factoryInject : ClassName := ⟨"io/ferrous/inject/Factory$Inject"⟩

def factoryParameter : ClassName := ⟨"io/ferrous/inject/Factory$Parameter"⟩

def factoryReturn : ClassName := ⟨"io/ferrous/inject/Factory$Return"⟩

/-! ## Runtime classes -/

/-- The super class of every contract configuration. -/
def contractConfiguration : ClassName := ⟨"io/ferrous/inject/ContractConfiguration"⟩

/-- The built-in injector, which every container provides. -/
def injector : ClassName := ⟨"io/ferrous/inject/Injector"⟩

def lazy : ClassName := ⟨"io/ferrous/inject/Lazy"⟩

/-- What the key registry of a run is named after. -/
def keyRegistry : ClassName := ⟨"io/ferrous/inject/KeyRegistry"⟩

end InjectionCompiler.Vocabulary
