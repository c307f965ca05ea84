import InjectionCompiler.Document
import InjectionCompiler.Key

/-!
# Generated units

A unit describes one generated class.  It names classes, invader fields and registry fields, and
never refers to the graph it comes from.
-/

namespace InjectionCompiler

/-! ## References -/

structure FieldReference where
  owner : ClassName
  field : String
  deriving DecidableEq, Repr

inductive KeyReference where
  /-- A class literal, by way of an invader where the class is hidden. -/
  | classLiteral (name : ClassName) (invader : Option FieldReference)
  | registry (slot : FieldReference)
  deriving DecidableEq, Repr

structure DependencyReference where
  key : KeyReference
  delivery : Delivery
  deriving DecidableEq, Repr

/-! ## Units -/

inductive UnitSource where
  | constructor (target : ClassName)
  | method (module : ClassName) (method : String)
  | field (module : ClassName) (field : String)
  | binding (implementation : KeyReference)
  | factory (implementation : ClassName)
  | contract (implementation : ClassName)
  | contractMethod (contract : KeyReference) (method : String) (lazy : Bool)
  deriving DecidableEq, Repr

structure ProviderUnit where
  name : ClassName
  key : KeyReference
  /-- The scope annotation, when instances are kept. -/
  scope : Option ClassName
  eager : Bool
  source : UnitSource
  dependencies : List DependencyReference
  deriving DecidableEq, Repr

inductive UnitArgument where
  | injector (dependency : DependencyReference)
  | parameter (index : Nat)
  deriving DecidableEq, Repr

structure FactoryMethodUnit where
  name : String
  implementation : ClassName
  arguments : List UnitArgument
  deriving DecidableEq, Repr

structure FactoryUnit where
  name : ClassName
  factory : ClassName
  methods : List FactoryMethodUnit
  deriving DecidableEq, Repr

structure ContractMethodUnit where
  name : String
  dependency : DependencyReference
  deriving DecidableEq, Repr

structure ContractUnit where
  name : ClassName
  contract : ClassName
  methods : List ContractMethodUnit
  deriving DecidableEq, Repr

structure InvaderUnit where
  name : ClassName
  package : String
  /-- Each held class with its field. -/
  classes : List (ClassName × String)
  deriving DecidableEq, Repr

structure RegistryEntry where
  field : String
  /-- The key as it is shown in messages. -/
  key : String
  qualified : Bool
  deriving DecidableEq, Repr

structure RegistryUnit where
  name : ClassName
  entries : List RegistryEntry
  deriving DecidableEq, Repr

inductive GeneratedUnit where
  | provider (unit : ProviderUnit)
  | factory (unit : FactoryUnit)
  | contract (unit : ContractUnit)
  | invader (unit : InvaderUnit)
  | registry (unit : RegistryUnit)
  deriving DecidableEq, Repr

def GeneratedUnit.name : GeneratedUnit → ClassName
  | .provider unit => unit.name
  | .factory unit => unit.name
  | .contract unit => unit.name
  | .invader unit => unit.name
  | .registry unit => unit.name

/-! ## Written form -/

def ClassName.document (name : ClassName) : Document :=
  .text name.internal

def FieldReference.fields (reference : FieldReference) : List (String × Document) :=
  [("owner", reference.owner.document), ("field", .text reference.field)]

def KeyReference.document : KeyReference → Document
  | .classLiteral name invader =>
      .record ([("via", .text "class"), ("ty", name.document)] ++
        match invader with
        | some reference => [("invader", .record reference.fields)]
        | none => [])
  | .registry slot => .record (("via", .text "registry") :: slot.fields)

def DependencyReference.fields (reference : DependencyReference) : List (String × Document) :=
  [("key", reference.key.document), ("kind", .text reference.delivery.word)]

def UnitSource.document : UnitSource → Document
  | .constructor target => .record [("type", .text "constructor"), ("target", target.document)]
  | .method module name =>
      .record [("type", .text "method"), ("module", module.document), ("method", .text name)]
  | .field module name =>
      .record [("type", .text "field"), ("module", module.document), ("field", .text name)]
  | .binding implementation =>
      .record [("type", .text "binding"), ("implementation", implementation.document)]
  | .factory implementation =>
      .record [("type", .text "factory"), ("implementation", implementation.document)]
  | .contract implementation =>
      .record [("type", .text "contract"), ("implementation", implementation.document)]
  | .contractMethod reference name lazy =>
      .record [("type", .text "contract_method"), ("contract", reference.document),
        ("method", .text name), ("lazy", .flag lazy)]

def ProviderUnit.fields (unit : ProviderUnit) : List (String × Document) :=
  [("ty", unit.name.document), ("key", unit.key.document)] ++
    (match unit.scope with
    | some annotation => [("scope", annotation.document)]
    | none => []) ++
    [("eager", .flag unit.eager), ("source", unit.source.document),
      ("dependencies", .list (unit.dependencies.map fun dependency =>
        .record dependency.fields))]

def UnitArgument.document : UnitArgument → Document
  | .injector dependency => .record (("from", .text "injector") :: dependency.fields)
  | .parameter index => .record [("from", .text "parameter"), ("index", .number index)]

def FactoryUnit.fields (unit : FactoryUnit) : List (String × Document) :=
  [("ty", unit.name.document), ("factory", unit.factory.document),
    ("methods", .list (unit.methods.map fun method =>
      .record [("name", .text method.name), ("implementation", method.implementation.document),
        ("arguments", .list (method.arguments.map UnitArgument.document))]))]

def ContractUnit.fields (unit : ContractUnit) : List (String × Document) :=
  [("ty", unit.name.document), ("contract", unit.contract.document),
    ("methods", .list (unit.methods.map fun method =>
      .record [("name", .text method.name), ("dependency", .record method.dependency.fields)]))]

def InvaderUnit.fields (unit : InvaderUnit) : List (String × Document) :=
  [("ty", unit.name.document), ("package", .text unit.package),
    ("classes", .list (unit.classes.map fun (name, field) =>
      .record [("field", .text field), ("ty", name.document)]))]

def RegistryUnit.fields (unit : RegistryUnit) : List (String × Document) :=
  [("ty", unit.name.document),
    ("entries", .list (unit.entries.map fun entry =>
      .record [("field", .text entry.field), ("key", .text entry.key),
        ("qualified", .flag entry.qualified)]))]

def GeneratedUnit.document : GeneratedUnit → Document
  | .provider unit => .record (("kind", .text "provider") :: unit.fields)
  | .factory unit => .record (("kind", .text "factory") :: unit.fields)
  | .contract unit => .record (("kind", .text "contract") :: unit.fields)
  | .invader unit => .record (("kind", .text "package_invader") :: unit.fields)
  | .registry unit => .record (("kind", .text "key_registry") :: unit.fields)

end InjectionCompiler
