import InjectionCompiler.Key

/-!
# Order

Types, annotations, keys and bindings are ordered by one rule.  A value is laid out as a rank: the
number of its alternative first, then its parts from left to right.  Ranks are compared from left to
right, a list that ends first comes first, and texts are compared by code points.
-/

namespace InjectionCompiler

inductive Rank where
  | number (value : Int)
  | text (value : String)
  | list (items : List Rank)
  deriving Repr

namespace Rank

mutual

def order : Rank → Rank → Ordering
  | .number a, .number b => compare a b
  | .number _, _ => .lt
  | .text _, .number _ => .gt
  | .text a, .text b => compare a b
  | .text _, .list _ => .lt
  | .list as, .list bs => orderAll as bs
  | .list _, _ => .gt

def orderAll : List Rank → List Rank → Ordering
  | [], [] => .eq
  | [], _ :: _ => .lt
  | _ :: _, [] => .gt
  | a :: as, b :: bs => (a.order b).then (orderAll as bs)

end

instance : Ord Rank := ⟨order⟩

/-- The alternative of a value and its parts. -/
def alternative (number : Nat) (parts : List Rank) : Rank :=
  .list (.number number :: parts)

/-- An absent value comes before every present one. -/
def optional {α : Type} (rank : α → Rank) (value : Option α) : Rank :=
  .list (value.toList.map rank)

end Rank

/-! ## Types -/

def ClassName.rank (name : ClassName) : Rank :=
  .text name.internal

def Primitive.rank (type : Primitive) : Rank :=
  .number (Primitive.all.idxOf type)

def Descriptor.rank : Descriptor → Rank
  | .primitive type => .alternative 0 [type.rank]
  | .object name => .alternative 1 [name.rank]
  | .array element => .alternative 2 [element.rank]
  | .method text => .alternative 3 [.text text]

mutual

def Signature.rank : Signature → Rank
  | .erased type => .alternative 0 [type.rank]
  | .applied raw arguments => .alternative 1 [raw.rank, .list (Signature.rankAll arguments)]
  | .array element => .alternative 2 [element.rank]
  | .typeVariable name => .alternative 3 [.text name]
  | .upper bound => .alternative 4 [bound.rank]
  | .lower bound => .alternative 5 [bound.rank]

def Signature.rankAll : List Signature → List Rank
  | [] => []
  | type :: types => type.rank :: Signature.rankAll types

end

/-! ## Annotations -/

mutual

def Literal.rank : Literal → Rank
  | .bool value => .alternative 0 [.number value.toInt]
  | .int value => .alternative 1 [.number value]
  | .char value => .alternative 2 [.number value.toNat]
  | .string value => .alternative 3 [.text value]
  | .type value => .alternative 4 [value.rank]
  | .constant enumeration name => .alternative 5 [enumeration.rank, .text name]
  | .array values => .alternative 6 [.list (Literal.rankAll values)]
  | .nested value => .alternative 7 [value.rank]
  termination_by structural value => value

def Literal.rankAll : List Literal → List Rank
  | [] => []
  | value :: values => value.rank :: Literal.rankAll values
  termination_by structural values => values

def Annotation.rank : Annotation → Rank
  | .mk type arguments => .list [type.rank, .list (Literal.rankArguments arguments)]
  termination_by structural mark => mark

def Literal.rankArguments : List (String × Literal) → List Rank
  | [] => []
  | argument :: arguments =>
      Literal.rankArgument argument :: Literal.rankArguments arguments
  termination_by structural arguments => arguments

def Literal.rankArgument : String × Literal → Rank
  | (name, value) => .list [.text name, value.rank]
  termination_by structural argument => argument

end

/-! ## Keys -/

def Key.rank (key : Key) : Rank :=
  .list [key.type.rank, .optional Annotation.rank key.qualifier]

def Delivery.rank : Delivery → Rank
  | .direct => .number 0
  | .lazy => .number 1
  | .provider => .number 2

def Dependency.rank (dependency : Dependency) : Rank :=
  .list [dependency.key.rank, dependency.delivery.rank]

def Binding.rank (binding : Binding) : Rank :=
  .list [binding.implementation.rank, binding.ancestor.rank]

/-! ## Sorting -/

def sortByRank {α : Type} (rank : α → Rank) (items : List α) : List α :=
  items.mergeSort fun a b => (compare (rank a) (rank b)).isLE

end InjectionCompiler
