import InjectionCompiler.Signature
import InjectionCompiler.Text.Quoted

/-!
# Annotations

An annotation is its type with literal arguments.  The arguments are kept in ascending order of
their names, each name once, so that two annotations written with their arguments in another order
are the same annotation.
-/

namespace InjectionCompiler

mutual

/-- An argument of an annotation. -/
inductive Literal where
  | bool (value : Bool)
  | int (value : Int)
  | char (value : Char)
  | string (value : String)
  | type (value : Descriptor)
  | constant (enumeration : ClassName) (name : String)
  | array (values : List Literal)
  /-- An annotation within another. -/
  | nested (value : Annotation)
  deriving Repr

inductive Annotation where
  | mk (type : ClassName) (arguments : List (String × Literal))
  deriving Repr

end

/-! ## Equality -/

mutual

def Literal.same : Literal → Literal → Bool
  | .bool a, .bool b => a = b
  | .int a, .int b => a = b
  | .char a, .char b => a = b
  | .string a, .string b => a = b
  | .type a, .type b => a = b
  | .constant a x, .constant b y => a = b && x = y
  | .array as, .array bs => Literal.sameAll as bs
  | .nested a, .nested b => a.same b
  | _, _ => false
  termination_by structural a => a

def Literal.sameAll : List Literal → List Literal → Bool
  | [], [] => true
  | a :: as, b :: bs => a.same b && Literal.sameAll as bs
  | _, _ => false
  termination_by structural as => as

def Annotation.same : Annotation → Annotation → Bool
  | .mk a as, .mk b bs => a = b && Literal.sameArguments as bs
  termination_by structural a => a

def Literal.sameArguments : List (String × Literal) → List (String × Literal) → Bool
  | [], [] => true
  | a :: as, b :: bs => Literal.sameArgument a b && Literal.sameArguments as bs
  | _, _ => false
  termination_by structural as => as

def Literal.sameArgument : String × Literal → String × Literal → Bool
  | (m, a), (n, b) => m = n && a.same b
  termination_by structural a => a

end

mutual

theorem Literal.same_iff : (a b : Literal) → (a.same b = true ↔ a = b)
  | .bool _, b => by cases b <;> simp [Literal.same]
  | .int _, b => by cases b <;> simp [Literal.same]
  | .char _, b => by cases b <;> simp [Literal.same]
  | .string _, b => by cases b <;> simp [Literal.same]
  | .type _, b => by cases b <;> simp [Literal.same]
  | .constant _ _, b => by cases b <;> simp [Literal.same]
  | .array as, b => by cases b <;> simp [Literal.same, Literal.sameAll_iff as]
  | .nested a, b => by cases b <;> simp [Literal.same, Annotation.same_iff a]

theorem Literal.sameAll_iff : (as bs : List Literal) → (Literal.sameAll as bs = true ↔ as = bs)
  | [], bs => by cases bs <;> simp [Literal.sameAll]
  | a :: as, bs => by
      cases bs <;> simp [Literal.sameAll, Literal.same_iff a, Literal.sameAll_iff as]

theorem Annotation.same_iff : (a b : Annotation) → (a.same b = true ↔ a = b)
  | .mk _ as, .mk _ _ => by simp [Literal.sameArguments_iff as, Annotation.same]

theorem Literal.sameArguments_iff :
    (as bs : List (String × Literal)) → (Literal.sameArguments as bs = true ↔ as = bs)
  | [], bs => by cases bs <;> simp [Literal.sameArguments]
  | a :: as, bs => by
      cases bs <;> simp [Literal.sameArguments, Literal.sameArgument_iff a,
        Literal.sameArguments_iff as]

theorem Literal.sameArgument_iff :
    (a b : String × Literal) → (Literal.sameArgument a b = true ↔ a = b)
  | (_, a), (_, _) => by simp [Literal.sameArgument, Literal.same_iff a]

end

instance : DecidableEq Literal := fun a b => decidable_of_iff _ (Literal.same_iff a b)

instance : DecidableEq Annotation := fun a b => decidable_of_iff (a.same b) (a.same_iff b)

/-! ## Arguments -/

namespace Annotation

def type : Annotation → ClassName
  | .mk type _ => type

def arguments : Annotation → List (String × Literal)
  | .mk _ arguments => arguments

def ofType (type : ClassName) : Annotation :=
  .mk type []

/-- Puts an argument at its place in ascending order; an argument of the same name gives way. -/
def insertArgument (name : String) (value : Literal) :
    List (String × Literal) → List (String × Literal)
  | [] => [(name, value)]
  | (other, held) :: rest =>
      match compare name other with
      | .lt => (name, value) :: (other, held) :: rest
      | .eq => (name, value) :: rest
      | .gt => (other, held) :: insertArgument name value rest

def set (mark : Annotation) (name : String) (value : Literal) : Annotation :=
  .mk mark.type (insertArgument name value mark.arguments)

def setAll (mark : Annotation) (arguments : List (String × Literal)) : Annotation :=
  arguments.foldl (fun mark (name, value) => mark.set name value) mark

def argument? (mark : Annotation) (name : String) : Option Literal :=
  mark.arguments.lookup name

def value? (mark : Annotation) : Option Literal :=
  mark.argument? "value"

end Annotation

/-! ## Display -/

mutual

def Literal.display : Literal → String
  | .bool value => if value then "true" else "false"
  | .int value => toString value
  | .char value => "'" ++ String.singleton value ++ "'"
  | .string value => Text.quoted value
  | .type value => value.display ++ ".class"
  | .constant enumeration name => enumeration.display ++ "." ++ name
  | .array values => "\x7b" ++ ", ".intercalate (Literal.displayAll values) ++ "\x7d"
  | .nested value => value.display
  termination_by structural value => value

def Literal.displayAll : List Literal → List String
  | [] => []
  | value :: values => value.display :: Literal.displayAll values
  termination_by structural values => values

def Annotation.display : Annotation → String
  | .mk type arguments =>
      "@" ++ type.display ++
        match Literal.displayArguments arguments with
        | [] => ""
        | shown => "(" ++ ", ".intercalate shown ++ ")"
  termination_by structural mark => mark

def Literal.displayArguments : List (String × Literal) → List String
  | [] => []
  | argument :: arguments =>
      Literal.displayArgument argument :: Literal.displayArguments arguments
  termination_by structural arguments => arguments

def Literal.displayArgument : String × Literal → String
  | (name, value) => name ++ "=" ++ value.display
  termination_by structural argument => argument

end

end InjectionCompiler
