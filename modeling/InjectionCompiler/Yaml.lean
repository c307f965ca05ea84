import InjectionCompiler.Document
import InjectionCompiler.Yaml.Scalar

/-!
# Documents in YAML

A record and a list have one line or more for each entry.  Lists are not indented below their
field; everything else is indented by two.
-/

namespace InjectionCompiler.Yaml

def endLine (text : List Char) : List Char :=
  if text.getLast?.any isBreak then text else text ++ ['\n']

def stack (column : Nat) : List (List Char) → List Char
  | [] => []
  | [entry] => entry
  | entry :: entries => endLine entry ++ spaces column ++ stack column entries

mutual

def fieldValue (column : Nat) : Document → List Char
  | .flag value => if value then " true".toList else " false".toList
  | .number value => ' ' :: (toString value).toList
  | .text value => ' ' :: scalar (column + 2) value
  | .list items =>
      if items.isEmpty then " []".toList
      else '\n' :: spaces column ++ stack column (listEntries column items)
  | .record fields =>
      if fields.isEmpty then " \x7b\x7d".toList
      else '\n' :: spaces (column + 2) ++ stack (column + 2) (recordEntries (column + 2) fields)
  termination_by structural document => document

def itemValue (column : Nat) : Document → List Char
  | .flag value => if value then " true".toList else " false".toList
  | .number value => ' ' :: (toString value).toList
  | .text value => ' ' :: scalar (column + 2) value
  | .list items =>
      if items.isEmpty then " []".toList
      else ' ' :: stack (column + 2) (listEntries (column + 2) items)
  | .record fields =>
      if fields.isEmpty then " \x7b\x7d".toList
      else ' ' :: stack (column + 2) (recordEntries (column + 2) fields)
  termination_by structural document => document

def listEntries (column : Nat) : List Document → List (List Char)
  | [] => []
  | item :: items => ('-' :: itemValue column item) :: listEntries column items
  termination_by structural items => items

def recordEntries (column : Nat) : List (String × Document) → List (List Char)
  | [] => []
  | field :: fields => recordEntry column field :: recordEntries column fields
  termination_by structural fields => fields

def recordEntry (column : Nat) : String × Document → List Char
  | (name, value) => name.toList ++ ':' :: fieldValue column value
  termination_by structural field => field

end

end InjectionCompiler.Yaml

namespace InjectionCompiler.Document

/-- A record with its fields line by line; any other document on its own. -/
def yaml (document : Document) : String :=
  let text :=
    match document with
    | .record fields =>
        if fields.isEmpty then "\x7b\x7d".toList
        else Yaml.stack 0 (Yaml.recordEntries 0 fields)
    | document => (Yaml.itemValue 0 document).drop 1
  String.ofList (Yaml.endLine text)

end InjectionCompiler.Document
