import InjectionCompiler.Text.Quoted

/-!
# Documents

Structured text that is written out: units and reports.  A record keeps its fields in the order in
which they were given.  A document is written as JSON on one line or indented.
-/

namespace InjectionCompiler

inductive Document where
  | flag (value : Bool)
  | number (value : Nat)
  | text (value : String)
  | list (items : List Document)
  | record (fields : List (String × Document))
  deriving Repr

namespace Document

/-! ## Strings -/

/-- Quotes, backslashes and control characters are escaped; nothing else is. -/
def jsonChar (c : Char) : List Char :=
  if c = '\"' then ['\\', '\"']
  else if c = '\\' then ['\\', '\\']
  else if c = '\x08' then ['\\', 'b']
  else if c = '\t' then ['\\', 't']
  else if c = '\n' then ['\\', 'n']
  else if c = '\x0c' then ['\\', 'f']
  else if c = '\r' then ['\\', 'r']
  else if c.toNat < 0x20 then
    ['\\', 'u', '0', '0'] ++ (if c.toNat < 0x10 then ['0'] else []) ++ Text.hexDigits c.toNat
  else [c]

def jsonString (text : String) : String :=
  "\"" ++ String.ofList (text.toList.flatMap jsonChar) ++ "\""

/-! ## One line -/

mutual

def compact : Document → String
  | .flag value => if value then "true" else "false"
  | .number value => toString value
  | .text value => jsonString value
  | .list items => "[" ++ ",".intercalate (compactItems items) ++ "]"
  | .record fields => "\x7b" ++ ",".intercalate (compactFields fields) ++ "\x7d"
  termination_by structural document => document

def compactItems : List Document → List String
  | [] => []
  | item :: items => item.compact :: compactItems items
  termination_by structural items => items

def compactFields : List (String × Document) → List String
  | [] => []
  | field :: fields => compactField field :: compactFields fields
  termination_by structural fields => fields

def compactField : String × Document → String
  | (name, value) => jsonString name ++ ":" ++ value.compact
  termination_by structural field => field

end

/-! ## Indented -/

/-- The start of a line at a depth: two blanks for each level. -/
def indent (depth : Nat) : String :=
  "\n" ++ String.ofList (List.replicate (2 * depth) ' ')

/-- Items between brackets, each on a line of its own; nothing stands between empty brackets. -/
def bracketed (opening closing : String) (depth : Nat) (items : List String) : String :=
  if items.isEmpty then opening ++ closing
  else
    opening ++ indent (depth + 1) ++ ("," ++ indent (depth + 1)).intercalate items ++
      indent depth ++ closing

mutual

/-- The document with each item and each field on its own line. -/
def prettyAt (depth : Nat) : Document → String
  | .flag value => if value then "true" else "false"
  | .number value => toString value
  | .text value => jsonString value
  | .list items => bracketed "[" "]" depth (prettyItems (depth + 1) items)
  | .record fields => bracketed "\x7b" "\x7d" depth (prettyFields (depth + 1) fields)
  termination_by structural document => document

def prettyItems (depth : Nat) : List Document → List String
  | [] => []
  | item :: items => item.prettyAt depth :: prettyItems depth items
  termination_by structural items => items

def prettyFields (depth : Nat) : List (String × Document) → List String
  | [] => []
  | field :: fields => prettyField depth field :: prettyFields depth fields
  termination_by structural fields => fields

def prettyField (depth : Nat) : String × Document → String
  | (name, value) => jsonString name ++ ": " ++ value.prettyAt depth
  termination_by structural field => field

end

def pretty (document : Document) : String :=
  document.prettyAt 0

end Document

end InjectionCompiler
