import InjectionCompiler.Config.Decoding
import InjectionCompiler.Config.JsonScanner

/-!
# Configurations in JSON

A reader of JSON stands at a place in a text and answers the part that comes next.  Decoding a
configuration with it takes any spelling of an object or a list, and puts every mistake down to its
line and column.
-/

namespace InjectionCompiler.Json

/-! ## Values -/

/-- A mistake for a value of another type than the expected one.  A list or an object is not read
on; everything else is read to its end first. -/
def mistyped {α : Type} (expected : String) (text : List Char) : Except Mistake α :=
  let word := fun (letters : String) (found : Found) (rest : List Char) =>
    match scanWord letters.toList rest with
    | .error mistake => .error mistake
    | .ok rest => failAt (.invalidType found expected) rest
  let number := fun (negative : Bool) (rest : List Char) =>
    match scanNumber negative rest with
    | .error mistake => .error mistake
    | .ok (found, rest) => failAt (.invalidType found expected) rest
  match text with
  | 'n' :: rest => word "ull" .null rest
  | 't' :: rest => word "rue" (.flag true) rest
  | 'f' :: rest => word "alse" (.flag false) rest
  | '-' :: rest => number true rest
  | '\"' :: rest =>
      match scanString rest with
      | .error mistake => .error mistake
      | .ok (value, rest) => failAt (.invalidType (.string value) expected) rest
  | '[' :: _ => failAt (.invalidType .sequence expected) text
  | '\x7b' :: _ => failAt (.invalidType .map expected) text
  | c :: _ => if isDigit c then number false text else failIn .expectedValue text
  | [] => failIn .expectedValue []

def readText (text : List Char) : Scan String :=
  match skipBlanks text with
  | [] => failIn .endInValue []
  | '\"' :: rest => scanString rest
  | rest => mistyped "a string" rest

def readFlag (text : List Char) : Scan Bool :=
  match skipBlanks text with
  | [] => failIn .endInValue []
  | 't' :: rest => (scanWord ['r', 'u', 'e'] rest).map fun rest => (true, rest)
  | 'f' :: rest => (scanWord ['a', 'l', 's', 'e'] rest).map fun rest => (false, rest)
  | rest => mistyped "a boolean" rest

/-! ## Objects -/

/-- Where a fault in a name is put down: behind the blanks that follow the name, and behind the end
of the object if that comes next. -/
def behindName (text : List Char) : List Char :=
  match skipBlanks text with
  | '\x7d' :: rest => rest
  | rest => rest

def readName (isFirst : Bool) (text : List Char) : Scan (Option String) :=
  let name := fun (rest : List Char) =>
    (scanString rest).map fun (name, rest) => (some name, rest)
  match skipBlanks text with
  | [] => failIn .endInObject []
  | '\x7d' :: rest => .ok (none, rest)
  | c :: rest =>
      if isFirst then
        if c = '\"' then name rest else failIn .keyMustBeString (c :: rest)
      else if c = ',' then
        match skipBlanks rest with
        | [] => failIn .endInValue []
        | '\"' :: rest => name rest
        | '\x7d' :: rest => failIn .trailingComma ('\x7d' :: rest)
        | rest => failIn .keyMustBeString rest
      else failIn .expectedObjectCommaOrEnd (c :: rest)

def readColon (text : List Char) : Except Mistake (List Char) :=
  match skipBlanks text with
  | [] => failIn .endInObject []
  | ':' :: rest => .ok rest
  | rest => failIn .expectedColon rest

/-! ## Lists -/

/-- The start of the next element, or nothing before the end of the list. -/
def findElement (isFirst : Bool) (text : List Char) : Except Mistake (Option (List Char)) :=
  match skipBlanks text with
  | [] => failIn .endInList []
  | ']' :: _ => .ok none
  | c :: rest =>
      if isFirst then .ok (some (c :: rest))
      else if c = ',' then
        match skipBlanks rest with
        | [] => failIn .endInValue []
        | ']' :: rest => failIn .trailingComma (']' :: rest)
        | rest => .ok (some rest)
      else failIn .expectedListCommaOrEnd (c :: rest)

def readListEnd (text : List Char) : Except Mistake (List Char) :=
  match skipBlanks text with
  | [] => failIn .endInList []
  | ']' :: rest => .ok rest
  | ',' :: rest =>
      match skipBlanks rest with
      | ']' :: rest => failIn .trailingComma (']' :: rest)
      | rest => failIn .trailingCharacters rest
  | rest => failIn .trailingCharacters rest

/-! ## The whole text -/

def readShape (expected : String) (text : List Char) : Scan Shape :=
  match skipBlanks text with
  | [] => failIn .endInValue []
  | '\x7b' :: rest => .ok (.object, rest)
  | '[' :: rest => .ok (.list, rest)
  | rest => mistyped expected rest

def readEnd (text : List Char) : Except Mistake Unit :=
  match skipBlanks text with
  | [] => .ok ()
  | rest => failIn .trailingCharacters rest

/-! ## The reader -/

/-- A place in a text. -/
structure Place where
  whole : List Char
  rest : List Char
  /-- Whether nothing of the object or the list has been read. -/
  isFirst : Bool
  deriving DecidableEq, Repr

namespace Place

def told {α : Type} (place : Place) (result : Except Mistake α) : Except String α :=
  result.mapError fun mistake => mistake.message place.whole

def behind (place : Place) (rest : List Char) : Place :=
  { place with rest := rest, isFirst := false }

def answer {α : Type} (place : Place) (scan : Scan α) : Except String (α × Place) :=
  (place.told scan).map fun (value, rest) => (value, place.behind rest)

@[simp] theorem told_ok {α : Type} (place : Place) (value : α) :
    place.told (.ok value) = .ok value := rfl

@[simp] theorem answer_ok {α : Type} (place : Place) (value : α) (rest : List Char) :
    place.answer (.ok (value, rest)) = .ok (value, place.behind rest) := rfl

end Place

def reader : Reader Place where
  start text := ⟨text.toList, text.toList, true⟩
  enter place expected :=
    (place.told (readShape expected place.rest)).map fun (shape, rest) =>
      (shape, { place with rest := rest, isFirst := true })
  nextName place := place.answer (readName place.isFirst place.rest)
  toValue place := (place.told (readColon place.rest)).map place.behind
  nextElement place :=
    (place.told (findElement place.isFirst place.rest)).map fun rest? => rest?.map place.behind
  leaveList place := (place.told (readListEnd place.rest)).map place.behind
  text place := place.answer (readText place.rest)
  flag place := place.answer (readFlag place.rest)
  finish place := place.told (readEnd place.rest)
  located place message := located message place.whole (behindName place.rest) 0

end InjectionCompiler.Json

namespace InjectionCompiler

def Config.ofJson (text : String) : Except Failure Config :=
  fromJson Json.reader text

end InjectionCompiler
