import InjectionCompiler.Decimal.Binary64
import InjectionCompiler.Text.Quoted

/-!
# Scalars in YAML

A text is written plainly where that reads back as the same text, and between quotes or as a block
where it would not.
-/

namespace InjectionCompiler.Yaml

/-! ## Numbers -/

def isDecimalDigit (c : Char) : Bool :=
  '0' ≤ c && c ≤ '9'

def digitValue? (base : Nat) (c : Char) : Option Nat :=
  let value :=
    if isDecimalDigit c then some (c.toNat - 48)
    else if 'a' ≤ c ∧ c ≤ 'f' then some (c.toNat - 87)
    else if 'A' ≤ c ∧ c ≤ 'F' then some (c.toNat - 55)
    else none
  value.filter (· < base)

def numeral? (base : Nat) (text : List Char) : Option Nat :=
  if text.isEmpty then none
  else (text.mapM (digitValue? base)).map fun digits =>
    digits.foldl (fun value digit => value * base + digit) 0

def unsigned : List Char → List Char
  | '+' :: rest => rest
  | '-' :: rest => rest
  | text => text

/-- Numbers of 128 bits can be written with a marker of their base. -/
def isMarkedNumber (text : List Char) : Bool :=
  let marked := fun (text : List Char) (limit : Nat) =>
    match text with
    | '0' :: 'x' :: digits => (numeral? 16 digits).any (· ≤ limit)
    | '0' :: 'o' :: digits => (numeral? 8 digits).any (· ≤ limit)
    | '0' :: 'b' :: digits => (numeral? 2 digits).any (· ≤ limit)
    | _ => false
  match text with
  | '-' :: rest => marked rest (Nat.pow 2 127)
  | text => marked (unsigned text) (Nat.pow 2 128 - 1)

/-- Whether `digits · 10 ^ exponent` has a nearest number of 64 bits.  The size is estimated first,
so that no huge power is ever computed. -/
def isFinite (digits : Nat) (exponent : Int) : Bool :=
  let order : Int := (Nat.toDigits 10 digits).length + exponent
  digits = 0 || order < 300 ||
    (order < 320 &&
      (if 0 ≤ exponent then Decimal.Binary64.nearest (digits * Nat.pow 10 exponent.toNat) 1
        else Decimal.Binary64.nearest digits (Nat.pow 10 (-exponent).toNat)).isSome)

def exponent? (text : List Char) : Option Int :=
  match text with
  | [] => some 0
  | c :: rest =>
      if c = 'e' ∨ c = 'E' then
        (numeral? 10 (unsigned rest)).map fun value =>
          if rest.head? = some '-' then -(value : Int) else value
      else none

/-- A decimal number with at least one digit on some side of the point, as far as it is finite. -/
def isDecimal (text : List Char) : Bool :=
  let text := unsigned text
  let whole := text.takeWhile isDecimalDigit
  let rest := text.dropWhile isDecimalDigit
  let (fraction, rest) :=
    match rest with
    | '.' :: rest => (rest.takeWhile isDecimalDigit, rest.dropWhile isDecimalDigit)
    | rest => ([], rest)
  match numeral? 10 (whole ++ fraction), exponent? rest with
  | some digits, some exponent => isFinite digits (exponent - fraction.length)
  | _, _ => false

/-- Digits behind a leading zero, which some read as a number and some do not. -/
def isPaddedNumeral (text : List Char) : Bool :=
  let digits := unsigned text
  digits.head? = some '0' && digits.length > 1 && digits.all isDecimalDigit

/-! ## Words -/

/-- A word in lower case, with a capital first letter, and in upper case. -/
def spellings (word : String) : List String :=
  let letters := word.toList
  [word, String.ofList ((letters.take 1).map Char.toUpper ++ letters.drop 1),
    String.ofList (letters.map Char.toUpper)]

/-- The words that stand for something else than themselves. -/
def reservedWords : List String :=
  ["true", "false", "null", ".inf", "+.inf", "-.inf"].flatMap spellings ++
    ["+.Inf", "-.Inf", ".Inf", ".nan", ".NaN", ".NAN", "~", ""]

/-- Whether the plain text would be read as something else than a text. -/
def isAmbiguous (text : List Char) : Bool :=
  reservedWords.contains (String.ofList text) || isMarkedNumber text || isDecimal text ||
    isPaddedNumeral text

/-! ## Shape -/

/-- The end of a line: a line feed or one of the separators of Unicode. -/
def isBreak (c : Char) : Bool :=
  c = '\n' || c = '\u2028' || c = '\u2029'

/-- Characters that stand for themselves between quotes. -/
def isPrintable (c : Char) : Bool :=
  c = '\n' || (' ' ≤ c && c ≤ '~') ||
    (0xa0 ≤ c.toNat && c.toNat ≠ 0xfeff && c.toNat ≠ 0xfffe && c.toNat ≠ 0xffff)

def hasPair (first second : Char → Bool) (text : List Char) : Bool :=
  (text.zip text.tail).any fun (a, b) => first a && second b

def isSpace (c : Char) : Bool :=
  c = ' '

/-- A first character that opens something else than a plain text. -/
def isOpening (c : Char) : Bool :=
  "#,[]\x7b\x7d&*!|>'\"%@`".toList.contains c

/-- Whether signs of the language would be seen in the plain text. -/
def hasIndicator (text : List Char) : Bool :=
  ['-', '-', '-'].isPrefixOf text || ['.', '.', '.'].isPrefixOf text ||
    text.head?.any isOpening ||
    (text.head?.any (fun c => c = '?' || c = '-') &&
      (text.tail.isEmpty || text.tail.head?.any isSpace)) ||
    hasPair (· = ':') isSpace text || text.getLast? = some ':' ||
    hasPair isSpace (· = '#') text

/-- Whether all line breaks and all characters survive outside double quotes. -/
def isRegular (text : List Char) : Bool :=
  text.all isPrintable && !hasPair isSpace isBreak text

def allowsPlain (text : List Char) : Bool :=
  isRegular text && !text.any isBreak && !hasIndicator text &&
    !text.head?.any isSpace && !text.getLast?.any isSpace

def allowsSingleQuotes (text : List Char) : Bool :=
  isRegular text && !hasPair isBreak isSpace text

def allowsBlock (text : List Char) : Bool :=
  isRegular text && !text.getLast?.any isSpace

/-! ## Styles -/

inductive Style where
  | plain
  | singleQuoted
  | doubleQuoted
  /-- Lines of their own below the key. -/
  | block
  deriving DecidableEq, Repr

/-- Texts of several lines become blocks, ambiguous ones are quoted, and all others stay plain, as
far as the style allows it. -/
def style (text : List Char) : Style :=
  if text.contains '\n' then
    if allowsBlock text then .block else .doubleQuoted
  else if allowsPlain text && !isAmbiguous text then .plain
  else if allowsSingleQuotes text then .singleQuoted
  else .doubleQuoted

/-! ## Writing -/

def spaces (count : Nat) : List Char :=
  List.replicate count ' '

def writeLines (column : Nat) (atStart : Bool) : List Char → List Char
  | [] => if atStart then spaces column else []
  | c :: rest =>
      if isBreak c then c :: writeLines column true rest
      else (if atStart then spaces column else []) ++ c :: writeLines column false rest

/-- The lines of a block.  Blanks are only written in front of a line that holds something. -/
def blockLines (column : Nat) (atStart : Bool) : List Char → List Char
  | [] => []
  | c :: rest =>
      if isBreak c then c :: blockLines column true rest
      else (if atStart then spaces column else []) ++ c :: blockLines column false rest

/-- What a block says of its end: whether the last line is open, or empty lines follow it. -/
def blockEnd (text : List Char) : List Char :=
  match text.reverse with
  | [] => ['-']
  | [last] => if isBreak last then ['+'] else ['-']
  | last :: before :: _ =>
      if !isBreak last then ['-'] else if isBreak before then ['+'] else []

/-- What stands in front of the lines of a block.  The depth is given where the first line does not
show it. -/
def blockHead (text : List Char) : List Char :=
  '|' :: (if text.head?.any fun c => isSpace c || isBreak c then ['2'] else []) ++ blockEnd text

def upperHex (width value : Nat) : List Char :=
  let digits := (Text.hexDigits value).map Char.toUpper
  List.replicate (width - digits.length) '0' ++ digits

def escape (c : Char) : List Char :=
  match c with
  | '\x00' => ['0']
  | '\x07' => ['a']
  | '\x08' => ['b']
  | '\t' => ['t']
  | '\n' => ['n']
  | '\x0b' => ['v']
  | '\x0c' => ['f']
  | '\r' => ['r']
  | '\x1b' => ['e']
  | '\"' => ['\"']
  | '\\' => ['\\']
  | '\x85' => ['N']
  | '\u2028' => ['L']
  | '\u2029' => ['P']
  | c =>
      if c.toNat ≤ 0xff then 'x' :: upperHex 2 c.toNat
      else if c.toNat ≤ 0xffff then 'u' :: upperHex 4 c.toNat
      else 'U' :: upperHex 8 c.toNat

def isEscaped (c : Char) : Bool :=
  !isPrintable c || isBreak c || c = '\"' || c = '\\'

/-- A text as a scalar whose further lines stand behind `column` blanks. -/
def scalar (column : Nat) (text : String) : List Char :=
  let text := text.toList
  match style text with
  | .plain => text
  | .singleQuoted =>
      let doubled := text.flatMap fun c => if c = '\'' then ['\'', '\''] else [c]
      '\'' :: writeLines column false doubled ++ ['\'']
  | .doubleQuoted =>
      '\"' :: (text.flatMap fun c => if isEscaped c then '\\' :: escape c else [c]) ++ ['\"']
  | .block => blockHead text ++ '\n' :: blockLines column true text

end InjectionCompiler.Yaml
