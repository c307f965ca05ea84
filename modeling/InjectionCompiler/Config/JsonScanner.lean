import InjectionCompiler.Decimal.Shortest
import InjectionCompiler.Text.Quoted

/-!
# Scanning JSON

The words, numbers and strings of a JSON text.  A scanner takes the rest of the text and answers a
value with the rest behind it.  A mistake holds the rest at which it was found, and how many bytes
of that rest have been looked at; its line and column follow from these and from the whole text.
-/

namespace InjectionCompiler.Json

/-! ## Mistakes -/

inductive Found where
  | null
  | flag (value : Bool)
  | integer (value : Int)
  /-- A number that is no integer of 64 bits, by its sign and its size. -/
  | fraction (negative : Bool) (size : Decimal.Binary64)
  | string (value : String)
  | sequence
  | map
  deriving DecidableEq, Repr

inductive Complaint where
  | endInValue
  | endInObject
  | endInList
  | endInString
  | trailingComma
  | trailingCharacters
  | expectedColon
  | expectedListCommaOrEnd
  | expectedObjectCommaOrEnd
  | expectedValue
  | expectedIdent
  | keyMustBeString
  | invalidEscape
  | invalidNumber
  | numberOutOfRange
  | loneSurrogate
  | endOfHexEscape
  | controlCharacter
  | invalidType (found : Found) (expected : String)
  deriving DecidableEq, Repr

structure Mistake where
  complaint : Complaint
  rest : List Char
  /-- How many bytes of `rest` count as read. -/
  counted : Nat
  deriving DecidableEq, Repr

abbrev Scan (α : Type) := Except Mistake (α × List Char)

def failAt {α : Type} (complaint : Complaint) (rest : List Char) : Except Mistake α :=
  .error ⟨complaint, rest, 0⟩

/-- A mistake in the next byte, which counts as read; at the end of the text there is none. -/
def failIn {α : Type} (complaint : Complaint) (rest : List Char) : Except Mistake α :=
  .error ⟨complaint, rest, 1⟩

/-! ## Messages -/

/-- Numbers are written plainly while the point is at most sixteen digits to the right, or fewer
than five zeros before the digits; else the exponent has a sign. -/
def numberSpelling : Decimal.Spelling := ⟨16, 5, true⟩

def fractionText (negative : Bool) (size : Decimal.Binary64) : String :=
  (if negative then "-" else "") ++
    if size.mantissa = 0 then "0.0" else Decimal.spell numberSpelling (Decimal.shortest size)

def Found.message : Found → String
  | .null => "null"
  | .flag value => "boolean `" ++ (if value then "true" else "false") ++ "`"
  | .integer value => "integer `" ++ toString value ++ "`"
  | .fraction negative size => "floating point `" ++ fractionText negative size ++ "`"
  | .string value => "string " ++ Text.quoted value
  | .sequence => "sequence"
  | .map => "map"

def Complaint.message : Complaint → String
  | .endInValue => "EOF while parsing a value"
  | .endInObject => "EOF while parsing an object"
  | .endInList => "EOF while parsing a list"
  | .endInString => "EOF while parsing a string"
  | .trailingComma => "trailing comma"
  | .trailingCharacters => "trailing characters"
  | .expectedColon => "expected `:`"
  | .expectedListCommaOrEnd => "expected `,` or `]`"
  | .expectedObjectCommaOrEnd => "expected `,` or `\x7d`"
  | .expectedValue => "expected value"
  | .expectedIdent => "expected ident"
  | .keyMustBeString => "key must be a string"
  | .invalidEscape => "invalid escape"
  | .invalidNumber => "invalid number"
  | .numberOutOfRange => "number out of range"
  | .loneSurrogate => "lone leading surrogate in hex escape"
  | .endOfHexEscape => "unexpected end of hex escape"
  | .controlCharacter => "control character (\\u0000-\\u001F) found while parsing a string"
  | .invalidType found expected => "invalid type: " ++ found.message ++ ", expected " ++ expected

/-! ## Positions -/

structure Position where
  line : Nat
  column : Nat
  deriving DecidableEq, Repr

namespace Position

def start : Position := ⟨1, 0⟩

def advance (position : Position) (c : Char) : Position :=
  if c = '\n' then ⟨position.line + 1, 0⟩ else ⟨position.line, position.column + c.utf8Size⟩

/-- The position some bytes further on, which may lie within a character. -/
def advanceBytes (position : Position) (count : Nat) : List Char → Position
  | [] => position
  | c :: rest =>
      if count = 0 then position
      else if c.utf8Size ≤ count then
        (position.advance c).advanceBytes (count - c.utf8Size) rest
      else ⟨position.line, position.column + count⟩

end Position

/-- A message with the place that is some bytes into the rest of a text. -/
def located (message : String) (text rest : List Char) (counted : Nat) : String :=
  let read := text.take (text.length - rest.length)
  let position := (read.foldl Position.advance .start).advanceBytes counted rest
  message ++ " at line " ++ toString position.line ++ " column " ++ toString position.column

def Mistake.message (mistake : Mistake) (text : List Char) : String :=
  located mistake.complaint.message text mistake.rest mistake.counted

/-! ## Blanks and words -/

def isBlank (c : Char) : Bool :=
  c = ' ' || c = '\n' || c = '\t' || c = '\r'

def skipBlanks (text : List Char) : List Char :=
  text.dropWhile isBlank

def scanWord : (word text : List Char) → Except Mistake (List Char)
  | [], rest => .ok rest
  | _ :: _, [] => failAt .endInValue []
  | expected :: word, c :: rest =>
      if c = expected then scanWord word rest else failIn .expectedIdent (c :: rest)

/-! ## Strings -/

def hexValue? (c : Char) : Option Nat :=
  if '0' ≤ c ∧ c ≤ '9' then some (c.toNat - 48)
  else if 'a' ≤ c ∧ c ≤ 'f' then some (c.toNat - 87)
  else if 'A' ≤ c ∧ c ≤ 'F' then some (c.toNat - 55)
  else none

def byteLength (text : List Char) : Nat :=
  text.foldl (fun count c => count + c.utf8Size) 0

def scanHex (text : List Char) : Scan Nat :=
  match (text.take 4).mapM hexValue? with
  | some [a, b, c, d] => .ok (((a * 16 + b) * 16 + c) * 16 + d, text.drop 4)
  | _ =>
      if byteLength text < 4 then failAt .endInString []
      else .error ⟨.invalidEscape, text, 4⟩

def isLeading (code : Nat) : Bool := 0xd800 ≤ code && code < 0xdc00

def isTrailing (code : Nat) : Bool := 0xdc00 ≤ code && code < 0xe000

/-- The sign that has to come next between the halves of a pair. -/
def expectInPair (expected : Char) : List Char → Except Mistake (List Char)
  | [] => failAt .endInString []
  | c :: rest => if c = expected then .ok rest else failIn .endOfHexEscape (c :: rest)

def scanTrailing (text : List Char) : Scan Nat :=
  match expectInPair '\\' text with
  | .error mistake => .error mistake
  | .ok text =>
      match expectInPair 'u' text with
      | .error mistake => .error mistake
      | .ok text => scanHex text

/-- The character of an escape with digits.  Characters beyond 16 bits are spelled by a pair. -/
def scanCodePoint (text : List Char) : Scan Char :=
  match scanHex text with
  | .error mistake => .error mistake
  | .ok (first, rest) =>
      if isTrailing first then failAt .loneSurrogate rest
      else if isLeading first then
        match scanTrailing rest with
        | .error mistake => .error mistake
        | .ok (second, rest) =>
            if isTrailing second then
              .ok (Char.ofNat (0x10000 + (first - 0xd800) * 0x400 + (second - 0xdc00)), rest)
            else failAt .loneSurrogate rest
      else .ok (Char.ofNat first, rest)

def letterEscapes : List (Char × Char) :=
  [('\"', '\"'), ('\\', '\\'), ('/', '/'), ('b', '\x08'), ('f', '\x0c'), ('n', '\n'), ('r', '\r'),
    ('t', '\t')]

def scanEscape : List Char → Scan Char
  | [] => failAt .endInString []
  | letter :: rest =>
      if letter = 'u' then scanCodePoint rest
      else
        match letterEscapes.lookup letter with
        | some c => .ok (c, rest)
        | none => failIn .invalidEscape (letter :: rest)

def scanStringChar : List Char → Scan (Option Char)
  | [] => failAt .endInString []
  | '\"' :: rest => .ok (none, rest)
  | '\\' :: rest => (scanEscape rest).map fun (c, rest) => (some c, rest)
  | c :: rest =>
      if c.toNat < 0x20 then failIn .controlCharacter (c :: rest) else .ok (some c, rest)

theorem length_of_scanHex {text rest : List Char} {code : Nat}
    (h : scanHex text = .ok (code, rest)) : rest.length ≤ text.length := by
  unfold scanHex at h
  split at h
  · cases h
    simp
  · split at h <;> cases h

theorem length_of_expectInPair {expected : Char} {text rest : List Char}
    (h : expectInPair expected text = .ok rest) : rest.length ≤ text.length := by
  cases text with
  | nil => cases h
  | cons c text =>
      simp only [expectInPair] at h
      split at h <;> cases h
      simp

theorem length_of_scanTrailing {text rest : List Char} {code : Nat}
    (h : scanTrailing text = .ok (code, rest)) : rest.length ≤ text.length := by
  unfold scanTrailing at h
  split at h
  · cases h
  · next rest₁ h₁ =>
      split at h
      · cases h
      · next rest₂ h₂ =>
          have h₁ := length_of_expectInPair h₁
          have h₂ := length_of_expectInPair h₂
          have h₃ := length_of_scanHex h
          omega

theorem length_of_scanCodePoint {text rest : List Char} {c : Char}
    (h : scanCodePoint text = .ok (c, rest)) : rest.length ≤ text.length := by
  unfold scanCodePoint at h
  split at h
  · cases h
  · next first rest₁ hfirst =>
      have hfirst := length_of_scanHex hfirst
      split at h
      · cases h
      · split at h
        · split at h
          · cases h
          · next second rest₂ hsecond =>
              have hsecond := length_of_scanTrailing hsecond
              split at h
              · simp only [Except.ok.injEq, Prod.mk.injEq] at h
                obtain ⟨-, rfl⟩ := h
                omega
              · cases h
        · simp only [Except.ok.injEq, Prod.mk.injEq] at h
          obtain ⟨-, rfl⟩ := h
          exact hfirst

theorem length_of_scanEscape {text rest : List Char} {c : Char}
    (h : scanEscape text = .ok (c, rest)) : rest.length < text.length := by
  unfold scanEscape at h
  split at h
  · cases h
  · split at h
    · exact Nat.lt_succ_of_le (length_of_scanCodePoint h)
    · split at h <;> cases h
      simp

theorem length_of_scanStringChar {text rest : List Char} {c : Char}
    (h : scanStringChar text = .ok (some c, rest)) : rest.length < text.length := by
  unfold scanStringChar at h
  split at h
  · cases h
  · cases h
  · next text =>
      cases hescape : scanEscape text with
      | error mistake => rw [hescape] at h; cases h
      | ok found =>
          rw [hescape] at h
          cases h
          exact Nat.lt_succ_of_lt (length_of_scanEscape hescape)
  · split at h <;> cases h
    simp

def scanChars (text : List Char) : Scan (List Char) :=
  match _ : scanStringChar text with
  | .error mistake => .error mistake
  | .ok (none, rest) => .ok ([], rest)
  | .ok (some c, rest) => (scanChars rest).map fun (chars, rest) => (c :: chars, rest)
  termination_by text.length
  decreasing_by exact length_of_scanStringChar ‹_›

def scanString (text : List Char) : Scan String :=
  (scanChars text).map fun (chars, rest) => (String.ofList chars, rest)

/-! ## Numbers -/

def digitValue (c : Char) : Nat :=
  c.toNat - 48

def isDigit (c : Char) : Bool :=
  '0' ≤ c && c ≤ '9'

/-- Adds digits to a number as long as it stays below a bound, and answers it with the digits that
did not fit. -/
def absorb (bound : Nat) (number : Nat) : List Char → Nat × List Char
  | [] => (number, [])
  | c :: digits =>
      if number * 10 + digitValue c < bound then absorb bound (number * 10 + digitValue c) digits
      else (number, c :: digits)

def powerOfTen (k : Nat) : Decimal.Binary64 :=
  (Decimal.Binary64.nearest (Nat.pow 10 k) 1).getD .zero

/-- Divides by the largest power of ten at hand until the exponent is within its reach. -/
def scaleDown (size : Decimal.Binary64) (exponent : Int) : Decimal.Binary64 :=
  if _ : exponent < -308 then
    if size.mantissa = 0 then .zero
    else scaleDown ((size.dividedBy (powerOfTen 308)).getD .zero) (exponent + 308)
  else (size.dividedBy (powerOfTen (-exponent).toNat)).getD .zero
  termination_by (-exponent).toNat
  decreasing_by omega

def sizeOfParts (significand : Nat) (exponent : Int) : Option Decimal.Binary64 :=
  if significand = 0 then some .zero
  else
    match Decimal.Binary64.nearest significand 1 with
    | none => none
    | some size =>
        if exponent < 0 then some (scaleDown size exponent)
        else if exponent ≤ 308 then size.times (powerOfTen exponent.toNat)
        else none

def scanSize (negative : Bool) (significand : Nat) (exponent : Int) (rest : List Char) :
    Scan Found :=
  match sizeOfParts significand exponent with
  | some size => .ok (.fraction negative size, rest)
  | none => failAt .numberOutOfRange rest

def scanExponent (negative : Bool) (significand : Nat) (exponent : Int) (text : List Char) :
    Scan Found :=
  let (lowers, text) :=
    match text with
    | '+' :: rest => (false, rest)
    | '-' :: rest => (true, rest)
    | rest => (false, rest)
  match text with
  | [] => failAt .endInValue []
  | c :: rest =>
      if !isDigit c then failIn .invalidNumber (c :: rest)
      else
        let digits := text.takeWhile isDigit
        let rest := text.dropWhile isDigit
        match absorb (Nat.pow 2 31) 0 digits with
        | (shift, []) =>
            scanSize negative significand (if lowers then exponent - shift else exponent + shift)
              rest
        | (_, _ :: unread) =>
            if significand ≠ 0 ∧ ¬ lowers then failAt .numberOutOfRange (unread ++ rest)
            else .ok (.fraction negative .zero, rest)

/-- What may follow the digits of a number that is no integer. -/
def scanNumberEnd (negative : Bool) (significand : Nat) (exponent : Int) (text : List Char) :
    Scan Found :=
  match text with
  | 'e' :: rest => scanExponent negative significand exponent rest
  | 'E' :: rest => scanExponent negative significand exponent rest
  | rest => scanSize negative significand exponent rest

/-- The digits behind a point.  Digits that do not fit are left out. -/
def scanFraction (negative : Bool) (significand : Nat) (exponent : Int) (text : List Char) :
    Scan Found :=
  let digits := text.takeWhile isDigit
  let rest := text.dropWhile isDigit
  if digits.isEmpty then
    match rest with
    | [] => failAt .endInValue []
    | rest => failIn .invalidNumber rest
  else
    let (significand, unread) := absorb (Nat.pow 2 64) significand digits
    scanNumberEnd negative significand (exponent - (digits.length - unread.length : Nat)) rest

/-- An integer of 64 bits; what is too small for one, and a negative zero, is a fraction. -/
def integerFound (negative : Bool) (significand : Nat) (rest : List Char) : Scan Found :=
  if !negative then .ok (.integer significand, rest)
  else if significand = 0 ∨ Nat.pow 2 63 < significand then scanSize true significand 0 rest
  else .ok (.integer (-(significand : Int)), rest)

def scanNumber (negative : Bool) (text : List Char) : Scan Found :=
  match text with
  | [] => failAt .endInValue []
  | c :: rest =>
      if !isDigit c then failIn .invalidNumber (c :: rest)
      else if c = '0' ∧ (rest.head?.any isDigit) then failIn .invalidNumber rest
      else
        let digits := text.takeWhile isDigit
        let rest := text.dropWhile isDigit
        let (significand, unread) := absorb (Nat.pow 2 64) 0 digits
        match rest with
        | '.' :: rest => scanFraction negative significand unread.length rest
        | rest =>
            if unread.isEmpty ∧ ¬ (rest.head? = some 'e' ∨ rest.head? = some 'E') then
              integerFound negative significand rest
            else scanNumberEnd negative significand unread.length rest

end InjectionCompiler.Json
