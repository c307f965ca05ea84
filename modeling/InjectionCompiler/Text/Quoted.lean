import InjectionCompiler.Text.Unprintable

/-!
# Quoted text

Text is shown in messages between double quotes.  The quote and the backslash are escaped by a
backslash, NUL, tab, line feed and carriage return by a letter, and every other character without a
visible shape by its code point; all other characters, the apostrophe among them, stand for
themselves.
-/

namespace InjectionCompiler.Text

def hexDigits (n : Nat) : List Char :=
  Nat.toDigits 16 n

def quotedChar (c : Char) : List Char :=
  if c = '\x00' then ['\\', '0']
  else if c = '\t' then ['\\', 't']
  else if c = '\n' then ['\\', 'n']
  else if c = '\r' then ['\\', 'r']
  else if c = '\"' then ['\\', '\"']
  else if c = '\\' then ['\\', '\\']
  else if isUnprintable c then ['\\', 'u', '\x7b'] ++ hexDigits c.toNat ++ ['\x7d']
  else [c]

def quoted (text : String) : String :=
  "\"" ++ String.ofList (text.toList.flatMap quotedChar) ++ "\""

end InjectionCompiler.Text
