import InjectionCompiler.Config.JsonScanner

/-!
# Spellings of strings

A character of a string may stand for itself or be escaped, by a letter, by the four hexadecimal
digits of its code, or by those of a pair of codes when it lies beyond sixteen bits.  Whatever the
spelling, the scanner answers the characters that are spelled, and stops behind the closing quote.
-/

namespace InjectionCompiler.Json

/-! ## The grammar -/

/-- A hexadecimal digit in either case. -/
def SpellsDigit (value : Nat) (digit : Char) : Prop :=
  "0123456789abcdef".toList[value]? = some digit ∨
    "0123456789ABCDEF".toList[value]? = some digit

/-- Four digits, the highest one first. -/
inductive SpellsCode : Nat → List Char → Prop where
  | digits {a b c d : Nat} {p q r s : Char} (ha : SpellsDigit a p) (hb : SpellsDigit b q)
      (hc : SpellsDigit c r) (hd : SpellsDigit d s) :
      SpellsCode (((a * 16 + b) * 16 + c) * 16 + d) [p, q, r, s]

inductive SpellsChar : Char → List Char → Prop where
  | plain {c : Char} (hprintable : 0x20 ≤ c.toNat) (hquote : c ≠ '\"') (hbackslash : c ≠ '\\') :
      SpellsChar c [c]
  | quote : SpellsChar '\"' ['\\', '\"']
  | backslash : SpellsChar '\\' ['\\', '\\']
  | slash : SpellsChar '/' ['\\', '/']
  | backspace : SpellsChar '\x08' ['\\', 'b']
  | formFeed : SpellsChar '\x0c' ['\\', 'f']
  | lineFeed : SpellsChar '\n' ['\\', 'n']
  | carriageReturn : SpellsChar '\r' ['\\', 'r']
  | tab : SpellsChar '\t' ['\\', 't']
  | code {c : Char} {digits : List Char} (hdigits : SpellsCode c.toNat digits) :
      SpellsChar c ('\\' :: 'u' :: digits)
  | pair {c : Char} {high low : Nat} {leading trailing : List Char}
      (hhigh : 0xd800 ≤ high ∧ high ≤ 0xdbff) (hlow : 0xdc00 ≤ low ∧ low ≤ 0xdfff)
      (hcode : c.toNat = 0x10000 + (high - 0xd800) * 0x400 + (low - 0xdc00))
      (hleading : SpellsCode high leading) (htrailing : SpellsCode low trailing) :
      SpellsChar c ('\\' :: 'u' :: (leading ++ '\\' :: 'u' :: trailing))

inductive SpellsChars : List Char → List Char → Prop where
  | nil : SpellsChars [] []
  | cons {c : Char} {chars spelled rest : List Char} (hchar : SpellsChar c spelled)
      (hrest : SpellsChars chars rest) : SpellsChars (c :: chars) (spelled ++ rest)

/-- A string stands between quotes. -/
inductive SpellsString : String → List Char → Prop where
  | quoted {value : String} {inner : List Char} (hinner : SpellsChars value.toList inner) :
      SpellsString value ('\"' :: (inner ++ ['\"']))

theorem spellsChars_self {chars : List Char}
    (h : ∀ c ∈ chars, 0x20 ≤ c.toNat ∧ c ≠ '\"' ∧ c ≠ '\\') : SpellsChars chars chars := by
  induction chars with
  | nil => exact .nil
  | cons c chars ih =>
      obtain ⟨hprintable, hquote, hbackslash⟩ := h c (by simp)
      exact .cons (.plain hprintable hquote hbackslash)
        (ih fun other hother => h other (List.mem_cons_of_mem _ hother))

theorem SpellsChars.append {front chars spelled rest : List Char}
    (hfront : SpellsChars front spelled) (h : SpellsChars chars rest) :
    SpellsChars (front ++ chars) (spelled ++ rest) := by
  induction hfront with
  | nil => exact h
  | cons hchar _ ih =>
      rw [List.append_assoc]
      exact .cons hchar ih

/-! ## Digits -/

theorem hexValue?_of_spellsDigit {value : Nat} {digit : Char} (h : SpellsDigit value digit) :
    hexValue? digit = some value := by
  have hdigits : ∀ small : Fin 16,
      ("0123456789abcdef".toList[small.val]?.bind hexValue? = some small.val) ∧
        "0123456789ABCDEF".toList[small.val]?.bind hexValue? = some small.val := by
    decide
  have hsmall : value < 16 := by
    rcases h with h | h <;> exact (List.getElem?_eq_some_iff.1 h).1
  obtain ⟨hlower, hupper⟩ := hdigits ⟨value, hsmall⟩
  rcases h with h | h
  · rwa [h] at hlower
  · rwa [h] at hupper

theorem scanHex_of_spellsCode {code : Nat} {digits : List Char} (h : SpellsCode code digits)
    (rest : List Char) : scanHex (digits ++ rest) = .ok (code, rest) := by
  obtain ⟨ha, hb, hc, hd⟩ := h
  simp [scanHex, hexValue?_of_spellsDigit ha, hexValue?_of_spellsDigit hb,
    hexValue?_of_spellsDigit hc, hexValue?_of_spellsDigit hd]

/-! ## Characters -/

theorem not_isLeading_toNat (c : Char) :
    isLeading c.toNat = false ∧ isTrailing c.toNat = false := by
  have hvalid : c.toNat < 0xd800 ∨ (0xdfff < c.toNat ∧ c.toNat < 0x110000) := c.valid
  simp only [isLeading, isTrailing, Bool.and_eq_false_iff, decide_eq_false_iff_not]
  omega

theorem scanCodePoint_of_spellsCode {c : Char} {digits : List Char}
    (h : SpellsCode c.toNat digits) (rest : List Char) :
    scanCodePoint (digits ++ rest) = .ok (c, rest) := by
  obtain ⟨hleading, htrailing⟩ := not_isLeading_toNat c
  simp [scanCodePoint, scanHex_of_spellsCode h, hleading, htrailing]

theorem scanTrailing_of_spellsCode {code : Nat} {digits : List Char} (h : SpellsCode code digits)
    (rest : List Char) : scanTrailing ('\\' :: 'u' :: (digits ++ rest)) = .ok (code, rest) := by
  simp [scanTrailing, expectInPair, scanHex_of_spellsCode h]

theorem scanCodePoint_of_pair {c : Char} {high low : Nat} {leading trailing : List Char}
    (hhigh : 0xd800 ≤ high ∧ high ≤ 0xdbff) (hlow : 0xdc00 ≤ low ∧ low ≤ 0xdfff)
    (hcode : c.toNat = 0x10000 + (high - 0xd800) * 0x400 + (low - 0xdc00))
    (hleading : SpellsCode high leading) (htrailing : SpellsCode low trailing) (rest : List Char) :
    scanCodePoint (leading ++ '\\' :: 'u' :: (trailing ++ rest)) = .ok (c, rest) := by
  have hfirst : isTrailing high = false ∧ isLeading high = true := by
    simp [isTrailing, isLeading]
    omega
  have hsecond : isTrailing low = true := by
    simp [isTrailing]
    omega
  rw [scanCodePoint, scanHex_of_spellsCode hleading]
  simp only [hfirst, scanTrailing_of_spellsCode htrailing, hsecond, ← hcode, Char.ofNat_toNat,
    Bool.false_eq_true, if_true, if_false]

theorem scanStringChar_of_spellsChar {c : Char} {spelled : List Char} (h : SpellsChar c spelled)
    (rest : List Char) : scanStringChar (spelled ++ rest) = .ok (some c, rest) := by
  cases h with
  | plain hprintable hquote hbackslash =>
      have hcontrol : ¬ c.toNat < 0x20 := Nat.not_lt.2 hprintable
      simp [scanStringChar, hcontrol]
  | quote | backslash | slash | backspace | formFeed | lineFeed | carriageReturn | tab => rfl
  | code hdigits =>
      simp [scanStringChar, scanEscape, scanCodePoint_of_spellsCode hdigits, Except.map]
  | pair hhigh hlow hcode hleading htrailing =>
      have hscan := scanCodePoint_of_pair hhigh hlow hcode hleading htrailing rest
      simp [scanStringChar, scanEscape, hscan, Except.map]

/-! ## Strings -/

theorem scanChars_of_end (rest : List Char) : scanChars ('\"' :: rest) = .ok ([], rest) := by
  rw [scanChars]
  rfl

theorem scanChars_of_char {text rest : List Char} {c : Char}
    (h : scanStringChar text = .ok (some c, rest)) :
    scanChars text = (scanChars rest).map fun (chars, rest) => (c :: chars, rest) := by
  rw [scanChars]
  split <;> simp_all

theorem scanChars_of_spellsChars {chars inner : List Char} (h : SpellsChars chars inner)
    (rest : List Char) : scanChars (inner ++ '\"' :: rest) = .ok (chars, rest) := by
  induction h with
  | nil => exact scanChars_of_end rest
  | cons hchar _ ih =>
      rw [List.append_assoc, scanChars_of_char (scanStringChar_of_spellsChar hchar _), ih]
      rfl

theorem scanString_of_spellsChars {value : String} {inner : List Char}
    (h : SpellsChars value.toList inner) (rest : List Char) :
    scanString (inner ++ '\"' :: rest) = .ok (value, rest) := by
  rw [scanString, scanChars_of_spellsChars h]
  simp [Except.map]

end InjectionCompiler.Json
