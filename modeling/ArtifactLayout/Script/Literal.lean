import ArtifactLayout.Fault
import ArtifactLayout.Text.Hex

/-! # Numerals and literals

The number that a numeral stands for, and the bytes that a literal stands for. Escapes are read byte
by byte from the UTF-8 form of the literal.
-/

namespace ArtifactLayout.Script
set_option autoImplicit false

/-! ## Numerals -/

def digitsValue (base : Nat) (digits : List Char) : Nat :=
  digits.foldl (fun n c => base * n + (Text.hexValue? c).getD 0) 0

def numeralValue : List Char → Nat
  | '0' :: 'x' :: digits => digitsValue 16 digits
  | '0' :: 'X' :: digits => digitsValue 16 digits
  | digits => digitsValue 10 digits

/-- The number that a numeral stands for, if it fits a word. -/
def readNumeral (text : List Char) : Except Fault UInt64 :=
  let value := numeralValue text
  if value < UInt64.size then .ok (UInt64.ofNat value)
  else .error (.numberOutOfRange (String.ofList text))

/-! ## Literals -/

def simpleEscape? (byte : UInt8) : Option UInt8 :=
  match Char.ofNat byte.toNat with
  | 'n' => some 10
  | 'r' => some 13
  | 't' => some 9
  | '0' => some 0
  | '\\' => some 92
  | '"' => some 34
  | _ => none

/-- The text of two bytes of UTF-8: two characters of one byte or one of two. -/
def pairText? (high low : UInt8) : Option (List Char) :=
  if high < 0x80 then
    if low < 0x80 then some [Char.ofNat high.toNat, Char.ofNat low.toNat] else none
  else if 0xc2 ≤ high ∧ high < 0xe0 ∧ 0x80 ≤ low ∧ low < 0xc0 then
    some [Char.ofNat (64 * (high.toNat - 0xc0) + (low.toNat - 0x80))]
  else none

/-- The byte that two characters spell: two digits, or one digit after a plus sign. -/
def pairValue? : List Char → Option UInt8
  | ['+', low] => (Text.hexValue? low).map UInt8.ofNat
  | [high, low] => do return UInt8.ofNat (16 * (← Text.hexValue? high) + (← Text.hexValue? low))
  | _ => none

def hexEscape (high low : UInt8) : Except Fault UInt8 :=
  match pairText? high low with
  | none => .error .undecodableHexEscape
  | some text =>
    match pairValue? text with
    | none => .error (.badHexEscape (String.ofList text))
    | some byte => .ok byte

def unescape : List UInt8 → Except Fault (List UInt8)
  | [] => .ok []
  | byte :: rest =>
    if byte ≠ 92 then (unescape rest).map (byte :: ·)
    else
      match rest with
      | [] => .error .danglingEscape
      | kind :: rest =>
        if kind = 120 then
          match rest with
          | high :: low :: rest => do
            let byte ← hexEscape high low
            (unescape rest).map (byte :: ·)
          | _ => .error .shortHexEscape
        else
          match simpleEscape? kind with
          | some byte => (unescape rest).map (byte :: ·)
          | none => .error (.unknownEscape kind)

def utf8Bytes (text : List Char) : List UInt8 := text.flatMap String.utf8EncodeChar

/-- The bytes that a literal stands for, given what stands between its quotes. -/
def readLiteral (body : List Char) : Except Fault (List UInt8) := unescape (utf8Bytes body)

end ArtifactLayout.Script
