/-! # Hexadecimal text

Bytes as two lowercase digits each, and a line of bytes with a space between neighbours.
-/

namespace ArtifactLayout.Text
set_option autoImplicit false

def hexDigit (n : Nat) : Char :=
  if n < 10 then Char.ofNat (48 + n) else Char.ofNat (87 + n)

/-- The two digits of a byte, high half first. -/
def hexByte (b : UInt8) : List Char := [hexDigit (b.toNat / 16), hexDigit (b.toNat % 16)]

def hexDigits (bytes : List UInt8) : List Char := bytes.flatMap hexByte

/-- The digits of each byte, a space between neighbours. -/
def hexLine (bytes : List UInt8) : String :=
  String.ofList ((bytes.map hexByte).intersperse [' ']).flatten

/-- The number that a hexadecimal digit of either case stands for. -/
def hexValue? (c : Char) : Option Nat :=
  if '0' ≤ c ∧ c ≤ '9' then some (c.toNat - 48)
  else if 'a' ≤ c ∧ c ≤ 'f' then some (c.toNat - 87)
  else if 'A' ≤ c ∧ c ≤ 'F' then some (c.toNat - 55)
  else none

/-- Reads bytes back from digits without separators. -/
def bytes? : List Char → Option (List UInt8)
  | [] => some []
  | [_] => none
  | high :: low :: rest => do
    let h ← hexValue? high
    let l ← hexValue? low
    return UInt8.ofNat (16 * h + l) :: (← bytes? rest)

end ArtifactLayout.Text
