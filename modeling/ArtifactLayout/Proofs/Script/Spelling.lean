import ArtifactLayout.Script.Literal
import ArtifactLayout.Proofs.Script.Scan

/-! # How literals are spelled

A literal is spelled piece by piece: a piece is a character that stands for itself, or an escape. Where
a literal ends is found by its characters, what it stands for is read byte by byte, and neither of the
two readers looks further than the end of a piece at a time. So the token that pieces spell ends at its
own quote, whatever follows, and the bytes that are read are those of the pieces. Any bytes can be
spelled in this way.
-/

namespace ArtifactLayout.Script
set_option autoImplicit false

/-! ## Pieces -/

/-- A hexadecimal digit in one of its two cases. -/
structure HexDigit where
  value : Fin 16
  upper : Bool
  deriving DecidableEq, Repr

def HexDigit.char (d : HexDigit) : Char :=
  if d.upper then (Nat.digitChar d.value).toUpper else Nat.digitChar d.value

/-- What makes an escape behind a backslash, by the byte that the escape stands for. -/
inductive Letter where
  | lineFeed
  | carriageReturn
  | tab
  | zero
  | backslash
  | quote
  deriving DecidableEq, Repr

namespace Letter

def char : Letter → Char
  | lineFeed => 'n'
  | carriageReturn => 'r'
  | tab => 't'
  | zero => '0'
  | backslash => '\\'
  | quote => '"'

def byte : Letter → UInt8
  | lineFeed => 0x0a
  | carriageReturn => 0x0d
  | tab => 0x09
  | zero => 0x00
  | backslash => 0x5c
  | quote => 0x22

end Letter

inductive Piece where
  /-- A character that stands for itself. -/
  | raw (c : Char) (hquote : c ≠ '"') (hslash : c ≠ '\\')
  | letter (l : Letter)
  | hex (high low : HexDigit)
  /-- A hexadecimal escape that has a plus sign for its first digit. -/
  | signed (low : HexDigit)

namespace Piece

def chars : Piece → List Char
  | raw c _ _ => [c]
  | letter l => ['\\', l.char]
  | hex high low => ['\\', 'x', high.char, low.char]
  | signed low => ['\\', 'x', '+', low.char]

def bytes : Piece → List UInt8
  | raw c _ _ => String.utf8EncodeChar c
  | letter l => [l.byte]
  | hex high low => [UInt8.ofNat (16 * high.value + low.value)]
  | signed low => [UInt8.ofNat low.value]

/-- Two digits stand in every hexadecimal escape. -/
def Regular : Piece → Prop
  | signed _ => False
  | _ => True

end Piece

def spelling (pieces : List Piece) : List Char := pieces.flatMap Piece.chars

def bytesOf (pieces : List Piece) : List UInt8 := pieces.flatMap Piece.bytes

/-- What stands between two quotes, if a text starts with one and ends with another. -/
def unquoted? : List Char → Option (List Char)
  | '"' :: rest => if rest.getLast? = some '"' then some rest.dropLast else none
  | _ => none

/-- Reads a literal as it is written; a text that is not between quotes is none. -/
def readQuoted? (text : List Char) : Option (Except Fault (List UInt8)) :=
  (unquoted? text).map readLiteral

theorem readQuoted?_literal (body : List Char) :
    readQuoted? (Token.literal body).chars = some (readLiteral body) := by
  simp [readQuoted?, Token.chars, unquoted?]

/-! ## Characters as bytes -/

theorem utf8Bytes_append (first second : List Char) :
    utf8Bytes (first ++ second) = utf8Bytes first ++ utf8Bytes second := List.flatMap_append

theorem utf8Bytes_cons (c : Char) (rest : List Char) :
    utf8Bytes (c :: rest) = String.utf8EncodeChar c ++ utf8Bytes rest := List.flatMap_cons

theorem utf8EncodeChar_of_lt {c : Char} (h : c.toNat < 128) :
    String.utf8EncodeChar c = [UInt8.ofNat c.toNat] := by
  have hle : c.toNat ≤ 127 := by omega
  simp [String.utf8EncodeChar, hle]

theorem ofNat_toNat_ofNat {c : Char} (h : c.toNat < 128) :
    Char.ofNat (UInt8.ofNat c.toNat).toNat = c := by
  rw [UInt8.toNat_ofNat_of_lt' (by simp [UInt8.size]; omega), Char.ofNat_toNat]

/-- No byte of a character beyond ASCII is an ASCII byte. -/
theorem le_of_mem_utf8EncodeChar {c : Char} (h : 128 ≤ c.toNat) {b : UInt8}
    (hb : b ∈ String.utf8EncodeChar c) : 128 ≤ b.toNat := by
  have hgt : ¬ c.val.toNat ≤ 127 := Nat.not_le.mpr h
  unfold String.utf8EncodeChar at hb
  simp only [hgt, if_false] at hb
  split at hb
  · simp only [List.mem_cons, List.not_mem_nil, or_false] at hb
    rcases hb with rfl | rfl <;> simp [UInt8.toNat_ofNat'] <;> omega
  · split at hb
    all_goals
      simp only [List.mem_cons, List.not_mem_nil, or_false] at hb
      rcases hb with rfl | rfl | rfl | rfl <;> simp [UInt8.toNat_ofNat'] <;> omega

/-! ## Steps of the reader -/

section Steps
variable (rest : List UInt8)

theorem unescape_plain {b : UInt8} (h : b ≠ 92) : unescape (b :: rest) = (unescape rest).map (b :: ·) := by
  rw [unescape.eq_def]
  exact if_pos h

theorem unescape_of_ne_hex {kind : UInt8} (h : kind ≠ 120) :
    unescape (92 :: kind :: rest) = match simpleEscape? kind with
      | some byte => (unescape rest).map (byte :: ·)
      | none => .error (.unknownEscape kind) := by
  rw [unescape.eq_def]
  exact (if_neg (by decide)).trans (if_neg h)

theorem unescape_hex (high low : UInt8) :
    unescape (92 :: 120 :: high :: low :: rest) = match hexEscape high low with
      | .ok byte => (unescape rest).map (byte :: ·)
      | .error fault => .error fault := by
  rw [unescape.eq_def]
  refine (if_neg (by decide)).trans ((if_pos rfl).trans ?_)
  change (hexEscape high low >>= fun byte => (unescape rest).map (byte :: ·)) = _
  cases hexEscape high low <;> rfl

theorem unescape_short {rest : List UInt8} (h : rest.length < 2) :
    unescape (92 :: 120 :: rest) = .error .shortHexEscape := by
  rw [unescape.eq_def]
  match rest, h with
  | [], _ => rfl
  | [_], _ => rfl

end Steps

theorem unescape_append {bytes : List UInt8} (h : ∀ b ∈ bytes, b ≠ 92) (rest : List UInt8) :
    unescape (bytes ++ rest) = (unescape rest).map (bytes ++ ·) := by
  induction bytes with
  | nil => cases hrest : unescape rest <;> simp [hrest, Except.map]
  | cons b bytes ih =>
    obtain ⟨hb, hbytes⟩ := List.forall_mem_cons.mp h
    rw [List.cons_append, unescape_plain _ hb, ih hbytes]
    cases unescape rest <;> rfl

/-! ## Digits -/

namespace HexDigit

theorem char_lt (d : HexDigit) : d.char.toNat < 128 := by
  obtain ⟨value, upper⟩ := d
  revert value upper
  decide

theorem hexValue?_char (d : HexDigit) : Text.hexValue? d.char = some d.value := by
  obtain ⟨value, upper⟩ := d
  revert value upper
  decide

theorem char_ne (d : HexDigit) : d.char ≠ '+' ∧ d.char ≠ '"' ∧ d.char ≠ '\\' := by
  obtain ⟨value, upper⟩ := d
  revert value upper
  decide

end HexDigit

theorem pairText?_of_lt {high low : Char} (hhigh : high.toNat < 128) (hlow : low.toNat < 128) :
    pairText? (UInt8.ofNat high.toNat) (UInt8.ofNat low.toNat) = some [high, low] := by
  have hsmall : ∀ c : Char, c.toNat < 128 → UInt8.ofNat c.toNat < 0x80 := by
    intro c hc
    rw [UInt8.lt_iff_toNat_lt, UInt8.toNat_ofNat_of_lt' (by simp [UInt8.size]; omega)]
    exact hc
  rw [pairText?, if_pos (hsmall high hhigh), if_pos (hsmall low hlow), ofNat_toNat_ofNat hhigh,
    ofNat_toNat_ofNat hlow]

theorem hexEscape_digits (high low : HexDigit) :
    hexEscape (UInt8.ofNat high.char.toNat) (UInt8.ofNat low.char.toNat) =
      .ok (UInt8.ofNat (16 * high.value + low.value)) := by
  rw [hexEscape, pairText?_of_lt high.char_lt low.char_lt]
  simp [pairValue?, high.char_ne.1, high.hexValue?_char, low.hexValue?_char]

theorem hexEscape_signed (low : HexDigit) :
    hexEscape (UInt8.ofNat '+'.toNat) (UInt8.ofNat low.char.toNat) =
      .ok (UInt8.ofNat low.value) := by
  rw [hexEscape, pairText?_of_lt (by decide) low.char_lt]
  simp [pairValue?, low.hexValue?_char]

/-! ## Reading pieces -/

/-- A piece is read as its bytes, whatever follows it. -/
theorem unescape_piece (piece : Piece) (rest : List UInt8) :
    unescape (utf8Bytes piece.chars ++ rest) = (unescape rest).map (piece.bytes ++ ·) := by
  cases piece with
  | raw c hquote hslash =>
    have hchars : utf8Bytes (Piece.raw c hquote hslash).chars = String.utf8EncodeChar c := by
      simp [Piece.chars, utf8Bytes]
    rw [hchars, unescape_append fun b hb => ?_]
    · rfl
    · rintro rfl
      by_cases hc : c.toNat < 128
      · rw [utf8EncodeChar_of_lt hc, List.mem_singleton] at hb
        refine hslash ?_
        rw [← ofNat_toNat_ofNat hc, ← hb]
        rfl
      · exact absurd (le_of_mem_utf8EncodeChar (Nat.not_lt.mp hc) hb) (by decide)
  | letter l =>
    have hchars : utf8Bytes (Piece.letter l).chars = [92, UInt8.ofNat l.char.toNat] := by
      cases l <;> rfl
    rw [hchars, List.cons_append, List.cons_append, unescape_of_ne_hex _ (by cases l <;> decide)]
    cases l <;> rfl
  | hex high low =>
    have hchars : utf8Bytes (Piece.hex high low).chars =
        [92, 120, UInt8.ofNat high.char.toNat, UInt8.ofNat low.char.toNat] := by
      simp only [Piece.chars, utf8Bytes_cons, utf8EncodeChar_of_lt high.char_lt,
        utf8EncodeChar_of_lt low.char_lt]
      rfl
    rw [hchars]
    simp only [List.cons_append, unescape_hex, hexEscape_digits]
    rfl
  | signed low =>
    have hchars : utf8Bytes (Piece.signed low).chars =
        [92, 120, UInt8.ofNat '+'.toNat, UInt8.ofNat low.char.toNat] := by
      simp only [Piece.chars, utf8Bytes_cons, utf8EncodeChar_of_lt low.char_lt]
      rfl
    rw [hchars]
    simp only [List.cons_append, unescape_hex, hexEscape_signed]
    rfl

/-- Pieces are read as their bytes, and reading goes on behind them. -/
theorem unescape_spelling (pieces : List Piece) (rest : List UInt8) :
    unescape (utf8Bytes (spelling pieces) ++ rest) = (unescape rest).map (bytesOf pieces ++ ·) := by
  induction pieces with
  | nil => cases h : unescape rest <;> simp [spelling, utf8Bytes, bytesOf, h, Except.map]
  | cons piece pieces ih =>
    have hchars : spelling (piece :: pieces) = piece.chars ++ spelling pieces := rfl
    have hbytes : bytesOf (piece :: pieces) = piece.bytes ++ bytesOf pieces := rfl
    rw [hchars, utf8Bytes_append, List.append_assoc, unescape_piece, ih, hbytes]
    cases unescape rest <;> simp [Except.map]

theorem readLiteral_spelling (pieces : List Piece) :
    readLiteral (spelling pieces) = .ok (bytesOf pieces) := by
  have hread := unescape_spelling pieces []
  rw [List.append_nil] at hread
  rw [readLiteral, hread, unescape, Except.map, List.append_nil]

/-! ## The token of pieces -/

theorem isBody_piece (piece : Piece) {rest : List Char} (h : IsBody rest) :
    IsBody (piece.chars ++ rest) := by
  cases piece with
  | raw c hquote hslash => exact .plain hquote hslash h
  | letter l => exact .escaped _ h
  | hex high low =>
    exact .escaped _ (.plain high.char_ne.2.1 high.char_ne.2.2
      (.plain low.char_ne.2.1 low.char_ne.2.2 h))
  | signed low =>
    exact .escaped _ (.plain (by decide) (by decide) (.plain low.char_ne.2.1 low.char_ne.2.2 h))

theorem isBody_spelling (pieces : List Piece) : IsBody (spelling pieces) := by
  induction pieces with
  | nil => exact .nil
  | cons piece pieces ih => exact isBody_piece piece ih

/-! ## Bytes as pieces -/

/-- The piece of any byte: its two digits. -/
def pieceOf (b : UInt8) : Piece :=
  .hex ⟨⟨b.toNat / 16, by have := b.toNat_lt; omega⟩, false⟩
    ⟨⟨b.toNat % 16, Nat.mod_lt _ (by decide)⟩, false⟩

theorem bytes_pieceOf (b : UInt8) : (pieceOf b).bytes = [b] := by
  simp [pieceOf, Piece.bytes, Nat.div_add_mod]

theorem bytesOf_map_pieceOf (bytes : List UInt8) : bytesOf (bytes.map pieceOf) = bytes := by
  induction bytes with
  | nil => rfl
  | cons b bytes ih =>
    rw [List.map_cons, bytesOf, List.flatMap_cons, bytes_pieceOf, ← bytesOf, ih]
    rfl

/-- Pieces between quotes are a token that ends at the second quote, whatever follows, and they are
read as their bytes; and any bytes have a spelling by pieces whose escapes have two digits each. -/
theorem spelling_decoded :
    (∀ (pieces : List Piece) (text : List Char),
      next? '"' (spelling pieces ++ '"' :: text) = some (.literal (spelling pieces), text) ∧
      readQuoted? ('"' :: (spelling pieces ++ ['"'])) = some (.ok (bytesOf pieces))) ∧
    ∀ bytes : List UInt8, ∃ pieces, (∀ piece ∈ pieces, piece.Regular) ∧ bytesOf pieces = bytes := by
  refine ⟨fun pieces text => ⟨?_, ?_⟩, fun bytes => ⟨bytes.map pieceOf, ?_, bytesOf_map_pieceOf bytes⟩⟩
  · have hsplit := splitLiteral?_of_isBody (isBody_spelling pieces) text
    exact congrArg (Option.map _) hsplit
  · rw [← readLiteral_spelling]
    exact readQuoted?_literal (spelling pieces)
  · intro piece hpiece
    obtain ⟨b, -, rfl⟩ := List.mem_map.mp hpiece
    trivial

end ArtifactLayout.Script
