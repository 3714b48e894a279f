import ArtifactLayout.Text.Hex

/-! # Tokens

The words of a script. Blanks and comments may stand between any two of them and mean nothing; a
word or a numeral reaches as far as it can.
-/

namespace ArtifactLayout.Script
set_option autoImplicit false

inductive Keyword where
  | template
  | block
  | varblock
  | bitfield
  | auto
  | compound
  | choice
  | bits
  deriving DecidableEq, Repr

namespace Keyword

def text : Keyword → String
  | template => "template"
  | block => "block"
  | varblock => "varblock"
  | bitfield => "bitfield"
  | auto => "auto"
  | compound => "compound"
  | choice => "choice"
  | bits => "bits"

def all : List Keyword := [template, block, varblock, bitfield, auto, compound, choice, bits]

def ofText? (word : String) : Option Keyword := all.find? fun k => k.text = word

end Keyword

inductive Mark where
  | less
  | greater
  | comma
  | semicolon
  | equals
  | openBrace
  | closeBrace
  | openParen
  | closeParen
  deriving DecidableEq, Repr

namespace Mark

def char : Mark → Char
  | less => '<'
  | greater => '>'
  | comma => ','
  | semicolon => ';'
  | equals => '='
  | openBrace => '{'
  | closeBrace => '}'
  | openParen => '('
  | closeParen => ')'

def all : List Mark :=
  [less, greater, comma, semicolon, equals, openBrace, closeBrace, openParen, closeParen]

def ofChar? (c : Char) : Option Mark := all.find? fun m => m.char = c

end Mark

inductive Token where
  | keyword (k : Keyword)
  | name (text : String)
  /-- A numeral as it is written. -/
  | numeral (text : List Char)
  /-- What stands between the quotes of a literal, escapes included. -/
  | literal (body : List Char)
  | mark (m : Mark)
  deriving DecidableEq, Repr

/-! ## Character classes -/

def isBlank (c : Char) : Bool := c = ' ' || c = '\t' || c = '\r' || c = '\n'

def isWordStart (c : Char) : Bool := c.isAlpha || c = '_'

def isWordChar (c : Char) : Bool := c.isAlphanum || c = '_'

def isHexDigit (c : Char) : Bool := (Text.hexValue? c).isSome

/-! ## Between tokens -/

/-- What the characters between two tokens belong to. -/
inductive Gap where
  | blanks
  | lineComment
  | blockComment
  deriving DecidableEq, Repr

/-- Drops blanks and comments. A line comment ends before its line feed or with the text; a block
comment has to be closed, and a slash that starts no comment has no place between tokens. -/
def skip : Gap → List Char → Option (List Char)
  | .blanks, [] => some []
  | .blanks, '/' :: '/' :: rest => skip .lineComment rest
  | .blanks, '/' :: '*' :: rest => skip .blockComment rest
  | .blanks, c :: rest =>
    if isBlank c then skip .blanks rest else if c = '/' then none else some (c :: rest)
  | .lineComment, [] => some []
  | .lineComment, c :: rest => if c = '\n' then skip .blanks rest else skip .lineComment rest
  | .blockComment, '*' :: '/' :: rest => skip .blanks rest
  | .blockComment, _ :: rest => skip .blockComment rest
  | .blockComment, [] => none

/-! ## One token -/

def wordToken (text : String) : Token :=
  match Keyword.ofText? text with
  | some k => .keyword k
  | none => .name text

/-- Splits a numeral off: hexadecimal digits after `0x` or `0X`, otherwise decimal digits. -/
def splitNumeral : List Char → List Char × List Char
  | '0' :: x :: digit :: rest =>
    if (x = 'x' ∨ x = 'X') ∧ isHexDigit digit then
      ('0' :: x :: digit :: rest.takeWhile isHexDigit, rest.dropWhile isHexDigit)
    else
      ('0' :: (x :: digit :: rest).takeWhile Char.isDigit,
        (x :: digit :: rest).dropWhile Char.isDigit)
  | text => (text.takeWhile Char.isDigit, text.dropWhile Char.isDigit)

/-- Splits the body of a literal off at the first quote that no backslash stands before. -/
def splitLiteral? : List Char → Option (List Char × List Char)
  | [] => none
  | '"' :: rest => some ([], rest)
  | '\\' :: c :: rest => (splitLiteral? rest).map fun (body, rest) => ('\\' :: c :: body, rest)
  | c :: rest => (splitLiteral? rest).map fun (body, rest) => (c :: body, rest)

/-- The token that starts with a character, and what follows it. -/
def next? (c : Char) (rest : List Char) : Option (Token × List Char) :=
  if isWordStart c then
    some (wordToken (String.ofList (c :: rest.takeWhile isWordChar)), rest.dropWhile isWordChar)
  else if c.isDigit then
    let (text, rest) := splitNumeral (c :: rest)
    some (.numeral text, rest)
  else if c = '"' then (splitLiteral? rest).map fun (body, rest) => (.literal body, rest)
  else (Mark.ofChar? c).map fun m => (.mark m, rest)

/-! ## All tokens -/

/-- Reads tokens as long as there are steps left; every token takes one. -/
def scanFrom : Nat → List Char → Option (List Token)
  | 0, _ => none
  | steps + 1, text =>
    match skip .blanks text with
    | none => none
    | some [] => some []
    | some (c :: rest) =>
      match next? c rest with
      | none => none
      | some (token, rest) => (scanFrom steps rest).map (token :: ·)

def scan? (text : List Char) : Option (List Token) := scanFrom (text.length + 1) text

end ArtifactLayout.Script
