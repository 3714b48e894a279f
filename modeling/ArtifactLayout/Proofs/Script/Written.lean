import ArtifactLayout.Script.Basic

/-! # How a script is written

The other direction of reading: the tokens of a script, and the texts that some tokens may be written
as. Between two tokens there may be blanks and comments, and there has to be something between a keyword
and a name.
-/

namespace ArtifactLayout.Script
set_option autoImplicit false

/-! ## The tokens of a script -/

/-- Names with a comma between neighbours. -/
def listTokens : List String → List Token
  | [] => []
  | name :: rest => .name name :: rest.flatMap fun other => [.mark .comma, .name other]

def Source.tokens : Source → List Token
  | literal body => [.literal body]
  | numeral text => [.numeral text]
  | field name => [.name name]
  | call function arguments =>
    .name function :: .mark .openParen :: (listTokens arguments ++ [.mark .closeParen])

def nameTokens (name : Option String) : List Token := name.toList.map .name

def sourceTokens (source : Option Source) : List Token :=
  source.elim [] fun source => .mark .equals :: source.tokens

/-- How a declaration without a body ends. -/
def endingTokens (name : Option String) (source : Option Source) : List Token :=
  nameTokens name ++ (sourceTokens source ++ [.mark .semicolon])

def Container.keyword : Container → Keyword
  | compound => .compound
  | choice => .choice
  | bits => .bits

mutual

def Item.tokens : Item → List Token
  | .block size name source =>
    .keyword .block :: .mark .less :: .numeral size :: .mark .greater :: endingTokens name source
  | .ranged low high name source =>
    .keyword .varblock :: .mark .less :: .numeral low :: .mark .comma :: .numeral high ::
      .mark .greater :: endingTokens name source
  | .bitfield width name source =>
    .keyword .bitfield :: .mark .less :: .numeral width :: .mark .greater :: endingTokens name source
  | .auto name source => .keyword .auto :: endingTokens name (some source)
  | .container form name body =>
    .keyword form.keyword ::
      (nameTokens name ++ .mark .openBrace :: (itemsTokens body ++ [.mark .closeBrace]))
  | .copies template low none =>
    [.name template, .mark .less, .numeral low, .mark .greater, .mark .semicolon]
  | .copies template low (some high) =>
    [.name template, .mark .less, .numeral low, .mark .comma, .numeral high, .mark .greater,
      .mark .semicolon]

def itemsTokens : List Item → List Token
  | [] => []
  | item :: rest => item.tokens ++ itemsTokens rest

end

def Entry.tokens : Entry → List Token
  | template name body =>
    .keyword .template :: .name name :: .mark .openBrace :: (itemsTokens body ++ [.mark .closeBrace])
  | item i => i.tokens

def entriesTokens : List Entry → List Token
  | [] => []
  | entry :: rest => entry.tokens ++ entriesTokens rest

def tokens (script : Script) : List Token := entriesTokens script.entries

/-! ## Spelling -/

/-- Letters, digits and underscores, of which the first is not a digit, other than a keyword. -/
structure IsName (text : String) : Prop where
  start : ∃ c rest, text.toList = c :: rest ∧ isWordStart c = true ∧ ∀ d ∈ rest, isWordChar d = true
  ne_keyword : ∀ k : Keyword, k.text ≠ text

/-- Decimal digits, or hexadecimal ones after `0x` or `0X`; at least one. -/
inductive IsNumeral : List Char → Prop where
  | decimal {digits : List Char} (hne : digits ≠ []) (h : ∀ c ∈ digits, c.isDigit = true) :
      IsNumeral digits
  | hexadecimal {x : Char} {digits : List Char} (hx : x = 'x' ∨ x = 'X') (hne : digits ≠ [])
      (h : ∀ c ∈ digits, isHexDigit c = true) : IsNumeral ('0' :: x :: digits)

/-- What may stand between quotes: any characters after a backslash, others than a quote elsewhere. -/
inductive IsBody : List Char → Prop where
  | nil : IsBody []
  | escaped (c : Char) {rest : List Char} (h : IsBody rest) : IsBody ('\\' :: c :: rest)
  | plain {c : Char} {rest : List Char} (hquote : c ≠ '"') (hslash : c ≠ '\\') (h : IsBody rest) :
      IsBody (c :: rest)

namespace Token

/-- The characters that a token is written as. -/
def chars : Token → List Char
  | keyword k => k.text.toList
  | name text => text.toList
  | numeral text => text
  | literal body => '"' :: (body ++ ['"'])
  | mark m => [m.char]

/-- Whether a token can be written at all. -/
def Proper : Token → Prop
  | name text => IsName text
  | numeral text => IsNumeral text
  | literal body => IsBody body
  | keyword _ | mark _ => True

end Token

/-! ## Layout -/

/-- A blank, or a comment with its end. -/
inductive Space : List Char → Prop where
  | blank {c : Char} (h : isBlank c = true) : Space [c]
  | line {comment : List Char} (h : '\n' ∉ comment) : Space ('/' :: '/' :: (comment ++ ['\n']))
  | block {comment : List Char} (h : ¬ ['*', '/'] <:+: comment) :
      Space ('/' :: '*' :: (comment ++ ['*', '/']))

/-- Blanks and comments. -/
inductive Layout : List Char → Prop where
  | nil : Layout []
  | cons {space rest : List Char} (hspace : Space space) (hrest : Layout rest) : Layout (space ++ rest)

/-- Blanks and comments at the end of a text, where a line comment needs no line feed. -/
inductive Closing : List Char → Prop where
  | layout {gap : List Char} (h : Layout gap) : Closing gap
  | comment {gap comment : List Char} (h : Layout gap) (hcomment : '\n' ∉ comment) :
      Closing (gap ++ '/' :: '/' :: comment)

/-- A keyword would run into a name that follows it at once. -/
def RunsInto (before : Option Token) (token : Token) : Prop :=
  ∃ k text, before = some (.keyword k) ∧ token = .name text

/-- A text is some tokens, behind another one if there is one, with layout around them. -/
inductive Written : Option Token → List Token → List Char → Prop where
  | nil {before : Option Token} {gap : List Char} (hgap : Closing gap) : Written before [] gap
  | cons {before : Option Token} {token : Token} {rest : List Token} {gap text : List Char}
      (hgap : Layout gap) (hapart : RunsInto before token → gap ≠ []) (hproper : token.Proper)
      (hrest : Written (some token) rest text) : Written before (token :: rest) (gap ++ (token.chars ++ text))

/-- A text in which a script is written down. -/
def Writes (text : String) (script : Script) : Prop := Written none script.tokens text.toList

end ArtifactLayout.Script
