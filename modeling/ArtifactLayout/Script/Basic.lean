import ArtifactLayout.Script.Token

/-! # Scripts

The form of a script: templates and declarations, as they are read from its tokens. Numerals and
literals stay as they are written.
-/

namespace ArtifactLayout
set_option autoImplicit false

namespace Script

inductive Source where
  | literal (body : List Char)
  | numeral (text : List Char)
  /-- The number that a field spells. -/
  | field (name : String)
  | call (function : String) (arguments : List String)
  deriving DecidableEq, Repr

inductive Container where
  | compound
  | choice
  | bits
  deriving DecidableEq, Repr

inductive Item where
  | block (size : List Char) (name : Option String) (source : Option Source)
  | ranged (low high : List Char) (name : Option String) (source : Option Source)
  | bitfield (width : List Char) (name : Option String) (source : Option Source)
  | auto (name : Option String) (source : Source)
  | container (form : Container) (name : Option String) (body : List Item)
  | copies (template : String) (low : List Char) (high : Option (List Char))

inductive Entry where
  | template (name : String) (body : List Item)
  | item (i : Item)

/-! ## Parts of a declaration -/

def name? : List Token → Option String × List Token
  | .name text :: rest => (some text, rest)
  | tokens => (none, tokens)

def moreNames? : List Token → Option (List String × List Token)
  | .mark .closeParen :: rest => some ([], rest)
  | .mark .comma :: .name text :: rest =>
    (moreNames? rest).map fun (names, rest) => (text :: names, rest)
  | _ => none

/-- The names between parentheses, up to the closing one. -/
def arguments? : List Token → Option (List String × List Token)
  | .mark .closeParen :: rest => some ([], rest)
  | .name text :: rest => (moreNames? rest).map fun (names, rest) => (text :: names, rest)
  | _ => none

def source? : List Token → Option (Source × List Token)
  | .literal body :: rest => some (.literal body, rest)
  | .numeral text :: rest => some (.numeral text, rest)
  | .name function :: .mark .openParen :: rest =>
    (arguments? rest).map fun (arguments, rest) => (.call function arguments, rest)
  | .name text :: rest => some (.field text, rest)
  | _ => none

/-- The end of a declaration: an optional name, an optional source and a semicolon. -/
def ending? (tokens : List Token) : Option ((Option String × Option Source) × List Token) :=
  match name? tokens with
  | (name, .mark .semicolon :: rest) => some ((name, none), rest)
  | (name, .mark .equals :: rest) =>
    match source? rest with
    | some (source, .mark .semicolon :: rest) => some ((name, some source), rest)
    | _ => none
  | _ => none

/-! ## Declarations -/

mutual

/-- Reads a declaration, going down at most `depth` levels. -/
def item? : Nat → List Token → Option (Item × List Token)
  | 0, _ => none
  | depth + 1, tokens =>
    match tokens with
    | .keyword .block :: .mark .less :: .numeral size :: .mark .greater :: rest =>
      (ending? rest).map fun ((name, source), rest) => (.block size name source, rest)
    | .keyword .varblock :: .mark .less :: .numeral low :: .mark .comma :: .numeral high
        :: .mark .greater :: rest =>
      (ending? rest).map fun ((name, source), rest) => (.ranged low high name source, rest)
    | .keyword .bitfield :: .mark .less :: .numeral width :: .mark .greater :: rest =>
      (ending? rest).map fun ((name, source), rest) => (.bitfield width name source, rest)
    | .keyword .auto :: rest =>
      match ending? rest with
      | some ((name, some source), rest) => some (.auto name source, rest)
      | _ => none
    | .keyword .compound :: rest => container? .compound depth rest
    | .keyword .choice :: rest => container? .choice depth rest
    | .keyword .bits :: rest => container? .bits depth rest
    | .name template :: .mark .less :: .numeral low :: .mark .greater :: .mark .semicolon :: rest =>
      some (.copies template low none, rest)
    | .name template :: .mark .less :: .numeral low :: .mark .comma :: .numeral high
        :: .mark .greater :: .mark .semicolon :: rest =>
      some (.copies template low (some high), rest)
    | _ => none

/-- Reads a container after its keyword. -/
def container? (form : Container) : Nat → List Token → Option (Item × List Token)
  | 0, _ => none
  | depth + 1, tokens =>
    match name? tokens with
    | (name, .mark .openBrace :: rest) =>
      (body? depth rest).map fun (body, rest) => (.container form name body, rest)
    | _ => none

/-- Reads declarations up to the closing brace. -/
def body? : Nat → List Token → Option (List Item × List Token)
  | 0, _ => none
  | depth + 1, tokens =>
    match tokens with
    | .mark .closeBrace :: rest => some ([], rest)
    | tokens =>
      match item? depth tokens with
      | none => none
      | some (item, rest) => (body? depth rest).map fun (items, rest) => (item :: items, rest)

end

def entries? : Nat → List Token → Option (List Entry)
  | 0, _ => none
  | depth + 1, tokens =>
    match tokens with
    | [] => some []
    | .keyword .template :: .name name :: .mark .openBrace :: rest =>
      match body? depth rest with
      | none => none
      | some (body, rest) => (entries? depth rest).map (.template name body :: ·)
    | tokens =>
      match item? depth tokens with
      | none => none
      | some (item, rest) => (entries? depth rest).map (.item item :: ·)

end Script

structure Script where
  entries : List Script.Entry

namespace Script

def ofTokens? (tokens : List Token) : Option Script :=
  (entries? (2 * tokens.length + 1) tokens).map Script.mk

def read? (text : List Char) : Option Script := (scan? text).bind ofTokens?

end Script
end ArtifactLayout
