import ArtifactLayout.Field.Number

/-! # Settings

What a run of passes starts from, and the names of the files it writes.
-/

namespace ArtifactLayout
set_option autoImplicit false

structure Settings where
  seed : UInt64
  count : Nat
  maxFailures : Nat
  order : ByteOrder
  /-- Where artifacts are written; they are printed otherwise. -/
  outputDir : Option String
  stem : String
  deriving DecidableEq, Repr

namespace Settings

/-- Failed passes in a row that are put up with unless a run says otherwise. -/
def defaultMaxFailures : Nat := 16

def default : Settings where
  seed := 0
  count := 1
  maxFailures := defaultMaxFailures
  order := .big
  outputDir := none
  stem := "case"

def paddedDigits (width n : Nat) : List Char :=
  let digits := Nat.toDigits 10 n
  List.replicate (width - digits.length) '0' ++ digits

/-- The digits that the number of the last artifact takes, one at least. -/
def indexWidth (settings : Settings) : Nat := (Nat.toDigits 10 (max (settings.count - 1) 1)).length

/-- The file of an artifact. Numbers are padded to one width, so that the names of a run sort in the
order of its artifacts. -/
def fileName (settings : Settings) (index : Nat) : String :=
  String.ofList <|
    settings.stem.toList ++ '-' :: paddedDigits settings.indexWidth index ++ ".bin".toList

end Settings
end ArtifactLayout
