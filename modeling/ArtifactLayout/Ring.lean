/-! # Rings of words

Blocks of sixteen words, numbered around: word sixteen is word zero.
-/

namespace ArtifactLayout
set_option autoImplicit false

/-- The word at a number. -/
def ringAt {α : Type} (ring : Vector α 16) (t : Nat) : α := ring[Fin.ofNat 16 t]

def setRing {α : Type} (ring : Vector α 16) (t : Nat) (word : α) : Vector α 16 :=
  ring.set (Fin.ofNat 16 t) word

end ArtifactLayout
