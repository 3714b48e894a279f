import ArtifactLayout.Arena.Allocation

/-! # Plans

What the draws of an allocation determine if no allowance limits it. `Arena.Lays` relates a
declaration and a source to the plan that is drawn for it and to the source afterwards. A plan keeps
the prototype of every template, also of one that is copied zero times, so that its cost can be told:
`nodeWeight` for each field and the units of each leaf, the prototype of a template being paid for
once at least.
-/

namespace ArtifactLayout
set_option autoImplicit false

/-- What is laid out for one declaration. -/
inductive Plan where
  | leaf (tag : Tag) (content : Leaf)
  | group (tag : Tag) (grouping : Grouping) (children : List Plan)
  /-- Copies of a prototype: their number, and the children of the prototype. -/
  | copies (count : Nat) (children : List Plan)

namespace Plan

mutual

/-- What a plan claims of the allowance. -/
def cost : Plan → Nat
  | leaf _ content => nodeWeight + content.size
  | group _ _ children => nodeWeight + costs children
  | copies count children => nodeWeight + (nodeWeight + costs children) * max 1 count

def costs : List Plan → Nat
  | [] => 0
  | p :: ps => p.cost + costs ps

end

mutual

/-- The tree that a plan stands for. -/
def field : Plan → Field
  | leaf tag content => .leaf tag content
  | group tag grouping children => .group tag grouping (fields children)
  | copies count children =>
    .group Tag.none .repeated (List.replicate count (.group Tag.none .compound (fields children)))

def fields : List Plan → List Field
  | [] => []
  | p :: ps => p.field :: fields ps

end

end Plan

namespace Arena
variable {σ : Type} [RandomSource σ]

mutual

/-- The plan that a declaration has when nothing limits it, from one state of the source to another.
Draws are made in the order of the declarations; a template draws its children once. -/
inductive Lays (arena : Arena) : DeclId → σ → Plan → σ → Prop where
  | block {id filler size name s} (hdecl : arena.decls[id]? = some (.block filler size name)) :
      Lays arena id s (.leaf ⟨name, some filler⟩ (.block (Array.replicate size 0))) s
  | auto {id filler size name s} (hdecl : arena.decls[id]? = some (.auto filler size name)) :
      Lays arena id s (.leaf ⟨name, some filler⟩ (.block (Array.replicate size 0))) s
  | bitfield {id filler width name s}
      (hdecl : arena.decls[id]? = some (.bitfield filler width name)) :
      Lays arena id s (.leaf ⟨name, some filler⟩ (.bitfield (Array.replicate width false))) s
  | ranged {id filler low high name s}
      (hdecl : arena.decls[id]? = some (.ranged filler low high name)) (hle : low ≤ high) :
      Lays arena id s
        (.leaf ⟨name, some filler⟩
          (.ranged low high (Array.replicate (RandomSource.between low high hle s).1.val 0)))
        (RandomSource.between low high hle s).2
  | compound {id children name s plans s'}
      (hdecl : arena.decls[id]? = some (.compound children name))
      (hall : LaysAll arena children s plans s') :
      Lays arena id s (.group ⟨name, none⟩ .compound plans) s'
  | choice {id children name s child plan s'}
      (hdecl : arena.decls[id]? = some (.choice children name)) (hne : children ≠ [])
      (hpick : children[(RandomSource.between 0 (children.length - 1) (Nat.zero_le _) s).1.val]? =
        some child)
      (hchild : Lays arena child
        (RandomSource.between 0 (children.length - 1) (Nat.zero_le _) s).2 plan s') :
      Lays arena id s (.group ⟨name, none⟩ .compound [plan]) s'
  | bits {id children name s plans s'} (hdecl : arena.decls[id]? = some (.bits children name))
      (hall : LaysAll arena children s plans s') :
      Lays arena id s (.group ⟨name, none⟩ .bits plans) s'
  | copies {id number template low high s plans s'}
      (hdecl : arena.decls[id]? = some (.copies number low high))
      (htemplate : arena.templates[number]? = some template) (hle : low ≤ high)
      (hall : LaysAll arena template.children (RandomSource.between low high hle s).2 plans s') :
      Lays arena id s (.copies (RandomSource.between low high hle s).1.val plans) s'

inductive LaysAll (arena : Arena) : List DeclId → σ → List Plan → σ → Prop where
  | nil {s} : LaysAll arena [] s [] s
  | cons {id ids s plan t plans s'} (head : Lays arena id s plan t)
      (tail : LaysAll arena ids t plans s') : LaysAll arena (id :: ids) s (plan :: plans) s'

end

end Arena
end ArtifactLayout
