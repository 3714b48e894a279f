import ArtifactLayout.Arena.Basic
import ArtifactLayout.Attempt
import ArtifactLayout.Factory.Segments
import ArtifactLayout.Names
import ArtifactLayout.Registry

/-! # The factory

Builds the arena of one script from the leaves up. Field names may be referred to before they are
declared; functions and templates have to be known when they are used. Neighbouring bitfields
outside a bit group are put into a group of their own, so that every other field starts at a byte.
-/

namespace ArtifactLayout
set_option autoImplicit false

structure Factory where
  registry : Registry
  arena : Arena
  names : Names
  templates : List (String × TemplateId)
  declared : List FieldId
  /-- The names that are read, in the order of the reads. -/
  referenced : Array FieldId
  /-- The filler of every block declared without one, once there is such a block. -/
  randomFiller : Option FillerId
  /-- The filler of every bitfield declared without one, once there is such a bitfield. -/
  randomBitFiller : Option FillerId
  deriving DecidableEq, Repr

namespace Factory

def ofRegistry (registry : Registry) : Factory where
  registry := registry
  arena := .empty
  names := .empty
  templates := []
  declared := []
  referenced := #[]
  randomFiller := none
  randomBitFiller := none

/-! ## Growing the tables -/

/-- Notes a name that stands at a declaration. -/
def declare : Option String → Attempt Factory (Option FieldId)
  | none => return none
  | some name => do
    let (id, names) := (← get).names.register name
    modify fun f => { f with names, declared := id :: f.declared }
    return some id

/-- Notes a name that is read. -/
def refer (name : String) : Attempt Factory FieldId := do
  let (id, names) := (← get).names.register name
  modify fun f => { f with names, referenced := f.referenced.push id }
  return id

def addFiller (filler : Filler) : Attempt Factory FillerId := do
  let id := (← get).arena.fillers.size
  modify fun f => { f with arena.fillers := f.arena.fillers.push filler }
  return id

def addDecl (decl : Decl) : Attempt Factory DeclId := do
  let id := (← get).arena.decls.size
  modify fun f => { f with arena.decls := f.arena.decls.push decl }
  return id

/-- Refuses a size, a width or a number of copies above the limit. -/
def checkUnits (units : Nat) : Attempt Factory Unit :=
  if maxUnits < units then throw (.tooLarge units) else return ()

/-! ## Fillers -/

/-- The filler that blocks without one of their own share. -/
def defaultFiller : Attempt Factory FillerId := do
  match (← get).randomFiller with
  | some id => return id
  | none =>
    let id ← addFiller .random
    modify fun f => { f with randomFiller := some id }
    return id

def defaultBitFiller : Attempt Factory FillerId := do
  match (← get).randomBitFiller with
  | some id => return id
  | none =>
    let id ← addFiller .randomUnits
    modify fun f => { f with randomBitFiller := some id }
    return id

def constant (content : List UInt8) : Attempt Factory FillerId := addFiller (.constant content)

def number (value : UInt64) : Attempt Factory FillerId := addFiller (.quantity (.constant value))

def numberIn (name : String) : Attempt Factory FillerId := do
  addFiller (.quantity (.numberIn (← refer name)))

def call (function : String) (arguments : List String) : Attempt Factory FillerId := do
  match (← get).registry.filler? function, (← get).registry.value? function with
  | some filler, _ => addFiller (filler.apply function (← arguments.mapM refer))
  | none, some value =>
    match arguments with
    | [argument] => addFiller (.quantity (value.apply (← refer argument)))
    | _ => throw (.argumentCount function arguments.length)
  | none, none => throw (.unknownFunction function)

/-! ## Declarations -/

def block (filler : Option FillerId) (size : Nat) (name : Option String) :
    Attempt Factory DeclId := do
  checkUnits size
  let filler ← filler.elim defaultFiller pure
  addDecl (.block filler size (← declare name))

/-- A block as long as the content of its filler; the limit is not looked at. -/
def auto (filler : FillerId) (name : Option String) : Attempt Factory DeclId := do
  match (← get).arena.fillers[filler]? with
  | none => throw (.missingFiller filler)
  | some content =>
    match content.length? with
    | none => throw (.unsizedAuto name)
    | some size => addDecl (.auto filler size (← declare name))

def bitfield (filler : Option FillerId) (width : Nat) (name : Option String) :
    Attempt Factory DeclId := do
  checkUnits width
  let filler ← filler.elim defaultBitFiller pure
  addDecl (.bitfield filler width (← declare name))

def ranged (filler : Option FillerId) (low high : Nat) (name : Option String) :
    Attempt Factory DeclId := do
  if high < low then throw (.invalidBounds low high)
  checkUnits high
  let filler ← filler.elim defaultFiller pure
  addDecl (.ranged filler low high (← declare name))

def bits (children : List DeclId) (name : Option String) : Attempt Factory DeclId := do
  addDecl (.bits children (← declare name))

/-- Puts every run of neighbouring bitfields into a bit group without a name. -/
def groupLoose (children : List DeclId) : Attempt Factory (List DeclId) := do
  let arena := (← get).arena
  (Segment.ofList arena.isBitfield children).mapM fun
    | .single child => pure child
    | .run loose => bits loose none

def compound (children : List DeclId) (name : Option String) : Attempt Factory DeclId := do
  let children ← groupLoose children
  addDecl (.compound children (← declare name))

/-- A choice; only one alternative is laid out, so each bitfield gets a group for itself alone. -/
def choice (children : List DeclId) (name : Option String) : Attempt Factory DeclId := do
  if children = [] then throw (.emptyChoice name)
  let arena := (← get).arena
  let children ← children.mapM fun child =>
    if arena.isBitfield child then bits [child] none else pure child
  addDecl (.choice children (← declare name))

/-! ## Templates -/

def defineTemplate (name : String) (children : List DeclId) : Attempt Factory TemplateId := do
  if ((← get).templates.lookup name).isSome then throw (.templateRedefined name)
  let children ← groupLoose children
  let id := (← get).arena.templates.size
  modify fun f => { f with
    arena.templates := f.arena.templates.push ⟨name, children⟩
    templates := (name, id) :: f.templates }
  return id

def copies (name : String) (low high : Nat) : Attempt Factory DeclId := do
  match (← get).templates.lookup name with
  | none => throw (.unknownTemplate name)
  | some template =>
    if high < low then throw (.invalidBounds low high)
    checkUnits high
    addDecl (.copies template low high)

end Factory
end ArtifactLayout
