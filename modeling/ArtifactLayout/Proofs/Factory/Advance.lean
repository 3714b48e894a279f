import ArtifactLayout.Proofs.Factory.Action
import ArtifactLayout.Proofs.Attempt
import ArtifactLayout.Proofs.Names

/-! # One action

What an action can do to a factory, said once for all of them: it is refused and changes nothing, or it
succeeds, and then the tables have grown by what the action mentions. Everything that is to be known of
factories after many actions follows from that.
-/

namespace ArtifactLayout
set_option autoImplicit false

/-- A declaration that is given a number of units asks for no more than the limit; a block that takes
its size from its filler is as long as the filler says that its content is. -/
def Decl.Capped (arena : Arena) : Decl → Prop
  | .block _ size _ => size ≤ maxUnits
  | .auto filler size _ => ∃ content, arena.fillers[filler]? = some content ∧
      content.length? = some size
  | .bitfield _ width _ => width ≤ maxUnits
  | .ranged _ _ high _ => high ≤ maxUnits
  | .copies _ _ high => high ≤ maxUnits
  | .compound _ _ | .choice _ _ | .bits _ _ => True

/-- Fillers that are added later do not matter. -/
theorem Decl.Capped.of_fillers {arena arena' : Arena} {added : List Filler} {decl : Decl}
    (h : decl.Capped arena) (hfillers : arena'.fillers.toList = arena.fillers.toList ++ added) :
    decl.Capped arena' := by
  cases decl with
  | auto filler size name =>
    obtain ⟨content, hcontent, hlength⟩ := h
    refine ⟨content, ?_, hlength⟩
    rw [← Array.getElem?_toList] at hcontent ⊢
    have hlt := (List.getElem?_eq_some_iff.mp hcontent).1
    rw [hfillers, List.getElem?_append_left hlt, hcontent]
  | block | bitfield | ranged | copies | compound | choice | bits => exact h

namespace Factory
open Attempt

/-! ## Mentions -/

/-- A name where it is met: read by a filler, or given to a declaration. -/
inductive Mention where
  | read (name : String)
  | declared (name : String)
  deriving DecidableEq, Repr

namespace Mention

def name : Mention → String
  | read name | declared name => name

def read? : Mention → Option String
  | read name => some name
  | declared _ => none

def declared? : Mention → Option String
  | read _ => none
  | declared name => some name

end Mention

/-- The names that are read, in turn. -/
def reads (ms : List Mention) : List String := ms.filterMap Mention.read?

/-- The names that are declared, in turn. -/
def declares (ms : List Mention) : List String := ms.filterMap Mention.declared?

theorem reads_append (ms ms' : List Mention) : reads (ms ++ ms') = reads ms ++ reads ms' :=
  List.filterMap_append

theorem declares_append (ms ms' : List Mention) :
    declares (ms ++ ms') = declares ms ++ declares ms' :=
  List.filterMap_append

/-! ## Advances -/

/-- The second factory is the first with more in it: the names are those met in turn, a name that is
read is noted as such, a name that is declared is that of a declaration, and what is new is held to the
limit. New fillers read known names if `strict` holds. -/
structure Advance (strict : Prop) (ms : List Mention) (f g : Factory) : Prop where
  names : g.names = f.names.registerAll (ms.map Mention.name)
  referenced : ∃ ids, g.referenced.toList = f.referenced.toList ++ ids ∧ g.names.Spells ids (reads ms)
  decls : ∃ added, g.arena.decls.toList = f.arena.decls.toList ++ added ∧
    (∀ decl ∈ added, decl.Capped g.arena) ∧
    g.declared = (added.filterMap Decl.name).reverse ++ f.declared ∧
    g.names.Spells (added.filterMap Decl.name) (declares ms)
  fillers : ∃ added, g.arena.fillers.toList = f.arena.fillers.toList ++ added ∧
    (strict → ∀ filler ∈ added, ∀ id ∈ filler.sources, id < g.names.count)

variable {strict : Prop} {ms ms' : List Mention} {f g h : Factory}

namespace Advance

theorem names_le (a : Advance strict ms f g) : f.names.list <+: g.names.list := by
  rw [a.names]
  exact Names.prefix_registerAll _ _

theorem count_le (a : Advance strict ms f g) : f.names.count ≤ g.names.count :=
  a.names_le.length_le

/-- A change of other tables only. -/
theorem of_eq (hnames : g.names = f.names) (hreferenced : g.referenced = f.referenced)
    (hdecls : g.arena.decls = f.arena.decls) (hdeclared : g.declared = f.declared)
    (hfillers : g.arena.fillers = f.arena.fillers) : Advance strict [] f g := by
  refine ⟨hnames, ⟨[], ?_, .nil _⟩, ⟨[], ?_, nofun, hdeclared, .nil _⟩, ⟨[], ?_, nofun⟩⟩
  · rw [hreferenced, List.append_nil]
  · rw [hdecls, List.append_nil]
  · rw [hfillers, List.append_nil]

theorem refl (f : Factory) : Advance strict [] f f := of_eq rfl rfl rfl rfl rfl

theorem trans (a : Advance strict ms f g) (b : Advance strict ms' g h) :
    Advance strict (ms ++ ms') f h := by
  obtain ⟨ids, hids, hspells⟩ := a.referenced
  obtain ⟨ids', hids', hspells'⟩ := b.referenced
  obtain ⟨decls, hdecls, hcapped, hdeclared, hnamed⟩ := a.decls
  obtain ⟨decls', hdecls', hcapped', hdeclared', hnamed'⟩ := b.decls
  obtain ⟨fillers, hfillers, hsources⟩ := a.fillers
  obtain ⟨fillers', hfillers', hsources'⟩ := b.fillers
  constructor
  · rw [b.names, a.names, List.map_append, Names.registerAll_append]
  · refine ⟨ids ++ ids', ?_, ?_⟩
    · rw [hids', hids, List.append_assoc]
    · rw [reads_append]
      exact (hspells.of_le b.names_le).append hspells'
  · refine ⟨decls ++ decls', ?_, ?_, ?_, ?_⟩
    · rw [hdecls', hdecls, List.append_assoc]
    · intro decl hdecl
      rcases List.mem_append.mp hdecl with hdecl | hdecl
      · exact (hcapped decl hdecl).of_fillers hfillers'
      · exact hcapped' decl hdecl
    · rw [hdeclared', hdeclared, List.filterMap_append, List.reverse_append, List.append_assoc]
    · rw [List.filterMap_append, declares_append]
      exact (hnamed.of_le b.names_le).append hnamed'
  · refine ⟨fillers ++ fillers', ?_, fun hs filler hfiller id hid => ?_⟩
    · rw [hfillers', hfillers, List.append_assoc]
    · rcases List.mem_append.mp hfiller with hfiller | hfiller
      · exact Nat.lt_of_lt_of_le (hsources hs filler hfiller id hid) b.count_le
      · exact hsources' hs filler hfiller id hid

theorem read (f : Factory) (name : String) :
    Advance strict [.read name] f
      { f with names := (f.names.register name).2
               referenced := f.referenced.push (f.names.register name).1 } := by
  refine ⟨rfl, ⟨[(f.names.register name).1], Array.toList_push, ?_⟩, ⟨[], ?_, nofun, rfl, .nil _⟩,
    ⟨[], ?_, nofun⟩⟩
  · exact .single (Names.name?_register _ _)
  · exact (List.append_nil _).symm
  · exact (List.append_nil _).symm

theorem filler (f : Factory) (filler : Filler)
    (hsources : strict → ∀ id ∈ filler.sources, id < f.names.count) :
    Advance strict [] f { f with arena.fillers := f.arena.fillers.push filler } := by
  refine ⟨rfl, ⟨[], ?_, .nil _⟩, ⟨[], ?_, nofun, rfl, .nil _⟩, ⟨[filler], Array.toList_push, ?_⟩⟩
  · exact (List.append_nil _).symm
  · exact (List.append_nil _).symm
  · intro hs other hother
    obtain rfl := List.mem_singleton.mp hother
    exact hsources hs

theorem unnamed (f : Factory) {decl : Decl} (hname : decl.name = none) (hcap : decl.Capped f.arena) :
    Advance strict [] f { f with arena.decls := f.arena.decls.push decl } := by
  refine ⟨rfl, ⟨[], ?_, .nil _⟩, ⟨[decl], Array.toList_push, ?_, ?_, ?_⟩, ⟨[], ?_, nofun⟩⟩
  · exact (List.append_nil _).symm
  · intro other hother
    obtain rfl := List.mem_singleton.mp hother
    exact hcap
  · rw [List.filterMap_cons_none hname]
    rfl
  · rw [List.filterMap_cons_none hname]
    exact .nil _
  · exact (List.append_nil _).symm

theorem named (f : Factory) (name : String) {decl : Decl}
    (hname : decl.name = some (f.names.register name).1) (hcap : decl.Capped f.arena) :
    Advance strict [.declared name] f
      { f with names := (f.names.register name).2
               declared := (f.names.register name).1 :: f.declared
               arena.decls := f.arena.decls.push decl } := by
  refine ⟨rfl, ⟨[], ?_, .nil _⟩, ⟨[decl], Array.toList_push, ?_, ?_, ?_⟩, ⟨[], ?_, nofun⟩⟩
  · exact (List.append_nil _).symm
  · intro other hother
    obtain rfl := List.mem_singleton.mp hother
    exact hcap
  · rw [List.filterMap_cons_some hname]
    rfl
  · rw [List.filterMap_cons_some hname]
    exact .single (Names.name?_register _ _)
  · exact (List.append_nil _).symm

end Advance

/-! ## Attempts that succeed -/

variable {α β : Type}

/-- On a factory an attempt succeeds and mentions some names. -/
def Succeeds (strict : Prop) (ms : List Mention) (m : Attempt Factory α) (f : Factory) : Prop :=
  ∃ a g, m f = (.ok a, g) ∧ Advance strict ms f g

namespace Succeeds

theorem pure (a : α) (f : Factory) : Succeeds strict [] (pure a) f := ⟨a, f, rfl, .refl f⟩

theorem get_bind {k : Factory → Attempt Factory α} (h : Succeeds strict ms (k f) f) :
    Succeeds strict ms (get >>= k) f :=
  h

theorem bind {m : Attempt Factory α} {k : α → Attempt Factory β} (hm : Succeeds strict ms m f)
    (hk : ∀ a g, m f = (.ok a, g) → Succeeds strict ms' (k a) g) :
    Succeeds strict (ms ++ ms') (m >>= k) f := by
  obtain ⟨a, g, hrun, hfg⟩ := hm
  obtain ⟨b, h, hrun', hgh⟩ := hk a g hrun
  exact ⟨b, h, (bind_of_ok hrun k).trans hrun', hfg.trans hgh⟩

theorem mapM {k : α → Attempt Factory β} {l : List α}
    (hk : ∀ a ∈ l, ∀ f, Succeeds strict [] (k a) f) (f : Factory) :
    Succeeds strict [] (l.mapM k) f := by
  induction l generalizing f with
  | nil => exact .pure [] f
  | cons a l ih =>
    rw [List.mapM_cons]
    refine (hk a List.mem_cons_self f).bind fun b g _ => ?_
    exact (ih (fun c hc => hk c (List.mem_cons_of_mem a hc)) g).bind fun bs h _ => .pure _ h

end Succeeds

/-- A filler that is made when it is asked for first, noted, and found again later. -/
theorem succeeds_shared (f : Factory) (known : Factory → Option FillerId) {filler : Filler}
    (hsources : filler.sources = []) {note : FillerId → Factory → Factory}
    (hnote : ∀ id g, Advance strict [] g (note id g)) :
    Succeeds strict []
      (do
        match known (← get) with
        | some id => return id
        | none =>
          let id ← addFiller filler
          modify (note id)
          return id) f := by
  refine .get_bind ?_
  cases known f with
  | some id => exact .pure id f
  | none =>
    have hadd : Advance strict [] f _ := .filler f filler (by simp [hsources])
    exact ⟨_, _, rfl, hadd.trans (hnote _ _)⟩

theorem succeeds_defaultFiller (f : Factory) : Succeeds strict [] defaultFiller f :=
  succeeds_shared f randomFiller rfl fun _ _ => .of_eq rfl rfl rfl rfl rfl

theorem succeeds_defaultBitFiller (f : Factory) : Succeeds strict [] defaultBitFiller f :=
  succeeds_shared f randomBitFiller rfl fun _ _ => .of_eq rfl rfl rfl rfl rfl

/-- The last steps of every declaration: its name is noted and it is added. -/
theorem succeeds_declared (f : Factory) (name : Option String) (decl : Option FieldId → Decl)
    (hname : ∀ id, (decl id).name = id) (hcap : ∀ id, (decl id).Capped f.arena) :
    Succeeds strict (name.toList.map .declared) (do addDecl (decl (← declare name))) f := by
  cases name with
  | none => exact ⟨_, _, rfl, .unnamed f (hname none) (hcap none)⟩
  | some name => exact ⟨_, _, rfl, .named f name (hname _) (hcap _)⟩

theorem succeeds_filled (f : Factory) (filler : Option FillerId) {shared : Attempt Factory FillerId}
    (hshared : Succeeds strict [] shared f) (name : Option String)
    (decl : FillerId → Option FieldId → Decl) (hname : ∀ filler id, (decl filler id).name = id)
    (hcap : ∀ filler id arena, (decl filler id).Capped arena) :
    Succeeds strict (name.toList.map .declared)
      (do
        let filler ← filler.elim shared Pure.pure
        addDecl (decl filler (← declare name))) f := by
  have helim : Succeeds strict [] (filler.elim shared Pure.pure) f := by
    cases filler with
    | none => exact hshared
    | some id => exact .pure id f
  exact helim.bind fun id g _ => succeeds_declared g name (decl id) (hname id) fun _ => hcap _ _ _

theorem succeeds_bits (f : Factory) (children : List DeclId) (name : Option String) :
    Succeeds strict (name.toList.map .declared) (bits children name) f :=
  succeeds_declared f name (.bits children) (fun _ => rfl) fun _ => trivial

theorem succeeds_groupLoose (f : Factory) (children : List DeclId) :
    Succeeds strict [] (groupLoose children) f := by
  refine .get_bind (Succeeds.mapM (fun segment _ g => ?_) f)
  cases segment with
  | single child => exact .pure child g
  | run loose => exact succeeds_bits g loose none

theorem refer_apply (f : Factory) (name : String) :
    refer name f = (.ok (f.names.register name).1,
      { f with names := (f.names.register name).2
               referenced := f.referenced.push (f.names.register name).1 }) :=
  rfl

theorem succeeds_refers (strict : Prop) (f : Factory) (names : List String) :
    ∃ ids g, names.mapM refer f = (.ok ids, g) ∧ Advance strict (names.map .read) f g ∧
      ∀ id ∈ ids, id < g.names.count := by
  induction names generalizing f with
  | nil => exact ⟨[], f, rfl, .refl f, nofun⟩
  | cons name names ih =>
    have hread : Advance strict [.read name] f _ := .read f name
    obtain ⟨ids, g, hrun, hrest, hids⟩ := ih _
    refine ⟨(f.names.register name).1 :: ids, g, ?_, hread.trans hrest, ?_⟩
    · rw [List.mapM_cons, bind_of_ok (refer_apply f name), bind_of_ok hrun]
      rfl
    · intro id hid
      rcases List.mem_cons.mp hid with rfl | hid
      · exact Nat.lt_of_lt_of_le (Names.lt_of_name? (Names.name?_register _ _)) hrest.count_le
      · exact hids id hid

/-- A filler that reads a name which is met with it. -/
theorem succeeds_reader (f : Factory) (name : String) (filler : FieldId → Filler)
    (hsources : ∀ id, ∀ source ∈ (filler id).sources, source = id) :
    Succeeds strict [.read name] (do addFiller (filler (← refer name))) f := by
  have hread : Advance strict [.read name] f _ := .read f name
  refine ⟨_, _, rfl, hread.trans (.filler _ _ fun _ source hsource => ?_)⟩
  rw [hsources _ source hsource]
  exact Names.lt_of_name? (Names.name?_register _ _)

end Factory
end ArtifactLayout
