import ArtifactLayout.Proofs.Factory.Action
import ArtifactLayout.Proofs.Factory.Growth

/-! # What the operations of a factory change

`Grows` says of an operation that it makes changes only, and what it gives when it succeeds. There is
one such lemma for each operation; what is known of a factory before an operation and can only become
truer by changes is known after it.
-/

namespace ArtifactLayout.Factory
set_option autoImplicit false

open Attempt

/-- From factories with `P` an operation makes changes, whether or not it succeeds; if it does, what
it gives has `Q`. -/
def Grows (strict : Prop) {α : Type} (P : Factory → Prop) (m : Attempt Factory α)
    (Q : α → Factory → Prop) : Prop :=
  ∀ f, Ensures (fun g => Leads strict f g ∧ P g) m (fun a g => Leads strict f g ∧ Q a g)
    (Leads strict f)

/-- Something that stays true whatever is added. -/
def Stable (R : Factory → Prop) : Prop := ∀ f g, Within f g → R f → R g

theorem stable_true : Stable fun _ => True := fun _ _ _ _ => trivial

theorem stable_isByte (id : DeclId) : Stable fun f => f.arena.IsByte id := fun _ _ w h => w.isByte h

theorem stable_within (f : Factory) : Stable (Within f) := fun _ _ w h => h.trans w

variable {strict : Prop} {α β : Type}

namespace Grows
variable {P R : Factory → Prop} {Q : α → Factory → Prop} {S : β → Factory → Prop}

theorem pure {a : α} (h : ∀ g, P g → Q a g) : Grows strict P (pure a) Q :=
  fun _ => .pure fun g hg => ⟨hg.1, h g hg.2⟩

theorem throw {fault : Fault} : Grows strict P (throw fault : Attempt Factory α) Q :=
  fun _ => .throw fun _ hg => hg.1

theorem get : Grows strict P (get : Attempt Factory Factory) fun a g => a = g ∧ P g :=
  fun _ => Ensures.get.mono (fun _ hg => hg) fun _ _ h => ⟨h.2.1, h.1, h.2.2⟩

theorem bind {m : Attempt Factory α} {k : α → Attempt Factory β} (hm : Grows strict P m Q)
    (hk : ∀ a, Grows strict (Q a) (k a) S) : Grows strict P (m >>= k) S :=
  fun f => Ensures.bind (hm f) fun a => hk a f

theorem mono {P' : Factory → Prop} {Q' : α → Factory → Prop} {m : Attempt Factory α}
    (h : Grows strict P m Q) (hP : ∀ g, P' g → P g) (hQ : ∀ a g, Q a g → Q' a g) :
    Grows strict P' m Q' :=
  fun f => (h f).mono (fun g hg => ⟨hg.1, hP g hg.2⟩) fun a g hg => ⟨hg.1, hQ a g hg.2⟩

theorem modify {change : Factory → Factory}
    (h : ∀ g, P g → Change strict g (change g) ∧ R (change g)) :
    Grows strict P (modify change : Attempt Factory PUnit) fun _ => R :=
  fun _ => .modify fun g hg => ⟨hg.1.tail (h g hg.2).1, (h g hg.2).2⟩

/-- What stays true under changes is still true after an operation. -/
theorem frame {m : Attempt Factory α} (h : Grows strict P m Q) (hR : Stable R) :
    Grows strict (fun g => P g ∧ R g) m fun a g => Q a g ∧ R g := by
  rintro f g ⟨hfg, hP, hRg⟩
  obtain ⟨hok, herror⟩ := h g g ⟨.refl, hP⟩
  constructor
  · intro a t hrun
    obtain ⟨hgt, hQ⟩ := hok a t hrun
    exact ⟨hfg.trans hgt, hQ, hR g t hgt.within hRg⟩
  · intro fault t hrun
    exact hfg.trans (herror fault t hrun)

theorem mapM {l : List α} {f : α → Attempt Factory β} (hP : Stable P) (hS : ∀ b, Stable (S b))
    (h : ∀ a ∈ l, Grows strict P (f a) S) :
    Grows strict P (l.mapM f) fun bs g => bs.length = l.length ∧ ∀ b ∈ bs, S b g := by
  induction l with
  | nil => exact pure fun g _ => ⟨rfl, fun b hb => absurd hb List.not_mem_nil⟩
  | cons a l ih =>
    rw [List.mapM_cons]
    have hhead : Grows strict P (f a) fun b g => S b g ∧ P g :=
      ((h a List.mem_cons_self).frame hP).mono (fun g hg => ⟨hg, hg⟩) fun _ _ hg => hg
    refine bind hhead fun b => ?_
    have htail := ih fun c hc => h c (List.mem_cons_of_mem a hc)
    refine bind ((htail.frame (hS b)).mono (fun g hg => ⟨hg.2, hg.1⟩) fun _ _ hg => hg) fun bs => ?_
    refine pure ?_
    rintro g ⟨⟨hlength, hbs⟩, hb⟩
    refine ⟨congrArg Nat.succ hlength, fun c hc => ?_⟩
    rcases List.mem_cons.mp hc with rfl | hc
    · exact hb
    · exact hbs c hc

end Grows

/-! ## Names and fillers -/

theorem grows_modify_tables {P : Factory → Prop} {change : Factory → Factory}
    (harena : ∀ f, (change f).arena = f.arena) (htemplates : ∀ f, (change f).templates = f.templates) :
    Grows strict P (modify change : Attempt Factory PUnit) fun _ _ => True :=
  .modify fun f _ => ⟨.tables (harena f) (htemplates f), trivial⟩

theorem grows_declare (name : Option String) :
    Grows strict (fun _ => True) (declare name) fun _ _ => True := by
  cases name with
  | none => exact .pure fun _ h => h
  | some name =>
    refine Grows.bind .get fun f => ?_
    exact Grows.bind (grows_modify_tables (fun _ => rfl) fun _ => rfl) fun _ => .pure fun _ h => h

theorem grows_refer (name : String) :
    Grows strict (fun _ => True) (refer name) fun _ _ => True := by
  refine Grows.bind .get fun f => ?_
  exact Grows.bind (grows_modify_tables (fun _ => rfl) fun _ => rfl) fun _ => .pure fun _ h => h

theorem grows_addFiller (filler : Filler) :
    Grows strict (fun _ => True) (addFiller filler) fun _ _ => True := by
  refine Grows.bind .get fun f => ?_
  refine Grows.bind (.modify (R := fun _ => True) fun g _ => ⟨.filler filler, trivial⟩) fun _ => ?_
  exact .pure fun _ h => h

theorem grows_defaultFiller : Grows strict (fun _ => True) defaultFiller fun _ _ => True := by
  refine Grows.bind .get fun f => ?_
  cases f.randomFiller with
  | some id => exact .pure fun _ _ => trivial
  | none =>
    refine Grows.bind ((grows_addFiller .random).mono (fun _ _ => trivial) fun _ _ h => h) fun id => ?_
    exact Grows.bind (grows_modify_tables (fun _ => rfl) fun _ => rfl) fun _ => .pure fun _ h => h

theorem grows_defaultBitFiller : Grows strict (fun _ => True) defaultBitFiller fun _ _ => True := by
  refine Grows.bind .get fun f => ?_
  cases f.randomBitFiller with
  | some id => exact .pure fun _ _ => trivial
  | none =>
    refine Grows.bind ((grows_addFiller .randomUnits).mono (fun _ _ => trivial) fun _ _ h => h)
      fun id => ?_
    exact Grows.bind (grows_modify_tables (fun _ => rfl) fun _ => rfl) fun _ => .pure fun _ h => h

theorem grows_numberIn (name : String) :
    Grows strict (fun _ => True) (numberIn name) fun _ _ => True :=
  Grows.bind (grows_refer name) fun _ => grows_addFiller _

theorem grows_call (function : String) (arguments : List String) :
    Grows strict (fun _ => True) (call function arguments) fun _ _ => True := by
  refine Grows.bind .get fun f => Grows.bind .get fun g => ?_
  refine Grows.mono (P := fun _ => True) ?_ (fun _ _ => trivial) fun _ _ h => h
  cases f.registry.filler? function with
  | some filler =>
    refine Grows.bind (.mapM (S := fun _ _ => True) stable_true (fun _ => stable_true)
      fun name _ => grows_refer name) fun _ => ?_
    exact (grows_addFiller _).mono (fun _ _ => trivial) fun _ _ h => h
  | none =>
    cases g.registry.value? function with
    | none => exact .throw
    | some value =>
      dsimp only
      split
      · exact Grows.bind (grows_refer _) fun _ => grows_addFiller _
      · exact .throw

/-! ## Declarations -/

/-- An operation that adds declarations and gives the number of the last. -/
abbrev Declares (strict : Prop) (P : Factory → Prop) (m : Attempt Factory DeclId) : Prop :=
  Grows strict P m fun id f => id < f.arena.decls.size

theorem grows_checkUnits (units : Nat) :
    Grows strict (fun _ => True) (checkUnits units) fun _ _ => True := by
  rw [checkUnits]
  split
  · exact .throw
  · exact .pure fun _ h => h

theorem grows_addDecl (decl : Decl) :
    Grows strict (fun f => f.Fits strict decl) (addDecl decl) fun id f =>
      f.arena.decls[id]? = some decl := by
  refine Grows.bind .get fun f => ?_
  refine Grows.bind (.modify (R := fun g => g.arena.decls[f.arena.decls.size]? = some decl) ?_)
    fun _ => .pure fun _ h => h
  rintro g ⟨rfl, hfits⟩
  exact ⟨.decl hfits, Array.getElem?_push_size⟩

/-- The last steps of every declaration: its name is noted and it is added. -/
theorem grows_declared (name : Option String) (decl : Option FieldId → Decl) :
    Grows strict (fun f => ∀ id, f.Fits strict (decl id)) (do addDecl (decl (← declare name)))
      fun number f => ∃ id, f.arena.decls[number]? = some (decl id) := by
  have hframe : Stable fun f => ∀ id, f.Fits strict (decl id) :=
    fun f g w h id => w.fits (h id)
  refine Grows.bind (((grows_declare name).frame hframe).mono (fun f h => ⟨trivial, h⟩)
    fun _ _ h => h) fun id => ?_
  exact (grows_addDecl (decl id)).mono (fun f h => h.2 id) fun number f h => ⟨id, h⟩

theorem lt_of_declared {f : Factory} {number : DeclId} {decl : Option FieldId → Decl}
    (h : ∃ id, f.arena.decls[number]? = some (decl id)) : number < f.arena.decls.size := by
  obtain ⟨id, hid⟩ := h
  exact (Array.getElem?_eq_some_iff.mp hid).1

/-- The last steps of a declaration with a filler. -/
theorem grows_filled (filler : Option FillerId) {shared : Attempt Factory FillerId}
    (hshared : Grows strict (fun _ => True) shared fun _ _ => True) (name : Option String)
    (decl : FillerId → Option FieldId → Decl)
    (hdecl : ∀ (f : Factory) id name, f.Fits strict (decl id name)) :
    Declares strict (fun _ => True)
      (do
        let filler ← filler.elim shared pure
        addDecl (decl filler (← declare name))) := by
  have helim : Grows strict (fun _ => True) (filler.elim shared Pure.pure) fun _ _ => True := by
    cases filler with
    | none => exact hshared
    | some id => exact .pure fun _ h => h
  refine Grows.bind helim fun id => ?_
  exact (grows_declared name (decl id)).mono (fun f _ => hdecl f id) fun _ _ => lt_of_declared

theorem grows_block (filler : Option FillerId) (size : Nat) (name : Option String) :
    Declares strict (fun _ => True) (block filler size name) :=
  Grows.bind (grows_checkUnits size) fun _ =>
    grows_filled filler grows_defaultFiller name (fun id name => .block id size name)
      fun _ _ _ => trivial

theorem grows_bitfield (filler : Option FillerId) (width : Nat) (name : Option String) :
    Declares strict (fun _ => True) (bitfield filler width name) :=
  Grows.bind (grows_checkUnits width) fun _ =>
    grows_filled filler grows_defaultBitFiller name (fun id name => .bitfield id width name)
      fun _ _ _ => trivial

theorem grows_ranged (filler : Option FillerId) (low high : Nat) (name : Option String) :
    Declares strict (fun _ => True) (ranged filler low high name) := by
  rw [ranged]
  split
  · exact .throw
  · rename_i hle
    exact Grows.bind (grows_checkUnits high) fun _ =>
      grows_filled filler grows_defaultFiller name (fun id name => .ranged id low high name)
        fun _ _ _ => Nat.le_of_not_lt hle

theorem grows_auto (filler : FillerId) (name : Option String) :
    Declares strict (fun _ => True) (auto filler name) := by
  refine Grows.bind .get fun f => ?_
  cases f.arena.fillers[filler]? with
  | none => exact .throw
  | some content =>
    dsimp only
    cases content.length? with
    | none => exact .throw
    | some size =>
      exact (grows_declared name fun name => .auto filler size name).mono
        (fun _ _ _ => trivial) fun _ _ => lt_of_declared

/-! ## Groups -/

theorem isByte_of_declared {f : Factory} {number : DeclId} {decl : Option FieldId → Decl}
    (hdecl : ∀ id, (decl id).isBitfield = false)
    (h : ∃ id, f.arena.decls[number]? = some (decl id)) : f.arena.IsByte number := by
  obtain ⟨id, hid⟩ := h
  exact ⟨decl id, hid, hdecl id⟩

theorem grows_bits (children : List DeclId) (name : Option String) :
    Grows strict (fun f => strict → ∀ c ∈ children, c < f.arena.decls.size) (bits children name)
      fun id f => f.arena.IsByte id :=
  (grows_declared name fun name => .bits children name).mono (fun _ h _ => h)
    fun _ _ => isByte_of_declared fun _ => rfl

/-- What is there and is not a bitfield for an earlier factory is so for a later one. -/
theorem isByte_of_isBitfield {f g : Factory} (w : Within f g) {id : DeclId}
    (hid : id < f.arena.decls.size) (h : f.arena.isBitfield id = false) : g.arena.IsByte id := by
  have hdecl := Array.getElem?_eq_getElem hid
  rw [Arena.isBitfield, hdecl] at h
  exact w.isByte ⟨_, hdecl, h⟩

theorem grows_groupLoose (children : List DeclId) :
    Grows strict (fun f => ∀ c ∈ children, c < f.arena.decls.size) (groupLoose children)
      fun grouped f => ∀ c ∈ grouped, f.arena.IsByte c := by
  refine Grows.bind .get fun f => ?_
  by_cases hchildren : ∀ c ∈ children, c < f.arena.decls.size
  · refine (Grows.mapM (stable_within f) stable_isByte fun segment hsegment => ?_).mono ?_
      fun _ _ h => h.2
    · cases segment with
      | single child =>
        obtain ⟨hmem, hbyte⟩ := Segment.single_mem_ofList hsegment
        exact .pure fun g w => isByte_of_isBitfield w (hchildren child hmem) hbyte
      | run loose =>
        refine (grows_bits loose none).mono (fun g w _ c hc => ?_) fun _ _ h => h
        exact Nat.lt_of_lt_of_le (hchildren c (Segment.mem_of_run_mem_ofList hsegment c hc))
          w.decls_le
    · rintro g ⟨rfl, -⟩
      exact .refl f
  · refine Grows.mono (P := fun _ => False) (fun _ _ h => h.2.elim) ?_ fun _ _ h => h
    rintro g ⟨rfl, h⟩
    exact hchildren h

theorem grows_compound (children : List DeclId) (name : Option String) :
    Declares strict (fun f => ∀ c ∈ children, c < f.arena.decls.size) (compound children name) :=
  Grows.bind (grows_groupLoose children) fun children =>
    (grows_declared name fun name => .compound children name).mono (fun _ h _ => h)
      fun _ _ => lt_of_declared

theorem grows_choice (children : List DeclId) (name : Option String) :
    Declares strict (fun f => ∀ c ∈ children, c < f.arena.decls.size) (choice children name) := by
  rw [choice]
  split
  · exact .throw
  · rename_i hne
    refine Grows.bind .get fun f => ?_
    by_cases hchildren : ∀ c ∈ children, c < f.arena.decls.size
    · refine Grows.bind ((Grows.mapM (stable_within f) stable_isByte fun child hchild => ?_).mono ?_
        fun _ _ h => h) fun bytes => ?_
      · split
        · refine (grows_bits [child] none).mono (fun g w _ c hc => ?_) fun _ _ h => h
          obtain rfl := List.mem_singleton.mp hc
          exact Nat.lt_of_lt_of_le (hchildren c hchild) w.decls_le
        · rename_i hbyte
          exact .pure fun g w => isByte_of_isBitfield w (hchildren child hchild) (by simpa using hbyte)
      · rintro g ⟨rfl, -⟩
        exact .refl f
      · refine (grows_declared name fun name => .choice bytes name).mono ?_
          fun _ _ => lt_of_declared
        rintro g ⟨hlength, hbytes⟩ -
        refine ⟨?_, hbytes⟩
        rintro rfl
        exact hne (List.eq_nil_of_length_eq_zero hlength.symm)
    · refine Grows.mono (P := fun _ => False) (fun _ _ h => h.2.elim) ?_ fun _ _ h => h
      rintro g ⟨rfl, h⟩
      exact hchildren h

theorem grows_defineTemplate (name : String) (children : List DeclId) :
    Grows strict (fun f => ∀ c ∈ children, c < f.arena.decls.size) (defineTemplate name children)
      fun _ _ => True := by
  refine Grows.bind .get fun f => ?_
  split
  · exact .throw
  · refine Grows.bind ((grows_groupLoose children).mono (fun _ h => h.2) fun _ _ h => h)
      fun children => ?_
    refine Grows.bind .get fun g => ?_
    refine Grows.bind (.modify (R := fun _ => True) ?_) fun _ => .pure fun _ h => h
    rintro h ⟨rfl, hbytes⟩
    exact ⟨.template hbytes, trivial⟩

theorem grows_copies (name : String) (low high : Nat) :
    Declares strict (fun _ => True) (copies name low high) := by
  refine Grows.bind .get fun f => ?_
  cases hlookup : f.templates.lookup name with
  | none => exact .throw
  | some template =>
    dsimp only
    split
    · exact .throw
    · rename_i hle
      obtain ⟨before, after, hsplit, -⟩ := List.lookup_eq_some_iff.mp hlookup
      have hentry : (name, template) ∈ f.templates :=
        hsplit ▸ List.mem_append_right before List.mem_cons_self
      refine Grows.bind ((grows_checkUnits high).frame (stable_within f) |>.mono ?_ fun _ _ h => h)
        fun _ => ?_
      · rintro g ⟨rfl, -⟩
        exact ⟨trivial, .refl f⟩
      · refine (grows_addDecl (.copies template low high)).mono ?_ ?_
        · exact fun g h => ⟨Nat.le_of_not_lt hle, name, h.2.entry _ hentry⟩
        · exact fun _ _ h => (Array.getElem?_eq_some_iff.mp h).1

/-! ## Actions and programs -/

/-- The declarations whose kind a call looks at. -/
def Call.inspected : Call → List DeclId
  | compound children _ | choice children _ | defineTemplate _ children => children
  | _ => []

/-- What is made is there. -/
def Made.There (f : Factory) : Made → Prop
  | filler _ => True
  | decl id => id < f.arena.decls.size
  | template _ => True

/-- The declarations that a call looks at are there, and so are all it refers to if `strict` holds. -/
structure Call.Fair (strict : Prop) (c : Call) (f : Factory) : Prop where
  inspected_lt : ∀ id ∈ c.inspected, id < f.arena.decls.size
  decl_lt : strict → ∀ id ∈ c.decls, id < f.arena.decls.size

theorem Grows.made {P : Factory → Prop} {m : Attempt Factory α} {Q : α → Factory → Prop}
    (h : Grows strict P m Q) (c : Call) (hP : ∀ f, c.Fair strict f → P f) (wrap : α → Made)
    (hQ : ∀ a f, Q a f → (wrap a).There f) :
    Grows strict (c.Fair strict) (do return wrap (← m)) fun made f => made.There f := by
  refine Grows.bind (h.mono hP fun _ _ h => h) fun a => ?_
  exact .pure fun f hf => hQ a f hf

theorem grows_perform (c : Call) :
    Grows strict (c.Fair strict) c.perform fun made f => made.There f := by
  cases c with
  | defaultFiller => exact grows_defaultFiller.made _ (fun _ _ => trivial) .filler fun _ _ h => h
  | defaultBitFiller =>
    exact grows_defaultBitFiller.made _ (fun _ _ => trivial) .filler fun _ _ h => h
  | constant content =>
    exact (grows_addFiller _).made _ (fun _ _ => trivial) .filler fun _ _ h => h
  | number value => exact (grows_addFiller _).made _ (fun _ _ => trivial) .filler fun _ _ h => h
  | numberIn name => exact (grows_numberIn name).made _ (fun _ _ => trivial) .filler fun _ _ h => h
  | call function arguments =>
    exact (grows_call function arguments).made _ (fun _ _ => trivial) .filler fun _ _ h => h
  | block filler size name =>
    exact (grows_block filler size name).made _ (fun _ _ => trivial) .decl fun _ _ h => h
  | auto filler name => exact (grows_auto filler name).made _ (fun _ _ => trivial) .decl fun _ _ h => h
  | bitfield filler width name =>
    exact (grows_bitfield filler width name).made _ (fun _ _ => trivial) .decl fun _ _ h => h
  | ranged filler low high name =>
    exact (grows_ranged filler low high name).made _ (fun _ _ => trivial) .decl fun _ _ h => h
  | compound children name =>
    exact (grows_compound children name).made (.compound children name)
      (fun _ h => h.inspected_lt) .decl fun _ _ h => h
  | choice children name =>
    exact (grows_choice children name).made (.choice children name)
      (fun _ h => h.inspected_lt) .decl fun _ _ h => h
  | bits children name =>
    exact (grows_bits children name).made (.bits children name)
      (fun _ h => h.decl_lt) .decl fun _ _ h => h.lt
  | defineTemplate name children =>
    exact (grows_defineTemplate name children).made (.defineTemplate name children)
      (fun _ h => h.inspected_lt) .template fun _ _ h => h
  | copies name low high =>
    exact (grows_copies name low high).made _ (fun _ _ => trivial) .decl fun _ _ h => h

/-- A call leads a factory on, whether or not it fails. -/
theorem leads_perform {c : Call} {f : Factory} (h : c.Fair strict f) :
    Leads strict f (c.perform f).2 := by
  obtain ⟨hok, herror⟩ := grows_perform c f f ⟨.refl, h⟩
  rcases hrun : c.perform f with ⟨fault | made, g⟩
  · exact herror fault g hrun
  · exact (hok made g hrun).1

namespace Action

/-- The declarations whose kind an action looks at. -/
def inspected : Action → List DeclId
  | call c => c.inspected
  | quantity _ => []

/-- What an action needs to find, as its call does if it is one. -/
def Fair (strict : Prop) (f : Factory) : Action → Prop
  | call c => c.Fair strict f
  | quantity _ => True

theorem Fair.of_inspected {a : Action} {f : Factory} (h : ∀ id ∈ a.inspected, id < f.arena.decls.size) :
    a.Fair False f := by
  cases a with
  | call c => exact ⟨h, False.elim⟩
  | quantity q => trivial

/-- An action leads a factory on, whether or not it fails. -/
theorem Fair.leads {a : Action} {f : Factory} (h : a.Fair strict f) : Leads strict f (a.perform f).2 := by
  cases a with
  | call c => exact leads_perform h
  | quantity q => exact .single (.filler (.quantity q))

end Action

theorem grows_close (fields : List DeclId) :
    Grows strict (fun f => ∀ c ∈ fields, c < f.arena.decls.size) (close fields)
      fun made f => made.arena = f.arena ∧ ∀ c ∈ made.fields, f.arena.IsByte c := by
  rw [close]
  split
  · exact .throw
  · refine Grows.bind .get fun f => ?_
    split
    · exact .throw
    · refine Grows.bind ((grows_groupLoose fields).mono (fun _ h => h.2) fun _ _ h => h)
        fun fields => ?_
      refine Grows.bind .get fun g => .pure ?_
      rintro h ⟨rfl, hbytes⟩
      exact ⟨rfl, hbytes⟩

end ArtifactLayout.Factory
