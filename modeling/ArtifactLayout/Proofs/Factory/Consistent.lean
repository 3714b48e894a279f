import ArtifactLayout.Proofs.Factory.Atomic
import ArtifactLayout.Proofs.Factory.WellFormed

/-! # Consistent factories

After any legal actions, failed ones included, everything that a factory holds refers to what is older.
Its names are numbered in the order of their mentions, and whether it can be closed over some fields is
decided by the mentions alone: every name that is read has to be declared, before or after.
-/

namespace ArtifactLayout
set_option autoImplicit false

namespace Decl

/-- The declarations that a container holds. -/
def children : Decl → List DeclId
  | compound children _ | choice children _ | bits children _ => children
  | block _ _ _ | auto _ _ _ | bitfield _ _ _ | ranged _ _ _ _ | copies _ _ _ => []

/-- The bounds of what is drawn for a declaration. -/
def bounds? : Decl → Option (Nat × Nat)
  | ranged _ low high _ | copies _ low high => some (low, high)
  | block _ _ _ | auto _ _ _ | bitfield _ _ _ | compound _ _ | choice _ _ | bits _ _ => none

end Decl

/-- Declarations hold older ones and copy templates of older ones, so that no declaration leads back to
itself; what they name and what fill them is known, their bounds are in order, and every choice offers
something. -/
structure Arena.Consistent (names : Names) (arena : Arena) : Prop where
  child_lt : ∀ (id : DeclId) (decl : Decl), arena.decls[id]? = some decl →
    ∀ child ∈ decl.children, child < id
  template : ∀ (id : DeclId) (number : TemplateId) (low high : Nat),
    arena.decls[id]? = some (.copies number low high) →
      ∃ template, arena.templates[number]? = some template ∧ ∀ child ∈ template.children, child < id
  acyclic : ∀ id, ¬ Relation.TransGen arena.Refers id id
  filler_lt : ∀ decl ∈ arena.decls, ∀ id, decl.filler? = some id → id < arena.fillers.size
  bounds_le : ∀ decl ∈ arena.decls, ∀ low high, decl.bounds? = some (low, high) → low ≤ high
  choice_ne_nil : ∀ children name, Decl.choice children name ∈ arena.decls → children ≠ []
  name_lt : ∀ decl ∈ arena.decls, ∀ id, decl.name = some id → id < names.count
  source_lt : ∀ filler ∈ arena.fillers, ∀ id ∈ filler.sources, id < names.count

namespace Factory
open Attempt

/-- The arena is consistent, and so are the tables that point into it. -/
structure Consistent (f : Factory) : Prop where
  arena : f.arena.Consistent f.names
  shared_lt : ∀ id, f.randomFiller = some id ∨ f.randomBitFiller = some id →
    id < f.arena.fillers.size
  template_lt : ∀ entry ∈ f.templates, entry.2 < f.arena.templates.size

variable {registry : Registry} {ms : List Mention} {f g : Factory} {fields : List DeclId}

/-- The first name that is read and never declared. -/
def undeclared? (ms : List Mention) : Option String := (reads ms).find? fun name => name ∉ declares ms

/-- What closing a factory does once there are fields. -/
theorem finish_eq (f : Factory) (hne : fields ≠ []) :
    f.finish fields = match f.referenced.toList.find? fun id => id ∉ f.declared with
      | some id => .error (.undeclaredField (f.names.label id))
      | none => outcome (do
          let fields ← groupLoose fields
          let f ← get
          return ⟨f.arena, fields, f.names, .big⟩) f := by
  rw [finish, outcome, close, if_neg hne]
  dsimp only
  rw [bind_of_ok (get_apply f)]
  cases f.referenced.toList.find? fun id => id ∉ f.declared <;> rfl

/-! ## What is known of a factory -/

/-- What is known of a factory after legal actions that mentioned some names. -/
structure Tended (registry : Registry) (ms : List Mention) (f : Factory) : Prop where
  advance : Advance True ms (ofRegistry registry) f
  sound : Sound True f
  stocked : Stocked 0 f

namespace Tended

/-! ### Names -/

theorem list_names (h : Tended registry ms f) : f.names.list = (ms.map Mention.name).eraseDups :=
  h.advance.names ▸ Names.list_registerAll _

theorem nodup_names (h : Tended registry ms f) : f.names.list.Nodup :=
  h.advance.names ▸ Names.nodup_registerAll List.nodup_nil _

/-- Every name in the table has been read or declared. -/
theorem read_or_declared (h : Tended registry ms f) {id : FieldId} {name : String}
    (hname : f.names.name? id = some name) : name ∈ reads ms ∨ name ∈ declares ms := by
  have hmem := Names.mem_of_name? hname
  rw [h.list_names, List.mem_eraseDups, List.mem_map] at hmem
  obtain ⟨mention, hmention, rfl⟩ := hmem
  cases mention with
  | read name => exact .inl (List.mem_filterMap.mpr ⟨_, hmention, rfl⟩)
  | declared name => exact .inr (List.mem_filterMap.mpr ⟨_, hmention, rfl⟩)

theorem exists_decl (h : Tended registry ms f) {id : FieldId} {name : String}
    (hname : f.names.name? id = some name) (hdeclared : name ∈ declares ms) :
    ∃ decl ∈ f.arena.decls, decl.name = some id := by
  obtain ⟨added, hadded, -, -, hspells⟩ := h.advance.decls
  have hid := (hspells.mem_iff h.nodup_names hname).mpr hdeclared
  obtain ⟨decl, hdecl, hnamed⟩ := List.mem_filterMap.mp hid
  refine ⟨decl, Array.mem_toList_iff.mp ?_, hnamed⟩
  rw [hadded]
  exact List.mem_append_right _ hdecl

theorem name_lt (h : Tended registry ms f) {decl : Decl} (hdecl : decl ∈ f.arena.decls) {id : FieldId}
    (hid : decl.name = some id) : id < f.names.count := by
  obtain ⟨added, hadded, -, -, hspells⟩ := h.advance.decls
  rw [← Array.mem_toList_iff, hadded] at hdecl
  obtain ⟨name, -, hname⟩ := hspells.exists_name (List.mem_filterMap.mpr ⟨decl, hdecl, hid⟩)
  exact Names.lt_of_name? hname

theorem source_lt (h : Tended registry ms f) {filler : Filler} (hfiller : filler ∈ f.arena.fillers) :
    ∀ id ∈ filler.sources, id < f.names.count := by
  obtain ⟨added, hadded, hsources⟩ := h.advance.fillers
  rw [← Array.mem_toList_iff, hadded] at hfiller
  exact hsources trivial filler hfiller

/-! ### Declarations -/

theorem below_lt (h : Tended registry ms f) {id : DeclId} {decl : Decl}
    (hdecl : f.arena.decls[id]? = some decl) : ∀ child ∈ f.arena.below decl, child < id :=
  h.sound.below_lt trivial id decl hdecl

theorem arena_consistent (h : Tended registry ms f) : f.arena.Consistent f.names := by
  have hwell := h.sound.wellFormed
  constructor
  · intro id decl hdecl child hchild
    refine h.below_lt hdecl child ?_
    cases decl with
    | compound | choice | bits => exact hchild
    | _ => cases hchild
  · intro id number low high hdecl
    have hlt := hwell.template_lt number low high (Array.mem_of_getElem? hdecl)
    have htemplate := Array.getElem?_eq_getElem hlt
    refine ⟨_, htemplate, fun child hchild => h.below_lt hdecl child ?_⟩
    rw [Arena.below, htemplate]
    exact hchild
  · exact hwell.acyclic
  · exact h.stocked.filler_lt
  · intro decl hdecl low high hbounds
    cases decl with
    | ranged filler least most name =>
      cases hbounds
      exact hwell.range_le _ _ _ _ hdecl
    | copies number least most =>
      cases hbounds
      exact hwell.copies_le _ _ _ hdecl
    | _ => cases hbounds
  · exact hwell.choice_ne_nil
  · exact fun decl hdecl id hid => h.name_lt hdecl hid
  · exact fun filler hfiller => h.source_lt hfiller

theorem consistent (h : Tended registry ms f) : f.Consistent where
  arena := h.arena_consistent
  shared_lt := fun id hid => hid.elim (h.stocked.random_lt id) (h.stocked.randomBit_lt id)
  template_lt := h.sound.entry_lt

/-! ### Closing -/

/-- The reads that a factory has noted decide as the mentions do. -/
theorem undeclared_eq (h : Tended registry ms f) :
    (f.referenced.toList.find? fun id => id ∉ f.declared).bind f.names.name? = undeclared? ms := by
  obtain ⟨ids, hids, hspells⟩ := h.advance.referenced
  obtain ⟨added, -, -, hdeclared, hnamed⟩ := h.advance.decls
  have hids : f.referenced.toList = ids := hids
  have hmem : ∀ id, id ∉ f.declared ↔ id ∉ added.filterMap Decl.name := by
    intro id
    have hnil : id ∉ (ofRegistry registry).declared := List.not_mem_nil
    rw [hdeclared, List.mem_append, List.mem_reverse, or_iff_left hnil]
  simp only [hids, hmem]
  exact hspells.find?_notMem hnamed h.nodup_names

theorem exists_name_of_referenced (h : Tended registry ms f) {id : FieldId}
    (hid : id ∈ f.referenced.toList) : ∃ name, f.names.name? id = some name := by
  obtain ⟨ids, hids, hspells⟩ := h.advance.referenced
  have hids : f.referenced.toList = ids := hids
  obtain ⟨name, -, hname⟩ := hspells.exists_name (hids ▸ hid)
  exact ⟨name, hname⟩

theorem finish_of_undeclared (h : Tended registry ms f) (hne : fields ≠ []) {name : String}
    (hname : undeclared? ms = some name) : f.finish fields = .error (.undeclaredField name) := by
  rw [← h.undeclared_eq] at hname
  obtain ⟨id, hid, hname⟩ := Option.bind_eq_some_iff.mp hname
  rw [finish_eq f hne, hid]
  dsimp only
  rw [Names.label, hname]
  rfl

/-- Grouping the fields at the top is the last that is done. -/
theorem finish_of_declared (h : Tended registry ms f) (hne : fields ≠ [])
    (hfields : ∀ id ∈ fields, id < f.arena.decls.size) (hall : undeclared? ms = none) :
    ∃ grouped g, f.finish fields = .ok ⟨g.arena, grouped, g.names, .big⟩ ∧ Tended registry ms g ∧
      Advance True [] f g := by
  have hfind : (f.referenced.toList.find? fun id => id ∉ f.declared) = none := by
    rw [← h.undeclared_eq, Option.bind_eq_none_iff] at hall
    by_contra hsome
    obtain ⟨id, hid⟩ := Option.ne_none_iff_exists'.mp hsome
    obtain ⟨name, hname⟩ := h.exists_name_of_referenced (List.mem_of_find?_eq_some hid)
    rw [hall id hid] at hname
    cases hname
  obtain ⟨grouped, g, hrun, hadvance⟩ : Succeeds True [] (groupLoose fields) f :=
    succeeds_groupLoose f fields
  have hgrows : Grows True _ (groupLoose fields) _ := grows_groupLoose fields
  have hleads := (hgrows f f ⟨.refl, hfields⟩).1 grouped g hrun
  have hstocked := (keeps_groupLoose 0 fields f h.stocked).1 grouped g hrun
  have htotal : Advance True (ms ++ []) (ofRegistry registry) g := h.advance.trans hadvance
  rw [List.append_nil] at htotal
  refine ⟨grouped, g, ?_, ⟨htotal, h.sound.leads hleads.1, hstocked⟩, hadvance⟩
  rw [finish_eq f hne, hfind]
  dsimp only
  rw [outcome, bind_of_ok hrun]
  rfl

theorem exists_decl_of_source (h : Tended registry ms f) (hall : undeclared? ms = none)
    {filler : Filler} (hfiller : filler ∈ f.arena.fillers) {id : FieldId} (hid : id ∈ filler.sources) :
    ∃ decl ∈ f.arena.decls, decl.name = some id := by
  obtain ⟨name, hname⟩ := Names.exists_name? (h.source_lt hfiller id hid)
  refine h.exists_decl hname ?_
  rcases h.read_or_declared hname with hread | hdeclared
  · simpa using List.find?_eq_none.mp hall name hread
  · exact hdeclared

theorem finish_ok_iff (h : Tended registry ms f) (hfields : ∀ id ∈ fields, id < f.arena.decls.size) :
    (∃ program, f.finish fields = .ok program) ↔
      fields ≠ [] ∧ ∀ name ∈ reads ms, name ∈ declares ms := by
  have hall : undeclared? ms = none ↔ ∀ name ∈ reads ms, name ∈ declares ms := by
    simp only [undeclared?, List.find?_eq_none, decide_not, Bool.not_eq_true', decide_eq_false_iff_not,
      Decidable.not_not]
  rw [← hall]
  constructor
  · rintro ⟨program, hprogram⟩
    have hne : fields ≠ [] := by
      rintro rfl
      cases hprogram
    refine ⟨hne, Option.eq_none_iff_forall_ne_some.mpr fun name hname => ?_⟩
    rw [h.finish_of_undeclared hne hname] at hprogram
    cases hprogram
  · rintro ⟨hne, hnone⟩
    obtain ⟨grouped, g, hfinish, -⟩ := h.finish_of_declared hne hfields hnone
    exact ⟨_, hfinish⟩

theorem of_finish_ok (h : Tended registry ms f) (hfields : ∀ id ∈ fields, id < f.arena.decls.size)
    {program : Program} (hprogram : f.finish fields = .ok program) :
    program.arena.Consistent program.names ∧ program.names = f.names ∧
      ∀ filler ∈ program.arena.fillers, ∀ id ∈ filler.sources,
        ∃ decl ∈ program.arena.decls, decl.name = some id := by
  have hne : fields ≠ [] := by
    rintro rfl
    cases hprogram
  cases hall : undeclared? ms with
  | some name =>
    rw [h.finish_of_undeclared hne hall] at hprogram
    cases hprogram
  | none =>
    obtain ⟨grouped, g, hfinish, htended, hadvance⟩ := h.finish_of_declared hne hfields hall
    obtain rfl := Except.ok.inj (hfinish.symm.trans hprogram)
    exact ⟨htended.arena_consistent, hadvance.names,
      fun filler hfiller id hid => htended.exists_decl_of_source hall hfiller hid⟩

end Tended

namespace Action

/-! ## Runs -/

theorem reached_performAll {actions : List Action} (hf : Reached registry f) (h : Legally actions f) :
    Reached registry (performAll actions f) := by
  induction actions generalizing f with
  | nil => exact hf
  | cons a rest ih => exact ih (hf.perform a h.1.grounded) h.2

theorem tended_performAll {actions : List Action} (h : Legally actions (ofRegistry registry)) :
    Tended registry (told (history actions (ofRegistry registry)))
      (performAll actions (ofRegistry registry)) where
  advance := advance_performAll actions _ fun _ => h
  sound := sound_of_reached (reached_performAll .start h)
  stocked := stocked_of_reached (reached_performAll .start h)

theorem id?_performAll {registry : Registry} {actions : List Action} (more : List Action)
    {name : String} {id : FieldId}
    (hid : (performAll actions (ofRegistry registry)).names.id? name = some id) :
    (performAll (actions ++ more) (ofRegistry registry)).names.id? name = some id := by
  have hadvance : Advance False _ (ofRegistry registry) _ :=
    advance_performAll (actions ++ more) _ False.elim
  have hnodup : (performAll (actions ++ more) (ofRegistry registry)).names.list.Nodup :=
    hadvance.names ▸ Names.nodup_registerAll List.nodup_nil _
  have hmore : Advance False _ (performAll actions (ofRegistry registry)) _ :=
    advance_performAll more _ False.elim
  rw [Names.id?_eq_some_iff hnodup, performAll, List.foldl_append]
  exact Names.name?_of_le hmore.names_le (Names.name?_of_id? hid)

/-- After legal actions a factory is consistent; its names are those that the successful actions have
mentioned, numbered without gaps in the order of their first mentions, one number a name, for good.
It can be closed exactly if there are fields at the top and all names that are read are declared. If
there are fields but not all names are declared, the first that is not is reported. A program that is
made of it is as consistent, and each name that its fillers read is that of a declaration. -/
theorem reachable_consistent (registry : Registry) (actions : List Action)
    (h : Legally actions (ofRegistry registry)) :
    let f := performAll actions (ofRegistry registry)
    let mentions := told (history actions (ofRegistry registry))
    f.Consistent ∧
    (f.names.list = (mentions.map Mention.name).eraseDups ∧
      (∀ name id, f.names.id? name = some id ↔ f.names.name? id = some name) ∧
      (∀ id, id < f.names.count ↔ ∃ name, f.names.name? id = some name) ∧
      ∀ more name id, f.names.id? name = some id →
        (performAll (actions ++ more) (ofRegistry registry)).names.id? name = some id) ∧
    ∀ fields, (∀ id ∈ fields, id < f.arena.decls.size) →
      ((∃ program, f.finish fields = .ok program) ↔
        fields ≠ [] ∧ ∀ name ∈ reads mentions, name ∈ declares mentions) ∧
      (fields = [] → f.finish fields = .error .noFields) ∧
      (∀ name, fields ≠ [] → undeclared? mentions = some name →
        f.finish fields = .error (.undeclaredField name)) ∧
      ∀ program, f.finish fields = .ok program →
        program.arena.Consistent program.names ∧ program.names = f.names ∧
        ∀ filler ∈ program.arena.fillers, ∀ id ∈ filler.sources,
          ∃ decl ∈ program.arena.decls, decl.name = some id := by
  intro f mentions
  have htended : Tended registry mentions f := tended_performAll h
  refine ⟨htended.consistent, ⟨htended.list_names, fun _ _ => Names.id?_eq_some_iff htended.nodup_names,
    fun id => ⟨Names.exists_name?, fun ⟨_, hname⟩ => Names.lt_of_name? hname⟩,
    fun more _ _ hid => id?_performAll more hid⟩, fun fields hfields => ?_⟩
  refine ⟨htended.finish_ok_iff hfields, ?_,
    fun name hne hname => htended.finish_of_undeclared hne hname,
    fun program hprogram => htended.of_finish_ok hfields hprogram⟩
  rintro rfl
  rfl

/-- A number that is read before it is declared, a bitfield at the top, copies of a template, a size, and
copies of a template that is not known. -/
def sampleRun : List Action :=
  [.call (.numberIn "b"), .call (.block (some 0) 2 (some "a")), .call (.bitfield none 3 none),
    .call (.defineTemplate "t" [0]), .call (.copies "t" 1 2), .call (.copies "u" 1 2),
    .call (.block none 2 (some "b")), .quantity (.sizeOf 1)]

/-- The hypothesis can be met, with names that are all declared and with one that is not. -/
theorem reachable_consistent_sample :
    let f := performAll sampleRun (ofRegistry .standard)
    let g := performAll (sampleRun ++ [.call (.call "crc32" ["c"])]) (ofRegistry .standard)
    (Legally sampleRun (ofRegistry .standard) ∧ f.Consistent) ∧
      f.names.list = ["b", "a"] ∧ (∃ program, f.finish [1, 2, 3] = .ok program) ∧
      g.finish [1, 2, 3] = .error (.undeclaredField "c") := by
  intro f g
  have hf : Legally sampleRun (ofRegistry .standard) := by decide +kernel
  have hg : Legally (sampleRun ++ [.call (.call "crc32" ["c"])]) (ofRegistry .standard) := by
    decide +kernel
  obtain ⟨hconsistent, ⟨hnames, -⟩, hfinish⟩ := reachable_consistent .standard sampleRun hf
  obtain ⟨-, -, hrefused⟩ := reachable_consistent .standard _ hg
  refine ⟨⟨hf, hconsistent⟩, hnames.trans ?_, ?_, ?_⟩
  · decide +kernel
  · exact (hfinish [1, 2, 3] (by decide +kernel)).1.mpr (by decide +kernel)
  · exact (hrefused [1, 2, 3] (by decide +kernel)).2.2.1 "c" (by decide) (by decide +kernel)

/-- A factory that has no fields is refused as such, whatever names are missing; and a filler that is
made elsewhere may read a number without a name. -/
theorem no_fields_before_undeclared :
    (undeclared? (told (history [.call (.numberIn "x")] (ofRegistry .standard))) = some "x" ∧
      (performAll [.call (.numberIn "x")] (ofRegistry .standard)).finish [] = .error .noFields) ∧
    ¬ ∀ filler ∈ (performAll [.quantity (.sizeOf 7)] (ofRegistry .standard)).arena.fillers,
      ∀ id ∈ filler.sources,
        id < (performAll [.quantity (.sizeOf 7)] (ofRegistry .standard)).names.count := by
  refine ⟨⟨by decide, rfl⟩, fun hall => ?_⟩
  exact absurd (hall (.quantity (.sizeOf 7)) Array.mem_push_self 7 List.mem_cons_self) (by decide)

end Action
end Factory
end ArtifactLayout
