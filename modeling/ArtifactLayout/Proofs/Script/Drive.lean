import Mathlib.Data.Nat.Digits.Defs
import ArtifactLayout.Proofs.Factory.Consistent
import ArtifactLayout.Proofs.Script.Read
import ArtifactLayout.Script.Build

/-! # Driving a factory by a script

A script as a list of steps in the order in which it is written: a numeral is decoded, or an operation
of the factory is called with what the steps before have left on a bench. Reading a text does what these
steps do, whatever its layout; if it is not the text of a script, it is malformed.
-/

namespace ArtifactLayout.Script
set_option autoImplicit false

open Factory Attempt

/-! ## Numerals -/

/-- What a digit counts for at its place. -/
def digit (c : Char) : Nat := (Text.hexValue? c).getD 0

/-- The number that a numeral spells, of any length. -/
def spelled : List Char → Nat
  | '0' :: x :: digits =>
    if x = 'x' ∨ x = 'X' then Nat.ofDigits 16 (digits.map digit).reverse
    else Nat.ofDigits 10 (('0' :: x :: digits).map digit).reverse
  | digits => Nat.ofDigits 10 (digits.map digit).reverse

/-- Numbers of 2^64 and more are refused. -/
def decode (text : List Char) : Except Fault Nat :=
  if spelled text < 2 ^ 64 then .ok (spelled text) else .error (.numberOutOfRange (String.ofList text))

theorem digitsValue_eq (base : Nat) (digits : List Char) :
    digitsValue base digits = Nat.ofDigits base (digits.map digit).reverse := by
  rw [digitsValue, Nat.ofDigits_eq_foldr, List.foldr_reverse, List.foldl_map]
  congr 1
  funext n c
  exact Nat.add_comm _ _

theorem numeralValue_eq (text : List Char) : numeralValue text = spelled text := by
  unfold numeralValue
  split
  · exact digitsValue_eq 16 _
  · exact digitsValue_eq 16 _
  · rename_i hx hX
    rw [digitsValue_eq]
    unfold spelled
    split
    · rename_i x digits
      rw [if_neg]
      rintro (rfl | rfl)
      · exact hx _ rfl
      · exact hX _ rfl
    · rfl

theorem readNumeral_eq (text : List Char) : readNumeral text = (decode text).map UInt64.ofNat := by
  rw [readNumeral, numeralValue_eq, decode]
  change (if spelled text < 2 ^ 64 then _ else _) = _
  split <;> rfl

theorem map_toNat_readNumeral (text : List Char) :
    (readNumeral text).map UInt64.toNat = decode text := by
  rw [readNumeral_eq, decode]
  split
  · rename_i hlt
    exact congrArg Except.ok (UInt64.toNat_ofNat_of_lt' hlt)
  · rfl

/-! ## Steps -/

/-- A declaration or a template whose parts have been made. -/
inductive Making where
  | block (name : Option String)
  | ranged (name : Option String)
  | bitfield (name : Option String)
  | auto (name : Option String)
  | container (form : Container) (name : Option String) (children : Nat)
  | copies (name : String)
  | template (name : String) (children : Nat)
  deriving DecidableEq, Repr

inductive Step where
  | count (numeral : List Char)
  | source (s : Source)
  | make (m : Making)
  deriving DecidableEq, Repr

def sourceSteps (source : Option Source) : List Step := source.toList.map .source

mutual

def Item.steps : Item → List Step
  | .block size name source => .count size :: (sourceSteps source ++ [.make (.block name)])
  | .ranged low high name source =>
    .count low :: .count high :: (sourceSteps source ++ [.make (.ranged name)])
  | .bitfield width name source => .count width :: (sourceSteps source ++ [.make (.bitfield name)])
  | .auto name source => [.source source, .make (.auto name)]
  | .container form name body => itemsSteps body ++ [.make (.container form name body.length)]
  | .copies template low none => [.count low, .make (.copies template)]
  | .copies template low (some high) => [.count low, .count high, .make (.copies template)]

def itemsSteps : List Item → List Step
  | [] => []
  | item :: rest => item.steps ++ itemsSteps rest

end

def entriesSteps : List Entry → List Step
  | [] => []
  | .template name body :: rest =>
    itemsSteps body ++ .make (.template name body.length) :: entriesSteps rest
  | .item item :: rest => item.steps ++ entriesSteps rest

/-- What lies ready while a script is worked through. -/
structure Bench where
  factory : Factory
  /-- The numerals of the declaration that is being read. -/
  counts : List Nat
  /-- The filler of the declaration that is being read. -/
  filler : Option FillerId
  /-- The declarations that no container holds yet, the last one first. -/
  decls : List DeclId

namespace Bench

def fresh (registry : Registry) : Bench := ⟨.ofRegistry registry, [], none, []⟩

/-- Lays what was made on the bench; a declaration uses up the numerals and the filler. -/
def place (b : Bench) : Made → Bench
  | .filler id => { b with filler := some id }
  | .decl id => { b with counts := [], filler := none, decls := id :: b.decls }
  | .template _ => b

def perform (b : Bench) (c : Call) : Except Fault Bench :=
  match c.perform b.factory with
  | (.ok made, f) => .ok ({ b with factory := f }.place made)
  | (.error fault, _) => .error fault

def low (b : Bench) : Nat := b.counts.headD 0

def high (b : Bench) : Nat := b.counts.getLastD 0

/-- The last declarations on the bench, in the order in which they were made. -/
def taken (b : Bench) (children : Nat) : List DeclId := (b.decls.take children).reverse

end Bench

/-- The call that makes the filler of a source, once it is decoded. -/
def Source.request : Source → Except Fault Call
  | literal body => (readLiteral body).map .constant
  | numeral text => (decode text).map fun value => .number (UInt64.ofNat value)
  | field name => .ok (.numberIn name)
  | call function arguments => .ok (.call function arguments)

def Container.call : Container → List DeclId → Option String → Call
  | compound => .compound
  | choice => .choice
  | bits => .bits

namespace Making

/-- The call that makes something of what lies on a bench. -/
def call (b : Bench) : Making → Call
  | block name => .block b.filler b.low name
  | ranged name => .ranged b.filler b.low b.high name
  | bitfield name => .bitfield b.filler b.low name
  | auto name => .auto (b.filler.getD 0) name
  | container form name children => form.call (b.taken children) name
  | copies name => .copies name b.low b.high
  | template name children => .defineTemplate name (b.taken children)

/-- How many declarations are taken from the bench. -/
def children : Making → Nat
  | container _ _ children | template _ children => children
  | block _ | ranged _ | bitfield _ | auto _ | copies _ => 0

end Making

def Step.run (b : Bench) : Step → Except Fault Bench
  | count numeral => (decode numeral).map fun n => { b with counts := b.counts ++ [n] }
  | source s => s.request.bind b.perform
  | make m => { b with decls := b.decls.drop m.children }.perform (m.call b)

/-- Does some steps in turn, up to the first fault. -/
def runAll (steps : List Step) (b : Bench) : Except Fault Bench := steps.foldlM Step.run b

/-- The program that a fresh factory is driven to by a script. -/
def drive (registry : Registry) (script : Script) : Except Fault Program := do
  let b ← runAll (entriesSteps script.entries) (.fresh registry)
  b.factory.finish b.decls.reverse

/-! ## Steps and building -/

section
variable {α β γ : Type} {f : Factory} {counts : List Nat} {filler : Option FillerId}
  {decls : List DeclId} {rest : List Step}

/-- Goes on from what an attempt has led to, unless it has failed. -/
def onward (result : Except Fault α × Factory) (next : α → Factory → Except Fault β) :
    Except Fault β :=
  match result with
  | (.ok a, f) => next a f
  | (.error fault, _) => .error fault

theorem onward_bind (m : Attempt Factory α) (k : α → Attempt Factory β)
    (next : β → Factory → Except Fault γ) :
    onward ((m >>= k) f) next = onward (m f) fun a g => onward (k a g) next := by
  rw [bind_apply]
  rcases m f with ⟨_ | a, g⟩ <;> rfl

theorem onward_congr {result : Except Fault α × Factory} {next next' : α → Factory → Except Fault β}
    (h : ∀ a g, result = (.ok a, g) → next a g = next' a g) : onward result next = onward result next' := by
  rcases result with ⟨_ | a, g⟩
  · rfl
  · exact h a g rfl

theorem runAll_cons (step : Step) (b : Bench) :
    runAll (step :: rest) b = (step.run b).bind (runAll rest) :=
  rfl

theorem runAll_count (text : List Char) :
    runAll (.count text :: rest) ⟨f, counts, filler, decls⟩ =
      onward (count text f) fun n g => runAll rest ⟨g, counts ++ [n], filler, decls⟩ := by
  rw [runAll_cons, Step.run, count, check_apply, map_toNat_readNumeral]
  cases decode text <;> rfl

theorem perform_filler {c : Call} {m : Attempt Factory FillerId}
    (hc : c.perform = do return .filler (← m)) :
    (Bench.perform ⟨f, counts, filler, decls⟩ c).bind (runAll rest) =
      onward (m f) fun id g => runAll rest ⟨g, counts, some id, decls⟩ := by
  rw [Bench.perform, hc, bind_apply]
  rcases m f with ⟨_ | id, g⟩ <;> rfl

theorem perform_decl {c : Call} {m : Attempt Factory DeclId} (hc : c.perform = do return .decl (← m)) :
    (Bench.perform ⟨f, counts, filler, decls⟩ c).bind (runAll rest) =
      onward (m f) fun id g => runAll rest ⟨g, [], none, id :: decls⟩ := by
  rw [Bench.perform, hc, bind_apply]
  rcases m f with ⟨_ | id, g⟩ <;> rfl

theorem perform_template {c : Call} {m : Attempt Factory TemplateId}
    (hc : c.perform = do return .template (← m)) :
    (Bench.perform ⟨f, counts, filler, decls⟩ c).bind (runAll rest) =
      onward (m f) fun _ g => runAll rest ⟨g, counts, filler, decls⟩ := by
  rw [Bench.perform, hc, bind_apply]
  rcases m f with ⟨_ | id, g⟩ <;> rfl

theorem runAll_source (source : Source) :
    runAll (.source source :: rest) ⟨f, counts, filler, decls⟩ =
      onward (source.build f) fun id g => runAll rest ⟨g, counts, some id, decls⟩ := by
  rw [runAll_cons, Step.run]
  cases source with
  | literal body =>
    rw [Source.request, Source.build, onward_bind, check_apply]
    cases readLiteral body with
    | error fault => rfl
    | ok content =>
      have hcall : (Call.constant content).perform = do return .filler (← constant content) := rfl
      exact perform_filler hcall
  | numeral text =>
    rw [Source.request, Source.build, onward_bind, check_apply, readNumeral_eq]
    cases decode text with
    | error fault => rfl
    | ok n =>
      have hcall : (Call.number (.ofNat n)).perform = do return .filler (← number (.ofNat n)) := rfl
      exact perform_filler hcall
  | field name =>
    have hcall : (Call.numberIn name).perform = do return .filler (← numberIn name) := rfl
    exact perform_filler hcall
  | call function arguments =>
    have hcall : (Call.call function arguments).perform =
      do return .filler (← Factory.call function arguments) := rfl
    exact perform_filler hcall

theorem runAll_sourceSteps (source : Option Source) :
    runAll (sourceSteps source ++ rest) ⟨f, counts, none, decls⟩ =
      onward (buildSource source f) fun filler g => runAll rest ⟨g, counts, filler, decls⟩ := by
  cases source with
  | none => rfl
  | some source =>
    rw [buildSource, onward_bind]
    exact runAll_source source

/-- The last step of a declaration. -/
theorem runAll_make {m : Making} {attempt : Attempt Factory DeclId}
    (hcall : (m.call ⟨f, counts, filler, decls⟩).perform = do return .decl (← attempt)) :
    runAll (.make m :: rest) ⟨f, counts, filler, decls⟩ =
      onward (attempt f) fun id g => runAll rest ⟨g, [], none, id :: decls.drop m.children⟩ := by
  rw [runAll_cons, Step.run]
  exact perform_decl hcall

theorem length_of_buildAll {items : List Item} {ids : List DeclId} {g : Factory}
    (h : buildAll items f = (.ok ids, g)) : ids.length = items.length := by
  induction items generalizing f ids with
  | nil =>
    cases h
    rfl
  | cons item items ih =>
    rw [buildAll] at h
    obtain ⟨first, t, -, h⟩ := of_bind_ok h
    obtain ⟨others, t', hothers, h⟩ := of_bind_ok h
    cases h
    rw [List.length_cons, List.length_cons, ih hothers]

/-- What was put on the bench last is taken from it. -/
theorem taken_reverse (f : Factory) (ids : List DeclId) :
    Bench.taken ⟨f, counts, filler, ids.reverse ++ decls⟩ ids.length = ids := by
  rw [Bench.taken, ← List.length_reverse, List.take_left, List.reverse_reverse]

theorem drop_reverse (ids : List DeclId) : (ids.reverse ++ decls).drop ids.length = decls := by
  rw [← List.length_reverse, List.drop_left]

/-- The operation that makes a container of its children. -/
def Container.group : Container → List DeclId → Option String → Attempt Factory DeclId
  | compound => Factory.compound
  | choice => Factory.choice
  | bits => Factory.bits

theorem build_container (form : Container) (name : Option String) (body : List Item) :
    (Item.container form name body).build = buildAll body >>= fun ids => form.group ids name := by
  cases form <;> rw [Item.build] <;> rfl

theorem runAll_container (form : Container) (name : Option String) (ids : List DeclId) :
    runAll (.make (.container form name ids.length) :: rest) ⟨f, [], none, ids.reverse ++ decls⟩ =
      onward (form.group ids name f) fun id g => runAll rest ⟨g, [], none, id :: decls⟩ := by
  have hcall : ((Making.container form name ids.length).call ⟨f, [], none, ids.reverse ++ decls⟩).perform =
      do return .decl (← form.group ids name) := by
    rw [Making.call, taken_reverse]
    cases form <;> rfl
  rw [runAll_make hcall, Making.children, drop_reverse]

theorem runAll_template (name : String) (ids : List DeclId) :
    runAll (.make (.template name ids.length) :: rest) ⟨f, [], none, ids.reverse ++ decls⟩ =
      onward (defineTemplate name ids f) fun _ g => runAll rest ⟨g, [], none, decls⟩ := by
  rw [runAll_cons, Step.run, Making.call, taken_reverse, Making.children, drop_reverse]
  exact perform_template rfl

mutual

/-- The steps of an item build it and lay it on top of what was on the bench. What comes after them is
left open, for the steps of a body go on with those of its container. -/
theorem runAll_item : ∀ (item : Item) {f : Factory} {decls : List DeclId} {rest : List Step},
    runAll (item.steps ++ rest) ⟨f, [], none, decls⟩ =
      onward (item.build f) fun id g => runAll rest ⟨g, [], none, id :: decls⟩
  | .block size name source, f, decls, rest => by
    rw [Item.steps, List.cons_append, List.append_assoc, runAll_count, Item.build, onward_bind]
    refine onward_congr fun n g _ => ?_
    rw [runAll_sourceSteps, onward_bind]
    exact onward_congr fun filler h _ => runAll_make rfl
  | .ranged low high name source, f, decls, rest => by
    rw [Item.steps, List.cons_append, List.cons_append, List.append_assoc, runAll_count, Item.build,
      onward_bind]
    refine onward_congr fun least g _ => ?_
    rw [runAll_count, onward_bind]
    refine onward_congr fun most h _ => ?_
    rw [runAll_sourceSteps, onward_bind]
    exact onward_congr fun filler h _ => runAll_make rfl
  | .bitfield width name source, f, decls, rest => by
    rw [Item.steps, List.cons_append, List.append_assoc, runAll_count, Item.build, onward_bind]
    refine onward_congr fun n g _ => ?_
    rw [runAll_sourceSteps, onward_bind]
    exact onward_congr fun filler h _ => runAll_make rfl
  | .auto name source, f, decls, rest => by
    rw [Item.steps, List.cons_append, runAll_source, Item.build, onward_bind]
    exact onward_congr fun filler h _ => runAll_make rfl
  | .container form name body, f, decls, rest => by
    rw [Item.steps, List.append_assoc, runAll_items body, build_container, onward_bind]
    refine onward_congr fun ids g hids => ?_
    -- as many declarations are taken from the bench as the body has put there
    rw [← length_of_buildAll hids]
    exact runAll_container form name ids
  | .copies template low none, f, decls, rest => by
    rw [Item.steps, List.cons_append, runAll_count, Item.build, onward_bind]
    exact onward_congr fun n g _ => runAll_make rfl
  | .copies template low (some high), f, decls, rest => by
    rw [Item.steps, List.cons_append, List.cons_append, runAll_count, Item.build, onward_bind]
    refine onward_congr fun least g _ => ?_
    rw [runAll_count, onward_bind]
    exact onward_congr fun most h _ => runAll_make rfl

theorem runAll_items : ∀ (items : List Item) {f : Factory} {decls : List DeclId} {rest : List Step},
    runAll (itemsSteps items ++ rest) ⟨f, [], none, decls⟩ =
      onward (buildAll items f) fun ids g => runAll rest ⟨g, [], none, ids.reverse ++ decls⟩
  | [], f, decls, rest => rfl
  | item :: items, f, decls, rest => by
    rw [itemsSteps, List.append_assoc, runAll_item item, buildAll, onward_bind]
    refine onward_congr fun id g _ => ?_
    rw [runAll_items items, onward_bind]
    refine onward_congr fun ids h _ => ?_
    rw [pure_apply, onward, List.reverse_cons, List.append_assoc]
    rfl

end

theorem runAll_entries (entries : List Entry) :
    runAll (entriesSteps entries) ⟨f, [], none, decls⟩ =
      onward (buildEntries entries f) fun ids g => .ok ⟨g, [], none, ids.reverse ++ decls⟩ := by
  induction entries generalizing f decls with
  | nil => rfl
  | cons entry entries ih =>
    cases entry with
    | template name body =>
      rw [entriesSteps, runAll_items, buildEntries, onward_bind]
      refine onward_congr fun ids g hids => ?_
      rw [← length_of_buildAll hids, runAll_template, onward_bind]
      exact onward_congr fun _ h _ => ih
    | item item =>
      rw [entriesSteps, runAll_item, buildEntries, onward_bind]
      refine onward_congr fun id g _ => ?_
      rw [ih, onward_bind]
      refine onward_congr fun ids h _ => ?_
      rw [pure_apply, onward, List.reverse_cons, List.append_assoc]
      rfl

end

/-- Building a script is driving a fresh factory through its steps. -/
theorem program_eq_drive (registry : Registry) (script : Script) :
    script.program registry = drive registry script := by
  have hrun : runAll (entriesSteps script.entries) ⟨ofRegistry registry, [], none, []⟩ = _ :=
    runAll_entries script.entries
  rw [program, drive, Bench.fresh, hrun, outcome, bind_apply]
  rcases buildEntries script.entries (ofRegistry registry) with ⟨_ | ids, g⟩
  · rfl
  · change _ = g.finish (ids.reverse ++ []).reverse
    rw [List.append_nil, List.reverse_reverse]
    rfl

/-! ## Faults -/

section
variable {α β : Type}

theorem error_ne_malformed {fault : Fault} (h : fault ≠ .malformed) :
    (.error fault : Except Fault α) ≠ .error .malformed :=
  fun heq => h (Except.error.inj heq)

theorem ok_ne_malformed (a : α) : (.ok a : Except Fault α) ≠ .error .malformed := by
  intro h
  cases h

theorem map_ne_malformed {outcome : Except Fault α} (h : outcome ≠ .error .malformed) (g : α → β) :
    outcome.map g ≠ .error .malformed := by
  cases outcome with
  | error fault => exact error_ne_malformed fun hfault => h (congrArg Except.error hfault)
  | ok a => exact ok_ne_malformed _

theorem bind_ne_malformed {outcome : Except Fault α} {next : α → Except Fault β}
    (h : outcome ≠ .error .malformed) (hnext : ∀ a, next a ≠ .error .malformed) :
    outcome.bind next ≠ .error .malformed := by
  cases outcome with
  | error fault => exact error_ne_malformed fun hfault => h (congrArg Except.error hfault)
  | ok a => exact hnext a

end

theorem decode_ne_malformed (text : List Char) : decode text ≠ .error .malformed := by
  rw [decode]
  split
  · exact ok_ne_malformed _
  · exact error_ne_malformed Fault.noConfusion

theorem hexEscape_ne_malformed (high low : UInt8) : hexEscape high low ≠ .error .malformed := by
  rw [hexEscape]
  cases pairText? high low with
  | none => exact error_ne_malformed Fault.noConfusion
  | some text =>
    dsimp only
    cases pairValue? text with
    | none => exact error_ne_malformed Fault.noConfusion
    | some byte => exact ok_ne_malformed _

theorem unescape_ne_malformed (bytes : List UInt8) : unescape bytes ≠ .error .malformed := by
  fun_induction unescape bytes with
  | case1 => exact ok_ne_malformed _
  | case2 _ _ _ ih => exact map_ne_malformed ih _
  | case3 => exact error_ne_malformed Fault.noConfusion
  | case4 _ _ high low _ ih =>
    exact bind_ne_malformed (hexEscape_ne_malformed high low) fun byte => map_ne_malformed ih _
  | case5 => exact error_ne_malformed Fault.noConfusion
  | case6 _ _ _ _ _ _ _ ih => exact map_ne_malformed ih _
  | case7 => exact error_ne_malformed Fault.noConfusion

theorem request_ne_malformed (source : Source) : source.request ≠ .error .malformed := by
  cases source with
  | literal body => exact map_ne_malformed (unescape_ne_malformed _) _
  | numeral text => exact map_ne_malformed (decode_ne_malformed text) _
  | field | call => exact ok_ne_malformed _

theorem perform_ne_malformed (b : Bench) (c : Call) : b.perform c ≠ .error .malformed := by
  have hatomic : Atomic False c.mentions c.perform b.factory := atomic_perform b.factory c
  rcases hatomic with ⟨fault, hfault, hrun⟩ | ⟨made, g, hrun, -⟩
  · rw [Bench.perform, hrun]
    exact error_ne_malformed hfault
  · rw [Bench.perform, hrun]
    exact ok_ne_malformed _

theorem run_ne_malformed (step : Step) (b : Bench) : step.run b ≠ .error .malformed := by
  cases step with
  | count numeral => exact map_ne_malformed (decode_ne_malformed numeral) _
  | source s => exact bind_ne_malformed (request_ne_malformed s) (perform_ne_malformed b)
  | make m => exact perform_ne_malformed _ _

theorem runAll_ne_malformed (steps : List Step) (b : Bench) : runAll steps b ≠ .error .malformed := by
  induction steps generalizing b with
  | nil => exact ok_ne_malformed _
  | cons step steps ih => exact bind_ne_malformed (run_ne_malformed step b) ih

theorem finish_ne_malformed (f : Factory) (fields : List DeclId) :
    f.finish fields ≠ .error .malformed := by
  by_cases hne : fields = []
  · rw [hne]
    exact error_ne_malformed Fault.noConfusion
  · rw [finish_eq f hne]
    cases f.referenced.toList.find? fun id => id ∉ f.declared with
    | some id => exact error_ne_malformed Fault.noConfusion
    | none =>
      obtain ⟨grouped, g, hrun, -⟩ : Succeeds False [] (groupLoose fields) f :=
        succeeds_groupLoose f fields
      dsimp only
      rw [outcome, bind_of_ok hrun]
      exact ok_ne_malformed _

/-- What goes wrong after a script has been read is not its form. -/
theorem drive_ne_malformed (registry : Registry) (script : Script) :
    drive registry script ≠ .error .malformed :=
  bind_ne_malformed (runAll_ne_malformed _ _) fun b => finish_ne_malformed b.factory _

/-! ## Texts -/

theorem parse_of_writes (registry : Registry) {text : String} {script : Script}
    (h : Writes text script) : parse registry text = drive registry script := by
  rw [parse, read?_eq_some_iff.mpr h]
  exact program_eq_drive registry script

theorem parse_of_not_writes (registry : Registry) {text : String} (h : ∀ script, ¬ Writes text script) :
    parse registry text = .error .malformed := by
  rw [parse]
  cases hread : read? text.toList with
  | none => rfl
  | some script => exact absurd (read?_eq_some_iff.mp hread) (h script)

/-- Whatever the layout of a script, reading it drives a fresh factory through its steps in the order in
which they are written. A text is malformed exactly if it is not that of a script, and it is the text of
one script only. -/
theorem parse_exact (registry : Registry) (text : String) :
    (∀ script, Writes text script → parse registry text = drive registry script) ∧
    (parse registry text = .error .malformed ↔ ¬ ∃ script, Writes text script) ∧
    ∀ script script', Writes text script → Writes text script' → script = script' := by
  refine ⟨fun script => parse_of_writes registry, ⟨?_, fun h => ?_⟩, fun script script' h h' => ?_⟩
  · rintro hmalformed ⟨script, h⟩
    exact drive_ne_malformed registry script ((parse_of_writes registry h).symm.trans hmalformed)
  · exact parse_of_not_writes registry fun script hwrites => h ⟨script, hwrites⟩
  · exact Option.some.inj ((read?_eq_some_iff.mpr h).symm.trans (read?_eq_some_iff.mpr h'))

/-- A template of bits, copied; a block with content of its own, and its checksum in a container. -/
def layoutScript : Script where
  entries :=
    [.template "t" [.container .bits none [.bitfield "0X3".toList none none]],
      .item (.block "0x2".toList (some "a") (some (.literal "\\n".toList))),
      .item (.copies "t" "1".toList (some "02".toList)),
      .item (.container .compound (some "c") [.auto none (.call "crc32" ["a"])])]

/-- The script with as little between its tokens as there may be, and with comments. -/
def layoutText : String :=
  "template/**/t\x7bbits\x7bbitfield<0X3>;\x7d\x7d // once\nblock<0x2>a=\"\\n\";t<1,02>;" ++
    "compound /* of one */ c\x7bauto=crc32(a);\x7d//"

/-- A script can be written down so, and a comment without an end is not one. -/
theorem parse_exact_sample :
    (Writes layoutText layoutScript ∧
      parse .standard layoutText = drive .standard layoutScript) ∧
    (drive .standard layoutScript).isOk = true ∧
    ¬ ∃ script, Writes "block<1>; /* one" script := by
  have hscan : scan? layoutText.toList = some layoutScript.tokens := by decide +kernel
  have hwrites : Writes layoutText layoutScript :=
    (scan?_eq_some_iff (sealed_entries layoutScript.entries).chain).mp hscan
  have hopen : (read? "block<1>; /* one".toList).isNone = true := by decide +kernel
  refine ⟨⟨hwrites, (parse_exact .standard layoutText).1 layoutScript hwrites⟩, ?_, ?_⟩
  · decide +kernel
  · refine (parse_exact .standard "block<1>; /* one").2.1.mp ?_
    rw [parse, Option.isNone_iff_eq_none.mp hopen]

end ArtifactLayout.Script
