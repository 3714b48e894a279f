import Mathlib.Data.List.Forall2
import ArtifactLayout.Field.Dump
import ArtifactLayout.Proofs.Field.Update
import ArtifactLayout.Proofs.Names
import ArtifactLayout.Proofs.Script.Scan

/-! # Dumps

A dump has one line for each field of a tree, in pre-order and indented by the depth of the field.
`line_eq_iff` says what a line tells: the kind, the size, the number of children or the content, and the
name, where an underscore passes for no name at all. As each line tells how many children follow, the
lines determine the tree: two trees have one dump exactly if their fields look alike at every path.
-/

namespace ArtifactLayout
set_option autoImplicit false

/-! ## Words of a line -/

/-- What stands before the first `a` of a text, and what stands behind it. -/
theorem cut_unique {α : Type} {a : α} {xs ys rest rest' : List α} (hx : a ∉ xs) (hy : a ∉ ys)
    (h : xs ++ a :: rest = ys ++ a :: rest') : xs = ys ∧ rest = rest' := by
  induction xs generalizing ys with
  | nil =>
    cases ys with
    | nil => exact ⟨rfl, (List.cons.inj h).2⟩
    | cons y ys =>
      obtain rfl := (List.cons.inj h).1
      exact absurd List.mem_cons_self hy
  | cons x xs ih =>
    cases ys with
    | nil =>
      obtain rfl := (List.cons.inj h).1
      exact absurd List.mem_cons_self hx
    | cons y ys =>
      obtain ⟨rfl, htail⟩ := List.cons.inj h
      obtain ⟨rfl, hrest⟩ := ih (List.not_mem_of_not_mem_cons hx) (List.not_mem_of_not_mem_cons hy) htail
      exact ⟨rfl, hrest⟩

/-- Parts joined by an item other than `a` hold `a` only where a part does. -/
theorem notMem_intercalate {α : Type} {a s : α} (hs : a ≠ s) {parts : List (List α)}
    (h : ∀ part ∈ parts, a ∉ part) : a ∉ [s].intercalate parts := by
  induction parts with
  | nil => exact List.not_mem_nil
  | cons part parts ih =>
    obtain ⟨hpart, hparts⟩ := List.forall_mem_cons.mp h
    by_cases hnil : parts = []
    · subst hnil
      rwa [List.intercalate_singleton]
    · rw [List.intercalate_cons_of_ne_nil hnil, List.mem_append, List.mem_append, List.mem_singleton]
      rintro ((hmem | hsep) | hmem)
      · exact hpart hmem
      · exact hs hsep
      · exact ih hparts hmem

/-- A text without blanks: no space and no line feed. -/
def Solid (text : List Char) : Prop := ∀ c ∈ text, Script.isBlank c = false

instance (text : List Char) : Decidable (Solid text) :=
  decidable_of_iff (text.all fun c => !Script.isBlank c) (by simp [Solid])

namespace Solid
variable {text : List Char}

theorem notMem (h : Solid text) {c : Char} (hc : Script.isBlank c = true) : c ∉ text := by
  intro hmem
  rw [h c hmem] at hc
  cases hc

theorem space (h : Solid text) : ' ' ∉ text := h.notMem rfl

theorem newline (h : Solid text) : '\n' ∉ text := h.notMem rfl

theorem of_wordChars (h : ∀ c ∈ text, Script.isWordChar c = true) : Solid text := by
  intro c hc
  cases hblank : Script.isBlank c with
  | false => rfl
  | true =>
    have hword := h c hc
    rw [Script.isWordChar_of_isBlank hblank] at hword
    cases hword

theorem of_digits (h : ∀ c ∈ text, c.isDigit = true) : Solid text :=
  of_wordChars fun c hc => Script.isWordChar_iff.mpr (.inr (h c hc))

theorem cons {c : Char} (hc : Script.isBlank c = false) (h : Solid text) : Solid (c :: text) :=
  List.forall_mem_cons.mpr ⟨hc, h⟩

end Solid

theorem solid_toDigits (n : Nat) : Solid (Nat.toDigits 10 n) :=
  .of_digits fun _ => Nat.isDigit_of_mem_toDigits (by decide) (by decide)

theorem notMem_toDigits {c : Char} (hc : c.isDigit = false) (n : Nat) : c ∉ Nat.toDigits 10 n := by
  intro hmem
  have hdigit := Nat.isDigit_of_mem_toDigits (by decide) (by decide) hmem
  rw [hc] at hdigit
  cases hdigit

theorem toDigits_inj {m n : Nat} (h : Nat.toDigits 10 m = Nat.toDigits 10 n) : m = n := by
  rw [← Nat.ofDigitChars_ten_toDigits (n := m), h, Nat.ofDigitChars_ten_toDigits]

namespace Text

theorem hexDigit_inj {m n : Nat} (hm : m < 16) (hn : n < 16) (h : hexDigit m = hexDigit n) : m = n := by
  have hall : ∀ m n : Fin 16, hexDigit m = hexDigit n → m = n := by decide
  exact congrArg Fin.val (hall ⟨m, hm⟩ ⟨n, hn⟩ h)

theorem solid_hexByte (b : UInt8) : Solid (hexByte b) := by
  have hall : ∀ m n : Fin 16, Solid [hexDigit m, hexDigit n] := by decide
  have hhigh : b.toNat / 16 < 16 := Nat.div_lt_of_lt_mul b.toNat_lt
  exact hall ⟨_, hhigh⟩ ⟨_, Nat.mod_lt b.toNat (by decide)⟩

theorem hexByte_inj {b c : UInt8} (h : hexByte b = hexByte c) : b = c := by
  obtain ⟨hhigh, htail⟩ := List.cons.inj h
  have hhigh := hexDigit_inj (Nat.div_lt_of_lt_mul b.toNat_lt) (Nat.div_lt_of_lt_mul c.toNat_lt) hhigh
  have hlow := hexDigit_inj (Nat.mod_lt b.toNat (by decide)) (Nat.mod_lt c.toNat (by decide))
    (List.cons.inj htail).1
  exact UInt8.toNat_inj.mp (by omega)

theorem toList_hexLine (bytes : List UInt8) :
    (hexLine bytes).toList = [' '].intercalate (bytes.map hexByte) := String.toList_ofList

theorem newline_notMem_hexLine (bytes : List UInt8) : '\n' ∉ (hexLine bytes).toList := by
  rw [toList_hexLine]
  refine notMem_intercalate (by decide) fun text htext => ?_
  obtain ⟨b, -, rfl⟩ := List.mem_map.mp htext
  exact (solid_hexByte b).newline

/-- The bytes of a line are read off it between its spaces. -/
theorem splitOn_hexLine {bytes : List UInt8} (h : bytes ≠ []) :
    (hexLine bytes).toList.splitOn ' ' = bytes.map hexByte := by
  rw [toList_hexLine]
  refine List.splitOn_intercalate ' ' (fun text htext => ?_) (List.map_eq_nil_iff.not.mpr h)
  obtain ⟨b, -, rfl⟩ := List.mem_map.mp htext
  exact (solid_hexByte b).space

theorem hexLine_inj {bytes others : List UInt8} (hlength : bytes.length = others.length)
    (h : hexLine bytes = hexLine others) : bytes = others := by
  by_cases hnil : bytes = []
  · subst hnil
    exact (List.length_eq_zero_iff.mp hlength.symm).symm
  · have hother : others ≠ [] := by
      rintro rfl
      exact hnil (List.length_eq_zero_iff.mp hlength)
    have hmap : bytes.map hexByte = others.map hexByte := by
      rw [← splitOn_hexLine hnil, h, splitOn_hexLine hother]
    exact List.map_injective_iff.mpr (fun _ _ => hexByte_inj) hmap

end Text

/-! ## Names -/

theorem Script.IsName.wordChars {text : String} (h : IsName text) :
    ∀ c ∈ text.toList, isWordChar c = true := by
  obtain ⟨c, rest, htext, hstart, hrest⟩ := h.start
  rw [htext]
  exact List.forall_mem_cons.mpr ⟨isWordChar_iff.mpr (.inl hstart), hrest⟩

namespace Names
variable {names : Names} {id other : FieldId}

/-- A table without repetition, whose names can be written in a script. -/
structure Readable (names : Names) : Prop where
  nodup : names.list.Nodup
  isName : ∀ name ∈ names.list, Script.IsName name

theorem readable_registerAll {texts : List String} (h : ∀ text ∈ texts, Script.IsName text) :
    (empty.registerAll texts).Readable where
  nodup := nodup_registerAll List.nodup_nil texts
  isName name hname := by
    rw [list_registerAll] at hname
    exact h name (List.mem_eraseDups.mp hname)

/-- No name, or an underscore for a name. -/
def Unnamed (names : Names) (id : Option FieldId) : Prop :=
  id = none ∨ id.bind names.name? = some "_"

theorem label_of_name? {name : String} (h : names.name? id = some name) : names.label id = name := by
  rw [label, h]
  rfl

theorem toList_label_of_none (h : names.name? id = none) :
    (names.label id).toList = '#' :: Nat.toDigits 10 id := by
  have hnumber : names.label id = "#" ++ toString id := by
    rw [label, h]
    rfl
  rw [hnumber, String.toList_append, Nat.toString_eq_repr, Nat.toList_repr]
  rfl

theorem label_eq_underscore_iff (names : Names) (id : FieldId) :
    names.label id = "_" ↔ names.name? id = some "_" := by
  constructor
  · intro hlabel
    cases hname : names.name? id with
    | none =>
      have hsign := toList_label_of_none hname
      rw [hlabel] at hsign
      exact absurd (List.cons.inj hsign).1 (by decide)
    | some name => rw [← label_of_name? hname, hlabel]
  · exact label_of_name?

namespace Readable

theorem solid_label (h : names.Readable) (id : FieldId) : Solid (names.label id).toList := by
  cases hname : names.name? id with
  | none =>
    rw [toList_label_of_none hname]
    exact (solid_toDigits id).cons rfl
  | some name =>
    rw [label_of_name? hname]
    exact .of_wordChars (h.isName name (mem_of_name? hname)).wordChars

/-- A number sign starts no name. -/
theorem ne_label_of_none (h : names.Readable) {name : String} (hname : names.name? id = some name)
    (hother : names.name? other = none) : names.label id ≠ names.label other := by
  intro heq
  have hsign : '#' ∈ name.toList := by
    rw [← label_of_name? hname, heq, toList_label_of_none hother]
    exact List.mem_cons_self
  have hword := (h.isName name (mem_of_name? hname)).wordChars '#' hsign
  exact absurd hword (by decide)

theorem label_inj (h : names.Readable) (heq : names.label id = names.label other) : id = other := by
  cases hid : names.name? id with
  | none =>
    cases hother : names.name? other with
    | none =>
      have hdigits := congrArg String.toList heq
      rw [toList_label_of_none hid, toList_label_of_none hother] at hdigits
      exact toDigits_inj (List.cons.inj hdigits).2
    | some name => exact absurd heq.symm (h.ne_label_of_none hother hid)
  | some name =>
    cases hother : names.name? other with
    | none => exact absurd heq (h.ne_label_of_none hid hother)
    | some name' =>
      rw [label_of_name? hid, label_of_name? hother] at heq
      have hsame : names.id? name = some other := (id?_eq_some_iff h.nodup).mpr (heq ▸ hother)
      rw [(id?_eq_some_iff h.nodup).mpr hid] at hsame
      exact Option.some.inj hsame

end Readable
end Names

/-! ## Lines -/

namespace Field
variable {names : Names} {tag tag' : Tag} {f g : Field}

/-- The line of one field. -/
def line (names : Names) (depth : Nat) : Field → List Char
  | leaf tag content => leafLine names depth tag content
  | group tag grouping children =>
    groupLine names depth tag grouping (size (group tag grouping children)) children.length

/-- What a line tells behind the name of a field. -/
def lineEnd : Field → List Char
  | leaf _ content => '[' :: (decimal content.size ++ ']' :: (" = ".toList ++ shownContent content))
  | group tag grouping children =>
    '(' :: (decimal (size (group tag grouping children)) ++ ' ' :: ("units, ".toList ++
      (decimal children.length ++ ' ' :: "children)".toList)))

theorem line_eq (names : Names) (depth : Nat) (f : Field) :
    f.line names depth = List.replicate (2 * depth) ' ' ++
      (f.kind.name.toList ++ ' ' :: (shownName names f.tag ++ ' ' :: f.lineEnd)) := by
  cases f with
  | leaf tag content => simp [line, leafLine, lineStart, lineEnd, kind, Field.tag]
  | group tag grouping children => simp [line, groupLine, lineStart, lineEnd, kind, Field.tag]

theorem dumpLines_eq (names : Names) (depth : Nat) (f : Field) :
    dumpLines names depth f = f.line names depth :: childLines names (depth + 1) f.children := by
  cases f <;> rfl

theorem solid_kindName (kind : Kind) : Solid kind.name.toList := by
  cases kind <;> decide

theorem kindName_inj {kind other : Kind} (h : kind.name = other.name) : kind = other := by
  cases kind <;> cases other <;> first | rfl | exact absurd h (by decide)

theorem solid_shownName (h : names.Readable) (tag : Tag) : Solid (shownName names tag) := by
  unfold shownName
  split
  · exact h.solid_label _
  · decide

theorem shownName_eq_underscore_iff (names : Names) (tag : Tag) :
    shownName names tag = ['_'] ↔ names.Unnamed tag.id := by
  obtain ⟨id, filler⟩ := tag
  cases id with
  | none => simp [shownName, Names.Unnamed]
  | some id =>
    have hlabel : (names.label id).toList = ['_'] ↔ names.label id = "_" :=
      @String.toList_inj _ "_"
    rw [shownName, Names.Unnamed, hlabel, names.label_eq_underscore_iff]
    simp

theorem shownName_eq_iff (h : names.Readable) :
    shownName names tag = shownName names tag' ↔
      tag.id = tag'.id ∨ names.Unnamed tag.id ∧ names.Unnamed tag'.id := by
  constructor
  · intro heq
    by_cases hunnamed : names.Unnamed tag.id
    · have hshown := (shownName_eq_underscore_iff names tag).mpr hunnamed
      exact .inr ⟨hunnamed, (shownName_eq_underscore_iff names tag').mp (heq ▸ hshown)⟩
    · have hunnamed' : ¬ names.Unnamed tag'.id := by
        rwa [← shownName_eq_underscore_iff, ← heq, shownName_eq_underscore_iff]
      obtain ⟨_ | id, filler⟩ := tag
      · exact absurd (.inl rfl) hunnamed
      · obtain ⟨_ | id', filler'⟩ := tag'
        · exact absurd (.inl rfl) hunnamed'
        · exact .inl (congrArg some (h.label_inj (String.toList_inj.mp heq)))
  · rintro (hid | ⟨hunnamed, hunnamed'⟩)
    · rw [shownName, hid, ← shownName]
    · rw [(shownName_eq_underscore_iff names tag).mpr hunnamed,
        (shownName_eq_underscore_iff names tag').mpr hunnamed']

/-! ## What a line tells -/

/-- A line does not tell two fields apart. -/
structure LooksLike (names : Names) (f g : Field) : Prop where
  kind : f.kind = g.kind
  size : f.size = g.size
  children : f.children.length = g.children.length
  units : f.kind.isContainer = false → f.units = g.units
  id : f.id = g.id ∨ names.Unnamed f.id ∧ names.Unnamed g.id

/-- The content of a leaf is shown byte by byte, except for a bitfield. -/
theorem shownContent_of_ne_bitfield {content : Leaf} (h : content.kind ≠ .bitfield) :
    shownContent content = (Text.hexLine content.units).toList := by
  cases content with
  | block bytes => rfl
  | ranged low high bytes => rfl
  | bitfield bits => exact absurd rfl h

theorem shownContent_eq_iff {content content' : Leaf} (hkind : content.kind = content'.kind)
    (hsize : content.size = content'.size) :
    shownContent content = shownContent content' ↔ content.units = content'.units := by
  by_cases hbitfield : content.kind = .bitfield
  · obtain ⟨bits, rfl⟩ : ∃ bits, content = .bitfield bits := by
      cases content <;> first | exact ⟨_, rfl⟩ | cases hbitfield
    obtain ⟨bits', rfl⟩ : ∃ bits, content' = .bitfield bits := by
      cases content' <;> first | exact ⟨_, rfl⟩ | cases hkind
    -- a character of the line and a unit of the leaf both tell the bit that they stand for
    have hchar : ∀ b c : Bool, (if b then '1' else '0') = (if c then '1' else '0') → b = c := by decide
    have hunit : ∀ b c : Bool, b.toUInt8 = c.toUInt8 → b = c := by decide
    exact (List.map_inj_right hchar).trans (List.map_inj_right hunit).symm
  · rw [shownContent_of_ne_bitfield hbitfield, shownContent_of_ne_bitfield (hkind ▸ hbitfield)]
    constructor
    · intro hline
      refine Text.hexLine_inj ?_ (String.toList_inj.mp hline)
      rw [content.length_units, content'.length_units, hsize]
    · rintro hunits
      rw [hunits]

theorem leafEnd_eq_iff {content content' : Leaf} (hkind : content.kind = content'.kind) :
    (leaf tag content).lineEnd = (leaf tag' content').lineEnd ↔
      content.size = content'.size ∧ content.units = content'.units := by
  constructor
  · intro h
    obtain ⟨hdecimal, hrest⟩ :=
      cut_unique (notMem_toDigits rfl _) (notMem_toDigits rfl _) (List.cons.inj h).2
    have hsize : content.size = content'.size := toDigits_inj hdecimal
    exact ⟨hsize, (shownContent_eq_iff hkind hsize).mp (List.append_cancel_left hrest)⟩
  · rintro ⟨hsize, hunits⟩
    rw [lineEnd, lineEnd, hsize, (shownContent_eq_iff hkind hsize).mpr hunits]

theorem groupEnd_eq_iff {grouping grouping' : Grouping} {cs ds : List Field} :
    (group tag grouping cs).lineEnd = (group tag' grouping' ds).lineEnd ↔
      size (group tag grouping cs) = size (group tag' grouping' ds) ∧ cs.length = ds.length := by
  constructor
  · intro h
    obtain ⟨hsize, hrest⟩ :=
      cut_unique (notMem_toDigits rfl _) (notMem_toDigits rfl _) (List.cons.inj h).2
    obtain ⟨hlength, -⟩ :=
      cut_unique (notMem_toDigits rfl _) (notMem_toDigits rfl _) (List.append_cancel_left hrest)
    exact ⟨toDigits_inj hsize, toDigits_inj hlength⟩
  · rintro ⟨hsize, hlength⟩
    rw [lineEnd, lineEnd, hsize, hlength]

theorem lineEnd_eq_iff (hkind : f.kind = g.kind) :
    f.lineEnd = g.lineEnd ↔ f.size = g.size ∧ f.children.length = g.children.length ∧
      (f.kind.isContainer = false → f.units = g.units) := by
  cases f with
  | leaf tag content =>
    cases g with
    | leaf tag' content' =>
      have hleaf : content.kind.isContainer = false := by cases content <;> rfl
      rw [leafEnd_eq_iff hkind]
      exact ⟨fun ⟨hsize, hunits⟩ => ⟨hsize, rfl, fun _ => hunits⟩,
        fun ⟨hsize, _, hunits⟩ => ⟨hsize, hunits hleaf⟩⟩
    | group tag' grouping cs => cases content <;> cases grouping <;> cases hkind
  | group tag grouping cs =>
    cases g with
    | leaf tag' content => cases content <;> cases grouping <;> cases hkind
    | group tag' grouping' ds =>
      have hgroup : grouping.kind.isContainer ≠ false := by cases grouping <;> decide
      rw [groupEnd_eq_iff]
      exact ⟨fun ⟨hsize, hlength⟩ => ⟨hsize, hlength, fun h => absurd h hgroup⟩,
        fun ⟨hsize, hlength, _⟩ => ⟨hsize, hlength⟩⟩

theorem line_eq_iff (h : names.Readable) (depth : Nat) :
    f.line names depth = g.line names depth ↔ LooksLike names f g := by
  rw [line_eq, line_eq, List.append_right_inj]
  constructor
  · intro heq
    obtain ⟨hkind, hname⟩ := cut_unique (solid_kindName _).space (solid_kindName _).space heq
    obtain ⟨hname, hend⟩ := cut_unique (solid_shownName h _).space (solid_shownName h _).space hname
    have hkind : f.kind = g.kind := kindName_inj (String.toList_inj.mp hkind)
    obtain ⟨hsize, hchildren, hunits⟩ := (lineEnd_eq_iff hkind).mp hend
    exact ⟨hkind, hsize, hchildren, hunits, (shownName_eq_iff h).mp hname⟩
  · rintro ⟨hkind, hsize, hchildren, hunits, hid⟩
    rw [(shownName_eq_iff h).mpr hid, (lineEnd_eq_iff hkind).mpr ⟨hsize, hchildren, hunits⟩, hkind]

/-! ## The lines of a dump -/

theorem newline_notMem_lineEnd (f : Field) : '\n' ∉ f.lineEnd := by
  have hdecimal (n : Nat) : '\n' ∉ decimal n := notMem_toDigits rfl n
  cases f with
  | leaf tag content =>
    have hcontent : '\n' ∉ shownContent content := by
      by_cases hbitfield : content.kind = .bitfield
      · cases content with
        | bitfield bits =>
          intro hmem
          obtain ⟨bit, -, hbit⟩ := List.mem_map.mp hmem
          cases bit <;> cases hbit
        | block | ranged => cases hbitfield
      · rw [shownContent_of_ne_bitfield hbitfield]
        exact Text.newline_notMem_hexLine _
    simp [lineEnd, hdecimal, hcontent]
  | group tag grouping children => simp [lineEnd, hdecimal]

theorem newline_notMem_line (h : names.Readable) (depth : Nat) (f : Field) :
    '\n' ∉ f.line names depth := by
  have hkind := (solid_kindName f.kind).newline
  have hname := (solid_shownName h f.tag).newline
  simp [line_eq, hkind, hname, newline_notMem_lineEnd]

mutual

theorem dumpLines_eq_map (names : Names) (path : List Nat) (position : Nat) : ∀ f : Field,
    dumpLines names path.length f =
      (visitsFrom path position f).map fun v => v.field.line names v.path.length
  | leaf tag content => rfl
  | group tag grouping children => by
      rw [dumpLines_eq, visitsFrom, List.map_cons, ← childLines_eq_map names path 0 (position + 1)]
      rfl

theorem childLines_eq_map (names : Names) (path : List Nat) (index position : Nat) :
    ∀ cs : List Field, childLines names (path.length + 1) cs =
      (childVisits path index position cs).map fun v => v.field.line names v.path.length
  | [] => rfl
  | c :: cs => by
      rw [childLines, childVisits, List.map_append, ← dumpLines_eq_map names (path ++ [index]),
        ← childLines_eq_map names path (index + 1) (position + c.nodeCount), List.length_append,
        List.length_singleton]

end

/-- A dump read back line by line. -/
theorem lines_dump (h : names.Readable) (root : Field) :
    (dump names root).toList.splitOn '\n' = dumpLines names 0 root := by
  rw [dump, String.toList_ofList]
  refine List.splitOn_intercalate '\n' (fun text htext => ?_) (by rw [dumpLines_eq]; simp)
  rw [show 0 = ([] : List Nat).length from rfl, dumpLines_eq_map names [] 0] at htext
  obtain ⟨v, -, rfl⟩ := List.mem_map.mp htext
  exact newline_notMem_line h _ _

/-- The lines of a dump are those of the fields: one for each path of the tree, paths in the order of
a walk, indented by two spaces for each step of the path. -/
structure Listed (names : Names) (root : Field) : Prop where
  lines : (dump names root).toList.splitOn '\n' =
    root.visits.map fun v => v.field.line names v.path.length
  count : ((dump names root).toList.splitOn '\n').length = root.nodeCount
  visits : ∀ path f, root.at? path = some f ↔ ∃ v ∈ root.visits, v.path = path ∧ v.field = f
  ascending : root.visits.Pairwise fun v w => v.path < w.path
  indented : ∀ v ∈ root.visits, ∃ c rest,
    v.field.line names v.path.length = List.replicate (2 * v.path.length) ' ' ++ c :: rest ∧ c ≠ ' '

theorem exists_line_eq (names : Names) (depth : Nat) (f : Field) : ∃ c rest,
    f.line names depth = List.replicate (2 * depth) ' ' ++ c :: rest ∧ c ≠ ' ' := by
  have hkind : ∃ c rest, f.kind.name.toList = c :: rest ∧ c ≠ ' ' := by
    cases f.kind <;> exact ⟨_, _, rfl, by decide⟩
  obtain ⟨c, rest, hname, hc⟩ := hkind
  refine ⟨c, rest ++ ' ' :: (shownName names f.tag ++ ' ' :: f.lineEnd), ?_, hc⟩
  rw [line_eq, hname]
  rfl

theorem listed (h : names.Readable) (root : Field) : Listed names root where
  lines := (lines_dump h root).trans (dumpLines_eq_map names [] 0 root)
  count := by
    rw [lines_dump h, show 0 = ([] : List Nat).length from rfl, dumpLines_eq_map names [] 0, ← visits,
      List.length_map, ← List.length_map Visit.position, map_position_visits, List.length_range]
  visits path f := by
    constructor
    · intro hat
      exact ⟨⟨path, root.ordinal path, f⟩, mem_visits.mpr ⟨hat, rfl⟩, rfl, rfl⟩
    · rintro ⟨v, hv, rfl, rfl⟩
      exact (mem_visits.mp hv).1
  ascending := pairwise_path_visits root
  indented v _ := exists_line_eq names v.path.length v.field

example :
    dump (Names.empty.registerAll ["magic"])
      (group .none .compound [leaf ⟨some 0, none⟩ (.block #[0xca, 0xfe]),
        leaf .none (.bitfield #[true, false, true])]) =
      "compound _ (5 units, 2 children)\n  block magic [2] = ca fe\n  bitfield _ [3] = 101" := by
  decide +kernel

/-! ## Trees that a dump does not tell apart -/

/-- The trees have fields at the same paths, and no line tells the two fields at a path apart. -/
def Alike (names : Names) (f g : Field) : Prop :=
  ∀ path, Option.Rel (LooksLike names) (f.at? path) (g.at? path)

theorem Alike.root (h : Alike names f g) : LooksLike names f g := by
  cases h [] with
  | some hlooks => exact hlooks

theorem Alike.children (h : Alike names f g) : List.Forall₂ (Alike names) f.children g.children := by
  refine List.forall₂_iff_get.mpr ⟨h.root.children, fun i hi hi' path => ?_⟩
  have hat := h (i :: path)
  rwa [at?_cons_of_child (List.getElem?_eq_getElem hi),
    at?_cons_of_child (List.getElem?_eq_getElem hi')] at hat

theorem alike_of_children (h : LooksLike names f g)
    (hchildren : List.Forall₂ (Alike names) f.children g.children) : Alike names f g := by
  intro path
  cases path with
  | nil => exact .some h
  | cons i path =>
    by_cases hi : i < f.children.length
    · have hi' : i < g.children.length := h.children ▸ hi
      rw [at?_cons_of_child (List.getElem?_eq_getElem hi),
        at?_cons_of_child (List.getElem?_eq_getElem hi')]
      exact hchildren.get hi hi' path
    · have hi' : ¬ i < g.children.length := h.children ▸ hi
      rw [at?_cons, at?_cons, List.getElem?_eq_none (Nat.le_of_not_lt hi),
        List.getElem?_eq_none (Nat.le_of_not_lt hi')]
      exact .none

mutual

/-- The lines of a tree say where the tree ends. -/
theorem alike_of_dumpLines (h : names.Readable) {depth : Nat} {rest rest' : List (List Char)} :
    ∀ f g : Field, dumpLines names depth f ++ rest = dumpLines names depth g ++ rest' →
      Alike names f g ∧ rest = rest'
  | leaf tag content, g, heq => by
      rw [dumpLines_eq, dumpLines_eq names depth g] at heq
      obtain ⟨hline, hlines⟩ := List.cons.inj heq
      have hlooks := (line_eq_iff h depth).mp hline
      have hnil : g.children = [] := List.length_eq_zero_iff.mp hlooks.children.symm
      rw [hnil] at hlines
      refine ⟨alike_of_children hlooks ?_, hlines⟩
      rw [hnil]
      exact .nil
  | group tag grouping cs, g, heq => by
      rw [dumpLines_eq, dumpLines_eq names depth g] at heq
      obtain ⟨hline, hlines⟩ := List.cons.inj heq
      have hlooks := (line_eq_iff h depth).mp hline
      obtain ⟨hchildren, hrest⟩ := alikes_of_childLines h cs g.children hlooks.children hlines
      exact ⟨alike_of_children hlooks hchildren, hrest⟩

theorem alikes_of_childLines (h : names.Readable) {depth : Nat} {rest rest' : List (List Char)} :
    ∀ cs ds : List Field, cs.length = ds.length →
      childLines names depth cs ++ rest = childLines names depth ds ++ rest' →
        List.Forall₂ (Alike names) cs ds ∧ rest = rest'
  | [], [], _, heq => ⟨.nil, heq⟩
  | c :: cs, d :: ds, hlength, heq => by
      rw [childLines, childLines, List.append_assoc, List.append_assoc] at heq
      obtain ⟨hfirst, heq⟩ := alike_of_dumpLines h c d heq
      obtain ⟨hothers, hrest⟩ := alikes_of_childLines h cs ds (Nat.succ.inj hlength) heq
      exact ⟨.cons hfirst hothers, hrest⟩

end

mutual

theorem Alike.dumpLines_eq (h : names.Readable) (depth : Nat) :
    ∀ {f g : Field}, Alike names f g → dumpLines names depth f = dumpLines names depth g
  | leaf tag content, g, halike => by
      have hline := (line_eq_iff h depth).mpr halike.root
      have hnil : g.children = [] := List.length_eq_zero_iff.mp halike.root.children.symm
      rw [Field.dumpLines_eq, Field.dumpLines_eq names depth g, hline, hnil]
      rfl
  | group tag grouping cs, g, halike => by
      have hline := (line_eq_iff h depth).mpr halike.root
      rw [Field.dumpLines_eq, Field.dumpLines_eq names depth g, hline]
      exact congrArg _ (childLines_eq_of_alikes h (depth + 1) halike.children)

theorem childLines_eq_of_alikes (h : names.Readable) (depth : Nat) : ∀ {cs ds : List Field},
    List.Forall₂ (Alike names) cs ds → childLines names depth cs = childLines names depth ds
  | [], [], .nil => rfl
  | c :: cs, d :: ds, .cons hfirst hothers => by
      rw [childLines, childLines, Alike.dumpLines_eq h depth hfirst,
        childLines_eq_of_alikes h depth hothers]

end

theorem dump_eq_iff (h : names.Readable) : dump names f = dump names g ↔ Alike names f g := by
  constructor
  · intro heq
    have hlines : dumpLines names 0 f ++ [] = dumpLines names 0 g ++ [] := by
      rw [List.append_nil, List.append_nil, ← lines_dump h, heq, lines_dump h]
    exact (alike_of_dumpLines h f g hlines).1
  · intro halike
    rw [dump, dump, halike.dumpLines_eq h 0]

/-- A dump is faithful, whatever names are registered as long as a script can spell them: it lists the
fields of a tree, and two trees with one dump have the same kinds, sizes, children and content at every
path, and the same names up to an underscore for no name. -/
theorem dump_faithful (texts : List String) (h : ∀ text ∈ texts, Script.IsName text) :
    (∀ root, Listed (Names.empty.registerAll texts) root) ∧
      ∀ f g, dump (Names.empty.registerAll texts) f = dump (Names.empty.registerAll texts) g ↔
        Alike (Names.empty.registerAll texts) f g :=
  ⟨listed (Names.readable_registerAll h), fun _ _ => dump_eq_iff (Names.readable_registerAll h)⟩

/-- A field without a name and one named by an underscore have one dump; one named by a letter has
another. -/
theorem dump_faithful_underscore :
    (∀ text ∈ ["_", "a"], Script.IsName text) ∧
      Alike (Names.empty.registerAll ["_", "a"]) (leaf ⟨none, none⟩ (.block #[7]))
        (leaf ⟨some 0, none⟩ (.block #[7])) ∧
      ¬ Alike (Names.empty.registerAll ["_", "a"]) (leaf ⟨none, none⟩ (.block #[7]))
        (leaf ⟨some 1, none⟩ (.block #[7])) := by
  have hnames : ∀ text ∈ ["_", "a"], Script.IsName text := by
    intro text htext
    obtain rfl | rfl : text = "_" ∨ text = "a" := by simpa using htext
    · exact ⟨⟨'_', [], rfl, rfl, by simp⟩, fun k => by cases k <;> decide⟩
    · exact ⟨⟨'a', [], rfl, rfl, by simp⟩, fun k => by cases k <;> decide⟩
  obtain ⟨-, hdump⟩ := dump_faithful ["_", "a"] hnames
  exact ⟨hnames, (hdump _ _).mp (by decide +kernel), (hdump _ _).not.mp (by decide +kernel)⟩

end Field
end ArtifactLayout
