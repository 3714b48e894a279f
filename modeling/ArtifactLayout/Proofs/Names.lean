import Mathlib.Data.List.Induction
import Mathlib.Data.List.Nodup
import ArtifactLayout.Names

/-! # Tables of names

A name keeps its number and a number its name, however many names are added later. Names are numbered
in the order in which they are first met, without gaps and without repetition.
-/

namespace ArtifactLayout
set_option autoImplicit false

namespace Names
variable {names more : Names} {name : String} {id : FieldId}

/-- The table after some names have been met in turn. -/
def registerAll (names : Names) (texts : List String) : Names :=
  texts.foldl (fun names text => (names.register text).2) names

theorem registerAll_append (names : Names) (texts others : List String) :
    names.registerAll (texts ++ others) = (names.registerAll texts).registerAll others :=
  List.foldl_append

theorem id?_eq_none_iff : names.id? name = none ↔ name ∉ names.list := List.idxOf?_eq_none_iff

theorem name?_of_id? (h : names.id? name = some id) : names.name? id = some name := by
  obtain ⟨hlt, hname, -⟩ := List.idxOf?_eq_some_iff.mp h
  exact List.getElem?_eq_some_iff.mpr ⟨hlt, hname⟩

theorem lt_of_name? (h : names.name? id = some name) : id < names.count :=
  (List.getElem?_eq_some_iff.mp h).1

theorem mem_of_name? (h : names.name? id = some name) : name ∈ names.list := List.mem_of_getElem? h

theorem exists_name? (h : id < names.count) : ∃ name, names.name? id = some name :=
  ⟨names.list[id], List.getElem?_eq_getElem h⟩

theorem list_register (names : Names) (name : String) :
    (names.register name).2.list =
      if name ∈ names.list then names.list else names.list ++ [name] := by
  rw [register]
  cases hid : names.id? name with
  | none => rw [if_neg (id?_eq_none_iff.mp hid)]
  | some id => rw [if_pos (mem_of_name? (name?_of_id? hid))]

theorem prefix_register (names : Names) (name : String) :
    names.list <+: (names.register name).2.list := by
  rw [list_register]
  split
  · exact List.prefix_rfl
  · exact List.prefix_append _ _

theorem prefix_registerAll (names : Names) (texts : List String) :
    names.list <+: (names.registerAll texts).list := by
  induction texts generalizing names with
  | nil => exact List.prefix_rfl
  | cons text texts ih => exact (prefix_register names text).trans (ih _)

theorem name?_register (names : Names) (name : String) :
    (names.register name).2.name? (names.register name).1 = some name := by
  rw [register]
  cases hid : names.id? name with
  | none => exact List.getElem?_concat_length
  | some id => exact name?_of_id? hid

/-- A number keeps its name. -/
theorem name?_of_le (h : names.list <+: more.list) (hname : names.name? id = some name) :
    more.name? id = some name := by
  obtain ⟨later, hlater⟩ := h
  rw [name?, ← hlater, List.getElem?_append_left (lt_of_name? hname)]
  exact hname

theorem eraseDups_concat (texts : List String) (text : String) :
    (texts ++ [text]).eraseDups =
      if text ∈ texts then texts.eraseDups else texts.eraseDups ++ [text] := by
  rw [List.eraseDups_append]
  by_cases h : text ∈ texts <;> simp [h, List.removeAll, List.eraseDups_cons]

/-- The table holds the names that have been met, each at the place of its first mention. -/
theorem list_registerAll (texts : List String) : (empty.registerAll texts).list = texts.eraseDups := by
  induction texts using List.reverseRecOn with
  | nil => rfl
  | append_singleton texts text ih =>
    rw [registerAll_append, eraseDups_concat]
    refine (list_register _ text).trans ?_
    simp only [ih, List.mem_eraseDups]

theorem nodup_register (h : names.list.Nodup) (name : String) :
    (names.register name).2.list.Nodup := by
  rw [list_register]
  split
  · exact h
  · rename_i hname
    exact List.nodup_append.mpr ⟨h, List.nodup_singleton name, fun a ha b hb => by
      rintro rfl
      exact hname (List.mem_singleton.mp hb ▸ ha)⟩

theorem nodup_registerAll (h : names.list.Nodup) (texts : List String) :
    (names.registerAll texts).list.Nodup := by
  induction texts generalizing names with
  | nil => exact h
  | cons text texts ih => exact ih (nodup_register h text)

/-- In a table without repetition, names and the numbers below its length belong to each other one to
one. -/
theorem id?_eq_some_iff (h : names.list.Nodup) : names.id? name = some id ↔ names.name? id = some name := by
  constructor
  · exact name?_of_id?
  · intro hname
    cases hid : names.id? name with
    | none => exact absurd (mem_of_name? hname) (id?_eq_none_iff.mp hid)
    | some other =>
      have hsame : names.list[other]? = names.list[id]? := (name?_of_id? hid).trans hname.symm
      exact congrArg some ((List.getElem?_inj (lt_of_name? (name?_of_id? hid)) h).mp hsame)

/-! ## Numbers of some names in turn -/

/-- Some numbers are those of some names. -/
def Spells (names : Names) (ids : List FieldId) (texts : List String) : Prop :=
  ids.map names.name? = texts.map some

namespace Spells
variable {ids others : List FieldId} {texts rest : List String}

theorem nil (names : Names) : names.Spells [] [] := rfl

theorem single (h : names.name? id = some name) : names.Spells [id] [name] := congrArg ([·]) h

theorem append (h : names.Spells ids texts) (h' : names.Spells others rest) :
    names.Spells (ids ++ others) (texts ++ rest) := by
  rw [Spells, List.map_append, List.map_append, h, h']

theorem exists_name (h : names.Spells ids texts) (hid : id ∈ ids) :
    ∃ name ∈ texts, names.name? id = some name := by
  have hmem : names.name? id ∈ texts.map some := h ▸ List.mem_map_of_mem hid
  obtain ⟨name, hname, heq⟩ := List.mem_map.mp hmem
  exact ⟨name, hname, heq.symm⟩

theorem exists_id (h : names.Spells ids texts) (hname : name ∈ texts) :
    ∃ id ∈ ids, names.name? id = some name := by
  have hmem : some name ∈ ids.map names.name? := h ▸ List.mem_map_of_mem hname
  exact List.mem_map.mp hmem

theorem of_le (h : names.Spells ids texts) (hle : names.list <+: more.list) :
    more.Spells ids texts := by
  rw [Spells, ← h]
  refine List.map_congr_left fun id hid => ?_
  obtain ⟨name, -, hname⟩ := h.exists_name hid
  rw [name?_of_le hle hname, hname]

theorem mem_iff (h : names.Spells ids texts) (hnodup : names.list.Nodup)
    (hname : names.name? id = some name) : id ∈ ids ↔ name ∈ texts := by
  constructor
  · intro hid
    obtain ⟨other, hother, heq⟩ := h.exists_name hid
    rw [hname] at heq
    exact Option.some.inj heq ▸ hother
  · intro hmem
    obtain ⟨other, hother, heq⟩ := h.exists_id hmem
    have hsame := (id?_eq_some_iff hnodup).mpr heq
    rw [(id?_eq_some_iff hnodup).mpr hname] at hsame
    exact Option.some.inj hsame ▸ hother

/-- The first number that is not among others is that of the first name that is not among theirs. -/
theorem find?_notMem (h : names.Spells ids texts) (h' : names.Spells others rest)
    (hnodup : names.list.Nodup) :
    (ids.find? fun id => id ∉ others).bind names.name? = texts.find? fun name => name ∉ rest := by
  induction ids generalizing texts with
  | nil =>
    obtain rfl : texts = [] := List.map_eq_nil_iff.mp h.symm
    rfl
  | cons id ids ih =>
    obtain ⟨name, texts, rfl, hname, htail⟩ := List.map_eq_cons_iff.mp h.symm
    have hmem := h'.mem_iff hnodup hname.symm
    by_cases hrest : name ∈ rest
    · rw [List.find?_cons_of_neg (by simpa using hmem.mpr hrest),
        List.find?_cons_of_neg (by simpa using hrest)]
      exact ih htail.symm
    · rw [List.find?_cons_of_pos (by simpa using fun hid => hrest (hmem.mp hid)),
        List.find?_cons_of_pos (by simpa using hrest)]
      exact hname.symm

end Spells
end Names
end ArtifactLayout
