import ArtifactLayout.Proofs.Field.Lookup
import ArtifactLayout.Proofs.Field.Weight
import ArtifactLayout.Proofs.Guarded.Basic

/-! # Guarded reading of units

A unit is read by descending to the child that holds it, which every container finds in its table of
starts; compounds and copies try the child first that they found last. Whatever was looked up before,
each child that is found exists and no difference is below zero, on any tree and for any index.
-/

namespace ArtifactLayout
set_option autoImplicit false

open ArtifactLayout.Field

/-! ## Runs of children -/

/-- A run over some children. What it found last is the start of one of them. -/
structure Run.Over (r : Run) (cs : List Field) : Prop where
  children : r.children.toList = cs
  starts : r.starts.toList = startsFrom size 0 cs
  total : r.total = (cs.map size).sum
  last : ∀ child start, r.last = some (child, start) → r.starts[child]? = some start

namespace Run
variable {r : Run} {cs : List Field}

theorem Over.push (h : r.Over cs) (c : Field) : (r.push c).Over (cs ++ [c]) := by
  constructor
  · rw [Run.push, Array.toList_push, h.children]
  · rw [Run.push, Array.toList_push, h.starts, startsFrom_append, h.total, Nat.zero_add]
    rfl
  · rw [Run.push, h.total, List.map_append, List.sum_append]
    rfl
  · intro child start hlast
    have hstart := h.last child start hlast
    rw [Run.push, Array.getElem?_push_lt (Array.getElem?_eq_some_iff.mp hstart).1,
      ← Array.getElem?_eq_getElem, hstart]

theorem over_ofList (cs : List Field) : (ofList cs).Over cs := by
  have hfold : ∀ (cs done : List Field) (r : Run),
      r.Over done → (cs.foldl push r).Over (done ++ cs) := by
    intro cs
    induction cs with
    | nil => exact fun done r h => (List.append_nil done).symm ▸ h
    | cons c cs ih =>
      intro done r h
      have hrest := ih (done ++ [c]) (r.push c) (h.push c)
      rwa [List.append_assoc] at hrest
  exact hfold cs [] empty ⟨rfl, rfl, rfl, nofun⟩

theorem Over.start_of_child (h : r.Over cs) {k : Nat} {c : Field} (hc : cs[k]? = some c) :
    r.starts[k]? = some (startOf size cs k) := by
  have hk := (List.getElem?_eq_some_iff.mp hc).1
  rw [← Array.getElem?_toList, h.starts, getElem?_startsFrom hk, Nat.zero_add]

theorem Over.child_of_start (h : r.Over cs) {k start : Nat} (hstart : r.starts[k]? = some start) :
    ∃ c, cs[k]? = some c ∧ r.children[k]? = some c ∧ start = startOf size cs k := by
  have hk := (Array.getElem?_eq_some_iff.mp hstart).1
  rw [← Array.length_toList, h.starts, length_startsFrom] at hk
  have hc := List.getElem?_eq_getElem hk
  refine ⟨_, hc, ?_, ?_⟩
  · rw [← Array.getElem?_toList, h.children, hc]
  · rw [h.start_of_child hc] at hstart
    exact (Option.some.inj hstart).symm

end Run

namespace Guarded
variable {σ : Type}

/-- The last entry of a table that is no larger than a place, and how far the place lies beyond. -/
def place? (starts : Array Nat) (i : Nat) : Option (Nat × Nat) := do
  let border ← bisect? (fun start => some (decide (start ≤ i))) starts
  let child ← sub? border 1
  let start ← starts[child]?
  return (child, ← sub? i start)

theorem place?_startsFrom {weight : Field → Nat} {cs : List Field} {i : Nat}
    (hi : i < (cs.map weight).sum) :
    ∃ k inner c, Holds weight cs i k inner c ∧
      bisect (fun start => decide (start ≤ i)) (startsFrom weight 0 cs).toArray = k + 1 ∧
      place? (startsFrom weight 0 cs).toArray i = some (k, inner) := by
  obtain ⟨k, inner, c, hholds, hborder⟩ := bisect_startsFrom hi
  refine ⟨k, inner, c, hholds, hborder, ?_⟩
  have hk := (List.getElem?_eq_some_iff.mp hholds.child).1
  have hstart : (startsFrom weight 0 cs).toArray[k]? = some (startOf weight cs k) := by
    rw [List.getElem?_toArray, getElem?_startsFrom hk, Nat.zero_add]
  have hinner : sub? i (startOf weight cs k) = some inner := by
    rw [hholds.start, sub?_of_le (Nat.le_add_right _ _), Nat.add_sub_cancel_left]
  have htest : ∀ a ∈ (startsFrom weight 0 cs).toArray,
      some (decide (a ≤ i)) = some (decide (a ≤ i)) := fun _ _ => rfl
  rw [place?, bisect?_eq htest, hborder]
  simp only [Option.bind_eq_bind, Option.bind_some, sub?_of_le (Nat.le_add_left 1 k),
    Nat.add_sub_cancel, hstart, hinner]
  rfl

def search (r : Run) (i : Nat) : Guarded σ (Nat × Nat) :=
  if i < r.total then within (place? r.starts i) else throw (.indexOutOfRange i r.total)

def again? (r : Run) (i : Nat) : Guarded σ (Option (Nat × Nat)) :=
  match r.last with
  | none => return none
  | some (child, start) => do
    let f ← within r.children[child]?
    return if start ≤ i ∧ i < start + f.size then some (child, i - start) else none

def locate (i : Nat) : Guarded Run (Nat × Nat) := do
  let r ← attempt get
  match ← again? r i with
  | some found => return found
  | none =>
    let (child, inner) ← search r i
    let start ← within r.starts[child]?
    attempt (modify fun r => { r with last := some (child, start) })
    return (child, inner)

/-- A run after some lookups, which may have failed. -/
def after (earlier : List Nat) (r : Run) : Option Run :=
  earlier.foldlM (fun r i => (locate i r).map Prod.snd) r

end Guarded

open Guarded

namespace Run.Over
variable {σ : Type} {r : Run} {cs : List Field} {i : Nat}

theorem again? (h : r.Over cs) (i : Nat) (s : σ) :
    Guarded.again? r i s = some (.ok (r.again? i), s) := by
  rw [Guarded.again?, Run.again?]
  cases hlast : r.last with
  | none => rfl
  | some found =>
    obtain ⟨child, start⟩ := found
    obtain ⟨c, -, hc, -⟩ := h.child_of_start (h.last child start hlast)
    dsimp only
    rw [Guarded.bind_of_ok (within_of_some hc s), hc]
    rfl

theorem of_again? (h : r.Over cs) {k inner : Nat} (hfound : r.again? i = some (k, inner)) :
    ∃ c, Holds size cs i k inner c := by
  rw [Run.again?] at hfound
  cases hlast : r.last with
  | none =>
    rw [hlast] at hfound
    cases hfound
  | some found =>
    obtain ⟨child, start⟩ := found
    obtain ⟨c, hchild, hc, rfl⟩ := h.child_of_start (h.last child start hlast)
    rw [hlast] at hfound
    dsimp only at hfound
    rw [hc] at hfound
    dsimp only at hfound
    split at hfound
    · rename_i hbounds
      obtain ⟨rfl, rfl⟩ := Prod.mk.inj (Option.some.inj hfound)
      exact ⟨c, hchild, by omega, by omega⟩
    · cases hfound

theorem search (h : r.Over cs) (hi : i < (cs.map size).sum) :
    ∃ k inner c, Holds size cs i k inner c ∧ r.search i = .ok (k, inner) ∧
      place? r.starts i = some (k, inner) := by
  have hstarts : r.starts = (startsFrom size 0 cs).toArray := by rw [← h.starts]
  obtain ⟨k, inner, c, hholds, hborder, hplace⟩ := place?_startsFrom hi
  refine ⟨k, inner, c, hholds, ?_, hstarts ▸ hplace⟩
  have hstart : r.starts.getD k 0 = startOf size cs k := by
    rw [Array.getD_eq_getD_getElem?, h.start_of_child hholds.child, Option.getD_some]
  have hinner : i - startOf size cs k = inner := by
    rw [hholds.start, Nat.add_sub_cancel_left]
  rw [Run.search, if_pos (h.total ▸ hi), hstarts, hborder, ← hstarts]
  dsimp only
  rw [Nat.add_sub_cancel, hstart, hinner]

/-- Whether or not the child found last is tried first, a lookup leaves no domain and finds a child
that holds the unit. -/
theorem locate (h : r.Over cs) (i : Nat) :
    Guarded.locate i r = some (r.locate i) ∧ (r.locate i).2.Over cs ∧
    (i < (cs.map size).sum →
      ∃ k inner c, Holds size cs i k inner c ∧ (r.locate i).1 = .ok (k, inner)) ∧
    ((cs.map size).sum ≤ i → (r.locate i).1 = .error (.indexOutOfRange i (cs.map size).sum)) := by
  rw [Guarded.locate, Guarded.get_bind, Guarded.bind_of_ok (h.again? i r), Run.locate]
  cases hagain : r.again? i with
  | some found =>
    obtain ⟨k, inner⟩ := found
    obtain ⟨c, hholds⟩ := h.of_again? hagain
    exact ⟨rfl, h, fun _ => ⟨k, inner, c, hholds, rfl⟩,
      fun hle => absurd hholds.lt_sum (Nat.not_lt.mpr hle)⟩
  | none =>
    dsimp only
    rw [Guarded.search]
    by_cases hi : i < (cs.map size).sum
    · obtain ⟨k, inner, c, hholds, hsearch, hplace⟩ := h.search hi
      have hstart := h.start_of_child hholds.child
      rw [if_pos (h.total ▸ hi), Guarded.bind_of_ok (within_of_some hplace r), hsearch]
      dsimp only
      rw [Guarded.bind_of_ok (within_of_some hstart r), Array.getD_eq_getD_getElem?, hstart,
        Option.getD_some]
      refine ⟨rfl, ⟨h.children, h.starts, h.total, ?_⟩, fun _ => ⟨k, inner, c, hholds, rfl⟩,
        fun hle => absurd hi (Nat.not_lt.mpr hle)⟩
      intro child start hlast
      obtain ⟨rfl, rfl⟩ := Prod.mk.inj (Option.some.inj hlast)
      exact hstart
    · have hsearch : r.search i = .error (.indexOutOfRange i (cs.map size).sum) := by
        rw [Run.search, if_neg (h.total ▸ hi), h.total]
      rw [if_neg (h.total ▸ hi), hsearch, h.total]
      exact ⟨rfl, h, fun hlt => absurd hlt hi, fun _ => rfl⟩

theorem after (h : r.Over cs) (earlier : List Nat) :
    ∃ r', Guarded.after earlier r = some r' ∧ r'.Over cs := by
  induction earlier generalizing r with
  | nil => exact ⟨r, rfl, h⟩
  | cons i earlier ih =>
    obtain ⟨hlocate, hover, -⟩ := h.locate i
    obtain ⟨r', hafter, hr'⟩ := ih hover
    refine ⟨r', ?_, hr'⟩
    rw [Guarded.after, List.foldlM_cons, hlocate]
    exact hafter

end Run.Over

/-! ## Single units -/

namespace Guarded
variable {σ : Type}

/-- A byte of a leaf, or a bit from the byte that it is packed into. -/
def content? : Leaf → Nat → Option UInt8
  | .block content, i | .ranged _ _ content, i => content[i]?
  | .bitfield content, i => do
    let byte ← (Bits.pack content.toList)[i / 8]?
    let shift ← sub? 7 (i % 8)
    return (byte.toNat.testBit shift).toUInt8

/-- The lookups that a compound has served before it is asked, for each place in a run at which it is
asked. -/
abbrev Past := List Nat → List Nat

/-- A unit of some children that are read one after the other. -/
def readJoined (earlier : List Nat) (children : List Field)
    (readers : List (Nat → Guarded σ UInt8)) (i : Nat) : Guarded σ UInt8 := do
  let run ← within (after earlier (Run.ofList children))
  let (found, _) ← within (locate i run)
  let (child, inner) ← attempt (Attempt.check found)
  let reader ← within readers[child]?
  reader inner

/-- A bit of some children that are read bit by bit. -/
def readBit (children : List Field) (readers : List (Nat → Guarded σ UInt8)) (bit : Nat) :
    Guarded σ Bool := do
  let (child, inner) ← within (place? (startsFrom width 0 children).toArray bit)
  let field ← within children[child]?
  let reader ← within readers[child]?
  let unit ← within (if field.unitBits = 0 then none else some (inner / field.unitBits))
  let top ← within (sub? field.unitBits 1)
  let shift ← within (sub? top (inner % field.unitBits))
  let shift ← within (below? shift 8)
  return (← reader unit).toNat.testBit shift

/-- A byte of some children that are read bit by bit. -/
def readByte (children : List Field) (readers : Nat → List (Nat → Guarded σ UInt8)) (i : Nat) :
    Guarded σ UInt8 :=
  if i < (totalBits children + 7) / 8 then do
    let bits ← (List.range 8).mapM fun j =>
      if 8 * i + j < totalBits children then readBit children (readers j) (8 * i + j)
      else return false
    return Bits.toByte fun j => bits.getD j false
  else throw (.indexOutOfRange i ((totalBits children + 7) / 8))

mutual

def readUnit (past : Past) : Field → Nat → Guarded σ UInt8
  | .leaf _ content, i =>
    if i < content.size then within (content? content i)
    else throw (.indexOutOfRange i content.size)
  | .group _ .bits children, i =>
    readByte children (fun j => readers (fun place => past (j :: place)) 0 children) i
  | .group _ .compound children, i => readJoined (past []) children (readers past 0 children) i
  | .group _ .repeated children, i => readJoined (past []) children (readers past 0 children) i

/-- How each of some children is read, the first of which has an index. -/
def readers (past : Past) (index : Nat) : List Field → List (Nat → Guarded σ UInt8)
  | [] => []
  | c :: cs => readUnit (fun place => past (index :: place)) c :: readers past (index + 1) cs

end

end Guarded

section Read
variable {σ : Type} {cs : List Field} {rs : List (Nat → Guarded σ UInt8)}

theorem content?_eq {content : Leaf} {i : Nat} (h : i < content.size) :
    content? content i = content.unit? i := by
  cases content with
  | block content => rfl
  | ranged low high content => rfl
  | bitfield content =>
    have hi : i < content.toList.length := h
    have hmod : i % 8 < 8 := Nat.mod_lt i (by decide)
    have hbyte := Bits.getElem?_pack content.toList (i / 8)
    rw [if_pos (by omega)] at hbyte
    have hbit := Bits.testBit_toByte (fun j => content.toList.getD (8 * (i / 8) + j) false) hmod
    rw [Nat.div_add_mod, List.getD_eq_getElem?_getD, Array.getElem?_toList] at hbit
    obtain ⟨bit, hsome⟩ : ∃ bit, content[i]? = some bit := ⟨_, Array.getElem?_eq_getElem h⟩
    rw [hsome, Option.getD_some] at hbit
    rw [content?, Leaf.unit?, hbyte, hsome, sub?_of_le (Nat.le_of_lt_succ hmod)]
    simp only [Option.bind_eq_bind, Option.bind_some, hbit, Option.map_some]
    rfl

/-- Readers that read the units of some children. -/
def ReadersOf (rs : List (Nat → Guarded σ UInt8)) (cs : List Field) : Prop :=
  ∀ (k : Nat) (c : Field), cs[k]? = some c → ∃ reader : Nat → Guarded σ UInt8, rs[k]? = some reader ∧
    ∀ i s, Safe (reader i) (Attempt.check (c.get i)) s

theorem readJoined_safe (h : ReadersOf rs cs) (earlier : List Nat) {f : Field}
    (hsize : f.size = (cs.map size).sum) (hunit : ∀ i, f.unit? i = joinedUnit? cs i) (i : Nat)
    (s : σ) :
    Safe (readJoined earlier cs rs i) (Attempt.check (f.get i)) s := by
  obtain ⟨run, hrun, hover⟩ := (Run.over_ofList cs).after earlier
  obtain ⟨hlocate, -, hfound, hmissed⟩ := hover.locate i
  refine Safe.of_within hrun (Safe.of_within hlocate ?_)
  generalize run.locate i = result at hfound hmissed
  obtain ⟨found, run'⟩ := result
  dsimp only at hfound hmissed ⊢
  by_cases hi : i < (cs.map size).sum
  · obtain ⟨k, inner, c, hholds, rfl⟩ := hfound hi
    obtain ⟨reader, hreader, hsafe⟩ := h k c hholds.child
    have hget : f.get i = c.get inner := by
      obtain ⟨unit, hunit', hc⟩ := get_of_lt hholds.inner_lt
      rw [hc, Field.get, hunit, hholds.joinedUnit?_eq, hunit']
    rw [hget]
    exact Safe.of_bind rfl (Safe.of_within hreader (hsafe inner s))
  · have hle := Nat.le_of_not_lt hi
    rw [hmissed hle, get_of_le (hsize ▸ hle), hsize]
    rfl

theorem readBit_eq (h : ReadersOf rs cs) {bit : Nat} (hbit : bit < totalBits cs) (s : σ) :
    readBit cs rs bit s = some (.ok ((joinedBit? cs bit).getD false), s) := by
  obtain ⟨k, inner, c, hholds, -, hplace⟩ := place?_startsFrom (totalBits_eq_sum cs ▸ hbit)
  obtain ⟨reader, hreader, hsafe⟩ := h k c hholds.child
  have hpos := c.unitBits_pos
  have hle := c.unitBits_le
  have hmod := Nat.mod_lt inner hpos
  have hunit : inner / c.unitBits < c.size :=
    Nat.div_lt_of_lt_mul (Nat.mul_comm _ _ ▸ hholds.inner_lt)
  obtain ⟨unit, hsome, hget⟩ := get_of_lt hunit
  have hvalue : joinedBit? cs bit =
      some (unit.toNat.testBit (c.unitBits - 1 - inner % c.unitBits)) := by
    rw [hholds.joinedBit?_eq, bits, Bits.getElem?_ofUnits hpos, ← unit?_eq, hsome, Option.map_some]
  have hread : reader (inner / c.unitBits) s = some (.ok unit, s) := by
    rw [hsafe, Attempt.check_apply, hget]
  rw [readBit, bind_of_ok (within_of_some hplace s)]
  dsimp only
  rw [bind_of_ok (within_of_some hholds.child s), bind_of_ok (within_of_some hreader s),
    if_neg (Nat.ne_of_gt hpos), bind_of_ok (within_of_some rfl s),
    bind_of_ok (within_of_some (sub?_of_le hpos) s),
    bind_of_ok (within_of_some (sub?_of_le (by omega)) s),
    bind_of_ok (within_of_some (below?_of_lt (by omega)) s), bind_of_ok hread, hvalue]
  rfl

theorem readByte_safe {rs : Nat → List (Nat → Guarded σ UInt8)} (h : ∀ j, ReadersOf (rs j) cs)
    (tag : Tag) (i : Nat) (s : σ) :
    Safe (readByte cs rs i) (Attempt.check ((group tag .bits cs).get i)) s := by
  rw [readByte]
  by_cases hi : i < (totalBits cs + 7) / 8
  · have hread : ∀ j ∈ List.range 8, (if 8 * i + j < totalBits cs then readBit cs (rs j) (8 * i + j)
        else pure false : Guarded σ Bool) s =
          some (.ok ((joinedBit? cs (8 * i + j)).getD false), s) := by
      intro j _
      by_cases hbit : 8 * i + j < totalBits cs
      · rw [if_pos hbit, readBit_eq (h j) hbit]
      · rw [if_neg hbit, joinedBit?_eq, List.getElem?_eq_none (by rw [length_joinedBits]; omega)]
        rfl
    have hbyte : Bits.toByte (fun j => ((List.range 8).map fun j =>
        (joinedBit? cs (8 * i + j)).getD false).getD j false) =
          Bits.toByte fun j => (joinedBit? cs (8 * i + j)).getD false := by
      refine Bits.toByte_congr fun j hj => ?_
      rw [List.getD_eq_getElem?_getD, List.getElem?_map, List.getElem?_range hj]
      rfl
    have hget : (group tag .bits cs).get i =
        .ok (Bits.toByte fun j => (joinedBit? cs (8 * i + j)).getD false) := by
      rw [Field.get, unit?, if_pos (by omega)]
    rw [if_pos hi, hget]
    refine Safe.of_bind (mapM_of_ok hread) ?_
    rw [hbyte]
    rfl
  · rw [if_neg hi, get_of_le (Nat.le_of_not_lt hi)]
    rfl

mutual

theorem readUnit_safe : ∀ (f : Field) (past : Past) (i : Nat) (s : σ),
    Safe (readUnit past f i) (Attempt.check (f.get i)) s
  | .leaf tag content, past, i, s => by
      rw [readUnit]
      by_cases hi : i < content.size
      · obtain ⟨unit, hunit, hget⟩ := get_of_lt (f := .leaf tag content) hi
        rw [if_pos hi, hget]
        exact within_of_some ((content?_eq hi).trans hunit) s
      · rw [if_neg hi, get_of_le (f := .leaf tag content) (Nat.le_of_not_lt hi)]
        rfl
  | .group tag .bits children, past, i, s => by
      rw [readUnit]
      exact readByte_safe (fun j => readers_safe children _ 0) tag i s
  | .group tag .compound children, past, i, s => by
      rw [readUnit]
      exact readJoined_safe (f := .group tag .compound children) (readers_safe children past 0) _
        (totalUnits_eq_sum children) (fun _ => rfl) i s
  | .group tag .repeated children, past, i, s => by
      rw [readUnit]
      exact readJoined_safe (f := .group tag .repeated children) (readers_safe children past 0) _
        (totalUnits_eq_sum children) (fun _ => rfl) i s

theorem readers_safe : ∀ (cs : List Field) (past : Past) (index : Nat),
    ReadersOf (readers past index cs : List (Nat → Guarded σ UInt8)) cs
  | [], past, index => fun k c hc => by cases hc
  | d :: ds, past, index => by
      intro k c hc
      rw [readers]
      cases k with
      | zero =>
        obtain rfl : d = c := Option.some.inj hc
        exact ⟨_, rfl, readUnit_safe d _⟩
      | succ k => exact readers_safe ds past (index + 1) k c hc

end

end Read
end ArtifactLayout
