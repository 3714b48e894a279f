import ArtifactLayout.Proofs.Fill.ByteOrder
import ArtifactLayout.Proofs.Pass.Basic

/-! # Passes in either byte order

One pass with numbers high byte first and one with numbers low byte first, from the same source. Laying
out knows nothing of the byte order, and the two fills go alike (`fill_mirrored`).
-/

namespace ArtifactLayout
set_option autoImplicit false

namespace Session
variable {σ : Type} [RandomSource σ]

/-- A pass in one byte order succeeds iff it does in the other; otherwise both fail with the same fault.
Both leave the source in the same state. Two trees that they give have the same shape, and the units of
a field in the one compare to those in the other as its filler says: what is given as content or drawn
is the same, and a number that is given or measured is reversed if the units are bytes. -/
theorem order_changes_numbers_only (session : Session) (source : σ) :
    let high := generate ⟨session.ordered .big, source⟩
    let low := generate ⟨session.ordered .little, source⟩
    success high.1 = success low.1 ∧ high.2.source = low.2.source ∧
    ∀ big little, high.1 = .ok big → low.1 = .ok little →
      big.SameShape little ∧
      ∀ path f g, big.at? path = some f → little.at? path = some g →
        ∀ id, f.filler = some id → ∀ filler, session.program.arena.fillers[id]? = some filler →
          filler.Mirrors f.unitBits f.units g.units := by
  dsimp only
  rcases hbig : layOut ⟨session.ordered .big, source⟩ with ⟨fault | laid, after⟩
  · obtain ⟨after', hlittle, hsource⟩ := layOut_congr
      (a := ⟨session.ordered .little, source⟩) hbig rfl rfl rfl
    rw [generate_of_layOut_error hbig, generate_of_layOut_error hlittle]
    exact ⟨rfl, hsource.symm, nofun⟩
  · obtain ⟨after', hlittle, hsource⟩ := layOut_congr
      (a := ⟨session.ordered .little, source⟩) hbig rfl rfl rfl
    obtain ⟨hfresh, hsession⟩ := of_layOut_ok hbig
    obtain ⟨-, hsession'⟩ := of_layOut_ok hlittle
    have hleaves := hfresh.fillersOnLeaves
    obtain ⟨houtcome, hrest, m⟩ := fill_mirrored session.program hfresh after.source
    rw [generate_of_layOut_ok hbig, generate_of_layOut_ok hlittle, hsession, hsession', hsource,
      success_map, success_map]
    refine ⟨houtcome, hrest, fun big little hbig hlittle => ?_⟩
    obtain ⟨hfilled, rfl⟩ := of_map_ok hbig
    obtain ⟨-, rfl⟩ := of_map_ok hlittle
    have s := sameShape_of_fill_ok hleaves (.refl laid) (Prod.ext hfilled rfl)
    exact ⟨m.shape, fun path f g hf hg id hid filler hfiller => m.mirrors hleaves s hf hg hid hfiller⟩

/-- Three random bytes, their number in ten bytes, and the same number in three bits. -/
def numberProgram : Program where
  arena := {
    decls := #[.block 0 3 (some 0), .block 1 10 none, .bitfield 1 3 none, .bits [2] none]
    templates := #[]
    fillers := #[.random, .quantity (.sizeOf 0)] }
  fields := [0, 1, 3]
  names := ⟨["data"]⟩
  order := .big

/-- The hypotheses can be met: where the pass with the high byte first has written the number in ten
bytes, the other has written it the other way round. -/
theorem order_changes_numbers_only_sample :
    ∃ big little f g,
      (generate ⟨(start numberProgram).ordered .big, ChaCha8.ofSeed 7⟩).1 = .ok big ∧
      (generate ⟨(start numberProgram).ordered .little, ChaCha8.ofSeed 7⟩).1 = .ok little ∧
      big.at? [1] = some f ∧ little.at? [1] = some g ∧
      f.units = [0, 0, 0, 0, 0, 0, 0, 0, 0, 3] ∧ g.units = f.units.reverse := by
  have hunits : ((generate ⟨(start numberProgram).ordered .big, ChaCha8.ofSeed 7⟩).1.toOption.bind
      fun big => (big.at? [1]).map fun f => (f.filler, f.unitBits, f.units)) =
        some (some 1, 8, [0, 0, 0, 0, 0, 0, 0, 0, 0, 3]) := by
    decide +kernel
  obtain ⟨hsuccess, -, htrees⟩ := order_changes_numbers_only (start numberProgram) (ChaCha8.ofSeed 7)
  rcases hbig : (generate ⟨(start numberProgram).ordered .big, ChaCha8.ofSeed 7⟩).1
    with fault | big
  · rw [hbig] at hunits
    cases hunits
  rcases hlittle : (generate ⟨(start numberProgram).ordered .little, ChaCha8.ofSeed 7⟩).1
    with fault | little
  · rw [hbig, hlittle] at hsuccess
    cases hsuccess
  rw [hbig] at hunits
  obtain ⟨f, hf, hunits⟩ := Option.map_eq_some_iff.mp hunits
  obtain ⟨hfiller, hbits, hunits⟩ : f.filler = some 1 ∧ f.unitBits = 8 ∧ f.units = _ := by
    simpa only [Prod.mk.injEq] using hunits
  obtain ⟨hshape, hmirrors⟩ := htrees big little hbig hlittle
  obtain ⟨g, hg, -⟩ := hshape.at? hf
  have hnumber : g.units = if f.unitBits = 1 then f.units else f.units.reverse :=
    hmirrors [1] f g hf hg 1 hfiller (.quantity (.sizeOf 0)) rfl
  rw [if_neg (by rw [hbits]; decide)] at hnumber
  exact ⟨big, little, f, g, rfl, rfl, hf, hg, hunits, hnumber⟩

end Session
end ArtifactLayout
