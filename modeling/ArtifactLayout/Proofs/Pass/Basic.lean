import ArtifactLayout.Proofs.Fill.Consistency

/-! # Passes

A pass lays out a tree and fills it. What it comes to is said here by the two parts: the bindings that
the fill goes by are those of the tree that was just laid out, and the tree that is generated has its
shape.
-/

namespace ArtifactLayout
set_option autoImplicit false

namespace Session

/-- The session with numbers in a given byte order. -/
def ordered (session : Session) (order : ByteOrder) : Session :=
  { session with program := { session.program with order } }

/-- Whether a pass succeeds, and with which fault it fails. -/
def success (outcome : Except Fault Field) : Except Fault Unit := outcome.map fun _ => ()

theorem success_map (filled : Except Fault Unit) (root : Field) :
    success (filled.map fun _ => root) = filled := by
  cases filled <;> rfl

theorem of_map_ok {filled : Except Fault Unit} {root tree : Field}
    (h : (filled.map fun _ => root) = .ok tree) : filled = .ok () ∧ root = tree := by
  cases filled with
  | error fault => cases h
  | ok => exact ⟨rfl, Except.ok.inj h⟩

variable {σ : Type} [RandomSource σ]

/-! ## Laying out -/

theorem layOut_program (a : Pass σ) : (layOut a).2.session.program = a.session.program := by
  rw [layOut]
  rcases a.session.program.arena.allocateRoot a.session.program.fields a.source
    with ⟨_ | root, source⟩ <;> rfl

theorem session_of_layOut_error {a after : Pass σ} {fault : Fault}
    (h : layOut a = (.error fault, after)) : after.session = a.session := by
  rw [layOut] at h
  rcases hrun : a.session.program.arena.allocateRoot a.session.program.fields a.source
    with ⟨_ | root, source⟩
  · rw [hrun] at h
    cases h
    rfl
  · rw [hrun] at h
    cases h

/-- What is laid out depends on the declarations and the source alone. -/
theorem layOut_congr {a b after : Pass σ} {outcome : Except Fault Field}
    (h : layOut b = (outcome, after)) (harena : a.session.program.arena = b.session.program.arena)
    (hfields : a.session.program.fields = b.session.program.fields) (hsource : a.source = b.source) :
    ∃ after', layOut a = (outcome, after') ∧ after'.source = after.source := by
  rw [layOut] at h ⊢
  rw [harena, hfields, hsource]
  rcases hrun : b.session.program.arena.allocateRoot b.session.program.fields b.source
    with ⟨_ | root, source⟩
  all_goals
    rw [hrun] at h
    cases h
    exact ⟨_, rfl, rfl⟩

/-! ## Generating -/

theorem generate_of_layOut_ok {a after : Pass σ} {laid : Field} (h : layOut a = (.ok laid, after)) :
    generate a =
      ((after.session.fill laid after.source).1.map fun _ =>
          (after.session.fill laid after.source).2.root,
        { after with source := (after.session.fill laid after.source).2.source }) := by
  rw [generate, Attempt.bind_of_ok h]

theorem generate_of_layOut_error {a after : Pass σ} {fault : Fault}
    (h : layOut a = (.error fault, after)) : generate a = (.error fault, after) := by
  rw [generate, Attempt.bind_of_error h]

theorem generate_program (a : Pass σ) : (generate a).2.session.program = a.session.program := by
  have hprogram := layOut_program a
  rcases hrun : layOut a with ⟨fault | laid, after⟩
  · rw [generate_of_layOut_error hrun, ← hprogram, hrun]
  · rw [generate_of_layOut_ok hrun, ← hprogram, hrun]

theorem success_generate {a after : Pass σ} {laid : Field} (h : layOut a = (.ok laid, after)) :
    success (generate a).1 = match a.session.program.firstFault laid with
      | none => .ok ()
      | some fault => .error fault := by
  obtain ⟨hfresh, hsession⟩ := of_layOut_ok h
  rw [generate_of_layOut_ok h, success_map, hsession, Session.fill]
  exact fill_outcome _ hfresh.fillersOnLeaves (.refl laid) _

theorem of_generate_ok {pass after : Pass σ} {root : Field} (h : generate pass = (.ok root, after)) :
    ∃ laid mid final, layOut pass = (.ok laid, mid) ∧
      mid.session.fill laid mid.source = (.ok (), final) ∧ root = final.root := by
  obtain ⟨laid, mid, hlaid, h⟩ := Attempt.of_bind_ok h
  rcases hfill : mid.session.fill laid mid.source with ⟨fault | ⟨⟩, final⟩
  · rw [hfill] at h
    cases h
  · rw [hfill] at h
    cases h
    exact ⟨laid, mid, final, hlaid, hfill, rfl⟩

theorem sameShape_of_generate_ok {pass after : Pass σ} {root : Field}
    (h : generate pass = (.ok root, after)) :
    ∃ laid mid, layOut pass = (.ok laid, mid) ∧ root.SameShape laid := by
  obtain ⟨laid, mid, final, hlaid, hfill, rfl⟩ := of_generate_ok h
  obtain ⟨hfresh, hsession⟩ := of_layOut_ok hlaid
  rw [Session.fill, hsession] at hfill
  exact ⟨laid, mid, hlaid, sameShape_of_fill_ok hfresh.fillersOnLeaves (.refl laid) hfill⟩

end Session
end ArtifactLayout
