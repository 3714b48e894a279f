import ArtifactLayout.Proofs.Pass.Basic

/-! # Isolated passes

Whatever was done with a session before, with whatever sources and on whatever trees, the next pass goes
as it would go in a new session. All that a session remembers beside its program is the bindings of
the tree that it laid out last, and a pass replaces them before it reads any.
-/

namespace ArtifactLayout
set_option autoImplicit false

namespace Session

/-- What can be done with a session. Each use draws from a source of its own. -/
inductive Use : Type 1 where
  | layOut {σ : Type} [RandomSource σ] (source : σ)
  /-- Filling any tree, of the shape that was laid out last or not. -/
  | fill {σ : Type} [RandomSource σ] (root : Field) (source : σ)
  | generate {σ : Type} [RandomSource σ] (source : σ)
  | reorder (order : ByteOrder)

namespace Use

/-- The session that a use leaves, whether it succeeds or fails. -/
def perform : Use → Session → Session
  | layOut source, session => (Session.layOut ⟨session, source⟩).2.session
  -- a fill gives a tree and a source; the session is only read
  | fill _ _, session => session
  | generate source, session => (Session.generate ⟨session, source⟩).2.session
  | reorder order, session => session.ordered order

def performAll : List Use → Session → Session
  | [], session => session
  | use :: rest, session => performAll rest (use.perform session)

end Use

/-! ## What stays -/

/-- Sessions over the same script: at most the byte order and the bindings differ. -/
structure SameScript (a b : Session) : Prop where
  arena_eq : a.program.arena = b.program.arena
  fields_eq : a.program.fields = b.program.fields
  names_eq : a.program.names = b.program.names

namespace SameScript
variable {a b c : Session}

theorem refl (a : Session) : SameScript a a := ⟨rfl, rfl, rfl⟩

theorem trans (h : SameScript a b) (h' : SameScript b c) : SameScript a c :=
  ⟨h.arena_eq.trans h'.arena_eq, h.fields_eq.trans h'.fields_eq, h.names_eq.trans h'.names_eq⟩

theorem of_program_eq (h : a.program = b.program) : SameScript a b := by
  constructor <;> rw [h]

theorem program_ordered_eq (h : SameScript a b) (order : ByteOrder) :
    (a.ordered order).program = (b.ordered order).program := by
  obtain ⟨harena, hfields, hnames⟩ := h
  simp only [ordered, harena, hfields, hnames]

end SameScript

theorem sameScript_perform (use : Use) (session : Session) :
    SameScript (use.perform session) session := by
  cases use with
  | layOut source => exact .of_program_eq (layOut_program ⟨session, source⟩)
  | fill root source => exact .refl session
  | generate source => exact .of_program_eq (generate_program ⟨session, source⟩)
  | reorder order => exact ⟨rfl, rfl, rfl⟩

theorem sameScript_performAll (history : List Use) (session : Session) :
    SameScript (Use.performAll history session) session := by
  induction history generalizing session with
  | nil => exact .refl session
  | cons use rest ih => exact (ih (use.perform session)).trans (sameScript_perform use session)

/-! ## What a pass depends on -/

section Congr
variable {σ : Type} [RandomSource σ] {a b : Session}

theorem layOut_of_program_eq (h : a.program = b.program) {source : σ} {laid : Field} {after : Pass σ}
    (hlaid : layOut ⟨b, source⟩ = (.ok laid, after)) : layOut ⟨a, source⟩ = (.ok laid, after) := by
  obtain ⟨⟨session, rest⟩, hrun, hsource⟩ := layOut_congr (a := ⟨a, source⟩) hlaid
    (congrArg Program.arena h) (congrArg Program.fields h) rfl
  obtain rfl : rest = after.source := hsource
  -- both have the bindings of the tree, whatever they had before
  obtain ⟨-, hsession⟩ := of_layOut_ok hrun
  obtain ⟨-, hafter⟩ := of_layOut_ok hlaid
  obtain rfl : session = ⟨a.program, .ofTree laid⟩ := hsession
  have hafter : (⟨a.program, .ofTree laid⟩ : Session) = after.session := by rw [hafter, h]
  rw [hrun, hafter]

theorem layOut_error_of_program_eq (h : a.program = b.program) {source : σ} {fault : Fault}
    {after : Pass σ} (hlaid : layOut ⟨b, source⟩ = (.error fault, after)) :
    layOut ⟨a, source⟩ = (.error fault, ⟨a, after.source⟩) := by
  obtain ⟨⟨session, rest⟩, hrun, hsource⟩ := layOut_congr (a := ⟨a, source⟩) hlaid
    (congrArg Program.arena h) (congrArg Program.fields h) rfl
  obtain rfl : rest = after.source := hsource
  obtain rfl : session = a := session_of_layOut_error hrun
  exact hrun

end Congr

variable {σ : Type} [RandomSource σ]

/-- After any history of a session its arena, its script and its names are those of the program, and a
pass in any byte order from any source has the outcome of the same pass in a new session and leaves
the source in the same state. If the tree is laid out, it also leaves the same session, with the
bindings of that tree; otherwise it leaves the bindings as they were. -/
theorem passes_isolated (program : Program) (history : List Use) (order : ByteOrder) (source : σ) :
    let used := Use.performAll history (start program)
    let after := generate ⟨used.ordered order, source⟩
    let fresh := generate ⟨(start program).ordered order, source⟩
    (used.program.arena = program.arena ∧ used.program.fields = program.fields ∧
      used.program.names = program.names) ∧
    after.1 = fresh.1 ∧ after.2.source = fresh.2.source ∧
    match (layOut ⟨(start program).ordered order, source⟩).1 with
    | .ok laid => after.2.session = fresh.2.session ∧ after.2.session.bindings = .ofTree laid
    | .error _ => after.2.session = used.ordered order := by
  have hscript := sameScript_performAll history (start program)
  have hprogram := hscript.program_ordered_eq order
  dsimp only
  refine ⟨⟨hscript.arena_eq, hscript.fields_eq, hscript.names_eq⟩, ?_⟩
  rcases hlaid : layOut ⟨(start program).ordered order, source⟩ with ⟨fault | laid, mid⟩
  · have hused := layOut_error_of_program_eq hprogram hlaid
    rw [generate_of_layOut_error hlaid, generate_of_layOut_error hused]
    exact ⟨rfl, rfl, rfl⟩
  · have hused := layOut_of_program_eq hprogram hlaid
    obtain ⟨-, hsession⟩ := of_layOut_ok hlaid
    rw [generate_of_layOut_ok hlaid, generate_of_layOut_ok hused]
    exact ⟨rfl, rfl, rfl, congrArg Session.bindings hsession⟩

end Session
end ArtifactLayout
