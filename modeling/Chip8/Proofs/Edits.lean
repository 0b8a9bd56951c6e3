import Chip8.Proofs.Frame
import Chip8.Proofs.History

/-! Edits of the screen. A screen takes another size, is cleared, or has a pixel inverted, and each
of these marks it as drawn on. Every operation on a machine has its list of edits, and does nothing
else to the screen. -/

namespace Chip8

namespace Display

/-- A single change to a screen. -/
inductive Edit where
  /-- Takes the size of a resolution and goes dark. -/
  | resize (low : Bool)
  | clear
  | invert (pixel : Nat × Nat)
  deriving DecidableEq, Repr

def edit (d : Display) : Edit → Display
  | .resize low => if low then lowResolution else highResolution
  | .clear => d.clear
  | .invert pixel => d.flip pixel

def editAll (d : Display) (edits : List Edit) : Display := edits.foldl edit d

theorem editAll_append (d : Display) (edits rest : List Edit) :
    d.editAll (edits ++ rest) = (d.editAll edits).editAll rest := List.foldl_append

theorem editAll_invert (d : Display) (ps : List (Nat × Nat)) :
    d.editAll (ps.map .invert) = d.flipAll ps := List.foldl_map

theorem dirty_edit (d : Display) (e : Edit) : (d.edit e).dirty = true := by
  cases e with
  | resize low => cases low <;> rfl
  | clear | invert => rfl

/-- Whoever edits a screen draws on it. -/
theorem dirty_editAll (d : Display) (edits : List Edit) :
    (d.editAll edits).dirty = (d.dirty || !edits.isEmpty) := by
  induction edits generalizing d with
  | nil => exact (Bool.or_false _).symm
  | cons e rest ih =>
    have edited : (d.editAll (e :: rest)).dirty = ((d.edit e).dirty || !rest.isEmpty) :=
      ih (d.edit e)
    rw [edited, dirty_edit, List.isEmpty_cons, Bool.true_or, Bool.not_false, Bool.or_true]

/-- An edit does not ask whether the screen has been drawn on. -/
theorem edit_dirty (d : Display) (dirty : Bool) (e : Edit) :
    { d with dirty := dirty }.edit e = d.edit e := by
  cases e <;> rfl

theorem editAll_dirty (d : Display) (dirty : Bool) (edits : List Edit) :
    ∃ dirty', { d with dirty := dirty }.editAll edits =
      { d.editAll edits with dirty := dirty' } := by
  cases edits with
  | nil => exact ⟨dirty, rfl⟩
  | cons e rest =>
    refine ⟨(d.editAll (e :: rest)).dirty, ?_⟩
    show ({ d with dirty := dirty }.edit e).editAll rest = (d.edit e).editAll rest
    rw [edit_dirty]

theorem Proper.resize (d : Display) (low : Bool) : (d.edit (.resize low)).Proper := by
  cases low <;> exact blank_proper _ _

end Display

namespace Machine

open Display (Edit)

/-- The edits of an instruction; one that is refused has none. -/
def edits (m : Machine) : Instruction → List Edit
  | .clear => [.clear]
  | .lowResolution => if m.lowRes then [] else [.resize true]
  | .highResolution => if m.lowRes then [.resize false] else []
  | .draw x y height =>
    match m.stampAt x y height with
    | .ok stamp => (m.display.under stamp).map .invert
    | .error _ => []
  | _ => []

/-- The edits of an operation. -/
def editsBy (m : Machine) : Operation → List Edit
  | .load program address =>
    match m.loadProgram program address with
    | .ok _ => [.resize true]
    | .error _ => []
  | .reset _ => [.resize true]
  | .step =>
    match m.upcoming? with
    | some i => m.edits i
    | none => []
  | .tick | .setKey _ _ | .setDialect _ => []

variable {m m' : Machine} {i : Instruction}

theorem edits_of_draws (still : i.draws m.lowRes = false) : m.edits i = [] := by
  cases i with
  | clear | draw => cases still
  | lowResolution | highResolution =>
    cases low : m.lowRes <;> simp_all [edits, Instruction.draws]
  | _ => rfl

theorem edits_of_refused (hd : m.display.Proper) {fault : Fault} (h : m.execute i = .error fault m') :
    m.edits i = [] := by
  cases i with
  | draw x y height =>
    cases found : m.stampAt x y height with
    | error fault => simp only [edits, found]
    | ok stamp => cases (run_draw_of_proper hd found).symm.trans h
  | ret | jump | call | jumpOffset | decimal | dump | fill => rfl
  | _ => cases h

theorem display_setResolution (m : Machine) (low : Bool) :
    (m.setResolution low).display =
      if m.lowRes = low then m.display else m.display.edit (.resize low) := by
  unfold setResolution
  split <;> rfl

/-- An instruction does its edits to the screen and nothing else. -/
theorem display_of_execute (hd : m.display.Proper) (next : m.next = m.pc + 2)
    (h : m.execute i = .ok () m') : m'.display = m.display.editAll (m.edits i) := by
  cases draws : i.draws m.lowRes with
  | false =>
    rw [edits_of_draws draws]
    rcases (frame_of_execute next h).display with kept | ⟨j, same, drawn⟩
    · exact kept
    · obtain rfl := Option.some.inj same
      rw [draws] at drawn
      cases drawn
  | true =>
    cases i with
    | clear =>
      cases h
      rfl
    | lowResolution | highResolution =>
      obtain rfl := Execution.of_modify h
      rw [display_setResolution]
      cases low : m.lowRes <;> simp_all [edits, Instruction.draws, Display.editAll]
    | draw x y height =>
      cases found : m.stampAt x y height with
      | error fault => cases (run_draw_of_refused found).symm.trans h
      | ok stamp =>
        cases (run_draw_of_proper hd found).symm.trans h
        simp only [edits, found, Display.editAll_invert]
        rfl
    | _ => cases draws

theorem edits_fetched (m : Machine) (opcode : UInt16) (i : Instruction) :
    (m.fetched opcode).edits i = m.edits i := by
  cases i <;> rfl

theorem display_step (hd : m.display.Proper) :
    m.step.machine.display = m.display.editAll (m.editsBy .step) := by
  unfold editsBy
  cases upcoming : m.upcoming? with
  | none =>
    rcases (frame_of_idle upcoming).display with kept | ⟨_, some, _⟩
    · exact kept
    · cases some
  | some i =>
    obtain ⟨_, opcode, _, step⟩ := of_upcoming? upcoming
    rw [step]
    dsimp only
    rw [← m.edits_fetched opcode i]
    cases executed : (m.fetched opcode).execute i with
    | error fault m' =>
      rw [(perform_of_error executed).1, edits_of_refused (m := m.fetched opcode) hd executed,
        eq_of_execute_error (m := m.fetched opcode) hd executed]
      rfl
    | ok _ m' =>
      have drawn : m'.display = m.display.editAll _ :=
        display_of_execute (m := m.fetched opcode) hd rfl executed
      rw [(perform_of_ok executed).1, ← drawn]
      split <;> rfl

/-- An operation does its edits to the screen and nothing else. -/
theorem display_answer (hd : m.display.Proper) (operation : Operation) :
    (m.answer operation).machine.display = m.display.editAll (m.editsBy operation) := by
  cases operation with
  | load program address =>
    cases loaded : m.loadProgram program address with
    | error fault =>
      simp only [answer, editsBy, loaded]
      rfl
    | ok m' =>
      simp only [answer, editsBy, loaded]
      obtain ⟨_, _, rfl⟩ := of_loadProgram loaded
      rfl
  | step => exact display_step hd
  | setKey key pressed =>
    obtain ⟨keypad, answered⟩ := m.answer_setKey key pressed
    rw [answered]
    rfl
  | reset | tick | setDialect => rfl

/-! ## The screen keeps its form -/

theorem proper_edits (hd : m.display.Proper) (i : Instruction) :
    (m.display.editAll (m.edits i)).Proper := by
  cases i with
  | clear => exact hd.clear
  | lowResolution =>
    show (m.display.editAll (if m.lowRes then [] else [.resize true])).Proper
    split
    · exact hd
    · exact .resize m.display true
  | highResolution =>
    show (m.display.editAll (if m.lowRes then [.resize false] else [])).Proper
    split
    · exact .resize m.display false
    · exact hd
  | draw x y height =>
    cases found : m.stampAt x y height with
    | error fault =>
      simp only [edits, found]
      exact hd
    | ok stamp =>
      simp only [edits, found, Display.editAll_invert]
      exact hd.flipAll_under stamp
  | _ => exact hd

theorem proper_answer (hd : m.display.Proper) (operation : Operation) :
    (m.answer operation).machine.display.Proper := by
  rw [display_answer hd]
  cases operation with
  | load program address =>
    cases loaded : m.loadProgram program address with
    | error fault =>
      simp only [editsBy, loaded]
      exact hd
    | ok m' =>
      simp only [editsBy, loaded]
      exact .resize m.display true
  | reset => exact .resize m.display true
  | step =>
    cases upcoming : m.upcoming? with
    | none =>
      simp only [editsBy, upcoming]
      exact hd
    | some i =>
      simp only [editsBy, upcoming]
      exact proper_edits hd i
  | tick | setKey | setDialect => exact hd

/-- On its way a machine keeps a screen in form; and one that has been drawn on goes on counting as
that, since only a host that shows it knows better. -/
theorem drawn_after (hd : m.display.Proper) (dirty : m.display.dirty = true)
    (operations : List Operation) :
    (m.after operations).display.Proper ∧ (m.after operations).display.dirty = true := by
  induction operations generalizing m with
  | nil => exact ⟨hd, dirty⟩
  | cons operation rest ih =>
    refine ih (proper_answer hd operation) ?_
    rw [display_answer hd, Display.dirty_editAll, dirty, Bool.true_or]

end Machine

end Chip8
