import Chip8.Proofs.Edits
import Chip8.Proofs.Trail

/-! The journal of a run: in their order, the edits of the screen, the calls to the host, and the
ends of frames and of steps by hand, each end with the machine as it is there. The calls are what the
log has grown by, the edits lead from the first screen to the last, and every frame that is counted
has its end. -/

namespace Chip8

/-- What ends with the picture shown. -/
inductive Stage where
  | frame
  | singleStep
  deriving DecidableEq, Repr

namespace Journal

inductive Entry (τ : Type) where
  | edit (e : Display.Edit)
  | call (c : HostCall τ)
  | finish (stage : Stage) (machine : Machine)

variable {τ : Type}

def Entry.edit? : Entry τ → Option Display.Edit
  | edit e => some e
  | _ => none

def Entry.call? : Entry τ → Option (HostCall τ)
  | call c => some c
  | _ => none

def Entry.endsFrame : Entry τ → Bool
  | finish .frame _ => true
  | _ => false

end Journal

open Journal (Entry)

/-- Calls that tell the host what to show. -/
def HostCall.shows {τ : Type} : HostCall τ → Bool
  | resolution _ _ | draw _ => true
  | title _ | refresh | buzzer _ | sleep _ | print _ => false

/-- What is complete with an action. -/
def Action.ends? {τ : Type} : Action τ → Option Stage
  | count => some .frame
  | finish => some .singleStep
  | _ => none

namespace Scheduler

variable {τ ι : Type} {s s' : Scheduler τ ι}

/-- The calls made on the way to another scheduler. -/
def callsTo (s s' : Scheduler τ ι) : List (HostCall τ) := s'.log.toList.drop s.log.size

def editsBy (s : Scheduler τ ι) : Action τ → List Display.Edit
  | .instruction => s.machine.editsBy .step
  | .operate operation => s.machine.editsBy operation
  | _ => []

/-! ## What actions do to the screen and to the log -/

/-- What every action but a rendering does to the screen and to what the host knows of it. -/
structure Undrawn (s : Scheduler τ ι) (a : Action τ) (s' : Scheduler τ ι) : Prop where
  display : s'.machine.display = s.machine.display.editAll (s.editsBy a) := by rfl
  shown : s'.shown = s.shown := by rfl
  frames : s'.frames = s.frames + if a.ends? = some .frame then 1 else 0 := by rfl
  log : s'.log = s.log ∨ ∃ c : HostCall τ, c.shows = false ∧ s'.log = s.log.push c := by
    exact .inl rfl

theorem undrawn_operate (s : Scheduler τ ι) (hd : s.machine.display.Proper)
    (operation : Operation) : s.Undrawn (.operate operation) (s.operate operation) := by
  have display := Machine.display_answer hd operation
  unfold operate
  dsimp only
  split
  · exact { display, log := .inr ⟨_, rfl, rfl⟩ }
  · exact { display }

theorem undrawn_updateBuzzer (s : Scheduler τ ι) : s.Undrawn .buzzer s.updateBuzzer := by
  unfold updateBuzzer
  dsimp only
  split
  · exact {}
  · exact { log := .inr ⟨_, rfl, rfl⟩ }

theorem undrawn_countFrame (s : Scheduler τ ι) : s.Undrawn .count s.countFrame := by
  unfold countFrame
  dsimp only
  split
  · exact { log := .inr ⟨_, rfl, rfl⟩ }
  · exact {}

theorem undrawn_rest [Sub τ] [LT τ] [DecidableLT τ] [TimeLine τ] (s : Scheduler τ ι) :
    s.Undrawn .rest s.rest := by
  unfold rest
  dsimp only
  split
  · exact { log := .inr ⟨_, rfl, rfl⟩ }
  · exact {}

/-- The size of the screen, unless it is what the host was last told. -/
def announcement (s : Scheduler τ ι) : List (HostCall τ) :=
  if s.shown = some s.machine.display.size then []
  else [.resolution s.machine.display.width s.machine.display.height]

/-- The calls of a rendering: none unless the screen has been drawn on. -/
def renderCalls (s : Scheduler τ ι) : List (HostCall τ) :=
  if s.machine.display.dirty then
    s.announcement ++ [.draw s.machine.display.picture, .refresh]
  else []

theorem log_render (s : Scheduler τ ι) : s.render.log.toList = s.log.toList ++ s.renderCalls := by
  unfold render renderCalls announcement Display.consumeDirty
  dsimp only
  split
  · split
    · next known =>
      have known : s.shown = some s.machine.display.size := known
      rw [if_pos known]
      simp only [call, Array.toList_push, List.append_assoc]
      rfl
    · next unknown =>
      have unknown : ¬ s.shown = some s.machine.display.size := unknown
      rw [if_neg unknown]
      simp only [call, Array.toList_push, List.append_assoc]
      rfl
  · exact (List.append_nil _).symm

theorem display_render (s : Scheduler τ ι) :
    s.render.machine.display = { s.machine.display with dirty := false } := by
  unfold render Display.consumeDirty
  dsimp only
  split
  · split <;> rfl
  · rfl

theorem shown_render (s : Scheduler τ ι) :
    s.render.shown = if s.machine.display.dirty then some s.machine.display.size else s.shown := by
  unfold render Display.consumeDirty
  dsimp only
  split
  · split
    · next known => exact known
    · rfl
  · rfl

theorem callsTo_eq {calls : List (HostCall τ)} (h : s'.log.toList = s.log.toList ++ calls) :
    s.callsTo s' = calls := by
  rw [callsTo, h, ← Array.length_toList, List.drop_left]

theorem Undrawn.callsTo {a : Action τ} (h : s.Undrawn a s') :
    s'.log.toList = s.log.toList ++ s.callsTo s' ∧ ∀ c ∈ s.callsTo s', c.shows = false := by
  rcases h.log with kept | ⟨c, plain, pushed⟩
  · have calls : s.callsTo s' = [] := callsTo_eq (by rw [kept, List.append_nil])
    rw [calls, kept, List.append_nil]
    exact ⟨rfl, nofun⟩
  · have grown : s'.log.toList = s.log.toList ++ [c] := by rw [pushed, Array.toList_push]
    rw [callsTo_eq grown]
    exact ⟨grown, fun d member => List.mem_singleton.mp member ▸ plain⟩

variable [Add τ] [Sub τ] [LT τ] [DecidableLT τ] [TimeLine τ] [InputDevice ι]

theorem undrawn_take (hd : s.machine.display.Proper) {a : Action τ} (other : a ≠ .render) :
    s.Undrawn a (s.take a) := by
  cases a with
  | instruction => exact { (s.spend .instruction).undrawn_operate hd .step with }
  | operate operation => exact s.undrawn_operate hd operation
  | buzzer => exact s.undrawn_updateBuzzer
  | count => exact s.undrawn_countFrame
  | rest => exact s.undrawn_rest
  | render => exact absurd rfl other
  | charge | begin | poll | collect | pause | resume | tick | finish => exact {}

/-! ## The journal -/

/-- The calls and the edits of an action. -/
def changes (s : Scheduler τ ι) (a : Action τ) : List (Entry τ) :=
  (s.callsTo (s.take a)).map .call ++ (s.editsBy a).map .edit

/-- What an action adds to the journal. -/
def entries (s : Scheduler τ ι) (a : Action τ) : List (Entry τ) :=
  s.changes a ++ a.ends?.toList.map fun stage => .finish stage (s.take a).machine

theorem edits_changes (s : Scheduler τ ι) (a : Action τ) :
    (s.changes a).filterMap Entry.edit? = s.editsBy a := by
  have calls : ((s.callsTo (s.take a)).map Entry.call).filterMap Entry.edit? = [] := by
    simp [List.filterMap_eq_nil_iff, Entry.edit?]
  rw [changes, List.filterMap_append, calls]
  simp [List.filterMap_map, Function.comp_def, Entry.edit?]

theorem edits_entries (s : Scheduler τ ι) (a : Action τ) :
    (s.entries a).filterMap Entry.edit? = s.editsBy a := by
  rw [entries, List.filterMap_append, edits_changes]
  simp [List.filterMap_map, Function.comp_def, Entry.edit?]

theorem calls_entries (s : Scheduler τ ι) (a : Action τ) :
    (s.entries a).filterMap Entry.call? = s.callsTo (s.take a) := by
  simp [entries, changes, List.filterMap_map, Function.comp_def, Entry.call?]

theorem ends_entries (s : Scheduler τ ι) (a : Action τ) :
    (s.entries a).countP Entry.endsFrame = if a.ends? = some .frame then 1 else 0 := by
  cases a <;>
    simp [entries, changes, List.countP_map, Function.comp_def, Entry.endsFrame, Action.ends?]

omit [Add τ] [Sub τ] [LT τ] [DecidableLT τ] [TimeLine τ] [InputDevice ι] in
theorem proper_editsBy (hd : s.machine.display.Proper) (a : Action τ) :
    (s.machine.display.editAll (s.editsBy a)).Proper := by
  cases a with
  | instruction => exact Machine.display_answer hd .step ▸ Machine.proper_answer hd .step
  | operate operation =>
    exact Machine.display_answer hd operation ▸ Machine.proper_answer hd operation
  | _ => exact hd

/-- The account of what lies between two schedulers. -/
structure Accounts (s : Scheduler τ ι) (past : List (Entry τ)) (s' : Scheduler τ ι) : Prop where
  proper : s'.machine.display.Proper
  /-- The edits are all that has happened to the screen, besides being shown. -/
  display : ∃ dirty, s'.machine.display =
    { s.machine.display.editAll (past.filterMap Entry.edit?) with dirty := dirty }
  log : s'.log.toList = s.log.toList ++ past.filterMap Entry.call?
  frames : s'.frames = s.frames + past.countP Entry.endsFrame

theorem Accounts.take {past : List (Entry τ)} (h : s.Accounts past s') (a : Action τ) :
    s.Accounts (past ++ s'.entries a) (s'.take a) := by
  obtain ⟨dirty, same⟩ := h.display
  by_cases render : a = .render
  · subst render
    have display : (s'.take .render).machine.display = _ := s'.display_render
    have calls : s'.callsTo (s'.take .render) = s'.renderCalls := callsTo_eq s'.log_render
    refine ⟨?_, ⟨false, ?_⟩, ?_, ?_⟩
    · rw [display]
      exact ⟨h.proper.whole, h.proper.binary⟩
    · rw [display, List.filterMap_append, edits_entries, same]
      simp [editsBy]
    · rw [List.filterMap_append, calls_entries, calls, ← List.append_assoc, ← h.log]
      exact s'.log_render
    · rw [List.countP_append, ends_entries, ← Nat.add_assoc, ← h.frames]
      exact s'.frames_render
  · have undrawn := undrawn_take h.proper render
    refine ⟨?_, ?_, ?_, ?_⟩
    · rw [undrawn.display]
      exact proper_editsBy h.proper a
    · rw [undrawn.display, List.filterMap_append, edits_entries, Display.editAll_append, same]
      exact Display.editAll_dirty _ _ _
    · rw [List.filterMap_append, calls_entries, ← List.append_assoc, ← h.log]
      exact undrawn.callsTo.1
    · rw [List.countP_append, ends_entries, ← Nat.add_assoc, ← h.frames]
      exact undrawn.frames

variable [LE τ] [DecidableLE τ]

def journal (s : Scheduler τ ι) (moves : List (Move τ)) : List (Entry τ) :=
  (s.trail moves).flatMap fun (met, a) => met.entries a

/-- What holds of a scheduler before its run, and is kept by every admitted action as the journal
grows, holds of the whole journal and of the scheduler at its end. -/
theorem journal_induction {I : List (Entry τ) → Scheduler τ ι → Prop}
    (kept : ∀ past s a, I past s → s.Admits a → I (past ++ s.entries a) (s.take a)) (h : I [] s)
    (moves : List (Move τ)) : I (s.journal moves) (s.moveAll moves) := by
  refine trail_induction (I := fun past s => I (past.flatMap fun (met, a) => met.entries a) s)
    (fun past s a h admitted => ?_) h moves
  rw [List.flatMap_append, List.flatMap_singleton]
  exact kept _ s a h admitted

theorem accounts_journal (hd : s.machine.display.Proper) (moves : List (Move τ)) :
    s.Accounts (s.journal moves) (s.moveAll moves) :=
  have first : s.Accounts [] s := ⟨hd, ⟨_, rfl⟩, (List.append_nil _).symm, rfl⟩
  journal_induction (fun _ _ a h _ => h.take a) first moves

end Scheduler

end Chip8
