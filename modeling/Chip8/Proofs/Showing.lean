import Chip8.Host.Playback
import Chip8.Proofs.Journal

/-! Showing. Every edit marks the screen as drawn on, so without the mark the host has been shown what
is there; and a rendering that finds the mark shows the screen and takes it off. So at the end of
every frame and of every step by hand the host has the picture and its size, no picture comes in
another size than the one that was told last, and none comes without an edit since the one before. -/

namespace Chip8

namespace Journal

variable {τ : Type}

def Entry.size? : Entry τ → Option (Nat × Nat)
  | call (.resolution width height) => some (width, height)
  | _ => none

def Entry.picture? : Entry τ → Option Picture
  | call (.draw picture) => some picture
  | _ => none

/-- The size that the host was last told. -/
def lastSize (past : List (Entry τ)) : Option (Nat × Nat) := (past.filterMap Entry.size?).getLast?

/-- The picture that the host was last shown. -/
def lastPicture (past : List (Entry τ)) : Option Picture := (past.filterMap Entry.picture?).getLast?

/-- Every picture so far has an edit behind it. -/
def Edited (past : List (Entry τ)) : Prop :=
  ∀ before picture after, past = before ++ .call (.draw picture) :: after → ∃ e, .edit e ∈ after

/-- What an entry asks of those before it: a picture, that the host was last told its size and that
there was an edit since the one before; an end, that the host has the picture and the size of the
screen as it is there. -/
def Entry.Sound (past : List (Entry τ)) : Entry τ → Prop
  | call (.draw picture) =>
    (∃ width height, lastSize past = some (width, height) ∧ picture.length = height ∧
      ∀ row ∈ picture, row.length = width) ∧ Edited past
  | finish _ machine =>
    lastPicture past = some machine.display.picture ∧ lastSize past = some machine.display.size
  | _ => True

/-- Entries that show nothing and end nothing. -/
def Entry.plain : Entry τ → Bool
  | edit _ => true
  | call c => !c.shows
  | finish _ _ => false

/-- Every entry is sound behind those before it. -/
def SoundFrom (past : List (Entry τ)) : List (Entry τ) → Prop
  | [] => True
  | e :: rest => e.Sound past ∧ SoundFrom (past ++ [e]) rest

variable {past added rest : List (Entry τ)} {e : Entry τ}

theorem lastSize_append (past added : List (Entry τ)) :
    lastSize (past ++ added) = (lastSize added).or (lastSize past) := by
  rw [lastSize, List.filterMap_append, List.getLast?_append]
  rfl

theorem lastPicture_append (past added : List (Entry τ)) :
    lastPicture (past ++ added) = (lastPicture added).or (lastPicture past) := by
  rw [lastPicture, List.filterMap_append, List.getLast?_append]
  rfl

theorem soundFrom_append (past added rest : List (Entry τ)) :
    SoundFrom past (added ++ rest) ↔ SoundFrom past added ∧ SoundFrom (past ++ added) rest := by
  induction added generalizing past with
  | nil => simp [SoundFrom]
  | cons e added ih => simp [SoundFrom, ih, and_assoc]

theorem SoundFrom.of_mem {journal : List (Entry τ)} (h : SoundFrom [] journal)
    (split : journal = past ++ e :: rest) : e.Sound past := by
  rw [split, soundFrom_append] at h
  exact h.2.1

theorem Entry.sound_of_plain (past : List (Entry τ)) (h : e.plain = true) : e.Sound past := by
  cases e with
  | edit => trivial
  | call c =>
    cases c with
    | resolution | draw => cases h
    | _ => trivial
  | finish => cases h

theorem soundFrom_of_plain (past : List (Entry τ)) (h : ∀ e ∈ added, e.plain = true) :
    SoundFrom past added := by
  induction added generalizing past with
  | nil => trivial
  | cons e rest ih =>
    obtain ⟨first, others⟩ := List.forall_mem_cons.mp h
    exact ⟨Entry.sound_of_plain past first, ih _ others⟩

theorem Entry.size?_of_plain (h : e.plain = true) : e.size? = none := by
  cases e with
  | edit | finish => rfl
  | call c => cases c <;> first | rfl | cases h

theorem Entry.picture?_of_plain (h : e.plain = true) : e.picture? = none := by
  cases e with
  | edit | finish => rfl
  | call c => cases c <;> first | rfl | cases h

theorem lastSize_of_plain (h : ∀ e ∈ added, e.plain = true) : lastSize added = none := by
  rw [lastSize, List.filterMap_eq_nil_iff.mpr fun e member => Entry.size?_of_plain (h e member),
    List.getLast?_nil]

theorem lastPicture_of_plain (h : ∀ e ∈ added, e.plain = true) : lastPicture added = none := by
  rw [lastPicture, List.filterMap_eq_nil_iff.mpr fun e member => Entry.picture?_of_plain (h e member),
    List.getLast?_nil]

/-- Without another picture an edit stays behind the last one, and a new one comes behind it. -/
theorem Edited.append (h : Edited past ∨ ∃ e, .edit e ∈ added)
    (still : ∀ e ∈ added, e.picture? = none) : Edited (past ++ added) := by
  intro before picture after split
  have shown : .call (.draw picture) ∉ added := fun member => nomatch still _ member
  rcases List.append_eq_append_iff.mp split with ⟨later, _, rest⟩ | ⟨later, earlier, rest⟩
  · exact absurd (rest ▸ List.mem_append_right _ (List.mem_cons_self)) shown
  · cases later with
    | nil =>
      have rest : .call (.draw picture) :: after = added := rest
      exact absurd (rest ▸ List.mem_cons_self) shown
    | cons e later =>
      obtain ⟨rfl, rfl⟩ := List.cons.inj rest
      rcases h with edited | ⟨e, member⟩
      · obtain ⟨e, member⟩ := edited before picture later earlier
        exact ⟨e, List.mem_append_left _ member⟩
      · exact ⟨e, List.mem_append_right _ member⟩

theorem exists_edit (h : added.filterMap Entry.edit? ≠ []) : ∃ e, .edit e ∈ added := by
  obtain ⟨e, member⟩ := List.exists_mem_of_ne_nil _ h
  obtain ⟨entry, member, is⟩ := List.mem_filterMap.mp member
  cases entry with
  | edit e => exact ⟨e, member⟩
  | call | finish => cases is

end Journal

namespace Scheduler

open Journal

variable {τ ι : Type} {s s' : Scheduler τ ι} {past added : List (Entry τ)}

/-- The host is up to date as far as the screen says so. -/
structure Shows (past : List (Entry τ)) (s : Scheduler τ ι) : Prop where
  proper : s.machine.display.Proper
  told : s.shown = lastSize past
  current : s.machine.display.dirty = false → lastPicture past = some s.machine.display.picture ∧
    lastSize past = some s.machine.display.size
  edited : s.machine.display.dirty = true → Edited past
  sound : SoundFrom [] past

/-- What shows nothing may edit the screen; then it is marked. -/
theorem Shows.append_plain (h : Shows past s) (plain : ∀ e ∈ added, e.plain = true)
    (display : s'.machine.display = s.machine.display.editAll (added.filterMap Entry.edit?))
    (proper : s'.machine.display.Proper) (shown : s'.shown = s.shown) :
    Shows (past ++ added) s' where
  proper := proper
  told := by
    rw [lastSize_append, lastSize_of_plain plain, shown]
    exact h.told
  current clean := by
    rw [display, Display.dirty_editAll, Bool.or_eq_false_iff, Bool.not_eq_false',
      List.isEmpty_iff] at clean
    obtain ⟨clean, unedited⟩ := clean
    rw [lastPicture_append, lastSize_append, lastSize_of_plain plain, lastPicture_of_plain plain,
      display, unedited]
    exact h.current clean
  edited dirty := by
    refine .append ?_ fun e member => Entry.picture?_of_plain (plain e member)
    rw [display, Display.dirty_editAll, Bool.or_eq_true, Bool.not_eq_true'] at dirty
    rcases dirty with dirty | edits
    · exact .inl (h.edited dirty)
    · exact .inr (exists_edit (List.isEmpty_eq_false_iff.mp edits))
  sound := (soundFrom_append [] past added).mpr ⟨h.sound, soundFrom_of_plain _ plain⟩

/-- What is complete has been shown. -/
theorem Shows.append_end (h : Shows past s) (clean : s.machine.display.dirty = false)
    (stage : Stage) : Shows (past ++ [.finish stage s.machine]) s where
  proper := h.proper
  told := by
    rw [lastSize_append]
    exact h.told
  current _ := by
    rw [lastSize_append, lastPicture_append]
    exact h.current clean
  edited dirty := by
    rw [clean] at dirty
    cases dirty
  sound := (soundFrom_append [] past _).mpr ⟨h.sound, h.current clean, trivial⟩

theorem picture_form {d : Display} (hd : d.Proper) :
    d.picture.length = d.height ∧ ∀ row ∈ d.picture, row.length = d.width := by
  constructor
  · rw [Display.picture, List.length_map, List.length_range]
  · intro row member
    obtain ⟨y, inside, rfl⟩ := List.mem_map.mp member
    rw [Display.row_eq d hd.size (List.mem_range.mp inside), List.length_map, List.length_range]

/-- Before a picture the host knows its size. -/
theorem Shows.append_announcement (h : Shows past s) (dirty : s.machine.display.dirty = true) :
    let told := past ++ s.announcement.map .call
    lastSize told = some s.machine.display.size ∧ Edited told ∧ SoundFrom [] told := by
  unfold announcement
  split
  · next known =>
    rw [List.map_nil, List.append_nil]
    exact ⟨h.told.symm.trans known, h.edited dirty, h.sound⟩
  · refine ⟨?_, .append (.inl (h.edited dirty)) ?_, ?_⟩
    · rw [lastSize_append]
      rfl
    · intro e member
      obtain rfl := List.mem_singleton.mp member
      rfl
    · exact (soundFrom_append [] past _).mpr ⟨h.sound, trivial, trivial⟩

/-- A rendering brings the host up to date. -/
theorem Shows.append_render (h : Shows past s) :
    Shows (past ++ s.renderCalls.map .call) s.render := by
  have proper : s.render.machine.display.Proper := by
    rw [display_render]
    exact ⟨h.proper.whole, h.proper.binary⟩
  have clean : s.render.machine.display.dirty ≠ true := by
    rw [dirty_render]
    exact Bool.false_ne_true
  cases dirty : s.machine.display.dirty with
  | false =>
    have calls : s.renderCalls = [] := by
      simp only [renderCalls, dirty, Bool.false_eq_true, if_false]
    rw [calls, List.map_nil, List.append_nil]
    refine {
      proper, sound := h.sound, told := ?_, current := fun _ => ?_, edited := (absurd · clean) }
    · rw [shown_render, dirty]
      exact h.told
    · rw [display_render]
      exact h.current dirty
  | true =>
    obtain ⟨told, edited, sound⟩ := h.append_announcement dirty
    obtain ⟨height, width⟩ := picture_form h.proper
    have calls : past ++ s.renderCalls.map .call = past ++ s.announcement.map .call ++
        [.call (.draw s.machine.display.picture), .call .refresh] := by
      rw [renderCalls, if_pos dirty, List.map_append, ← List.append_assoc]
      rfl
    rw [calls]
    refine { proper, told := ?_, current := fun _ => ?_, edited := (absurd · clean), sound := ?_ }
    · rw [shown_render, dirty, lastSize_append, told]
      rfl
    · rw [display_render, lastSize_append, lastPicture_append, told]
      exact ⟨rfl, rfl⟩
    · exact (soundFrom_append [] _ _).mpr
        ⟨sound, ⟨⟨_, _, told, height, width⟩, edited⟩, trivial, trivial⟩

variable [Add τ] [Sub τ] [LT τ] [DecidableLT τ] [TimeLine τ] [InputDevice ι]

theorem plain_changes (hd : s.machine.display.Proper) {a : Action τ} (other : a ≠ .render) :
    ∀ e ∈ s.changes a, e.plain = true := by
  intro e member
  rcases List.mem_append.mp member with called | edited
  · obtain ⟨c, made, rfl⟩ := List.mem_map.mp called
    have quiet : c.shows = false := (undrawn_take hd other).callsTo.2 c made
    rw [Entry.plain, quiet, Bool.not_false]
  · obtain ⟨_, _, rfl⟩ := List.mem_map.mp edited
    rfl

/-- Every action leaves the host up to date as far as the screen says so. -/
theorem Shows.take [LE τ] [DecidableLE τ] (h : Shows past s) {a : Action τ} (admitted : s.Admits a) :
    Shows (past ++ s.entries a) (s.take a) := by
  by_cases render : a = .render
  · subst render
    have calls : s.callsTo (s.take .render) = s.renderCalls := callsTo_eq s.log_render
    have entries : s.entries .render = s.renderCalls.map .call := by
      simp [entries, changes, editsBy, Action.ends?, calls]
    rw [entries]
    exact h.append_render
  · have undrawn := undrawn_take h.proper render
    have changed : Shows (past ++ s.changes a) (s.take a) := by
      refine h.append_plain (plain_changes h.proper render) ?_ ?_ undrawn.shown
      · rw [edits_changes]
        exact undrawn.display
      · rw [undrawn.display]
        exact proper_editsBy h.proper a
    rw [entries, ← List.append_assoc]
    cases a with
    | count =>
      refine changed.append_end ?_ .frame
      rw [undrawn.display]
      exact admitted
    | finish => exact changed.append_end admitted .singleStep
    | _ =>
      show Shows (past ++ s.changes _ ++ []) _
      rw [List.append_nil]
      exact changed

/-! ## Whole runs -/

variable [LE τ] [DecidableLE τ]

/-- From the start of a scheduler, and whatever is done to it and to its machine and fails on the way,
the host is shown what is there: every entry of the journal is sound, and the journal accounts for
everything that happened to the screen, for every call and for every frame. -/
theorem sound_journal (dialect : Dialect) (hires traced : Bool) (random : ByteSource)
    (operations : List Operation) {inputs : ι} {speed : Int} {paused : Bool}
    (built : new ((Machine.new dialect hires traced random).after operations) inputs speed paused =
      .ok s) (moves : List (Move τ)) :
    (∀ past e rest, s.journal moves = past ++ e :: rest → e.Sound past) ∧
      s.Accounts (s.journal moves) (s.moveAll moves) := by
  obtain ⟨_, start⟩ := eq_of_new built
  have machine : s.machine = (Machine.new dialect hires traced random).after operations := by
    rw [start]
    rfl
  obtain ⟨proper, dirty⟩ := Machine.drawn_after (m := Machine.new dialect hires traced random)
    Machine.lowResolution_proper rfl operations
  rw [← machine] at proper dirty
  have first : Shows [] s := {
    proper := proper
    told := by rw [start]; rfl
    current := fun clean => by rw [dirty] at clean; cases clean
    edited := fun _ before picture after split => by simp at split
    sound := trivial }
  have shows : Shows (s.journal moves) (s.moveAll moves) :=
    journal_induction (fun _ _ _ h admitted => h.take admitted) first moves
  exact ⟨fun past e rest split => shows.sound.of_mem split, s.accounts_journal proper moves⟩

/-- A step without a program fails, and of two frames after it only the first shows a picture. -/
theorem sound_journal_twice :
    let moves : List (Move Rat) := [.singleStep, .advance (1 / 50), .advance (1 / 50)]
    ∃ s : Scheduler Rat Playback,
      new ((Machine.new {} true false (.cycle [])).after []) Playback.silent 700 true = .ok s ∧
      (s.journal moves).filterMap Entry.size? = [(64, 32)] ∧ (s.moveAll moves).frames = 2 ∧
      ∀ past e rest, s.journal moves = past ++ e :: rest → e.Sound past := by
  intro moves
  have built : new ((Machine.new {} true false (.cycle [])).after []) Playback.silent 700 true =
      .ok _ := new_eq_ok (τ := Rat) _ _ true (by decide) rfl
  exact ⟨_, built, by decide +kernel, by decide +kernel,
    (sound_journal {} true false _ [] built moves).1⟩

end Scheduler

end Chip8
