import Mathlib.Data.String.Basic
import Chip8.Host.WindowInputs
import Chip8.Proofs.Keymap
import Chip8.Proofs.Keystrokes

/-! The events of a window. Poll by poll, with commands taken at any time in between, they come to what
they come to in one poll: a key follows the events of its code, the latch the presses, and each press
of a host key becomes a command, in order and once. -/

namespace Chip8

namespace WindowEvent

/-- Escape, F5 and F6. -/
def reserved : List Int := [27, 1073741886, 1073741887]

/-- What an event does to the key of a code. Presses of reserved keys do not reach it, but releases
do. -/
def moves? (code : Int) : WindowEvent → Option Bool
  | .up given => if given = code then some false else none
  | .down given => if given = code ∧ given ∉ reserved then some true else none
  | .quit | .other => none

/-- The last thing that was done to the key of a code. -/
def lastMove (code : Int) (events : List WindowEvent) : Option Bool :=
  (events.filterMap (moves? code)).getLast?

/-- F5 pauses or resumes, and F6 makes a step. -/
def command? : WindowEvent → Option HostCommand
  | .down code =>
    if code = 1073741886 then some .togglePause
    else if code = 1073741887 then some .step
    else none
  | .up _ | .quit | .other => none

def quits : WindowEvent → Bool
  | .quit => true
  | .down code => code = 27
  | .up _ | .other => false

/-- The key that an event takes from released to pressed, in view of the events before it. -/
def press? (keymap : Keymap) (before : List WindowEvent) :
    WindowEvent → Option (Fin Layout.keyCount)
  | .down code =>
    if code ∈ reserved ∨ lastMove code before = some true then none else keymap.key? code
  | .up _ | .quit | .other => none

/-- The key that was pressed last, the latest event being the first. -/
def lastPress (keymap : Keymap) : List WindowEvent → Option (Fin Layout.keyCount)
  | [] => none
  | event :: before => (event.press? keymap before.reverse).or (lastPress keymap before)

/-- What an event does to the keypad. -/
def stroke? (keymap : Keymap) : WindowEvent → Option Keystroke
  | .up code => (keymap.key? code).map (⟨·, false⟩)
  | .down code => if code ∈ reserved then none else (keymap.key? code).map (⟨·, true⟩)
  | .quit | .other => none

variable {keymap : Keymap} {keypad : Keypad} {key : Fin Layout.keyCount} {code : Int}

/-- To a key with one code, an event does what it does to the key of this code. -/
theorem stroke?_on (only : ∀ given, keymap.key? given = some key ↔ given = code)
    (event : WindowEvent) : (event.stroke? keymap).bind (·.on? key) = event.moves? code := by
  have concerns (given : Int) (pressed : Bool) :
      ((keymap.key? given).map (⟨·, pressed⟩)).bind (Keystroke.on? · key) =
        if given = code then some pressed else none := by
    have only := only given
    cases found : keymap.key? given with
    | none =>
      rw [found] at only
      exact (if_neg fun same => nomatch only.mpr same).symm
    | some named =>
      rw [found, Option.some.injEq] at only
      show (if named = key then _ else _) = _
      simp only [only]
  cases event with
  | up given => exact concerns given false
  | down given =>
    by_cases diverted : given ∈ reserved
    · simp [stroke?, moves?, diverted]
    · simp [stroke?, moves?, diverted, concerns]
  | quit | other => rfl

/-- The last event of its code says whether a key is down. -/
theorem down_strikeAll (only : ∀ given, keymap.key? given = some key ↔ given = code)
    (released : keypad.down.get key = false) (events : List WindowEvent) :
    (keypad.strikeAll (events.filterMap (stroke? keymap))).down.get key =
      (lastMove code events).getD false := by
  rw [Keypad.down_strikeAll, List.filterMap_filterMap, released, lastMove]
  simp only [stroke?_on only]

theorem latch_stroke? (bijective : keymap.Bijective)
    (released : ∀ key, keypad.down.get key = false) (events : List WindowEvent)
    (last : WindowEvent) :
    let struck := keypad.strikeAll (events.filterMap (stroke? keymap))
    (struck.strikeAll (last.stroke? keymap).toList).latch =
      (last.press? keymap events).or struck.latch := by
  intro struck
  cases last with
  | up code =>
    show (struck.strikeAll ((keymap.key? code).map (⟨·, false⟩)).toList).latch = struck.latch
    cases keymap.key? code <;> rfl
  | down code =>
    by_cases diverted : code ∈ reserved
    · simp only [stroke?, press?, diverted, if_true, true_or]
      rfl
    · simp only [stroke?, press?, diverted, if_false, false_or]
      cases found : keymap.key? code with
      | none =>
        rw [ite_self]
        rfl
      | some key =>
        obtain ⟨only, unique⟩ := bijective.exists_code key
        obtain rfl : code = only := (unique code).mp found
        have down : struck.down.get key = (lastMove code events).getD false :=
          down_strikeAll unique (released key) events
        show (struck.strike ⟨key, true⟩).latch = _
        rw [Keypad.latch_strike, down]
        cases lastMove code events with
        | none => rfl
        | some pressed => cases pressed <;> rfl
  | quit | other => rfl

/-- The latch keeps the last press. -/
theorem latch_strikeAll (bijective : keymap.Bijective)
    (released : ∀ key, keypad.down.get key = false) (events : List WindowEvent) :
    (keypad.strikeAll (events.filterMap (stroke? keymap))).latch =
      (lastPress keymap events.reverse).or keypad.latch := by
  induction events using List.reverseRecOn with
  | nil => rfl
  | append_singleton events last ih =>
    have single : [last].filterMap (stroke? keymap) = (last.stroke? keymap).toList := by
      cases stroke : last.stroke? keymap <;> simp [stroke]
    rw [List.filterMap_append, single, Keypad.strikeAll_append, latch_stroke? bijective released,
      ih, List.reverse_append, List.reverse_singleton, List.singleton_append, lastPress,
      List.reverse_reverse, Option.or_assoc]

end WindowEvent

namespace WindowInputs

open WindowEvent

/-! ## Polls -/

theorem putKey_eq (keymap : Keymap) (keypad : Keypad) (code : Int) (pressed : Bool) :
    putKey keymap keypad code pressed =
      keypad.strikeAll ((keymap.key? code).map (⟨·, pressed⟩)).toList := by
  rw [putKey]
  cases keymap.key? code <;> rfl

theorem handle_eq (d : WindowInputs) (keypad : Keypad) (event : WindowEvent) :
    d.handle keypad event = ({ d with commands := d.commands ++ event.command?.toList },
      keypad.strikeAll (event.stroke? d.keymap).toList, event.quits) := by
  cases event with
  | up code => simp [handle, command?, stroke?, quits, putKey_eq]
  | down code =>
    by_cases escapes : code = 27
    · simp [handle, command?, stroke?, quits, reserved, escape, escapes, Keypad.strikeAll]
    · by_cases pauses : code = 1073741886
      · simp [handle, hostKey?, command?, stroke?, quits, reserved, escape, pauses,
          Keypad.strikeAll]
      · by_cases steps : code = 1073741887
        · simp [handle, hostKey?, command?, stroke?, quits, reserved, escape, steps,
            Keypad.strikeAll]
        · simp [handle, hostKey?, command?, stroke?, quits, reserved, escape, escapes, pauses,
            steps, putKey_eq]
  | quit | other => simp [handle, command?, stroke?, quits, Keypad.strikeAll]

theorem handleAll_eq (d : WindowInputs) (keypad : Keypad) (events : List WindowEvent) :
    d.handleAll keypad events = ({ d with commands := d.commands ++ events.filterMap command? },
      keypad.strikeAll (events.filterMap (stroke? d.keymap)), events.any quits) := by
  induction events generalizing d keypad with
  | nil =>
    rw [List.filterMap_nil, List.append_nil]
    rfl
  | cons event rest ih =>
    have commands : (event :: rest).filterMap command? =
        event.command?.toList ++ rest.filterMap command? := by
      rw [List.filterMap_cons]
      cases event.command? <;> rfl
    have strokes : (event :: rest).filterMap (stroke? d.keymap) =
        (event.stroke? d.keymap).toList ++ rest.filterMap (stroke? d.keymap) := by
      rw [List.filterMap_cons]
      cases event.stroke? d.keymap <;> rfl
    rw [handleAll, handle_eq]
    dsimp only
    rw [ih, commands, strokes, Keypad.strikeAll_append, List.append_assoc, List.any_cons]

end WindowInputs

/-! ## Sessions -/

/-- What happens between a window and its host. -/
inductive WindowTurn where
  /-- A poll that finds some events. -/
  | poll (events : List WindowEvent)
  /-- The host takes the commands that have gathered. -/
  | take
  deriving DecidableEq, Repr

/-- The inputs of a window with the keypad that they alone write to, and the commands that the host has
taken so far. -/
structure WindowSession where
  device : WindowInputs
  keypad : Keypad
  taken : List HostCommand := []
  deriving DecidableEq, Repr

namespace WindowSession

open WindowEvent

/-- A poll of a window in which some more events have happened. -/
def polled (s : WindowSession) (events : List WindowEvent) : Poll WindowInputs :=
  InputDevice.poll { s.device with waiting := s.device.waiting ++ events } s.keypad

def turn (s : WindowSession) : WindowTurn → WindowSession
  | .poll events => { s with device := (s.polled events).device, keypad := (s.polled events).keypad }
  | .take =>
    let (commands, device) := InputDevice.takeCommands s.device
    { s with device := device, taken := s.taken ++ commands }

def after (s : WindowSession) (turns : List WindowTurn) : WindowSession := turns.foldl turn s

/-- All the events of a row of turns, in order. -/
def eventsOf (turns : List WindowTurn) : List WindowEvent :=
  turns.flatMap fun
    | .poll events => events
    | .take => []

variable {s s' s'' : WindowSession} {events later : List WindowEvent}

/-- What a row of events makes of a session. -/
structure Follows (s s' : WindowSession) (events : List WindowEvent) : Prop where
  keymap : s'.device.keymap = s.device.keymap
  waiting : s'.device.waiting = []
  keypad : s'.keypad = s.keypad.strikeAll (events.filterMap (stroke? s.device.keymap))
  commands : s'.taken ++ s'.device.commands =
    s.taken ++ s.device.commands ++ events.filterMap command?

theorem Follows.trans (h : s.Follows s' events) (h' : s'.Follows s'' later) :
    s.Follows s'' (events ++ later) where
  keymap := h'.keymap.trans h.keymap
  waiting := h'.waiting
  keypad := by rw [h'.keypad, h.keypad, h.keymap, List.filterMap_append, Keypad.strikeAll_append]
  commands := by rw [h'.commands, h.commands, List.filterMap_append, List.append_assoc]

theorem polled_eq (idle : s.device.waiting = []) (events : List WindowEvent) : s.polled events = {
    device := { s.device with commands := s.device.commands ++ events.filterMap command? }
    keypad := s.keypad.strikeAll (events.filterMap (stroke? s.device.keymap))
    result := .ok (events.any quits) } := by
  obtain ⟨⟨keymap, commands, waiting⟩, keypad, taken⟩ := s
  obtain rfl : waiting = [] := idle
  show InputDevice.poll (⟨keymap, commands, events⟩ : WindowInputs) keypad = _
  simp only [InputDevice.poll, WindowInputs.handleAll_eq]

theorem follows_turn (idle : s.device.waiting = []) (t : WindowTurn) :
    s.Follows (s.turn t) (eventsOf [t]) := by
  cases t with
  | poll events =>
    have whole : eventsOf [.poll events] = events := List.append_nil events
    rw [whole]
    simp only [turn, polled_eq idle]
    exact ⟨rfl, idle, rfl, (List.append_assoc _ _ _).symm⟩
  | take =>
    refine ⟨rfl, idle, rfl, ?_⟩
    show (s.taken ++ s.device.commands) ++ [] = (s.taken ++ s.device.commands) ++ []
    rfl

theorem follows_after (idle : s.device.waiting = []) (turns : List WindowTurn) :
    s.Follows (s.after turns) (eventsOf turns) := by
  induction turns generalizing s with
  | nil => exact ⟨rfl, idle, rfl, (List.append_nil _).symm⟩
  | cons t rest ih =>
    have first := s.follows_turn idle t
    have whole : eventsOf ([t] ++ rest) = eventsOf [t] ++ eventsOf rest := List.flatMap_append
    show s.Follows _ (eventsOf ([t] ++ rest))
    rw [whole]
    exact first.trans (ih first.waiting)

/-- A session loses nothing of what happens in its window, and invents nothing. -/
structure Translates (s : WindowSession) (turns : List WindowTurn) : Prop where
  /-- Every key has one code, and follows what is done to it. -/
  down : ∀ key, ∃ code, (∀ given, s.device.keymap.key? given = some key ↔ given = code) ∧
    ((s.after turns).keypad.down.get key = true ↔ lastMove code (eventsOf turns) = some true)
  latch : (s.after turns).keypad.latch =
    (lastPress s.device.keymap (eventsOf turns).reverse).or s.keypad.latch
  /-- A poll asks to quit exactly if one of its own events does. -/
  answers : ∀ before events rest, turns = before ++ .poll events :: rest →
    ∃ quit, ((s.after before).polled events).result = .ok quit ∧
      (quit = true ↔ .quit ∈ events ∨ .down 27 ∈ events)
  commands : (s.after turns).taken ++ (s.after turns).device.commands =
    (eventsOf turns).filterMap command?
  /-- The polls in which the events are found make no difference. -/
  splits : ∀ others, eventsOf others = eventsOf turns →
    (s.after others).keypad = (s.after turns).keypad

theorem any_quits_iff (events : List WindowEvent) :
    events.any quits = true ↔ .quit ∈ events ∨ .down 27 ∈ events := by
  rw [List.any_eq_true]
  constructor
  · rintro ⟨event, member, asks⟩
    cases event with
    | quit => exact .inl member
    | down code =>
      obtain rfl : code = 27 := of_decide_eq_true asks
      exact .inr member
    | up | other => cases asks
  · rintro (member | member) <;> exact ⟨_, member, rfl⟩

/-- With any keymap that can be read, and from a keypad without a key down, every session translates
its events, however they are spread over its polls and whenever commands are taken. -/
theorem translates_of_read {text : String} {keymap : Keymap}
    (accepted : Keymap.read text false = .ok keymap) {keypad : Keypad}
    (released : ∀ key, keypad.down.get key = false) (turns : List WindowTurn) :
    Translates { device := { keymap }, keypad } turns := by
  have bijective := Keymap.bijective_of_read accepted
  have follows (turns : List WindowTurn) :=
    follows_after (s := { device := { keymap }, keypad }) rfl turns
  constructor
  · intro key
    obtain ⟨code, only⟩ := bijective.exists_code key
    refine ⟨code, only, ?_⟩
    rw [(follows turns).keypad, down_strikeAll only (released key)]
    cases lastMove code (eventsOf turns) with
    | none => exact iff_of_false nofun nofun
    | some pressed => exact (Option.some_inj (a := pressed)).symm
  · rw [(follows turns).keypad]
    exact latch_strikeAll bijective released _
  · intro before events rest _
    refine ⟨_, ?_, any_quits_iff events⟩
    rw [polled_eq (follows before).waiting]
  · exact (follows turns).commands
  · intro others same
    rw [(follows others).keypad, (follows turns).keypad, same]

/-- A keymap that makes escape a key as well: to press it asks to quit, and what follows in the same
poll counts all the same. -/
theorem translates_of_read_escape :
    let keymap : Keymap := ⟨[27, 49, 50, 51, 113, 119, 101, 97, 115, 100, 122, 99, 52, 114, 102,
      118].zip (List.finRange _)⟩
    let start : WindowSession := { device := { keymap }, keypad := .released }
    let turns : List WindowTurn := [.poll [.down 27, .down 49, .down 1073741886], .take,
      .poll [.up 27, .down 1073741887]]
    Keymap.read "27,49,50,51,113,119,101,97,115,100,122,99,52,114,102,118" false = .ok keymap ∧
      (∀ key, Keypad.released.down.get key = false) ∧
      (start.after turns).taken ++ (start.after turns).device.commands = [.togglePause, .step] ∧
      (start.after turns).keypad.down.get ⟨1, by decide⟩ = true := by
  intro keymap start turns
  have accepted : Keymap.read "27,49,50,51,113,119,101,97,115,100,122,99,52,114,102,118" false =
      .ok keymap := by
    simp only [Keymap.read, String.splitToList_of_valid]
    decide +kernel
  have released : ∀ key, Keypad.released.down.get key = false := by decide
  have translates : start.Translates turns := translates_of_read accepted released turns
  obtain ⟨code, only, down⟩ := translates.down ⟨1, by decide⟩
  obtain rfl : 49 = code := (only 49).mp (by decide)
  exact ⟨accepted, released, translates.commands, down.mpr (by decide)⟩

end WindowSession

end Chip8
