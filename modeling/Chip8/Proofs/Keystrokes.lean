import Mathlib.Order.Fin.Basic
import Chip8.Proofs.KeyWait

/-! Rows of keystrokes. What was done to a key last says whether it is down, and the latch keeps the
last press that found its key released. -/

namespace Chip8

/-- A key is pressed or released. -/
structure Keystroke where
  key : Fin Layout.keyCount
  pressed : Bool
  deriving DecidableEq, Repr

/-- What a stroke does to a key, if it concerns the key. -/
def Keystroke.on? (stroke : Keystroke) (key : Fin Layout.keyCount) : Option Bool :=
  if stroke.key = key then some stroke.pressed else none

namespace Keypad

variable {k : Keypad} {key : Fin Layout.keyCount}

def strike (k : Keypad) (stroke : Keystroke) : Keypad := k.put stroke.key stroke.pressed

def strikeAll (k : Keypad) (strokes : List Keystroke) : Keypad := strokes.foldl strike k

theorem strikeAll_append (k : Keypad) (strokes rest : List Keystroke) :
    k.strikeAll (strokes ++ rest) = (k.strikeAll strokes).strikeAll rest := List.foldl_append

/-! ## Keys -/

theorem down_strike (k : Keypad) (stroke : Keystroke) (key : Fin Layout.keyCount) :
    (k.strike stroke).down.get key = (stroke.on? key).getD (k.down.get key) := by
  rw [strike, down_put, Keystroke.on?]
  split <;> rfl

/-- The last stroke of a key says whether it is down. -/
theorem down_strikeAll (k : Keypad) (strokes : List Keystroke) (key : Fin Layout.keyCount) :
    (k.strikeAll strokes).down.get key =
      (strokes.filterMap (·.on? key)).getLast?.getD (k.down.get key) := by
  induction strokes using List.reverseRecOn with
  | nil => rfl
  | append_singleton strokes last ih =>
    have struck : k.strikeAll (strokes ++ [last]) = (k.strikeAll strokes).strike last :=
      k.strikeAll_append strokes [last]
    rw [struck, down_strike, ih, List.filterMap_append, List.getLast?_append]
    cases concerns : last.on? key <;> simp [concerns]

theorem down_strikeAll_map (k : Keypad) (keys : List (Fin Layout.keyCount)) (pressed : Bool)
    (key : Fin Layout.keyCount) : (k.strikeAll (keys.map (⟨·, pressed⟩))).down.get key =
      if key ∈ keys then pressed else k.down.get key := by
  induction keys generalizing k with
  | nil => rfl
  | cons first rest ih =>
    have struck : (k.strikeAll ((first :: rest).map (⟨·, pressed⟩))).down.get key = _ :=
      ih (k.strike ⟨first, pressed⟩)
    rw [struck, strike, down_put]
    by_cases same : first = key
    · simp [same]
    · simp [same, Ne.symm same]

/-! ## Presses -/

theorem pressed?_put (k : Keypad) (key : Fin Layout.keyCount) (pressed : Bool) :
    k.pressed? (k.put key pressed) = if pressed && !k.down.get key then some key else none := by
  split
  · next raised =>
    obtain ⟨rfl, released⟩ := Bool.and_eq_true_iff.mp raised
    exact pressed?_put_of_released (Bool.not_eq_true' _ ▸ released)
  · next kept =>
    cases found : k.pressed? (k.put key pressed) with
    | none => rfl
    | some other =>
      obtain ⟨rfl, rfl, released⟩ := of_pressed?_put found
      exact absurd (by rw [released]; rfl) kept

/-- The keys that a row of strokes takes from released to pressed, in their order. -/
def presses (k : Keypad) : List Keystroke → List (Fin Layout.keyCount)
  | [] => []
  | stroke :: rest => (k.pressed? (k.strike stroke)).toList ++ (k.strike stroke).presses rest

theorem presses_append (k : Keypad) (strokes rest : List Keystroke) :
    k.presses (strokes ++ rest) = k.presses strokes ++ (k.strikeAll strokes).presses rest := by
  induction strokes generalizing k with
  | nil => rfl
  | cons stroke strokes ih =>
    rw [List.cons_append, presses, presses, ih, List.append_assoc]
    rfl

theorem latch_strike (k : Keypad) (stroke : Keystroke) : (k.strike stroke).latch =
    if stroke.pressed && !k.down.get stroke.key then some stroke.key else k.latch := rfl

/-- The latch keeps the last press. -/
theorem latch_strikeAll (k : Keypad) (strokes : List Keystroke) :
    (k.strikeAll strokes).latch = (k.presses strokes).getLast?.or k.latch := by
  induction strokes generalizing k with
  | nil => rfl
  | cons stroke rest ih =>
    have first : (k.strike stroke).latch = (k.pressed? (k.strike stroke)).or k.latch :=
      k.latch_put stroke.key stroke.pressed
    have single : (k.pressed? (k.strike stroke)).toList.getLast? = k.pressed? (k.strike stroke) := by
      cases k.pressed? (k.strike stroke) <;> rfl
    have later : (k.strikeAll (stroke :: rest)).latch = _ := ih (k.strike stroke)
    rw [later, first, presses, List.getLast?_append, single, Option.or_assoc]

/-- Of keys that are pressed one after the other, each that was released is pressed once. -/
theorem presses_press (k : Keypad) (keys : List (Fin Layout.keyCount)) :
    k.presses (keys.map (⟨·, true⟩)) = (keys.filter (!k.down.get ·)).eraseDups := by
  induction keys generalizing k with
  | nil => rfl
  | cons first rest ih =>
    have next (key : Fin Layout.keyCount) : (!(k.strike ⟨first, true⟩).down.get key) =
        (!key == first && !k.down.get key) := by
      rw [strike, down_put]
      by_cases same : first = key
      · simp [same]
      · simp [same, Ne.symm same]
    rw [List.map_cons, presses, ih, funext next, ← List.filter_filter, strike, pressed?_put]
    cases held : k.down.get first with
    | false =>
      rw [List.filter_cons_of_pos (by rw [held]; rfl), List.eraseDups_cons]
      rfl
    | true =>
      have other : ∀ key ∈ rest.filter (!k.down.get ·), (!key == first) = true := by
        intro key member
        obtain ⟨-, released⟩ := List.mem_filter.mp member
        refine Bool.not_eq_true' _ ▸ beq_false_of_ne ?_
        rintro rfl
        rw [held] at released
        cases released
      rw [List.filter_cons_of_neg (by rw [held]; exact Bool.false_ne_true),
        List.filter_eq_self.mpr other]
      rfl

theorem presses_release (k : Keypad) (keys : List (Fin Layout.keyCount)) :
    k.presses (keys.map (⟨·, false⟩)) = [] := by
  induction keys generalizing k with
  | nil => rfl
  | cons first rest ih =>
    rw [List.map_cons, presses, ih, strike, pressed?_put]
    rfl

end Keypad

end Chip8
