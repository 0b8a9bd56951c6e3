import Chip8.Host.TerminalInputs
import Chip8.Proofs.Keystrokes
import Chip8.Proofs.Settling

/-! Keys of a terminal, with exact time. A key counts as held for a fifth of a second after its latest
character, to the moment; a repeat prolongs the hold, and is a new press only after its end. -/

namespace Chip8

namespace TimeLine

@[simp] theorem holdTime_eq : (TerminalInputs.holdTime : Rat) = 1 / 5 := by
  show mkRat 1 5 = _
  norm_num [Rat.mkRat_eq_div]

end TimeLine

namespace TerminalInputs

open TimeLine

variable {τ : Type} {d : TerminalInputs τ} {keys : List (Fin Layout.keyCount)}
  {key : Fin Layout.keyCount}

/-! ## Times of release -/

theorem get_setRelease (d : TerminalInputs τ) (key other : Fin Layout.keyCount) (time : τ) :
    (d.setRelease key time).releases.get other =
      if key = other then time else d.releases.get other := by
  simp only [Fin.ext_iff]
  exact Vector.getElem_set key.isLt other.isLt

/-- Sets the time at which some keys are released. -/
def setReleases (d : TerminalInputs τ) (keys : List (Fin Layout.keyCount)) (time : τ) :
    TerminalInputs τ := keys.foldl (·.setRelease · time) d

theorem now_setReleases (d : TerminalInputs τ) (keys : List (Fin Layout.keyCount)) (time : τ) :
    (d.setReleases keys time).now = d.now := by
  induction keys generalizing d with
  | nil => rfl
  | cons key rest ih => exact ih (d.setRelease key time)

theorem queue_setReleases (d : TerminalInputs τ) (keys : List (Fin Layout.keyCount)) (time : τ) :
    (d.setReleases keys time).queue = d.queue := by
  induction keys generalizing d with
  | nil => rfl
  | cons key rest ih => exact ih (d.setRelease key time)

theorem get_setReleases (d : TerminalInputs τ) (keys : List (Fin Layout.keyCount)) (time : τ)
    (key : Fin Layout.keyCount) : (d.setReleases keys time).releases.get key =
      if key ∈ keys then time else d.releases.get key := by
  induction keys generalizing d with
  | nil => rfl
  | cons first rest ih =>
    have set : (d.setReleases (first :: rest) time).releases.get key = _ :=
      ih (d.setRelease first time)
    rw [set, get_setRelease]
    by_cases same : first = key
    · simp [same]
    · simp [same, Ne.symm same]

section

variable [TimeLine τ] [LE τ] [LT τ] [DecidableLE τ] [DecidableLT τ]

theorem isOver_setRelease {other : Fin Layout.keyCount} (differ : key ≠ other) (time : τ) :
    (d.setRelease key time).isOver other = d.isOver other := by
  simp only [isOver, get_setRelease, if_neg differ]
  rfl

theorem releaseOver_eq (d : TerminalInputs τ) (keypad : Keypad) (distinct : keys.Nodup) :
    d.releaseOver keypad keys = (d.setReleases (keys.filter d.isOver) zero,
      keypad.strikeAll ((keys.filter d.isOver).map (⟨·, false⟩))) := by
  induction keys generalizing d keypad with
  | nil => rfl
  | cons key rest ih =>
    obtain ⟨other, distinct⟩ := List.nodup_cons.mp distinct
    rw [releaseOver]
    cases due : d.isOver key with
    | false =>
      rw [List.filter_cons_of_neg (by simp [due]), if_neg Bool.false_ne_true]
      exact ih d keypad distinct
    | true =>
      have same : rest.filter (d.setRelease key zero).isOver = rest.filter d.isOver :=
        List.filter_congr fun named member =>
          isOver_setRelease (ne_of_mem_of_not_mem member other).symm zero
      rw [List.filter_cons_of_pos due, if_pos rfl, ih _ _ distinct, same]
      rfl

end

/-! ## Polls -/

variable [TimeLine τ] [Add τ]

/-- The inputs once some keys have been taken from the queue. -/
def sees (d : TerminalInputs τ) (keys : List (Fin Layout.keyCount)) : TerminalInputs τ :=
  { d.setReleases keys (d.now + holdTime) with queue := [] }

theorem drain_eq (d : TerminalInputs τ) (keypad : Keypad) (keys : List (Fin Layout.keyCount)) :
    d.drain keypad (keys.map some) =
      (d.sees keys, keypad.strikeAll (keys.map (⟨·, true⟩)), false) := by
  induction keys generalizing d keypad with
  | nil => rfl
  | cons key rest ih => exact ih (d.setRelease key (d.now + holdTime)) (keypad.put key true)

variable [LE τ] [LT τ] [DecidableLE τ] [DecidableLT τ]

/-- The keys whose time has come once others have been taken from the queue, in ascending order. -/
def ended (d : TerminalInputs τ) (keys : List (Fin Layout.keyCount)) : List (Fin Layout.keyCount) :=
  (List.finRange _).filter (d.sees keys).isOver

/-- What a poll does to the keypad: it presses the keys of the queue, and then releases those whose
time has come. -/
def strokes (d : TerminalInputs τ) (keys : List (Fin Layout.keyCount)) : List Keystroke :=
  keys.map (⟨·, true⟩) ++ (d.ended keys).map (⟨·, false⟩)

theorem poll_eq (keypad : Keypad) (waiting : d.queue = keys.map some) :
    d.poll keypad = ((d.sees keys).setReleases (d.ended keys) zero,
      keypad.strikeAll (d.strokes keys), false) := by
  rw [poll, waiting, drain_eq]
  dsimp only
  rw [releaseOver_eq _ _ (List.nodup_finRange _), strokes, Keypad.strikeAll_append]
  rfl

end TerminalInputs

/-! ## Sessions -/

/-- A poll at some time, with the keys whose characters have been read since the one before. -/
structure TerminalPoll (τ : Type) where
  time : τ
  keys : List (Fin Layout.keyCount)

/-- The inputs of a terminal, with the keypad that they alone write to. -/
structure TerminalSession (τ : Type) where
  device : TerminalInputs τ
  keypad : Keypad

namespace TerminalSession

open TimeLine TerminalInputs

section

variable {τ : Type} [TimeLine τ] [Add τ] [LE τ] [LT τ] [DecidableLE τ] [DecidableLT τ]

/-- The inputs just before a poll. -/
def awaits (s : TerminalSession τ) (p : TerminalPoll τ) : TerminalInputs τ :=
  { s.device with now := p.time, queue := s.device.queue ++ p.keys.map some }

def polled (s : TerminalSession τ) (p : TerminalPoll τ) : Poll (TerminalInputs τ) :=
  InputDevice.poll (s.awaits p) s.keypad

def turn (s : TerminalSession τ) (p : TerminalPoll τ) : TerminalSession τ :=
  ⟨(s.polled p).device, (s.polled p).keypad⟩

def after (s : TerminalSession τ) (polls : List (TerminalPoll τ)) : TerminalSession τ :=
  polls.foldl turn s

theorem after_concat (s : TerminalSession τ) (polls : List (TerminalPoll τ)) (p : TerminalPoll τ) :
    s.after (polls ++ [p]) = (s.after polls).turn p := List.foldl_append

/-- What a poll does to the keypad. -/
def strokes (s : TerminalSession τ) (p : TerminalPoll τ) : List Keystroke :=
  (s.awaits p).strokes p.keys

theorem polled_eq {s : TerminalSession τ} (empty : s.device.queue = []) (p : TerminalPoll τ) :
    s.polled p = {
      device := ((s.awaits p).sees p.keys).setReleases ((s.awaits p).ended p.keys) zero
      keypad := s.keypad.strikeAll (s.strokes p)
      result := .ok false } := by
  have waiting : (s.awaits p).queue = p.keys.map some := by rw [awaits, empty, List.nil_append]
  simp only [polled, InputDevice.poll, poll_eq s.keypad waiting, strokes]

end

/-- The time of the latest poll that has seen a key. -/
def lastSeen (key : Fin Layout.keyCount) (polls : List (TerminalPoll Rat)) : Option Rat :=
  (polls.filter (key ∈ ·.keys)).getLast?.map (·.time)

variable {s : TerminalSession Rat} {past : List (TerminalPoll Rat)} {p : TerminalPoll Rat}
  {key : Fin Layout.keyCount} {now : Rat}

theorem lastSeen_concat (key : Fin Layout.keyCount) (past : List (TerminalPoll Rat))
    (p : TerminalPoll Rat) : lastSeen key (past ++ [p]) =
      if key ∈ p.keys then some p.time else lastSeen key past := by
  rw [lastSeen, List.filter_append, List.getLast?_append]
  split
  · next seen => simp [seen]
  · next unseen => simp [unseen, lastSeen]

theorem exists_of_lastSeen {time : Rat} (h : lastSeen key past = some time) :
    ∃ q ∈ past, q.time = time := by
  obtain ⟨q, last, same⟩ := Option.map_eq_some_iff.mp h
  exact ⟨q, (List.mem_filter.mp (List.mem_of_getLast? last)).1, same⟩

/-- The time from which a key counts as held, if it does. -/
def heldSince (key : Fin Layout.keyCount) (past : List (TerminalPoll Rat)) (now : Rat) :
    Option Rat := (lastSeen key past).filter fun time => now < time + 1 / 5

/-- The times of release and the keypad agree with what has been seen so far. -/
structure Holds (s : TerminalSession Rat) (past : List (TerminalPoll Rat)) (now : Rat) : Prop where
  empty : s.device.queue = []
  release : ∀ key, s.device.releases.get key = ((heldSince key past now).map (· + 1 / 5)).getD 0
  down : ∀ key, s.keypad.down.get key = (heldSince key past now).isSome

theorem isSome_heldSince_iff : (heldSince key past now).isSome = true ↔
    ∃ time, lastSeen key past = some time ∧ now < time + 1 / 5 := by
  simp only [heldSince, Option.isSome_iff_exists, Option.filter_eq_some_iff, decide_eq_true_eq]

theorem isOver_iff (d : TerminalInputs Rat) (key : Fin Layout.keyCount) :
    d.isOver key = true ↔ d.releases.get key ≠ 0 ∧ d.releases.get key ≤ d.now := by
  simp only [isOver, zero_eq, Bool.and_eq_true, Bool.or_eq_true, decide_eq_true_eq]
  rw [lt_or_lt_iff_ne, ne_comm]

/-- A poll releases the keys that it does not see and whose time has come. -/
theorem mem_ended_iff (s : TerminalSession Rat) (p : TerminalPoll Rat) (key : Fin Layout.keyCount) :
    key ∈ (s.awaits p).ended p.keys ↔ key ∉ p.keys ∧
      s.device.releases.get key ≠ 0 ∧ s.device.releases.get key ≤ p.time := by
  have now : ((s.awaits p).sees p.keys).now = p.time := now_setReleases _ _ _
  have release : ((s.awaits p).sees p.keys).releases.get key =
      if key ∈ p.keys then p.time + 1 / 5 else s.device.releases.get key := by
    rw [← holdTime_eq]
    exact get_setReleases _ _ _ _
  simp only [ended, List.mem_filter, List.mem_finRange, true_and, isOver_iff, now, release]
  split
  · next seen => exact iff_of_false (fun h => by linarith [h.2]) (fun h => h.1 seen)
  · next unseen => exact (and_iff_right unseen).symm

/-! ## Holding -/

theorem release_turn (empty : s.device.queue = []) (p : TerminalPoll Rat)
    (key : Fin Layout.keyCount) : (s.turn p).device.releases.get key =
      if key ∈ (s.awaits p).ended p.keys then 0
      else if key ∈ p.keys then p.time + 1 / 5 else s.device.releases.get key := by
  rw [turn, polled_eq empty, get_setReleases, zero_eq, ← holdTime_eq]
  exact congrArg _ (get_setReleases _ _ _ _)

theorem down_turn (empty : s.device.queue = []) (p : TerminalPoll Rat)
    (key : Fin Layout.keyCount) : (s.turn p).keypad.down.get key =
      if key ∈ (s.awaits p).ended p.keys then false
      else if key ∈ p.keys then true else s.keypad.down.get key := by
  rw [turn, polled_eq empty, strokes, TerminalInputs.strokes, Keypad.strikeAll_append,
    Keypad.down_strikeAll_map, Keypad.down_strikeAll_map]

theorem heldSince_of_seen (seen : key ∈ p.keys) (past : List (TerminalPoll Rat)) :
    heldSince key (past ++ [p]) p.time = some p.time := by
  rw [heldSince, lastSeen_concat, if_pos seen]
  exact Option.filter_some_pos (decide_eq_true (by linarith))

/-- A key that is not seen is held as long as before. -/
theorem heldSince_of_unseen (unseen : key ∉ p.keys) (later : now ≤ p.time) :
    heldSince key (past ++ [p]) p.time =
      (heldSince key past now).filter fun time => p.time < time + 1 / 5 := by
  rw [heldSince, lastSeen_concat, if_neg unseen, heldSince, Option.filter_filter]
  refine congrArg (Option.filter · _) (funext fun time => ?_)
  rw [← Bool.decide_and]
  exact decide_eq_decide.mpr ⟨fun early => ⟨by linarith, early⟩, And.right⟩

theorem pos_of_heldSince {time : Rat} (positive : ∀ q ∈ past, 0 < q.time)
    (since : heldSince key past now = some time) : 0 < time := by
  obtain ⟨q, member, rfl⟩ := exists_of_lastSeen (Option.filter_eq_some_iff.mp since).1
  exact positive q member

/-- What a poll sees is held from then on, and what it does not see is held as long as before. -/
theorem Holds.key_turn (holds : s.Holds past now) (later : now ≤ p.time)
    (positive : ∀ q ∈ past, 0 < q.time) (key : Fin Layout.keyCount) :
    (s.turn p).device.releases.get key =
        ((heldSince key (past ++ [p]) p.time).map (· + 1 / 5)).getD 0 ∧
      (s.turn p).keypad.down.get key = (heldSince key (past ++ [p]) p.time).isSome := by
  have ends_iff := s.mem_ended_iff p key
  rw [release_turn holds.empty, down_turn holds.empty]
  by_cases seen : key ∈ p.keys
  · have kept := mt ends_iff.mp (fun h => h.1 seen)
    simp only [if_neg kept, if_pos seen, heldSince_of_seen seen]
    exact ⟨rfl, rfl⟩
  · rw [heldSince_of_unseen seen later, holds.down key]
    rw [holds.release key] at ends_iff ⊢
    cases since : heldSince key past now with
    | none =>
      rw [since] at ends_iff
      have kept := mt ends_iff.mp (fun h => h.2.1 rfl)
      simp only [if_neg kept, if_neg seen]
      exact ⟨rfl, rfl⟩
    | some time =>
      rw [since] at ends_iff
      -- Zero stands for a released key, and so the times of polls have to be positive.
      have begun := pos_of_heldSince positive since
      by_cases held : p.time < time + 1 / 5
      · have kept := mt ends_iff.mp (fun h => not_le.mpr held h.2.2)
        have stays : (some time).filter (fun time => p.time < time + 1 / 5) = some time :=
          Option.filter_some_pos (decide_eq_true held)
        rw [if_neg kept, if_neg kept, if_neg seen, if_neg seen, stays]
        exact ⟨rfl, rfl⟩
      · have nonzero : time + 1 / 5 ≠ 0 := by linarith
        have due := ends_iff.mpr ⟨seen, nonzero, not_lt.mp held⟩
        have ends : (some time).filter (fun time => p.time < time + 1 / 5) = none :=
          Option.filter_some_neg (decide_eq_false held)
        rw [if_pos due, if_pos due, ends]
        exact ⟨rfl, rfl⟩

theorem Holds.turn (holds : s.Holds past now) (later : now ≤ p.time)
    (positive : ∀ q ∈ past, 0 < q.time) : (s.turn p).Holds (past ++ [p]) p.time where
  empty := by
    rw [TerminalSession.turn, polled_eq holds.empty]
    exact queue_setReleases _ _ _
  release key := (holds.key_turn later positive key).1
  down key := (holds.key_turn later positive key).2

/-- While a session goes on, the keys held are those that have been seen lately. -/
theorem Holds.after (start : s.Holds [] 0) (positive : ∀ q ∈ past, 0 < q.time)
    (ordered : past.Pairwise (·.time ≤ ·.time)) :
    (s.after past).Holds past ((past.getLast?.map (·.time)).getD 0) := by
  induction past using List.reverseRecOn with
  | nil => exact start
  | append_singleton past p ih =>
    obtain ⟨ordered, -, later⟩ := List.pairwise_append.mp ordered
    have earlier : ∀ q ∈ past, 0 < q.time := fun q member =>
      positive q (List.mem_append_left _ member)
    have holds := ih earlier ordered
    have last : (past.getLast?.map (·.time)).getD 0 ≤ p.time := by
      cases latest : past.getLast? with
      | none => exact (positive p List.mem_concat_self).le
      | some q => exact later q (List.mem_of_getLast? latest) p (List.mem_singleton_self p)
    rw [after_concat, List.getLast?_concat]
    exact holds.turn last earlier

theorem holds_new (keymap : Keymap) {keypad : Keypad}
    (released : ∀ key, keypad.down.get key = false) :
    Holds { device := .new keymap, keypad } [] 0 where
  empty := rfl
  release key := by
    rw [← zero_eq]
    exact Vector.getElem_replicate key.isLt
  down := released

/-! ## Presses -/

theorem presses_strokes (s : TerminalSession Rat) (p : TerminalPoll Rat) :
    s.keypad.presses (s.strokes p) = (p.keys.filter (!s.keypad.down.get ·)).eraseDups := by
  rw [strokes, TerminalInputs.strokes, Keypad.presses_append, Keypad.presses_release,
    List.append_nil, Keypad.presses_press]

/-- What a poll after others makes of the keypad. -/
structure Attends (s : TerminalSession Rat) (past : List (TerminalPoll Rat))
    (p : TerminalPoll Rat) : Prop where
  answer : (s.polled p).result = .ok false
  /-- A key is down for a fixed time after the latest poll that has seen it. -/
  down : ∀ key, (s.turn p).keypad.down.get key = true ↔
    ∃ time, lastSeen key (past ++ [p]) = some time ∧ p.time < time + holdTime
  keypad : (s.turn p).keypad = s.keypad.strikeAll (s.strokes p)
  /-- Of the keys that a poll sees, those that were released are pressed, each of them once. -/
  presses : s.keypad.presses (s.strokes p) = (p.keys.filter (!s.keypad.down.get ·)).eraseDups
  latch : (s.turn p).keypad.latch = (s.keypad.presses (s.strokes p)).getLast?.or s.keypad.latch

/-- From a keypad without a key down, every poll holds the keys for exactly as long as it should, as
long as the clock does not run backwards. -/
theorem attends_after (keymap : Keymap) {keypad : Keypad}
    (released : ∀ key, keypad.down.get key = false)
    (positive : ∀ q ∈ past ++ [p], 0 < q.time)
    (ordered : (past ++ [p]).Pairwise (·.time ≤ ·.time)) :
    Attends (after { device := .new keymap, keypad } past) past p := by
  have start := holds_new keymap released
  obtain ⟨orderedPast, -⟩ := List.pairwise_append.mp ordered
  have before := start.after (fun q member => positive q (List.mem_append_left _ member)) orderedPast
  have polled := polled_eq before.empty p
  constructor
  · rw [polled]
  · intro key
    have down := (start.after positive ordered).down key
    rw [after_concat, List.getLast?_concat] at down
    rw [down, isSome_heldSince_iff, holdTime_eq]
    rfl
  · rw [turn, polled]
  · exact presses_strokes _ p
  · rw [turn, polled, Keypad.latch_strikeAll]

/-- A repeat that is seen just as its key is due to be released prolongs the hold without another
press. -/
theorem attends_after_repeat :
    let keymap : Keymap := ⟨[120, 49, 50, 51, 113, 119, 101, 97, 115, 100, 122, 99, 52, 114, 102,
      118].zip (List.finRange _)⟩
    let start : TerminalSession Rat := { device := .new keymap, keypad := .released }
    let past : List (TerminalPoll Rat) := [⟨1, [⟨5, by decide⟩]⟩, ⟨11 / 10, []⟩]
    let p : TerminalPoll Rat := ⟨6 / 5, [⟨5, by decide⟩, ⟨3, by decide⟩, ⟨3, by decide⟩]⟩
    (∀ key, Keypad.released.down.get key = false) ∧ (∀ q ∈ past ++ [p], 0 < q.time) ∧
      (past ++ [p]).Pairwise (·.time ≤ ·.time) ∧
      ((start.after past).turn p).keypad.down.get ⟨5, by decide⟩ = true ∧
      (start.after past).keypad.presses ((start.after past).strokes p) = [⟨3, by decide⟩] := by
  intro keymap start past p
  have released : ∀ key, Keypad.released.down.get key = false := by decide
  have positive : ∀ q ∈ past ++ [p], 0 < q.time := by decide +kernel
  have ordered : (past ++ [p]).Pairwise (·.time ≤ ·.time) := by decide +kernel
  have attends : Attends (start.after past) past p := attends_after keymap released positive ordered
  refine ⟨released, positive, ordered, (attends.down _).mpr ⟨6 / 5, ?_, ?_⟩, ?_⟩
  · decide +kernel
  · rw [holdTime_eq]
    decide +kernel
  · rw [attends.presses]
    decide +kernel

end TerminalSession

end Chip8
