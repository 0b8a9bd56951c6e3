import Chip8.Proofs.Execute

/-! Draws of sprites one after the other. Each inverts a fixed list of pixels, so a pixel is lit in
the end if it was lit and inverted evenly often, or dark and inverted oddly often: the order does not
matter, and whatever is drawn once more disappears. -/

namespace Chip8

/-- One execution of a draw instruction: the machine that executes it, whatever its screen shows, and
the operands. -/
structure Drawing where
  machine : Machine
  x : Register
  y : Register
  height : Fin 16

namespace Drawing

/-- The machine of a drawing in front of a given screen. -/
def facing (c : Drawing) (d : Display) : Machine := { c.machine with display := d }

def run (c : Drawing) (d : Display) : EStateM.Result Fault Machine Unit :=
  (c.facing d).execute (.draw c.x c.y c.height)

/-- Origin, shape and bytes of what is drawn. -/
def stamp (c : Drawing) (d : Display) : Except Fault Stamp :=
  (c.facing d).stampAt c.x c.y c.height

theorem run_of_stamp {c : Drawing} {d : Display} (hd : d.Proper) {s : Stamp} (h : c.stamp d = .ok s) :
    c.run d = .ok () ((c.facing d).stamped s) :=
  Machine.run_draw_of_proper (m := c.facing d) hd h

theorem run_of_refused {c : Drawing} {d : Display} {fault : Fault} (h : c.stamp d = .error fault) :
    c.run d = .error fault (c.facing d) :=
  Machine.run_draw_of_refused (m := c.facing d) h

theorem exists_stamp {c : Drawing} {d : Display} (hd : d.Proper) {m : Machine}
    (h : c.run d = .ok () m) : ∃ s, c.stamp d = .ok s ∧ m = (c.facing d).stamped s := by
  cases first : c.stamp d with
  | error fault => cases (run_of_refused first).symm.trans h
  | ok s =>
    cases (run_of_stamp hd first).symm.trans h
    exact ⟨s, rfl, rfl⟩

/-- A screen of the same size gets the same stamp. -/
theorem stamp_congr (c : Drawing) {d e : Display} (width : e.width = d.width)
    (height : e.height = d.height) : c.stamp e = c.stamp d := by
  have same : (c.facing e).stampOf c.x c.y c.height = (c.facing d).stampOf c.x c.y c.height := by
    funext bytes
    simp only [Machine.stampOf, facing, width, height]
    rfl
  rw [stamp, stamp, Machine.stampAt, Machine.stampAt, same]
  rfl

end Drawing

namespace Display

/-- Executes drawings one after the other, and tells the screen in the end. -/
def drawAll (d : Display) : List Drawing → Except Fault Display
  | [] => .ok d
  | c :: rest =>
    match c.run d with
    | .ok () m => m.display.drawAll rest
    | .error fault _ => .error fault

theorem under_congr {d e : Display} (width : e.width = d.width) (height : e.height = d.height) :
    e.under = d.under := by
  funext s
  simp only [under, pixelsAt, pixelAt, width, height]

theorem onScreen_of_mem_under {d : Display} {ss : List Stamp} {p : Nat × Nat}
    (h : p ∈ ss.flatMap d.under) : d.onScreen p := by
  obtain ⟨s, _, hp⟩ := List.mem_flatMap.mp h
  exact onScreen_of_mem_pixelsAt hp

/-- Drawings that have stamps succeed, and invert the pixels under these. -/
theorem drawAll_of_stamps {d : Display} (hd : d.Proper) {cs : List Drawing} {ss : List Stamp}
    (h : cs.map (·.stamp d) = ss.map .ok) : d.drawAll cs = .ok (d.flipAll (ss.flatMap d.under)) := by
  -- The screen is general because the rest is drawn on what the first drawing leaves.
  induction cs generalizing d ss with
  | nil =>
    obtain rfl := List.map_eq_nil_iff.mp h.symm
    rfl
  | cons c rest ih =>
    obtain ⟨s, ss, rfl, first, others⟩ := List.map_eq_cons_iff.mp h.symm
    have first : c.stamp d = .ok s := first.symm
    let e := d.flipAll (d.under s)
    have width : e.width = d.width := width_flipAll d _
    have height : e.height = d.height := height_flipAll d _
    have he : e.Proper := hd.flipAll_under s
    have tail : rest.map (·.stamp e) = ss.map .ok :=
      (List.map_congr_left fun c _ => c.stamp_congr width height).trans others.symm
    have drawn : e.drawAll rest = .ok (d.flipAll ((s :: ss).flatMap d.under)) := by
      rw [ih he tail, under_congr width height, List.flatMap_cons, flipAll, flipAll, List.foldl_append]
      rfl
    rw [drawAll, Drawing.run_of_stamp hd first]
    exact drawn

/-- Every drawing of a list that succeeds has a stamp. -/
theorem stamps_of_drawAll {d e : Display} (hd : d.Proper) {cs : List Drawing}
    (h : d.drawAll cs = .ok e) : ∃ ss : List Stamp, cs.map (·.stamp d) = ss.map .ok := by
  induction cs generalizing d with
  | nil => exact ⟨[], rfl⟩
  | cons c rest ih =>
    cases first : c.stamp d with
    | error fault =>
      rw [drawAll, Drawing.run_of_refused first] at h
      cases h
    | ok s =>
      rw [drawAll, Drawing.run_of_stamp hd first] at h
      let e := d.flipAll (d.under s)
      have kept : rest.map (·.stamp d) = rest.map (·.stamp e) := List.map_congr_left fun c _ =>
        (c.stamp_congr (width_flipAll d _) (height_flipAll d _)).symm
      obtain ⟨ss, others⟩ := ih (hd.flipAll_under s) h
      exact ⟨s :: ss, by rw [List.map_cons, List.map_cons, first, kept, ← others]⟩

/-! ## Orders of the same drawings -/

theorem map_ok_filterMap {es : List (Except Fault Stamp)} (h : ∀ e ∈ es, ∃ s, e = .ok s) :
    (es.filterMap Except.toOption).map .ok = es := by
  induction es with
  | nil => rfl
  | cons e es ih =>
    obtain ⟨⟨s, rfl⟩, others⟩ := List.forall_mem_cons.mp h
    exact congrArg (Except.ok s :: ·) (ih others)

theorem exists_stamps_of_perm {es : List (Except Fault Stamp)} {ss : List Stamp}
    (h : es.Perm (ss.map .ok)) : ∃ ss' : List Stamp, es = ss'.map .ok ∧ ss'.Perm ss := by
  have fine : ∀ e ∈ es, ∃ s, e = .ok s := by
    intro e he
    obtain ⟨s, _, rfl⟩ := List.mem_map.mp (h.mem_iff.mp he)
    exact ⟨s, rfl⟩
  refine ⟨es.filterMap Except.toOption, (map_ok_filterMap fine).symm, ?_⟩
  have perm := h.filterMap Except.toOption
  rw [List.filterMap_map, show Except.toOption ∘ Except.ok = (some : Stamp → _) from rfl,
    List.filterMap_some] at perm
  exact perm

/-- What is inverted equally often, up to an even number of times, looks the same. -/
theorem picture_flipAll_congr {d : Display} (hd : d.Proper) {ps qs : List (Nat × Nat)}
    (hp : ∀ p ∈ ps, d.onScreen p) (hq : ∀ q ∈ qs, d.onScreen q)
    (same : ∀ p, ps.count p % 2 = qs.count p % 2) :
    (d.flipAll ps).picture = (d.flipAll qs).picture := by
  refine picture_congr (hd.flipAll hq) (hd.flipAll hp) (by simp) (by simp) ?_
  intro x y _ _
  rw [isLit_flipAll hd hp, isLit_flipAll hd hq, same]

/-- What is inverted an even number of times looks as before. -/
theorem picture_flipAll_even {d : Display} (hd : d.Proper) {ps : List (Nat × Nat)}
    (h : ∀ p ∈ ps, d.onScreen p) (even : ∀ p, ps.count p % 2 = 0) :
    (d.flipAll ps).picture = d.picture := by
  have none : ∀ q ∈ ([] : List (Nat × Nat)), d.onScreen q := nofun
  exact picture_flipAll_congr hd h none even

theorem drawAll_of_perm {d e : Display} (hd : d.Proper) {cs cs' : List Drawing}
    (h : d.drawAll cs = .ok e) (perm : (cs'.map (·.stamp d)).Perm (cs.map (·.stamp d))) :
    ∃ e', d.drawAll cs' = .ok e' ∧ e'.picture = e.picture := by
  obtain ⟨ss, stamps⟩ := stamps_of_drawAll hd h
  obtain ⟨ss', stamps', perm⟩ := exists_stamps_of_perm (stamps ▸ perm)
  obtain rfl := Except.ok.inj (h.symm.trans (drawAll_of_stamps hd stamps))
  refine ⟨_, drawAll_of_stamps hd stamps', ?_⟩
  refine picture_flipAll_congr hd (fun _ => onScreen_of_mem_under) (fun _ => onScreen_of_mem_under) ?_
  intro p
  rw [(perm.flatMap_right d.under).count_eq]

theorem drawAll_append_perm {d e : Display} (hd : d.Proper) {cs cs' : List Drawing}
    (h : d.drawAll cs = .ok e) (perm : (cs'.map (·.stamp d)).Perm (cs.map (·.stamp d))) :
    ∃ e', d.drawAll (cs ++ cs') = .ok e' ∧ e'.picture = d.picture := by
  obtain ⟨ss, stamps⟩ := stamps_of_drawAll hd h
  obtain ⟨ss', stamps', perm⟩ := exists_stamps_of_perm (stamps ▸ perm)
  have both : (cs ++ cs').map (·.stamp d) = (ss ++ ss').map .ok := by
    rw [List.map_append, List.map_append, stamps, stamps']
  refine ⟨_, drawAll_of_stamps hd both, ?_⟩
  refine picture_flipAll_even hd (fun _ => onScreen_of_mem_under) ?_
  intro p
  rw [List.flatMap_append, List.count_append, (perm.flatMap_right d.under).count_eq]
  omega

/-! ## One drawing twice -/

/-- Pixels that are inverted once each find a lit one the second time if there was a dark one. -/
theorem hits_flipAll_iff {d : Display} (hd : d.Proper) {ps : List (Nat × Nat)}
    (h : ∀ p ∈ ps, d.onScreen p) (nodup : ps.Nodup) :
    (d.flipAll ps).hits ps = true ↔ ∃ p ∈ ps, d.isLit p.1 p.2 = false := by
  have onScreen : ∀ p ∈ ps, (d.flipAll ps).onScreen p := by
    intro p hp
    simp only [Display.onScreen, width_flipAll, height_flipAll]
    exact h p hp
  have opposite : ∀ p ∈ ps, (d.flipAll ps).isLit p.1 p.2 = !d.isLit p.1 p.2 := by
    intro p hp
    rw [isLit_flipAll hd h, nodup.count, if_pos hp]
    exact Bool.xor_true _
  rw [hits_iff_of_nodup (hd.flipAll h) onScreen nodup]
  constructor
  · rintro ⟨p, hp, lit⟩
    exact ⟨p, hp, Bool.not_eq_true' _ ▸ (opposite p hp ▸ lit)⟩
  · rintro ⟨p, hp, dark⟩
    exact ⟨p, hp, by rw [opposite p hp, dark]; rfl⟩

theorem picture_flipAll_twice {d : Display} (hd : d.Proper) {ps : List (Nat × Nat)}
    (h : ∀ p ∈ ps, d.onScreen p) : ((d.flipAll ps).flipAll ps).picture = d.picture := by
  have twice : (d.flipAll ps).flipAll ps = d.flipAll (ps ++ ps) := by
    rw [flipAll, flipAll, flipAll, List.foldl_append]
  have all : ∀ p ∈ ps ++ ps, d.onScreen p := fun p hp => h p ((List.mem_append.mp hp).elim id id)
  rw [twice]
  refine picture_flipAll_even hd all ?_
  intro p
  rw [List.count_append]
  omega

theorem run_twice {d : Display} (hd : d.Proper) {c c' : Drawing} {s : Stamp}
    (first : c.stamp d = .ok s) (same : c'.stamp d = c.stamp d) :
    let e := d.flipAll (d.under s)
    ∃ m, c'.run e = .ok () m ∧ m.display = e.flipAll (d.under s) ∧
      (m.getV .flag = 1 ↔ e.hits (d.under s) = true) := by
  intro e
  have width : e.width = d.width := by simp [e]
  have height : e.height = d.height := by simp [e]
  have he : e.Proper := hd.flipAll_under s
  have again : c'.stamp e = .ok s := (c'.stamp_congr width height).trans (same.trans first)
  rw [← under_congr width height]
  refine ⟨_, Drawing.run_of_stamp he again, rfl, ?_⟩
  rw [Machine.stamped, Machine.getV_setFlag]
  change (if e.hits (e.under s) = true then (1 : UInt8) else 0) = 1 ↔ e.hits (e.under s) = true
  cases e.hits (e.under s) <;> decide

theorem sixteen_le_of_mode {d : Display}
    (mode : d.size = Layout.lowResolution ∨ d.size = Layout.highResolution) :
    16 ≤ d.width ∧ 16 ≤ d.height := by
  rcases mode with low | high
  · obtain ⟨width, height⟩ : d.width = 64 ∧ d.height = 32 := Prod.ext_iff.mp low
    omega
  · obtain ⟨width, height⟩ : d.width = 128 ∧ d.height = 64 := Prod.ext_iff.mp high
    omega

/-- The order of drawings does not matter, and drawings made once more in any order undo them. Of two
drawings of one sprite the second finds a lit pixel exactly if the first found a dark one. -/
theorem drawings_compose {d : Display} (hd : d.Proper)
    (mode : d.size = Layout.lowResolution ∨ d.size = Layout.highResolution) :
    (∀ cs e cs', d.drawAll cs = .ok e → (cs'.map (·.stamp d)).Perm (cs.map (·.stamp d)) →
      (∃ e', d.drawAll cs' = .ok e' ∧ e'.picture = e.picture) ∧
      ∃ e', d.drawAll (cs ++ cs') = .ok e' ∧ e'.picture = d.picture) ∧
    ∀ (c c' : Drawing) (m : Machine), c.run d = .ok () m → c'.stamp d = c.stamp d →
      ∃ m', c'.run m.display = .ok () m' ∧ m'.display.picture = d.picture ∧
        (m'.getV .flag = 1 ↔
          ∃ p, (c.facing d).Covers c.x c.y c.height p ∧ d.isLit p.1 p.2 = false) := by
  refine ⟨?_, ?_⟩
  · intro cs e cs' drawn perm
    exact ⟨drawAll_of_perm hd drawn perm, drawAll_append_perm hd drawn perm⟩
  · intro c c' m drawn same
    obtain ⟨s, first, rfl⟩ := Drawing.exists_stamp hd drawn
    obtain ⟨m', again, shown, flag⟩ := run_twice hd first same
    have inside : ∀ p ∈ d.under s, d.onScreen p := fun _ hp => onScreen_of_mem_pixelsAt hp
    obtain ⟨wide, tall⟩ := sixteen_le_of_mode mode
    have nodup : (d.under s).Nodup :=
      Machine.nodup_under (m := c.facing d) c.height.isLt wide tall first
    refine ⟨m', again, shown ▸ picture_flipAll_twice hd inside, ?_⟩
    rw [flag, hits_flipAll_iff hd inside nodup]
    have covered : ∀ p, p ∈ d.under s ↔ (c.facing d).Covers c.x c.y c.height p :=
      fun p => Machine.mem_under_iff (m := c.facing d) first
    simp only [covered]

/-- The digits zero and one over each other, in both orders, and a zero twice. -/
theorem drawings_compose_digits :
    let digit (address : Int) : Drawing :=
      ⟨{ Machine.new {} false false (.cycle []) with i := address }, .first, .first, 5⟩
    let d := lowResolution
    ∃ e m, d.drawAll [digit 0x50, digit 0x55] = .ok e ∧ (digit 0x50).run d = .ok () m ∧
      (∃ e', d.drawAll [digit 0x55, digit 0x50] = .ok e' ∧ e'.picture = e.picture) ∧
      ∃ m', (digit 0x50).run m.display = .ok () m' ∧ m'.display.picture = d.picture := by
  intro digit d
  have hd : d.Proper := blank_proper _ _
  obtain ⟨zero, first⟩ : ∃ s, (digit 0x50).stamp d = .ok s :=
    ⟨_, Machine.stampAt_of_fits _ _ (by decide)⟩
  obtain ⟨one, second⟩ : ∃ s, (digit 0x55).stamp d = .ok s :=
    ⟨_, Machine.stampAt_of_fits _ _ (by decide)⟩
  have stamps : [digit 0x50, digit 0x55].map (·.stamp d) = [zero, one].map .ok := by
    rw [List.map_cons, List.map_cons, List.map_nil, first, second]
    rfl
  have drawn := drawAll_of_stamps hd stamps
  have run : (digit 0x50).run d = .ok () (((digit 0x50).facing d).stamped zero) :=
    Drawing.run_of_stamp hd first
  have composed := drawings_compose hd (.inl rfl)
  obtain ⟨m', again, restored, _⟩ := composed.2 _ _ _ run rfl
  have swapped := (composed.1 _ _ [digit 0x55, digit 0x50] drawn (.swap _ _ _)).1
  exact ⟨_, _, drawn, run, swapped, m', again, restored⟩

end Display

end Chip8
