import Mathlib.Data.Nat.ModEq
import Proninx.Lib.Runs

/-!
# The virtual terminals (`console.c`)

Every terminal has its own cells, cursor and escape state, and the active
one is on the screen. `cgaputc` keeps inside the cells of its terminal as
long as these have the size of the geometry in force, but its effect is
not always confined to them.
-/

namespace Proninx.Console

open List Function Nat

/-- `console_columns` and `console_rows`. No mode is below 320 by 200. -/
structure Geometry where
  columns : Nat
  rows : Nat
  columns_pos : 0 < columns
  rows_pos : 0 < rows

def Geometry.size (g : Geometry) : Nat := g.rows * g.columns

/-! ## The frame buffer -/

structure Framebuffer where
  /-- The memory behind `pixels`, if there is a frame buffer. -/
  pixels : Option (Nat → BitVec 8)
  shadow : Option (Nat → BitVec 8)
  renderedCells : Option (Nat → BitVec 16)
  onGpu : Bool
  /-- What the GPU was last sent. -/
  host : Nat → BitVec 8
  dirtyLo : Nat → Nat
  dirtyHi : Nat → Nat
  dirtyTop : Nat
  dirtyBot : Nat
  height : Nat
  pitch : Nat
  columns : Nat
  rows : Nat

namespace Framebuffer

def available (fb : Framebuffer) : Bool := fb.pixels.isSome

/-- Where glyphs land. -/
def canvas (fb : Framebuffer) : Option (Nat → BitVec 8) := fb.shadow <|> fb.pixels

def setCanvas (fb : Framebuffer) (c : Nat → BitVec 8) : Framebuffer :=
  if fb.shadow.isSome then { fb with shadow := some c } else { fb with pixels := some c }

def markDirty (fb : Framebuffer) (y0 y1 xb0 xb1 : Nat) : Framebuffer :=
  let y1 := min y1 fb.height
  let xb1 := min xb1 fb.pitch
  if y1 ≤ y0 ∨ xb1 ≤ xb0 then fb
  else
    let inside := fun y => y0 ≤ y ∧ y < y1
    let clean := fun y => fb.dirtyHi y < fb.dirtyLo y
    { fb with
      dirtyLo := fun y => if inside y then if clean y then xb0 else min xb0 (fb.dirtyLo y)
        else fb.dirtyLo y
      dirtyHi := fun y => if inside y then if clean y then xb1 else max xb1 (fb.dirtyHi y)
        else fb.dirtyHi y
      dirtyTop := min y0 fb.dirtyTop
      dirtyBot := max y1 fb.dirtyBot }

def dirtyReset (fb : Framebuffer) : Framebuffer :=
  let inside := fun y => fb.dirtyTop ≤ y ∧ y < fb.dirtyBot
  { fb with
    dirtyLo := fun y => if inside y then 1 else fb.dirtyLo y
    dirtyHi := fun y => if inside y then 0 else fb.dirtyHi y
    dirtyTop := fb.height
    dirtyBot := 0 }

def present (fb : Framebuffer) : Framebuffer :=
  if fb.dirtyBot ≤ fb.dirtyTop then fb
  else
    let row := fun a => fb.dirtyTop ≤ a / fb.pitch ∧ a / fb.pitch < fb.dirtyBot
    let span := fun a => fb.dirtyLo (a / fb.pitch) ≤ a % fb.pitch ∧
      a % fb.pitch < fb.dirtyHi (a / fb.pitch)
    dirtyReset <| match fb.pixels, fb.shadow with
      | some p, s =>
        if fb.onGpu then { fb with host := fun a => if row a then p a else fb.host a }
        else match s with
          | some s => { fb with pixels := some fun a => if row a ∧ span a then s a else p a }
          | none => fb
      | none, _ => fb

def clear (fb : Framebuffer) : Framebuffer :=
  match fb.canvas, fb.renderedCells with
  | some c, some r =>
    let fb := fb.setCanvas fun a => if a < fb.pitch * fb.height then 0 else c a
    let fb := { fb with
      renderedCells := some fun i => if i < fb.columns * fb.rows then 0xFFFF else r i }
    (fb.markDirty 0 fb.height 0 fb.pitch).present
  | _, _ => fb

end Framebuffer

/-! ## The terminals -/

inductive Ansi where
  | text | escape | params

abbrev Cells : Type := List (BitVec 16)

/-- The fields of `struct vt` for output. -/
structure Vt where
  cells : Option Cells
  pos : Nat
  pendingScrolls : Nat
  ansiState : Ansi
  ansiParams : Nat → BitVec 32
  /-- The parameter that is being read. -/
  ansiNparams : Nat
  attr : BitVec 16
  utf8Codepoint : BitVec 32
  utf8Expected : Nat

inductive Stop where
  /-- `pos under/overflow` -/
  | panic
  /-- A cell outside the buffer is written. -/
  | outside

def BACKSPACE : Nat := 0x100

/-- The character that stands for a code point. -/
def shown (cp : BitVec 32) : Nat :=
  if cp = 0x2014 ∨ cp = 0x2013 ∨ cp = 0x2015 ∨ cp = 0x2212 then 0x2D
  else if cp = 0x2018 ∨ cp = 0x2019 then 0x27
  else if cp = 0x201C ∨ cp = 0x201D then 0x22
  else if cp = 0x2022 ∨ cp = 0xB7 then 0x2A
  else if cp = 0xA0 then 0x20
  else if cp = 0x2026 then 0x2E
  else if cp < 128 then cp.toNat
  else 0x3F

def extend (cp : BitVec 32) (b : BitVec 8) : BitVec 32 := cp <<< 6 ||| (b &&& 0x3F).setWidth 32

/-- The character that is complete, with the new `utf8_codepoint` and
`utf8_expected`. -/
def decodeUtf8 (cp : BitVec 32) (expected : Nat) (b : BitVec 8) : Option Nat × BitVec 32 × Nat :=
  if expected = 0 then
    if b &&& 0x80 = 0 then (some b.toNat, cp, 0)
    else if b &&& 0xE0 = 0xC0 then (none, (b &&& 0x1F).setWidth 32, 1)
    else if b &&& 0xF0 = 0xE0 then (none, (b &&& 0x0F).setWidth 32, 2)
    else if b &&& 0xF8 = 0xF0 then (none, (b &&& 0x07).setWidth 32, 3)
    else (some 0x3F, cp, 0)
  else if b &&& 0xC0 = 0x80 then
    if expected - 1 = 0 then (some (shown (extend cp b)), extend cp b, 0)
    else (none, extend cp b, expected - 1)
  else (some 0x3F, cp, 0)

/-- The cells from `a` up to `b` get the contents `x`. -/
def fill (cells : Cells) (a b : Nat) (x : BitVec 16) : Except Stop Cells :=
  if a < b ∧ cells.length < b then .error .outside
  else .ok (cells.mapIdx fun i y => if a ≤ i ∧ i < b then x else y)

def Vt.blank (v : Vt) : BitVec 16 := 0x20 ||| v.attr

def ansiToVga : List (BitVec 16) := [0, 4, 2, 6, 1, 5, 3, 7]

/-- One parameter of `m`. -/
def rendition (attr : BitVec 16) (p : BitVec 32) : BitVec 16 :=
  if p = 0 then 0x0700
  else if p = 7 then 0x7000
  else if 30 ≤ p.toInt ∧ p.toInt ≤ 37 then
    attr &&& 0xF000 ||| ansiToVga.getD (p.toNat - 30) 0 <<< 8 ||| 0x0800
  else attr

/-- A coordinate of `H`, which counts from 1. -/
def coordinate (p : BitVec 32) (bound : Nat) : Nat :=
  let i := if p ≠ 0 then (p - 1).toInt else 0
  if i < 0 then 0 else if bound ≤ i then bound - 1 else i.toNat

variable (g : Geometry)

/-- The end of a control sequence. -/
def control (fb : Framebuffer) (v : Vt) (cells : Cells) (c : Nat) :
    Except Stop (Vt × Framebuffer) := do
  let line := v.pos / g.columns * g.columns
  if c = 0x6D then
    let ps := (range (v.ansiNparams + 1)).map v.ansiParams
    pure ({ v with attr := ps.foldl rendition v.attr }, fb)
  else if c = 0x4A then
    if v.ansiParams 0 = 2 then
      let cells ← fill cells 0 g.size v.blank
      pure ({ v with cells := some cells, pos := 0, pendingScrolls := 0 },
        if fb.available then fb.clear else fb)
    else pure (v, fb)
  else if c = 0x48 ∨ c = 0x66 then
    let row := coordinate (v.ansiParams 0) g.rows
    let col := coordinate (v.ansiParams 1) g.columns
    pure ({ v with pos := row * g.columns + col }, fb)
  else if c = 0x4B then
    let range := match (v.ansiParams 0).toNat with
      | 0 => (v.pos, line + g.columns)
      | 1 => (line, v.pos + 1)
      | 2 => (line, line + g.columns)
      | _ => (0, 0)
    let cells ← fill cells range.1 range.2 v.blank
    pure ({ v with cells := some cells }, fb)
  else pure (v, fb)

/-- The effect of a character on the cells and on the position. -/
def type (v : Vt) (cells : Cells) (c : Nat) : Except Stop (Cells × Nat) := do
  if c = 0x0A then pure (cells, v.pos + (g.columns - v.pos % g.columns))
  else if c = 0x0D then pure (cells, v.pos - v.pos % g.columns)
  else if c = BACKSPACE then
    if 0 < v.pos then
      let cells ← fill cells (v.pos - 1) v.pos v.blank
      pure (cells, v.pos - 1)
    else pure (cells, v.pos)
  else if c = 0x08 then pure (cells, v.pos - 1)
  else if 0x20 ≤ c then
    let cells ← fill cells v.pos (v.pos + 1) (BitVec.ofNat 16 (c % 256) ||| v.attr)
    pure (cells, v.pos + 1)
  else pure (cells, v.pos)

def scroll (v : Vt) (cells : Cells) (pos : Nat) : Except Stop Vt := do
  if g.size < pos then throw .panic
  else if g.rows ≤ pos / g.columns then
    if cells.length < g.size then throw .outside
    else
      let moved := (g.rows - 1) * g.columns
      let cells ← fill ((cells.drop g.columns).take moved ++ cells.drop moved) (pos - g.columns)
        g.size v.blank
      pure { v with
        cells := some cells, pos := pos - g.columns, pendingScrolls := v.pendingScrolls + 1 }
  else pure { v with cells := some cells, pos := pos }

def write (fb : Framebuffer) (v : Vt) (cells : Cells) (c : Nat) :
    Except Stop (Vt × Framebuffer) := do
  let r ← type g v cells c
  let v ← scroll g v r.1 r.2
  pure (v, fb)

/-- What `cgaputc` does with a character. -/
def interpret (fb : Framebuffer) (v : Vt) (cells : Cells) (c : Nat) :
    Except Stop (Vt × Framebuffer) :=
  match v.ansiState with
  | .text => if c = 0x1B then .ok ({ v with ansiState := .escape }, fb) else write g fb v cells c
  | .escape =>
    if c = 0x5B then
      .ok ({ v with ansiState := .params, ansiNparams := 0, ansiParams := fun _ => 0 }, fb)
    else write g fb { v with ansiState := .text } cells c
  | .params =>
    if 0x30 ≤ c ∧ c ≤ 0x39 then
      let p := v.ansiParams v.ansiNparams * 10 + BitVec.ofNat 32 (c - 0x30)
      .ok ({ v with ansiParams := update v.ansiParams v.ansiNparams p }, fb)
    else if c = 0x3B then
      .ok (if v.ansiNparams < 7 then { v with ansiNparams := v.ansiNparams + 1 } else v, fb)
    else control g fb { v with ansiState := .text } cells c

def cgaputc (fb : Framebuffer) (v : Vt) (c : Nat) : Except Stop (Vt × Framebuffer) :=
  match v.cells with
  | none => .ok (v, fb)
  | some cells =>
    if c < 256 then
      let d := decodeUtf8 v.utf8Codepoint v.utf8Expected (BitVec.ofNat 8 c)
      let v := { v with utf8Codepoint := d.2.1, utf8Expected := d.2.2 }
      match d.1 with
      | none => .ok (v, fb)
      | some c => interpret g fb v cells c
    else interpret g fb v cells c

/-! ## Several terminals -/

abbrev NVT : Nat := 4

structure State where
  vts : Fin NVT → Vt
  active : Fin NVT
  fb : Framebuffer

def vtputc (s : State) (n : Fin NVT) (c : Nat) : Except Stop State := do
  let r ← cgaputc g s.fb (s.vts n) c
  pure { s with vts := update s.vts n r.1, fb := r.2 }

/-- `paint` brings the cells of the active terminal to the screen. -/
def vtFlush (paint : State → State) (s : State) (n : Fin NVT) : State :=
  if n ≠ s.active ∨ (s.vts n).cells = none then s else paint s

def consolewrite (paint : State → State) (s : State) (n : Fin NVT) (buf : List (BitVec 8)) :
    Except Stop State := do
  let t ← buf.foldlM (fun s b => vtputc g s n b.toNat) s
  pure (vtFlush paint t n)

/-! ## Inside the cells -/

variable {g}

/-- The buffer is as large as the geometry asks for, and the cursor is in it. -/
def Fits (g : Geometry) (v : Vt) : Prop :=
  ∀ cells, v.cells = some cells → g.size ≤ cells.length ∧ v.pos < g.size

lemma fill_ok (cells : Cells) (a b : Nat) (h : a < b → b ≤ cells.length)
    (x : BitVec 16) : ∃ cells', fill cells a b x = .ok cells' ∧ cells'.length = cells.length := by
  refine ⟨_, if_neg ?_, length_mapIdx⟩
  rintro ⟨hab, hlt⟩
  exact absurd (h hab) (not_le.mpr hlt)

lemma coordinate_lt {bound : Nat} (h : 0 < bound) (p : BitVec 32) : coordinate p bound < bound := by
  unfold coordinate
  dsimp only
  generalize (if p ≠ 0 then (p - 1).toInt else 0) = i
  split
  · exact h
  · split <;> omega

/-- The line of a position ends inside the buffer. -/
lemma Geometry.line_le {pos : Nat} (h : pos < g.size) :
    pos / g.columns * g.columns + g.columns ≤ g.size := by
  have hrow : pos / g.columns < g.rows := (div_lt_iff_lt_mul g.columns_pos).mpr h
  rw [← succ_mul]
  exact mul_le_mul_right _ hrow

lemma Geometry.cell_lt {row col : Nat} (hr : row < g.rows) (hc : col < g.columns) :
    row * g.columns + col < g.size :=
  calc row * g.columns + col < (row + 1) * g.columns := by rw [succ_mul]; omega
    _ ≤ g.size := mul_le_mul_right _ hr

section

variable {v : Vt} {cells : Cells} (hlen : g.size ≤ cells.length) (hpos : v.pos < g.size)
include hlen hpos

lemma type_ok (c : Nat) : ∃ cells' pos, type g v cells c = .ok (cells', pos) ∧
    cells'.length = cells.length ∧ pos ≤ g.size := by
  have hline := Geometry.line_le hpos
  have hmod := div_add_mod' v.pos g.columns
  have hlt := mod_lt v.pos g.columns_pos
  unfold type
  split
  · exact ⟨_, _, rfl, rfl, by omega⟩
  split
  · exact ⟨_, _, rfl, rfl, by omega⟩
  split
  · split
    · obtain ⟨cells', hfill, hl⟩ := fill_ok cells (v.pos - 1) v.pos (by omega) v.blank
      rw [hfill]
      exact ⟨_, _, rfl, hl, by omega⟩
    · exact ⟨_, _, rfl, rfl, hpos.le⟩
  split
  · exact ⟨_, _, rfl, rfl, by omega⟩
  split
  · obtain ⟨cells', hfill, hl⟩ := fill_ok cells v.pos (v.pos + 1) (by omega)
      (BitVec.ofNat 16 (c % 256) ||| v.attr)
    rw [hfill]
    exact ⟨_, _, rfl, hl, hpos⟩
  · exact ⟨_, _, rfl, rfl, hpos.le⟩

end

lemma scroll_ok {v : Vt} {cells : Cells} {pos : Nat} (hlen : g.size ≤ cells.length)
    (hpos : pos ≤ g.size) : ∃ w, scroll g v cells pos = .ok w ∧ Fits g w := by
  unfold scroll
  rw [if_neg (not_lt.mpr hpos)]
  split
  · next hrow =>
    have hcol : g.columns ≤ pos :=
      (le_div_iff_mul_le g.columns_pos).mp (g.rows_pos.trans_le hrow) |>.trans' (by simp)
    have hmoved : (g.rows - 1) * g.columns + g.columns = g.size := by
      rw [← succ_mul, succ_eq_add_one, Nat.sub_add_cancel g.rows_pos, Geometry.size]
    rw [if_neg (not_lt.mpr hlen)]
    dsimp only
    obtain ⟨cells', hfill, hl⟩ := fill_ok ((cells.drop g.columns).take ((g.rows - 1) * g.columns)
        ++ cells.drop ((g.rows - 1) * g.columns)) (pos - g.columns) g.size
      (by simp only [length_append, length_take, length_drop]; omega) v.blank
    rw [hfill]
    refine ⟨_, rfl, ?_⟩
    rintro _ ⟨⟩
    have := g.columns_pos
    simp only [length_append, length_take, length_drop] at hl
    exact ⟨by omega, by dsimp only; omega⟩
  · next hrow =>
    refine ⟨_, rfl, ?_⟩
    rintro _ ⟨⟩
    exact ⟨hlen, (div_lt_iff_lt_mul g.columns_pos).mp (not_le.mp hrow)⟩

/-- The byte completes the character `c`. -/
def Vt.Completes (v : Vt) (b : BitVec 8) (c : Nat) : Prop :=
  v.utf8Expected = 0 ∧ b.toNat = c ∨
    v.utf8Expected = 1 ∧ b &&& 0xC0 = 0x80 ∧ (extend v.utf8Codepoint b).toNat = c

/-- The byte ends a sequence that erases the display, and there is a frame
buffer. -/
structure Erases (s : State) (n : Fin NVT) (b : BitVec 8) : Prop where
  available : s.fb.available
  params : (s.vts n).ansiState = .params
  two : (s.vts n).ansiParams 0 = 2
  last : (s.vts n).Completes b 0x4A

section

variable (fb : Framebuffer) {v : Vt} {cells : Cells} (hcells : v.cells = some cells)
  (hfit : Fits g v)
include hcells hfit

lemma control_ok (c : Nat) : ∃ w fb', control g fb v cells c = .ok (w, fb') ∧ Fits g w ∧
    (¬ (fb.available ∧ v.ansiParams 0 = 2 ∧ c = 0x4A) → fb' = fb) := by
  obtain ⟨hlen, hpos⟩ := hfit cells hcells
  have hline := Geometry.line_le hpos
  unfold control
  dsimp only
  split
  · exact ⟨_, _, rfl, hfit, fun _ => rfl⟩
  split
  · next hJ =>
    split
    · next htwo =>
      obtain ⟨cells', hfill, hl⟩ := fill_ok cells 0 g.size (fun _ => hlen) v.blank
      rw [hfill]
      refine ⟨_, _, rfl, ?_, fun hno => if_neg fun ha => hno ⟨ha, htwo, hJ⟩⟩
      rintro _ ⟨⟩
      exact ⟨hl ▸ hlen, Nat.mul_pos g.rows_pos g.columns_pos⟩
    · exact ⟨_, _, rfl, hfit, fun _ => rfl⟩
  split
  · refine ⟨_, _, rfl, ?_, fun _ => rfl⟩
    intro _ heq
    exact ⟨(hfit _ heq).1, Geometry.cell_lt (coordinate_lt g.rows_pos _)
      (coordinate_lt g.columns_pos _)⟩
  split
  · generalize hrange : (match (v.ansiParams 0).toNat with
      | 0 => (v.pos, v.pos / g.columns * g.columns + g.columns)
      | 1 => (v.pos / g.columns * g.columns, v.pos + 1)
      | 2 => (v.pos / g.columns * g.columns, v.pos / g.columns * g.columns + g.columns)
      | _ => (0, 0)) = range
    have hend : range.2 ≤ g.size := by
      rw [← hrange]
      split <;> dsimp only <;> omega
    obtain ⟨cells', hfill, hl⟩ := fill_ok cells range.1 range.2 (fun _ => hend.trans hlen) v.blank
    rw [hfill]
    refine ⟨_, _, rfl, ?_, fun _ => rfl⟩
    rintro _ ⟨⟩
    exact ⟨hl ▸ hlen, hpos⟩
  · exact ⟨_, _, rfl, hfit, fun _ => rfl⟩

lemma write_ok (c : Nat) : ∃ w, write g fb v cells c = .ok (w, fb) ∧ Fits g w := by
  obtain ⟨hlen, hpos⟩ := hfit cells hcells
  obtain ⟨cells', pos, htype, hl, hle⟩ := type_ok hlen hpos c
  obtain ⟨w, hscroll, hw⟩ := scroll_ok (v := v) (hl ▸ hlen) hle
  unfold write
  rw [htype]
  refine ⟨w, ?_, hw⟩
  change (scroll g v cells' pos >>= fun v => pure (v, fb)) = _
  rw [hscroll]
  rfl

lemma interpret_ok (c : Nat) : ∃ w fb', interpret g fb v cells c = .ok (w, fb') ∧ Fits g w ∧
    (¬ (fb.available ∧ v.ansiState = .params ∧ v.ansiParams 0 = 2 ∧ c = 0x4A) → fb' = fb) := by
  unfold interpret
  split
  · split
    · exact ⟨_, _, rfl, hfit, fun _ => rfl⟩
    obtain ⟨w, hrun, hw⟩ := write_ok fb hcells hfit c
    exact ⟨w, fb, hrun, hw, fun _ => rfl⟩
  · split
    · exact ⟨_, _, rfl, hfit, fun _ => rfl⟩
    obtain ⟨w, hrun, hw⟩ := write_ok fb (v := { v with ansiState := .text }) hcells hfit c
    exact ⟨w, fb, hrun, hw, fun _ => rfl⟩
  next hparams =>
  split
  · exact ⟨_, _, rfl, hfit, fun _ => rfl⟩
  split
  · refine ⟨_, _, rfl, ?_, fun _ => rfl⟩
    split <;> exact hfit
  obtain ⟨w, fb', hrun, hw, hfb⟩ :=
    control_ok fb (v := { v with ansiState := .text }) hcells hfit c
  exact ⟨w, fb', hrun, hw, fun hno => hfb fun h => hno ⟨h.1, hparams, h.2⟩⟩

end

/-- No replacement is the letter of the erasing sequences. -/
lemma decodeUtf8_some {cp : BitVec 32} {expected : Nat} {b : BitVec 8}
    (h : (decodeUtf8 cp expected b).1 = some 0x4A) : expected = 0 ∧ b.toNat = 0x4A ∨
      expected = 1 ∧ b &&& 0xC0 = 0x80 ∧ (extend cp b).toNat = 0x4A := by
  unfold decodeUtf8 at h
  split at h
  · next hzero =>
    refine .inl ⟨hzero, ?_⟩
    repeat' split at h
    all_goals simp_all
  next hpos =>
  split at h
  · next hcont =>
    split at h
    · next hlast =>
      refine .inr ⟨by omega, hcont, ?_⟩
      rw [Option.some.injEq] at h
      unfold shown at h
      repeat' split at h
      all_goals simp_all
    · cases h
  · simp at h

lemma vtputc_ok {s : State} {n : Fin NVT} (hfit : Fits g (s.vts n)) (c : Nat) :
    ∃ t, vtputc g s n c = .ok t ∧ (∀ m ≠ n, t.vts m = s.vts m) ∧ t.active = s.active ∧
      Fits g (t.vts n) ∧ ∀ b : BitVec 8, b.toNat = c → ¬ Erases s n b → t.fb = s.fb := by
  obtain ⟨w, fb', hrun, hw, hfb⟩ : ∃ w fb', cgaputc g s.fb (s.vts n) c = .ok (w, fb') ∧ Fits g w ∧
      ∀ b : BitVec 8, b.toNat = c → ¬ Erases s n b → fb' = s.fb := by
    unfold cgaputc
    split
    · exact ⟨_, _, rfl, hfit, fun _ _ _ => rfl⟩
    next cells hcells =>
    split
    · dsimp only
      split
      · exact ⟨_, _, rfl, hfit, fun _ _ _ => rfl⟩
      next d hd =>
      obtain ⟨w, fb', hrun, hw, hfb⟩ := interpret_ok s.fb (v := { s.vts n with
        utf8Codepoint := (decodeUtf8 (s.vts n).utf8Codepoint (s.vts n).utf8Expected _).2.1
        utf8Expected := (decodeUtf8 (s.vts n).utf8Codepoint (s.vts n).utf8Expected _).2.2 })
        hcells hfit d
      refine ⟨w, fb', hrun, hw, fun b hb hno => hfb ?_⟩
      rintro ⟨ha, hparams, htwo, rfl⟩
      rw [← hb, BitVec.ofNat_toNat, BitVec.setWidth_eq] at hd
      exact hno ⟨ha, hparams, htwo, decodeUtf8_some hd⟩
    · next hbyte =>
      obtain ⟨w, fb', hrun, hw, -⟩ := interpret_ok s.fb hcells hfit c
      exact ⟨w, fb', hrun, hw, fun b hb => absurd b.isLt (by omega)⟩
  unfold vtputc
  rw [hrun]
  exact ⟨_, rfl, fun m hm => update_of_ne hm _ _, rfl, by simpa using hw, hfb⟩

/-- `vt_reset_all` from a terminal on; `ok` says which allocations succeed. -/
def vtResetAll (g : Geometry) (ok : Fin NVT → Bool) : List (Fin NVT) → (Fin NVT → Vt) → Fin NVT → Vt
  | [], vts => vts
  | n :: ns, vts =>
    if ok n then
      vtResetAll g ok ns (update vts n { vts n with
        cells := some (replicate g.size 0x0720), attr := 0x0700, pos := 0, pendingScrolls := 0
        ansiState := .text, utf8Expected := 0 })
    else update vts n { vts n with cells := none }

inductive Act where
  | put (n : Fin NVT) (c : Nat)
  /-- `console_switch_to_gpu` -/
  | resize (g : Geometry) (ok : Fin NVT → Bool) (paint : State → State)

/-- What is drawn on the screen is left to `paint`. -/
def step (x : Geometry × State) : Act → Except Stop (Geometry × State)
  | .put n c => do
    let s ← vtputc x.1 x.2 n c
    pure (x.1, s)
  | .resize g ok paint =>
    .ok (g, { x.2 with
      vts := vtResetAll g ok (finRange NVT) x.2.vts
      fb := (paint x.2).fb })

/-- The terminals behind one that gets no memory fit the new geometry. -/
def Kept (x : Geometry × State) : Act → Prop
  | .put _ _ => True
  | .resize g ok _ => ∀ n, (∃ m < n, ok m = false) → Fits g (x.2.vts n)

lemma vtResetAll_fits_iff {ok : Fin NVT → Bool} {ns : List (Fin NVT)} (hns : ns.Pairwise (· < ·))
    (n : Fin NVT) : ∀ {vts : Fin NVT → Vt}, Fits g (vtResetAll g ok ns vts n) ↔
      (n ∈ ns ∧ ∀ m ∈ ns, m < n → ok m) ∨ Fits g (vts n) := by
  induction ns with
  | nil =>
    intro vts
    simp [vtResetAll]
  | cons a ns ih => ?_
  intro vts
  obtain ⟨hlt, hrest⟩ := pairwise_cons.mp hns
  have hfirst : ∀ m ∈ a :: ns, ¬ m < a := by
    intro m hm hma
    rcases mem_cons.mp hm with rfl | hm
    · exact Nat.lt_irrefl _ hma
    · exact Nat.lt_asymm hma (hlt m hm)
  rw [vtResetAll]
  by_cases hn : n = a
  · subst hn
    refine iff_of_true ?_ (.inl ⟨mem_cons_self, fun m hm hmn => absurd hmn (hfirst m hm)⟩)
    split
    · refine (ih hrest).mpr (.inr ?_)
      rw [update_self]
      rintro _ ⟨⟩
      exact ⟨(length_replicate ..).ge, Nat.mul_pos g.rows_pos g.columns_pos⟩
    · rw [update_self]
      rintro _ ⟨⟩
  cases hok : ok a with
  | true =>
    rw [if_pos rfl, ih hrest, update_of_ne hn]
    simp [hn, hok]
  | false => ?_
  rw [if_neg Bool.false_ne_true, update_of_ne hn]
  refine ⟨.inr, fun h => h.resolve_left ?_⟩
  rintro ⟨hmem, hall⟩
  have htrue := hall a mem_cons_self (hlt n ((mem_cons.mp hmem).resolve_left hn))
  exact Bool.false_ne_true (hok.symm.trans htrue)

/-- A change of the geometry leaves every terminal with room for it exactly
when those fit that it does not get to. -/
lemma resize_fits_iff {x y : Geometry × State} {ok : Fin NVT → Bool} {paint : State → State}
    (h : step x (.resize g ok paint) = .ok y) :
    (∀ n, Fits y.1 (y.2.vts n)) ↔ Kept x (.resize g ok paint) := by
  cases h
  refine forall_congr' fun n => (vtResetAll_fits_iff (pairwise_lt_finRange NVT) n).trans ?_
  rw [or_iff_not_imp_left]
  simp

/-- No buffer is left behind, and no character ends in a panic, while every
change of the geometry reaches the terminals it has to. -/
theorem terminals_fit {x y : Geometry × State} {as : List Act} (hfit : ∀ n, Fits x.1 (x.2.vts n))
    (h : Runs.Run (fun x a y => Kept x a ∧ step x a = .ok y) x as y) :
    (∀ n, Fits y.1 (y.2.vts n)) ∧ (∀ n c, ∃ z, step y (.put n c) = .ok z) ∧
    ∀ g ok paint z, step y (.resize g ok paint) = .ok z →
      ((∀ n, Fits z.1 (z.2.vts n)) ↔ Kept y (.resize g ok paint)) := by
  have hall : ∀ n, Fits y.1 (y.2.vts n) := by
    refine h.invariant hfit fun u a w hu hstep => ?_
    cases a with
    | put n c =>
      obtain ⟨t, hput, hothers, -, ht, -⟩ := vtputc_ok (hu n) c
      have hw : w = (u.1, t) := by
        have hrun := hstep.2
        rw [step, hput] at hrun
        cases hrun
        rfl
      subst hw
      intro m
      by_cases hm : m = n
      · exact hm ▸ ht
      rw [hothers m hm]
      exact hu m
    | resize g ok paint => exact (resize_fits_iff hstep.2).mpr hstep.1
  refine ⟨hall, fun n c => ?_, fun g ok paint z => resize_fits_iff⟩
  obtain ⟨t, hput, -⟩ := vtputc_ok (hall n) c
  rw [step, hput]
  exact ⟨_, rfl⟩

def oneCell : Geometry := ⟨1, 1, Nat.one_pos, Nat.one_pos⟩

/-- A lit pixel, and four terminals of one cell. -/
def litScreen : State where
  vts _ := ⟨some [0x0720], 0, 0, .text, fun _ => 0, 0, 0x0700, 0, 0⟩
  active := 0
  fb := ⟨some fun _ => 1, none, some fun _ => 0, false, fun _ => 0, fun _ => 1, fun _ => 0,
    1, 0, 1, 1, 1, 1⟩

lemma litScreen_fits (n : Fin NVT) : Fits oneCell (litScreen.vts n) := by
  rintro _ ⟨⟩
  exact ⟨le_rfl, one_pos⟩

theorem terminals_fit_letter : ∃ y, Runs.Run (fun x a y => Kept x a ∧ step x a = .ok y)
    (oneCell, litScreen) [.put 1 0x61] y ∧ ∀ n, Fits y.1 (y.2.vts n) :=
  Exists.imp (fun _ hrun => ⟨hrun, (terminals_fit litScreen_fits hrun).1⟩)
    ⟨_, .cons ⟨trivial, rfl⟩ .nil⟩

/-- Without memory for the first terminal the second keeps its one cell, and
the second letter on it is written behind that. -/
theorem resize_half_way : ∃ y,
    step (oneCell, litScreen) (.resize ⟨2, 1, Nat.two_pos, Nat.one_pos⟩ (fun _ => false) id)
      = .ok y ∧
    (step y (.put 1 0x61) >>= fun z => step z (.put 1 0x62)) = .error .outside :=
  ⟨_, rfl, rfl⟩

end Proninx.Console
