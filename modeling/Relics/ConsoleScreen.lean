import Relics.ConsoleSource

namespace Relics.Console

/-!
# What the loops over the screen do

Clearing and scrolling store to cells of the screen only and change nothing
else of the console.  Scrolling moves every row but the first up by one and
leaves the last row blank.
-/

open CountedLoop

/-- Every store was to a cell of the screen. -/
def StoresInside (console : State) : Prop :=
  ∀ index ∈ console.stores, index < 2000

/-- The cells are as given, by stores to the screen; the rest is unchanged. -/
structure Repainted
    (before : State)
    (cells : Nat → UInt16)
    (after : State) :
    Prop where
  cells : ∀ index, after.vgaBuffer index = cells index
  vgaIndex : after.vgaIndex = before.vgaIndex
  nextLineIndex : after.nextLineIndex = before.nextLineIndex
  foreColor : after.foreColor = before.foreColor
  backColor : after.backColor = before.backColor
  stores : StoresInside after ↔ StoresInside before

namespace Repainted

theorem refl (console : State) :
    Repainted console console.vgaBuffer console where
  cells _ := rfl
  vgaIndex := rfl
  nextLineIndex := rfl
  foreColor := rfl
  backColor := rfl
  stores := .rfl

theorem trans
    {first second third : State}
    {cells cells' : Nat → UInt16}
    (former : Repainted first cells second)
    (later : Repainted second cells' third) :
    Repainted first cells' third where
  cells := later.cells
  vgaIndex := later.vgaIndex.trans former.vgaIndex
  nextLineIndex := later.nextLineIndex.trans former.nextLineIndex
  foreColor := later.foreColor.trans former.foreColor
  backColor := later.backColor.trans former.backColor
  stores := later.stores.trans former.stores

/-- The same cells described otherwise. -/
theorem congr
    {before after : State}
    {cells cells' : Nat → UInt16}
    (repainted : Repainted before cells after)
    (same : ∀ index, cells index = cells' index) :
    Repainted before cells' after :=
  { repainted with
    cells := fun index => (repainted.cells index).trans (same index) }

/-- Setting the index on both sides. -/
theorem setIndex
    {before after : State}
    {cells : Nat → UInt16}
    (repainted : Repainted before cells after)
    (vgaIndex : UInt16) :
    Repainted { before with vgaIndex := vgaIndex } cells
      { after with vgaIndex := vgaIndex } :=
  { repainted with vgaIndex := rfl }

/-- Moving the cursor repaints nothing. -/
theorem updateCursor
    {before after : State}
    {cells : Nat → UInt16}
    (repainted : Repainted before cells after)
    (x y : UInt16) :
    Repainted before cells (Console.updateCursor after x y) :=
  { repainted with }

end Repainted

/-- A store stays on the screen if its index does. -/
@[simp] theorem storesInside_store
    {console : State}
    {index : Nat}
    {value : UInt16} :
    StoresInside (console.store index value) ↔
      index < 2000 ∧ StoresInside console := by
  simp [StoresInside, State.store]

/-- A store to a cell of the screen. -/
theorem repainted_store
    (console : State)
    {index : Nat}
    (value : UInt16)
    (inside : index < 2000) :
    Repainted console
      (fun other => if other = index then value else console.vgaBuffer other)
      (console.store index value) where
  cells _ := rfl
  vgaIndex := rfl
  nextLineIndex := rfl
  foreColor := rfl
  backColor := rfl
  stores := by simp [inside]

section Loops

variable
    (console : State)
    (foreColor backColor : UInt8)
    {y : Nat}

/-- Clearing a row makes its 80 cells blank. -/
theorem clearRow_spec
    (onScreen : y < 25) :
    Repainted console
      (fun index =>
        if y * 80 ≤ index ∧ index < y * 80 + 80 then
          vgaEntry 0 foreColor backColor
        else
          console.vgaBuffer index)
      (clearRow foreColor backColor y console) := by
  apply loop_invariant fun x =>
    Repainted console fun index =>
      if y * 80 ≤ index ∧ index < y * 80 + x then
        vgaEntry 0 foreColor backColor
      else
        console.vgaBuffer index
  · apply (Repainted.refl console).congr
    intro index
    rw [if_neg (by omega)]
  · intro x state inside repainted
    have inRow : x < 80 := inside
    have target : y * vgaWidth + x < 2000 := by
      unfold vgaWidth
      omega
    apply (repainted.trans (repainted_store state _ target)).congr
    intro index
    simp only [vgaWidth, repainted.cells]
    grind

/-- Clearing the screen makes all its cells blank. -/
theorem clearVgaBuffer_spec :
    Repainted console
      (fun index =>
        if index < 25 * 80 then
          vgaEntry 0 foreColor backColor
        else
          console.vgaBuffer index)
      (clearVgaBuffer console foreColor backColor) := by
  apply loop_invariant fun y =>
    Repainted console fun index =>
      if index < y * 80 then
        vgaEntry 0 foreColor backColor
      else
        console.vgaBuffer index
  · apply (Repainted.refl console).congr
    intro index
    rw [if_neg (by omega)]
  · intro y state inside repainted
    apply (repainted.trans
      (clearRow_spec state foreColor backColor inside)).congr
    intro index
    simp only [repainted.cells]
    grind

/-- Copying a row up changes the 80 cells above it. -/
theorem copyRowUp_spec
    (onScreen : y + 1 < 25) :
    Repainted console
      (fun index =>
        if y * 80 ≤ index ∧ index < y * 80 + 80 then
          console.vgaBuffer (index + 80)
        else
          console.vgaBuffer index)
      (copyRowUp (y + 1) console) := by
  apply loop_invariant fun x =>
    Repainted console fun index =>
      if y * 80 ≤ index ∧ index < y * 80 + x then
        console.vgaBuffer (index + 80)
      else
        console.vgaBuffer index
  · apply (Repainted.refl console).congr
    intro index
    rw [if_neg (by omega)]
  · intro x state inside repainted
    have inRow : x < 80 := inside
    have target : (y + 1 - 1) * vgaWidth + x < 2000 := by
      unfold vgaWidth
      omega
    apply (repainted.trans (repainted_store state _ target)).congr
    intro index
    simp only [vgaWidth, Nat.add_sub_cancel, repainted.cells]
    -- the cell that is copied lies below all cells copied to so far
    grind

/-- The copying loop of a scroll moves the rows up by one. -/
theorem copyRowsUp_spec :
    Repainted console
      (fun index =>
        if index < 24 * 80 then
          console.vgaBuffer (index + 80)
        else
          console.vgaBuffer index)
      (loop (fun row state => copyRowUp (row + 1) state) console
        (vgaLength - 1)) := by
  apply loop_invariant fun row =>
    Repainted console fun index =>
      if index < row * 80 then
        console.vgaBuffer (index + 80)
      else
        console.vgaBuffer index
  · apply (Repainted.refl console).congr
    intro index
    rw [if_neg (by omega)]
  · intro row state inside repainted
    have onScreen : row + 1 < 25 := by
      omega
    apply (repainted.trans (copyRowUp_spec state onScreen)).congr
    intro index
    simp only [repainted.cells]
    grind

/-- Scrolling moves the rows up by one and leaves the last one blank. -/
theorem scrollVgaBuffer_spec :
    Repainted { console with vgaIndex := 24 * 80 }
      (fun index =>
        if index < 24 * 80 then
          console.vgaBuffer (index + 80)
        else if index < 25 * 80 then
          vgaEntry 0 foreColor backColor
        else
          console.vgaBuffer index)
      (scrollVgaBuffer console foreColor backColor) := by
  have copied := copyRowsUp_spec console
  have cleared :=
    copied.trans (clearRow_spec _ foreColor backColor (by decide : 24 < 25))
  apply (cleared.setIndex (24 * 80)).congr
  intro index
  rw [copied.cells]
  grind

/-- A new line behind the last row scrolls. -/
theorem printNewLine_of_bottom
    (atBottom : console.nextLineIndex ≥ 25) :
    Repainted { console with vgaIndex := 24 * 80 }
      (fun index =>
        if index < 24 * 80 then
          console.vgaBuffer (index + 80)
        else if index < 25 * 80 then
          vgaEntry 0 console.foreColor console.backColor
        else
          console.vgaBuffer index)
      (printNewLine console) := by
  unfold printNewLine
  rw [if_pos atBottom]
  exact (scrollVgaBuffer_spec console _ _).updateCursor _ _

/-- A new line in front of the last row only moves on. -/
theorem printNewLine_of_above
    (above : ¬ console.nextLineIndex ≥ 25) :
    Repainted
      { console with
        vgaIndex := 80 * console.nextLineIndex
        nextLineIndex := console.nextLineIndex + 1 }
      console.vgaBuffer (printNewLine console) := by
  unfold printNewLine
  rw [if_neg above]
  exact (Repainted.refl _).updateCursor _ _

end Loops

end Relics.Console
