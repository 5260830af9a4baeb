import Chip8.Proofs.Machine.Trail
import Chip8.Proofs.Screen.Sprite

/-!
# Steps that paint

The screen is marked changed by a step that clears it or inverts a pixel, and by no other:
a sprite that lies off the screen or has no dot leaves the screen as it was. Once marked,
the screen stays marked until it is looked at, so over a whole tick the mark tells whether
any of the steps painted.
-/
namespace Chip8
open Screen

/-- The step clears the screen, or it draws and inverts at least one pixel. -/
def TakenStep.Paints (t : TakenStep) : Prop :=
  ∃ word i, t.before.memory.word? t.before.pc = some word ∧ Instruction.StandsFor word i ∧
    (i = .clear ∨
      (∃ x y n, i = .draw x y n) ∧ t.after.screen.pixels ≠ t.before.screen.pixels)

namespace Machine
variable {stream : RandomBytes} {m after : Machine}

/-- What drawing makes of the screen. -/
theorem screen_of_drawSprite {x y n : Fin 16} (h : drawSprite x y n m = .ok () after) :
    after.screen.changed = true ∧ after.screen.pixels ≠ m.screen.pixels ∨
      after.screen = m.screen := by
  obtain ⟨rows, -, rfl⟩ := drawSprite_eq_ok_iff.mp h
  generalize hcells : spriteCells ((m.reg x).toNat % screenWidth)
    ((m.reg y).toNat % screenHeight) rows.toList = cells
  have hnodup : cells.Nodup := hcells ▸ nodup_spriteCells _ _ _
  show (m.screen.invertAll cells).2.changed = true ∧
    (m.screen.invertAll cells).2.pixels ≠ m.screen.pixels ∨
      (m.screen.invertAll cells).2 = m.screen
  by_cases hon : ∃ cell ∈ cells, OnScreen screenWidth screenHeight cell
  · refine .inl ⟨changed_invertAll_of_on hon, fun hsame => ?_⟩
    obtain ⟨cell, hcell, hin⟩ := hon
    exact (pixels_invertAll_eq_iff hnodup).mp hsame cell hcell hin
  · exact .inr (snd_invertAll_of_off fun cell hcell hin => hon ⟨cell, hcell, hin⟩)

/-- A step paints and marks the screen, or it leaves the screen as it is. -/
theorem screen_of_step (t : TakenStep) :
    t.Paints ∧ t.after.screen.changed = true ∨
      ¬t.Paints ∧ t.after.screen = t.before.screen := by
  obtain ⟨stream, m⟩ := t
  have hs := stepped stream m
  have hafter : (TakenStep.mk stream m).after = (m.step stream).machine := rfl
  generalize m.step stream = o at hs hafter
  cases hs with
  | strayed hnone =>
      refine .inr ⟨?_, by rw [hafter]; rfl⟩
      rintro ⟨word, i, hword, -⟩
      exact absurd (hnone.symm.trans hword) nofun
  | skipped hword hunknown =>
      refine .inr ⟨?_, by rw [hafter]; rfl⟩
      rintro ⟨word', i, hword', hstands, -⟩
      obtain rfl := Option.some.inj (hword.symm.trans hword')
      exact hunknown i hstands
  | failed hword hstands hfault =>
      have hsame : (TakenStep.mk stream m).after.screen = m.screen := by rw [hafter]; rfl
      refine .inr ⟨?_, hsame⟩
      rintro ⟨word', i', hword', hstands', hpaints⟩
      obtain rfl := Option.some.inj (hword.symm.trans hword')
      obtain rfl := hstands.unique hstands'
      rcases hpaints with rfl | ⟨-, hpixels⟩
      · cases hfault
      · exact hpixels (congrArg Screen.pixels hsame)
  | @completed word i between hword hstands hdone =>
      have hscreen : (TakenStep.mk stream m).after.screen = between.screen := by rw [hafter]; rfl
      have hpaints : (TakenStep.mk stream m).Paints ↔
          i = .clear ∨ (∃ x y n, i = .draw x y n) ∧ between.screen.pixels ≠ m.screen.pixels := by
        constructor
        · rintro ⟨word', i', hword', hstands', hpaints⟩
          obtain rfl := Option.some.inj (hword.symm.trans hword')
          obtain rfl := hstands.unique hstands'
          rwa [hscreen] at hpaints
        · intro hpaints
          exact ⟨word, i, hword, hstands, by rwa [hscreen]⟩
      rw [hpaints, hscreen]
      -- Of the instructions that may change the screen, only drawing can leave it as it is.
      by_cases hdraws : i.Draws
      · cases i with
        | clear =>
            cases hdone
            exact .inl ⟨.inl rfl, rfl⟩
        | draw x y n =>
            rcases screen_of_drawSprite hdone with ⟨hchanged, hpixels⟩ | hsame
            · exact .inl ⟨.inr ⟨⟨x, y, n, rfl⟩, hpixels⟩, hchanged⟩
            · refine .inr ⟨?_, hsame⟩
              rintro (hclear | ⟨-, hpixels⟩)
              · cases hclear
              · exact hpixels (congrArg Screen.pixels hsame)
        | _ => exact hdraws.elim
      · refine .inr ⟨?_, (Instruction.execute_effect rfl hdone).screen hdraws⟩
        rintro (rfl | ⟨⟨x, y, n, rfl⟩, -⟩) <;> exact hdraws trivial

theorem Linked.changed_mono {trail : List TakenStep} (h : Linked m trail after)
    (hchanged : m.screen.changed = true) : after.screen.changed = true := by
  induction h with
  | nil hrest => rw [hrest.screen_eq, hchanged]
  | @cons m after t trail hrest _ ih =>
      refine ih ?_
      rcases screen_of_step t with ⟨-, hmarked⟩ | ⟨-, hsame⟩
      · exact hmarked
      · rw [hsame, hrest.screen_eq, hchanged]

/-- Over a run of steps the screen is marked by a step that paints, and otherwise stays as it is. -/
theorem Linked.screen {trail : List TakenStep} (h : Linked m trail after) :
    (∃ t ∈ trail, t.Paints) ∧ after.screen.changed = true ∨
      (∀ t ∈ trail, ¬t.Paints) ∧ after.screen = m.screen := by
  induction h with
  | nil hrest => exact .inr ⟨fun t ht => absurd ht List.not_mem_nil, hrest.screen_eq⟩
  | @cons m after t trail hrest hlinked ih =>
      rcases screen_of_step t with ⟨hpaints, hmarked⟩ | ⟨hidle, hsame⟩
      · exact .inl ⟨⟨t, .head trail, hpaints⟩, hlinked.changed_mono hmarked⟩
      · rcases ih with ⟨⟨t', ht', hpaints⟩, hmarked⟩ | ⟨hrest', hsame'⟩
        · exact .inl ⟨⟨t', .tail t ht', hpaints⟩, hmarked⟩
        · refine .inr ⟨List.forall_mem_cons.mpr ⟨hidle, hrest'⟩, ?_⟩
          rw [hsame', hsame, hrest.screen_eq]

/-- A tick from a screen that has been looked at marks it exactly if one of its steps paints. -/
theorem changed_tick_iff (elapsed : Number) (keys : Array Bool) (h : m.screen.changed = false) :
    (m.tick stream elapsed keys).machine.screen.changed = true ↔
      ∃ t ∈ m.tickTrail stream elapsed keys, t.Paints := by
  rcases (linked_tickTrail stream elapsed keys m).screen with ⟨hpaints, hmarked⟩ | ⟨hidle, hsame⟩
  · exact iff_of_true hmarked hpaints
  · rw [hsame, h]
    refine iff_of_false Bool.false_ne_true ?_
    rintro ⟨t, ht, hpaints⟩
    exact hidle t ht hpaints

/-- A screen that a tick does not mark is the screen it began with. -/
theorem screen_tick_of_unchanged {elapsed : Number} {keys : Array Bool}
    (h : (m.tick stream elapsed keys).machine.screen.changed = false) :
    (m.tick stream elapsed keys).machine.screen = m.screen := by
  rcases (linked_tickTrail stream elapsed keys m).screen with ⟨-, hmarked⟩ | ⟨-, hsame⟩
  · exact absurd (hmarked.symm.trans h) nofun
  · exact hsame

theorem changed_tick_of_changed (elapsed : Number) (keys : Array Bool)
    (h : m.screen.changed = true) : (m.tick stream elapsed keys).machine.screen.changed = true :=
  (linked_tickTrail stream elapsed keys m).changed_mono h

end Machine
end Chip8
