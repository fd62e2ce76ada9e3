import Lexeme.Proofs.Session.Steps
import Mathlib.Data.List.Basic

/-! Blocks of settings in a session. A step enters a block, leaves one, or lets the saved settings
be; so they are a stack of the settings that were active before each block that is still open. Main
statements: leaving a block restores what was active before it was entered, whatever happened in
between, and every block that is left was entered by a step to which the steps since belong. -/

namespace Lexeme.Session

variable {st : State} {s : Step} {steps inner : List Step}

/-! ### Saved settings -/

/-- Steps that enter or leave no block let the saved settings be; among them are attempts to enter
one with settings that could not be built. -/
theorem step_saved (he : ¬ s.Enters) (hl : ¬ s.Leaves) (st : State) :
    (step st s).2.saved = st.saved := by
  have hchange := step_change st s
  change (step st s).2.core.saved = st.saved
  generalize (step st s).2.core = core at hchange ⊢
  cases hchange with
  | enter settings => exact absurd trivial he
  | leave exit _ => exact absurd trivial hl
  | _ => rfl

theorem step_popConfig {settings : Settings} {rest : List Settings}
    (h : st.saved = settings :: rest) (exit : Exit) :
    (step st (.popConfig exit)).2 = { st with settings := settings, saved := rest } := by
  rw [step, h]
  exact leave_state st exit _ _

/-! ### Blocks -/

/-- Steps in which every block that is entered is left, and no other. -/
inductive Balanced : List Step → Prop where
  | nil : Balanced []
  | plain {s : Step} (he : ¬ s.Enters) (hl : ¬ s.Leaves) : Balanced [s]
  | block (settings : Settings) {inner : List Step} (hinner : Balanced inner) (exit : Exit) :
      Balanced (.pushConfig (.ok settings) :: inner ++ [.popConfig exit])
  | append {xs ys : List Step} (hx : Balanced xs) (hy : Balanced ys) : Balanced (xs ++ ys)

/-- A block restores both the active and the saved settings if the steps in it restore what they
save. -/
theorem after_block (settings : Settings) (hinner : ∀ st, (after st inner).saved = st.saved)
    (exit : Exit) (st : State) :
    (after st (.pushConfig (.ok settings) :: inner ++ [.popConfig exit])).settings =
        st.settings ∧
      (after st (.pushConfig (.ok settings) :: inner ++ [.popConfig exit])).saved = st.saved := by
  have hopen : (after st (.pushConfig (.ok settings) :: inner)).saved = st.settings :: st.saved :=
    hinner _
  rw [after_append, after_cons, after_nil, step_popConfig hopen]
  exact ⟨rfl, rfl⟩

/-- Balanced steps leave what is saved as it was. -/
theorem Balanced.saved_after (h : Balanced steps) (st : State) :
    (after st steps).saved = st.saved := by
  induction h generalizing st with
  | nil => rfl
  | plain he hl => exact step_saved he hl st
  | block settings _ exit ih => exact (after_block settings ih exit st).2
  | append _ _ ihx ihy => rw [after_append, ihy, ihx]

/-- What is saved while a block is open: the settings from before it, and what was saved then. -/
theorem saved_after_open {before : List Step} (settings : Settings) (hinner : Balanced inner)
    (st : State) :
    (after st (before ++ .pushConfig (.ok settings) :: inner)).saved =
      (after st before).settings :: (after st before).saved := by
  rw [after_append, after_cons, hinner.saved_after]
  rfl

/-- While settings are saved a block stands open: some step entered it, and the steps since then
are balanced. -/
theorem exists_open_block (h : (after .start steps).saved ≠ []) :
    ∃ before settings inner, steps = before ++ .pushConfig (.ok settings) :: inner ∧
      Balanced inner := by
  induction hn : steps.length using Nat.strongRecOn generalizing steps with
  | ind n ih =>
    rcases List.eq_nil_or_concat' steps with rfl | ⟨xs, s, rfl⟩
    · exact absurd rfl h
    rw [after_append, after_cons, after_nil] at h
    have hlen : xs.length < n := by simp [← hn]
    by_cases he : s.Enters
    · obtain ⟨settings, rfl⟩ := Step.enters_iff.mp he
      exact ⟨xs, settings, [], rfl, .nil⟩
    by_cases hl : s.Leaves
    · obtain ⟨exit, rfl⟩ := Step.leaves_iff.mp hl
      cases hsaved : (after .start xs).saved with
      | nil =>
        rw [step, hsaved] at h
        exact absurd hsaved h
      | cons settings rest =>
        -- the block that is left stands inside another one, which is open now
        obtain ⟨before, entered, inner, rfl, hinner⟩ := ih _ hlen (by simp [hsaved]) rfl
        rw [step_popConfig hsaved] at h
        rw [saved_after_open entered hinner, List.cons.injEq] at hsaved
        have hshort : before.length < n := by
          simp only [List.length_append, List.length_cons] at hlen
          omega
        obtain ⟨outside, outer, inner', rfl, hinner'⟩ :=
          ih _ hshort (by rw [hsaved.2]; exact h) rfl
        exact ⟨outside, outer,
          inner' ++ (.pushConfig (.ok entered) :: inner ++ [.popConfig exit]), by simp,
          hinner'.append (.block entered hinner exit)⟩
    · rw [step_saved he hl] at h
      obtain ⟨before, entered, inner, rfl, hinner⟩ := ih _ hlen h rfl
      exact ⟨before, entered, inner ++ [s], by simp, hinner.append (.plain he hl)⟩

end Lexeme.Session
