import EndlessRunner.Laws.Invincibility

/-!
# Lives

`UpdateLives` adds, and nothing reads what it leaves: the game does not end at zero. So the lives are those of the
start less the hits that struck a runner who was not invincible (`World.run_lives`), and they stay at zero or above
exactly as long as there are no more such hits than lives (`World.lives_nonneg_iff`).
-/

set_option autoImplicit false

namespace EndlessRunner

open Lib (Machine)

variable {K : Type} [Field K] [LinearOrder K]

namespace World

/-- How many hits of a run strike a runner who is not invincible. -/
def costlyHits : World K → List (Event K) → ℕ
  | _, [] => 0
  | w, e :: es =>
    match w.step e with
    | .ok w' => costlyHits w' es + if StrikesVulnerable w e then 1 else 0
    | .error _ => 0

theorem costlyHits_cons {w w' : World K} {e : Event K} (h : w.step e = .ok w') (es : List (Event K)) :
    costlyHits w (e :: es) = costlyHits w' es + if StrikesVulnerable w e then 1 else 0 := by
  simp only [costlyHits, h]

/-- **The lives of a run** are those it started with less its costly hits. -/
theorem run_lives {w w' : World K} {es : List (Event K)} (h : (game K).Run w es w') :
    w'.gameMode.lives = w.gameMode.lives - costlyHits w es := by
  induction h with
  | nil w => simp [costlyHits]
  | @cons w u w' e es hs _ ih =>
    rw [ih, step_lives hs, costlyHits_cons hs.2]
    split_ifs <;> push_cast <;> ring

/-- The costly hits of two runs in a row. -/
theorem costlyHits_append {w u : World K} {es fs : List (Event K)} (h : (game K).Run w es u) :
    costlyHits w (es ++ fs) = costlyHits w es + costlyHits u fs := by
  induction h with
  | nil w => simp [costlyHits]
  | @cons w v u e es hs _ ih =>
    rw [List.cons_append, costlyHits_cons hs.2, costlyHits_cons hs.2, ih]
    ring

/-- **Lives never go below zero exactly in the runs with no more costly hits than lives at the start.** -/
theorem lives_nonneg_iff {w w' : World K} {es : List (Event K)} (run : (game K).Run w es w') :
    (game K).Throughout (fun u => 0 ≤ u.gameMode.lives) w es ↔ (costlyHits w es : ℤ) ≤ w.gameMode.lives := by
  constructor
  · intro h
    have hlast : 0 ≤ w'.gameMode.lives := h es [] w' (List.append_nil es).symm run
    rw [run_lives run] at hlast
    exact sub_nonneg.mp hlast
  · rintro hle es₁ es₂ u rfl hu
    rw [costlyHits_append hu, Nat.cast_add] at hle
    show 0 ≤ u.gameMode.lives
    rw [run_lives hu]
    omega

/-- Hits on a runner whose shield is down each time. -/
def hitsApart : ℕ → List (Event ℚ)
  | 0 => [.advance (1 / 5), .fire 0, .advance (1 / 10), .fire 0]
  | n + 1 => hitsApart n ++ [.hit n .runner, .advance 2, .fire 0]

/-- Three hits at the class defaults leave no life, and not less than none. -/
theorem lives_nonneg_three_hits :
    ∃ u, (game ℚ).Run fourObstacles (hitsApart 3) u ∧
      (game ℚ).Throughout (fun v => 0 ≤ v.gameMode.lives) fourObstacles (hitsApart 3) := by
  obtain ⟨u, hu⟩ := Machine.exists_run_of_exec (M := game ℚ) fourObstacles (hitsApart 3) (by decide +kernel)
  exact ⟨u, hu, (lives_nonneg_iff hu).mpr (by decide +kernel)⟩

/-- Nothing ends the game at zero lives, and the fourth hit costs one more. -/
theorem not_lives_nonneg :
    ¬ ∀ (w w₀ u : World ℚ) (a : BeginPlayAnswers ℚ) (es : List (Event ℚ)), w.Initial →
      w.beginPlay a = .ok w₀ → a.player.isSome = true → w.gameMode.lives = 3 →
      (∀ e ∈ es, e.NotToggled) → (game ℚ).Run w₀ es u → 0 ≤ u.gameMode.lives := by
  intro h
  obtain ⟨u, hu⟩ := Machine.exists_run_of_exec (M := game ℚ) fourObstacles (hitsApart 4) (by decide +kernel)
  have hle := h _ _ u _ (hitsApart 4) (World.fresh_initial _ 2) beginPlay_fourObstacles rfl rfl
    (by simp [hitsApart, Event.NotToggled]) hu
  rw [run_lives hu] at hle
  revert hle
  decide +kernel

end World

end EndlessRunner
