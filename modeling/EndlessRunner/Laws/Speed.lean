import EndlessRunner.Laws.Parts
import Mathlib.Tactic.LinearCombination
import Mathlib.Algebra.Order.Ring.Rat
import Mathlib.Tactic.NormNum

/-!
# The speed of the ground

Only `Tick` changes the speed, and each adds the same amount whatever its length: the speed of a run is the start speed,
grown once for each `Tick` (`World.run_speed`). So after a run of frames the speed tells how many there were, not how
long they took (`World.equallyHard_after_ticks`): the difficulty depends on the frame rate, except when nothing is added
at all.

The code adds in single precision. From the class defaults on, the speed so grown is a matter of four powers of two
(`grown_defaults`).
-/

set_option autoImplicit false

namespace EndlessRunner

open Lib (Machine)
open Lib.Rounding

variable {K : Type} [Field K] [LinearOrder K]

/-- The event is a `Tick` of the game mode. -/
def Event.isTick : Event K → Bool
  | .tick _ => true
  | _ => false

/-- How many `Tick`s there are among the events. -/
def ticks (es : List (Event K)) : ℕ := es.countP Event.isTick

omit [Field K] [LinearOrder K] in
theorem ticks_cons (e : Event K) (es : List (Event K)) :
    ticks (e :: es) = ticks es + if e.isTick = true then 1 else 0 :=
  List.countP_cons

omit [Field K] [LinearOrder K] in
theorem ticks_map_tick (dts : List K) : ticks (dts.map .tick) = dts.length := by
  rw [ticks, List.countP_map]
  exact List.countP_eq_length.mpr fun _ _ => rfl

namespace World

theorem tick_speed {w w' : World K} {dt : K} (h : w.tick dt = .ok w') : w'.gameMode.speed = w.nextSpeed := by
  rcases tick_cases h with ⟨_, rfl⟩ | ⟨_, y, _, rfl | rfl⟩ <;> rfl

theorem speed_step {w w' : World K} {e : Event K} (hs : (game K).Step w e w') :
    w'.gameMode.speed = if e.isTick = true then w.nextSpeed else w.gameMode.speed := by
  cases e with
  | tick dt => exact tick_speed hs.2
  | _ => exact view_step hs (p := .speed) (by simp [Event.writes])

/-- **The speed of a run** is where it started, grown once for each `Tick`, whatever its length. -/
theorem run_speed {w w' : World K} {es : List (Event K)} (h : (game K).Run w es w') :
    w'.gameMode.speed = grown w.gameMode.float w.gameMode.speed w.gameMode.speedIncrease (ticks es) := by
  induction h with
  | nil w => rfl
  | @cons w u w' e es hs _ ih =>
    obtain ⟨hfloat, hincrease⟩ := increase_of_config (config_step hs)
    rw [ih, hfloat, hincrease, speed_step hs, ticks_cons]
    split_ifs
    · rfl
    · rfl

/-- In exact arithmetic each `Tick` adds the increase once. -/
theorem run_ticks_speed {dts : List K} {w w' : World K} (exact : w.gameMode.float = id)
    (h : (game K).Run w (dts.map .tick) w') :
    w'.gameMode.speed = w.gameMode.speed + dts.length * w.gameMode.speedIncrease := by
  rw [run_speed h, exact, grown_id, ticks_map_tick]

/-- Two worlds are equally hard: the same speed, and the same velocity set from it by the ground
parent's next `Tick`. -/
def EquallyHard (w₁ w₂ : World K) : Prop :=
  w₁.gameMode.speed = w₂.gameMode.speed ∧
    w₁.groundTick.groundTilesParent.physicsLinearVelocity =
      w₂.groundTick.groundTilesParent.physicsLinearVelocity

omit [LinearOrder K] in
theorem equallyHard_iff {w₁ w₂ : World K} :
    EquallyHard w₁ w₂ ↔ w₁.gameMode.speed = w₂.gameMode.speed := by
  refine ⟨And.left, fun h => ⟨h, ?_⟩⟩
  simp only [groundTick, h]

/-- **Two runs of `Tick` from the same speed and increase end equally hard exactly when they have the
same number of frames, or nothing is added at all**, in exact arithmetic. How long the frames are, and in
particular whether they add up to the same time, plays no part. -/
theorem equallyHard_after_ticks [IsStrictOrderedRing K] {w₁ w₂ w₁' w₂' : World K} {dts₁ dts₂ : List K}
    (exact₁ : w₁.gameMode.float = id) (exact₂ : w₂.gameMode.float = id) (speed : w₁.gameMode.speed = w₂.gameMode.speed)
    (increase : w₁.gameMode.speedIncrease = w₂.gameMode.speedIncrease)
    (run₁ : (game K).Run w₁ (dts₁.map .tick) w₁') (run₂ : (game K).Run w₂ (dts₂.map .tick) w₂') :
    EquallyHard w₁' w₂' ↔ w₁.gameMode.speedIncrease = 0 ∨ dts₁.length = dts₂.length := by
  rw [equallyHard_iff, run_ticks_speed exact₁ run₁, run_ticks_speed exact₂ run₂, speed, increase, add_right_inj,
    mul_eq_mul_right_iff, Nat.cast_inj, or_comm]

/-- A world without a player: each of its frames only raises the speed. -/
theorem step_tick_of_no_player {w : World K} (h : w.gameMode.player = none) (dt : K) :
    (game K).Step w (.tick dt) w.sped :=
  ⟨trivial, tick_eq_ok.mpr (.inr ⟨by rw [h]; rfl, rfl⟩)⟩

/-- A thirtieth of a second in one frame and in two. -/
theorem run_one_frame :
    (game ℚ).Run (.fresh (.ofOffsets 0 0 0 0 0) 0) ([1 / 30].map .tick)
      (World.fresh (.ofOffsets 0 0 0 0 0) 0).sped :=
  Machine.run_singleton.mpr (step_tick_of_no_player rfl _)

theorem run_two_frames :
    (game ℚ).Run (.fresh (.ofOffsets 0 0 0 0 0) 0) ([1 / 60, 1 / 60].map .tick)
      (World.fresh (.ofOffsets 0 0 0 0 0) 0).sped.sped :=
  .cons (step_tick_of_no_player rfl _) (Machine.run_singleton.mpr (step_tick_of_no_player rfl _))

theorem equallyHard_after_one_and_two :
    EquallyHard (World.fresh (K := ℚ) (.ofOffsets 0 0 0 0 0) 0).sped
        (World.fresh (.ofOffsets 0 0 0 0 0) 0).sped.sped ↔
      (1 / 10 : ℚ) = 0 ∨ 1 = 2 :=
  equallyHard_after_ticks rfl rfl rfl rfl run_one_frame run_two_frames

/-- The same thirtieth of a second leaves two frames harder than one. -/
theorem not_equallyHard_same_time :
    ¬ ∀ (w w₁ w₂ : World ℚ) (dts₁ dts₂ : List ℚ), w.gameMode.float = id →
      (∀ dt ∈ dts₁, 0 < dt) → (∀ dt ∈ dts₂, 0 < dt) →
      dts₁.sum = dts₂.sum → (game ℚ).Run w (dts₁.map .tick) w₁ → (game ℚ).Run w (dts₂.map .tick) w₂ →
      EquallyHard w₁ w₂ := by
  intro h
  have hard := h _ _ _ [1 / 30] [1 / 60, 1 / 60] rfl (by simp) (by simp) (by norm_num) run_one_frame
    run_two_frames
  have hspeed : (600 + 1 / 10 : ℚ) = 600 + 1 / 10 + 1 / 10 := equallyHard_iff.mp hard
  norm_num at hspeed

end World

/-! ## The class defaults in single precision -/

section Defaults

variable [IsStrictOrderedRing K] [FloorRing K]

theorem isRounding_binary32 : IsRounding (binary32 : K → K) := isRounding_round 23

/-- `0.1f`. -/
theorem binary32_tenth : (binary32 (1 / 10) : K) = 13421773 / 134217728 := by
  rw [binary32, round_eq (e := -4) (m := 13421773)]
  all_goals norm_num
  exact near_of_abs_lt (by norm_num [abs_lt])

/-- `600.f`. -/
theorem binary32_sixHundred : (binary32 600 : K) = 600 := by
  rw [binary32, round_eq (e := 9) (m := 9830400)]
  all_goals norm_num
  exact near_of_abs_lt (by norm_num [abs_lt])

/-- **How the default speed grows** beyond 4096, after 34944 frames: by 205 / 2048 in each. Up to there it grows by
other multiples of the last place, from one power of two to the next. -/
theorem grown_defaults {n : ℕ} (hn : n ≤ 40000) :
    grown binary32 (600 : K) (binary32 (1 / 10)) (34944 + n) = ((8388699 + n * 205 : ℤ) : K) / 2048 := by
  have h600 : (600 : K) = ((9830400 : ℤ) : K) * 2 ^ ((9 : ℤ) - (23 : ℕ)) := by norm_num
  have h₁ : grown binary32 (((9830400 : ℤ) : K) * 2 ^ ((9 : ℤ) - (23 : ℕ))) (13421773 / 134217728) (4241 + 1) =
      ((8389398 : ℤ) : K) * 2 ^ ((10 : ℤ) - (23 : ℕ)) := by
    apply grown_over (c := 1638) rfl
    all_goals norm_num [abs_lt]
  have h₂ : grown binary32 (((8389398 : ℤ) : K) * 2 ^ ((10 : ℤ) - (23 : ℕ))) (13421773 / 134217728) (10241 + 1) =
      ((8388798 : ℤ) : K) * 2 ^ ((11 : ℤ) - (23 : ℕ)) := by
    apply grown_over (c := 819) rfl
    all_goals norm_num [abs_lt]
  have h₃ : grown binary32 (((8388798 : ℤ) : K) * 2 ^ ((11 : ℤ) - (23 : ℕ))) (13421773 / 134217728) (20459 + 1) =
      ((8388699 : ℤ) : K) * 2 ^ ((12 : ℤ) - (23 : ℕ)) := by
    apply grown_over (c := 410) rfl
    all_goals norm_num [abs_lt]
  have h₄ : grown binary32 (((8388699 : ℤ) : K) * 2 ^ ((12 : ℤ) - (23 : ℕ))) (13421773 / 134217728) n =
      ((8388699 + n * 205 : ℤ) : K) * 2 ^ ((12 : ℤ) - (23 : ℕ)) := by
    apply grown_round
    · norm_num [abs_lt]
    · norm_num
    · norm_num
    · have hcast : (n : K) ≤ 40000 := by exact_mod_cast hn
      norm_num
      linarith
  have hsum : 34944 + n = 4241 + 1 + (10241 + 1 + (20459 + 1 + n)) := by omega
  rw [binary32_tenth, hsum, grown_add, h600, h₁, grown_add, h₂, grown_add, h₃, h₄]
  norm_num [div_eq_mul_inv]

end Defaults

end EndlessRunner
