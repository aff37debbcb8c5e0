import EndlessRunner.Laws.Speed
import EndlessRunner.Laws.Lanes
import Mathlib.Data.Rat.Floor

/-!
# The speed limit

`MaxSpeed` is declared beside `Speed` and no function reads it, so the speed of a run is where it started, grown once
for each `Tick` (`World.run_speed`). What grows by what is not negative does not fall, whatever is rounded off, so a run
is within the limit exactly when it started above the limit's negative and ends below the limit
(`World.throughout_withinLimit_iff`). In single precision the speed at its end is `grown binary32`
(`World.speed_limit_iff`).
-/

set_option autoImplicit false

namespace EndlessRunner

open Lib (Machine)
open Lib.Rounding

variable {K : Type} [Field K] [LinearOrder K]

/-- The square of a vector's length. -/
def FVector.sizeSquared (v : FVector K) : K := v.x ^ 2 + v.y ^ 2 + v.z ^ 2

/-- The vector is no longer than `r`. -/
def FVector.AtMost (v : FVector K) (r : K) : Prop := 0 ≤ r ∧ v.sizeSquared ≤ r ^ 2

namespace World

/-- The speed is within the limit, and so is the velocity that the ground parent's `Tick` sets from it. -/
def WithinLimit (w : World K) : Prop :=
  w.gameMode.speed ≤ w.gameMode.maxSpeed ∧
    w.groundTick.groundTilesParent.physicsLinearVelocity.AtMost w.gameMode.maxSpeed

variable [IsStrictOrderedRing K]

theorem withinLimit_iff {w : World K} :
    WithinLimit w ↔ -w.gameMode.maxSpeed ≤ w.gameMode.speed ∧ w.gameMode.speed ≤ w.gameMode.maxSpeed := by
  have hsize : w.groundTick.groundTilesParent.physicsLinearVelocity.sizeSquared = w.gameMode.speed ^ 2 := by
    simp [FVector.sizeSquared, groundTick]
  rw [WithinLimit, FVector.AtMost, hsize]
  constructor
  · rintro ⟨hle, hnonneg, hsq⟩
    exact ⟨(abs_le.mp (abs_le_of_sq_le_sq hsq hnonneg)).1, hle⟩
  · rintro ⟨hlo, hhi⟩
    have hnonneg : 0 ≤ w.gameMode.maxSpeed := by linarith
    exact ⟨hhi, hnonneg, sq_le_sq' hlo hhi⟩

/-- **The limit holds throughout a run exactly when the run starts and ends within it**, however sums are rounded. -/
theorem throughout_withinLimit_iff {w w' : World K} {es : List (Event K)} (hround : IsRounding w.gameMode.float)
    (hstored : w.gameMode.float w.gameMode.speed = w.gameMode.speed) (hincrease : 0 ≤ w.gameMode.speedIncrease)
    (hrun : (game K).Run w es w') :
    (game K).Throughout WithinLimit w es ↔ -w.gameMode.maxSpeed ≤ w.gameMode.speed ∧
      grown w.gameMode.float w.gameMode.speed w.gameMode.speedIncrease (ticks es) ≤ w.gameMode.maxSpeed := by
  have hmono := hround.grown_mono hstored hincrease
  have hends : ∀ {es' : List (Event K)} {u : World K}, (game K).Run w es' u → (WithinLimit u ↔
      -w.gameMode.maxSpeed ≤ grown w.gameMode.float w.gameMode.speed w.gameMode.speedIncrease (ticks es') ∧
        grown w.gameMode.float w.gameMode.speed w.gameMode.speedIncrease (ticks es') ≤ w.gameMode.maxSpeed) := by
    intro es' u hu
    have hmax : u.gameMode.maxSpeed = w.gameMode.maxSpeed := congrArg ConfigPart.maxSpeed (config_run hu)
    rw [withinLimit_iff, run_speed hu, hmax]
  constructor
  · intro h
    have hfirst := (hends (.nil w)).mp (h [] es w rfl (.nil w))
    have hlast := (hends hrun).mp (h es [] w' (List.append_nil es).symm hrun)
    exact ⟨hfirst.1, hlast.2⟩
  · rintro ⟨hlo, hhi⟩ es₁ es₂ u rfl hu
    have hcount : ticks es₁ ≤ ticks (es₁ ++ es₂) := by
      rw [ticks, ticks, List.countP_append]
      exact Nat.le_add_right _ _
    exact (hends hu).mpr ⟨hlo.trans (hmono (Nat.zero_le _)), (hmono hcount).trans hhi⟩

/-! ## In single precision -/

section Single

variable [FloorRing K]

/-- **The speed limit holds throughout a run exactly when the run started within it and the `float` that its `Tick`s add
up is within it.** -/
theorem speed_limit_iff {w w' : World K} {es : List (Event K)} (single : w.gameMode.float = binary32)
    (stored : binary32 w.gameMode.speed = w.gameMode.speed) (increase : 0 ≤ w.gameMode.speedIncrease)
    (run : (game K).Run w es w') :
    (game K).Throughout WithinLimit w es ↔ -w.gameMode.maxSpeed ≤ w.gameMode.speed ∧
      grown binary32 w.gameMode.speed w.gameMode.speedIncrease (ticks es) ≤ w.gameMode.maxSpeed := by
  have hiff := throughout_withinLimit_iff (single ▸ isRounding_binary32) (single.symm ▸ stored) increase run
  rwa [single] at hiff

end Single

/-- The class defaults in single precision, on a road of one tile, after `BeginPlay`. -/
def singleStart : World ℚ := started (.ofOffsets 0 0 0 0 0) 0 (some ()) .bare binary32

theorem beginPlay_singleStart :
    (World.fresh (.ofOffsets 0 0 0 0 0) 0 binary32).beginPlay ⟨some (), true, fun _ => .bare⟩ = .ok singleStart :=
  beginPlay_fresh _ 0 _ TileDraw.safe_bare binary32

/-- Any number of frames can be played from there. -/
theorem exists_ticks_singleStart (n : ℕ) :
    ∃ u, (game ℚ).Run singleStart ((List.replicate n (1 / 60)).map .tick) u := by
  obtain ⟨hlanes, _⟩ := onLanes_beginPlay (World.fresh_initial _ 0 binary32) (findsLane_fresh _ 0 _)
    beginPlay_singleStart rfl
  obtain ⟨u, hu⟩ := hlanes.exists_run ((List.replicate n (1 / 60)).map .tick) (by
    intro e he
    obtain ⟨dt, _, rfl⟩ := List.mem_map.mp he
    trivial)
  exact ⟨u, hu.of_restrict⟩

/-- The class defaults keep within the limit for 53964 frames, a quarter of an hour at sixty frames a second. -/
theorem speed_limit_quarterHour :
    (game ℚ).Throughout WithinLimit singleStart ((List.replicate 53964 (1 / 60)).map .tick) := by
  obtain ⟨u, hu⟩ := exists_ticks_singleStart 53964
  have hincrease : (0 : ℚ) ≤ binary32 (1 / 10) := by
    rw [binary32_tenth]
    norm_num
  refine (speed_limit_iff rfl binary32_sixHundred hincrease hu).mpr ⟨?_, ?_⟩
  · show (-6000 : ℚ) ≤ 600
    norm_num
  · rw [ticks_map_tick, List.length_replicate]
    refine (grown_defaults (n := 19020) (by norm_num)).trans_le ?_
    show _ ≤ (6000 : ℚ)
    norm_num

/-- In the next frame they are past it. -/
theorem not_speed_limit :
    ¬ ∀ (w w₀ u : World ℚ) (a : BeginPlayAnswers ℚ) (dts : List ℚ), w.Initial → w.beginPlay a = .ok w₀ →
      a.player.isSome = true → w.gameMode.float = binary32 → w.gameMode.speed ≤ w.gameMode.maxSpeed →
      0 ≤ w.gameMode.speedIncrease → (∀ dt ∈ dts, 0 < dt) → (game ℚ).Run w₀ (dts.map .tick) u →
      u.gameMode.speed ≤ u.gameMode.maxSpeed := by
  intro h
  obtain ⟨u, hu⟩ := exists_ticks_singleStart 53965
  have hincrease : (0 : ℚ) ≤ binary32 (1 / 10) := by
    rw [binary32_tenth]
    norm_num
  have hle := h _ _ u _ (List.replicate 53965 (1 / 60)) (World.fresh_initial _ 0 binary32) beginPlay_singleStart rfl rfl
    (by norm_num [fresh]) hincrease (fun dt hdt => by rw [(List.mem_replicate.mp hdt).2]; norm_num) hu
  have hmax : u.gameMode.maxSpeed = 6000 := congrArg ConfigPart.maxSpeed (config_run hu)
  rw [run_speed hu, hmax, ticks_map_tick, List.length_replicate] at hle
  have hdefaults := (grown_defaults (K := ℚ) (n := 19021) (by norm_num)).ge.trans hle
  norm_num at hdefaults

end World

end EndlessRunner
