import EndlessRunner.Laws.LaneGeometry
import EndlessRunner.Laws.Parts
import EndlessRunner.Laws.Riding
import EndlessRunner.Laws.Switching
import Mathlib.Algebra.Order.Archimedean.Basic

/-!
# Steering in the whole game

The lane controller keeps its invariant whatever else happens (`World.OnLanes.gameStep`), since only `Tick`, `Move`
and `SwitchToLane` write what it works with. So the player is never locked in: at any steady frame length that is
short enough, `Move`s bring him to whichever lane he likes (`World.every_lane_reachable`).

And that is all he needs. Where the tiles are aligned with the lane values, a settled player is level with the
obstacles of his own lane, and a lane's width beside all others (`World.settled_meets_own_lane`). On the centre lane
nothing ever meets him, and he can always get there (`World.can_play_safe`).
-/

set_option autoImplicit false

namespace EndlessRunner

open Lib (Machine)

variable {K : Type} [Field K] [LinearOrder K]

theorem Lane.exists_index {i : ℤ} (h0 : 0 ≤ i) (h2 : i ≤ 2) : ∃ l : Lane, i = l.index := by
  obtain rfl | rfl | rfl : i = 0 ∨ i = 1 ∨ i = 2 := by omega
  · exact ⟨.left, rfl⟩
  · exact ⟨.center, rfl⟩
  · exact ⟨.right, rfl⟩

/-- The lane values are `255` apart. -/
theorem Lane.le_abs_sub [IsStrictOrderedRing K] {l m : Lane} (h : l ≠ m) : (255 : K) ≤ |l.value - m.value| := by
  rw [le_abs]
  cases l <;> cases m <;> first | exact absurd rfl h | norm_num [Lane.value]

namespace World

/-! ## The invariant -/

omit [LinearOrder K] in
theorem OnLanes.of_view {w w' : World K} (h : OnLanes w) (hconfig : w'.configPart = w.configPart)
    (hlanes : w'.lanesPart = w.lanesPart) : OnLanes w' := by
  simp only [configPart, ConfigPart.mk.injEq] at hconfig
  simp only [lanesPart, LanesPart.mk.injEq] at hlanes
  obtain ⟨_, _, hvalues, _, _, _, hplayer, _⟩ := hconfig
  obtain ⟨hindex, hcan, hlocation⟩ := hlanes
  refine ⟨?_, ?_, ?_, ?_, ?_⟩
  · rw [hplayer]
    exact h.player
  · rw [hindex]
    exact h.nonneg
  · rw [hindex]
    exact h.le_two
  · rw [hvalues]
    exact h.inRange
  · rw [hvalues, hindex, hcan, hlocation]
    exact h.settled

omit [LinearOrder K] in
/-- Taking the flag away is harmless. -/
theorem OnLanes.lockLanes {w : World K} (h : OnLanes w) : OnLanes w.lockLanes := by
  unfold World.lockLanes
  split_ifs
  · exact ⟨h.player, h.nonneg, h.le_two, h.inRange, fun hcan => absurd hcan Bool.false_ne_true⟩
  · exact h

/-- **Every event keeps the lane controller's invariant.** -/
theorem OnLanes.gameStep {w w' : World K} {e : Event K} (h : OnLanes w) (hs : (game K).Step w e w') :
    OnLanes w' := by
  cases e with
  | tick dt => exact h.tick hs.2
  | move v => exact h.move hs.2
  | switchToLane i =>
    cases switchToLane_eq_ok (show w.switchToLane i = .ok w' from hs.2)
    exact h.lockLanes
  | _ =>
    exact h.of_view (view_step hs (p := .config) (by simp [Event.writes]))
      (view_step hs (p := .lanes) (by simp [Event.writes]))

/-- A player with a controller, and the speed of his switches. -/
structure Steered (speed : K) (w : World K) : Prop where
  onLanes : OnLanes w
  hasController : w.character.hasController = true
  lanesSwitchingSpeed : w.gameMode.lanesSwitchingSpeed = speed

theorem Steered.step {speed : K} {w w' : World K} {e : Event K} (h : Steered speed w)
    (hs : (game K).Step w e w') : Steered speed w' := by
  have hconfig := config_step hs
  simp only [configPart, ConfigPart.mk.injEq] at hconfig
  obtain ⟨_, _, _, hspeed, _, _, _, _, hcontroller, _⟩ := hconfig
  exact ⟨h.onLanes.gameStep hs, hcontroller.trans h.hasController, hspeed.trans h.lanesSwitchingSpeed⟩

theorem Steered.run {speed : K} {w w' : World K} {es : List (Event K)} (h : Steered speed w)
    (hr : (game K).Run w es w') : Steered speed w' :=
  hr.invariant (fun _ _ _ hs hw => hw.step hs) h

/-! ## Getting to a lane -/

/-- The game limited to frames of one length and `Move`s in between. -/
def steady (deltaTime : K) : Machine (World K) (Event K) Fault :=
  (game K).restrict fun _ e => e = .tick deltaTime ∨ ∃ v, e = .move v

theorem steady_tick {w w' : World K} {dt : K} (h : w.tick dt = .ok w') : (steady dt).Step w (.tick dt) w' :=
  Machine.restrict_step.mpr ⟨⟨trivial, h⟩, .inl rfl⟩

/-- The player stands on the lane of the index, `n` lanes from lane `i`. -/
structure Stands (speed : K) (i : ℤ) (n : ℕ) (w : World K) : Prop extends Steered speed w where
  canSwitchLanes : w.gameMode.canSwitchLanes = true
  distance : (w.gameMode.currentLaneIndex - i).natAbs = n

section Ordered

variable [IsStrictOrderedRing K]

omit [IsStrictOrderedRing K] in
/-- A frame near the lane ends the switch. -/
theorem Steered.exists_settled_of_near {speed y : K} {w : World K} (h : Steered speed w)
    (hcan : w.gameMode.canSwitchLanes = false) (hy : Target w y) (hnear : Near w y) (dt : K) :
    ∃ es u, (steady dt).Run w es u ∧ Steered speed u ∧ u.gameMode.canSwitchLanes = true ∧
      u.gameMode.currentLaneIndex = w.gameMode.currentLaneIndex := by
  have htick := (show Switching w from ⟨h.onLanes.player, hcan⟩).tick_eq hy dt
  refine ⟨[.tick dt], _, Machine.run_singleton.mpr (steady_tick htick), h.step (e := .tick dt) ⟨trivial, htick⟩, ?_,
    (tick_flag htick).1⟩
  rw [switched_of_near hnear]

/-- A switch ends when enough frames have passed, whatever the distance. The induction is on their number. -/
theorem Steered.exists_settled_of_lt {speed dt q y : K} (hq : |1 - dt * speed| ≤ q) (N : ℕ) : ∀ {w : World K},
    Steered speed w → w.gameMode.canSwitchLanes = false → Target w y →
    (w.character.location.y - y) ^ 2 * q ^ (2 * N) < 3 / 10 →
    ∃ es u, (steady dt).Run w es u ∧ Steered speed u ∧ u.gameMode.canSwitchLanes = true ∧
      u.gameMode.currentLaneIndex = w.gameMode.currentLaneIndex := by
  induction N with
  | zero =>
    intro w h hcan hy hbound
    exact h.exists_settled_of_near hcan hy (by simpa [Near] using hbound) dt
  | succ N ih =>
    intro w h hcan hy hbound
    by_cases hnear : Near w y
    · exact h.exists_settled_of_near hcan hy hnear dt
    · have htick := (show Switching w from ⟨h.onLanes.player, hcan⟩).tick_eq hy dt
      rw [switched_of_not_near hnear, h.lanesSwitchingSpeed] at htick
      have hpart : |1 - dt * speed| ≤ 1 - (1 - q) := by rwa [sub_sub_cancel]
      have hless := Lib.Approach.sq_toward_sub_mul_pow_le (y := y) (x := w.character.location.y) hpart N
      rw [sub_sub_cancel] at hless
      obtain ⟨es, u, hrun, hu, hsettled, hindex⟩ :=
        ih (h.step (e := .tick dt) ⟨trivial, htick⟩) hcan hy (lt_of_le_of_lt hless hbound)
      exact ⟨.tick dt :: es, u, .cons (steady_tick htick) hrun, hu, hsettled, hindex⟩

variable [Archimedean K]

/-- **Any switch ends**, at a steady frame length that covers a part of the way and less than twice the whole. -/
theorem Steered.exists_settled {speed dt : K} {w : World K} (hpos : 0 < dt * speed) (hlt : dt * speed < 2)
    (h : Steered speed w) :
    ∃ es u, (steady dt).Run w es u ∧ Steered speed u ∧ u.gameMode.canSwitchLanes = true ∧
      u.gameMode.currentLaneIndex = w.gameMode.currentLaneIndex := by
  cases hcan : w.gameMode.canSwitchLanes with
  | true => exact ⟨[], w, .nil w, h, hcan, rfl⟩
  | false =>
    obtain ⟨y, hy⟩ := h.onLanes.exists_value h.onLanes.nonneg h.onLanes.le_two
    have hpart : |1 - dt * speed| < 1 := abs_lt.mpr ⟨by linarith, by linarith⟩
    -- the distance shrinks by a factor below one in each frame
    have hsq : |1 - dt * speed| ^ 2 < 1 := pow_lt_one₀ (abs_nonneg _) hpart two_ne_zero
    obtain ⟨N, hN⟩ : ∃ N : ℕ, (w.character.location.y - y) ^ 2 * (|1 - dt * speed| ^ 2) ^ N < 3 / 10 := by
      have hscale : (0 : K) < (w.character.location.y - y) ^ 2 + 1 := by positivity
      obtain ⟨N, hN⟩ := exists_pow_lt_of_lt_one (show 0 < 3 / 10 / ((w.character.location.y - y) ^ 2 + 1) by
        positivity) hsq
      refine ⟨N, ?_⟩
      have hpow : 0 ≤ (|1 - dt * speed| ^ 2) ^ N := by positivity
      have hmul := (lt_div_iff₀ hscale).mp hN
      linarith
    rw [← pow_mul] at hN
    exact h.exists_settled_of_lt le_rfl N hcan hy hN

omit [Archimedean K] in
/-- One of the two directions leads nearer to the lane. -/
theorem exists_nearer {i k : ℤ} {n : ℕ} (hi : 0 ≤ i ∧ i ≤ 2) (hk : 0 ≤ k ∧ k ≤ 2) (hn : (k - i).natAbs = n + 1) :
    ∃ v : FVector2D K, (clamp (k + sign v.x) 0 2 - i).natAbs = n := by
  have hright : sign (1 : K) = 1 := if_pos one_pos
  have hleft : sign (-1 : K) = -1 := by
    rw [sign, if_neg (by linarith [one_pos (α := K)]), if_pos (by linarith [one_pos (α := K)])]
  rcases lt_or_ge k i with hlt | hge
  · refine ⟨⟨1, 0⟩, ?_⟩
    rw [hright, clamp]
    split_ifs <;> omega
  · refine ⟨⟨-1, 0⟩, ?_⟩
    rw [hleft, clamp]
    split_ifs <;> omega

/-- A `Move` towards the lane, and the frames of the switch, bring the player one lane nearer. -/
theorem stands_leads {speed dt : K} (hpos : 0 < dt * speed) (hlt : dt * speed < 2) {i : ℤ} (hi : 0 ≤ i ∧ i ≤ 2)
    (n : ℕ) : (steady dt).Leads (Stands speed i (n + 1)) (Stands speed i n) := by
  intro w h
  obtain ⟨v, hv⟩ := exists_nearer (K := K) hi ⟨h.onLanes.nonneg, h.onLanes.le_two⟩ h.distance
  have hmove := h.onLanes.move_taken h.hasController h.canSwitchLanes v
  have hstep : (steady dt).Step w (.move v) _ := Machine.restrict_step.mpr ⟨⟨trivial, hmove⟩, .inr ⟨v, rfl⟩⟩
  obtain ⟨es, u, hrun, hu, hsettled, hindex⟩ :=
    (h.toSteered.step (Machine.restrict_step.mp hstep).1).exists_settled hpos hlt
  refine ⟨.move v :: es, u, .cons hstep hrun, hu, hsettled, ?_⟩
  rw [hindex]
  exact hv

/-- A player under way first arrives somewhere, and then goes lane by lane. -/
theorem steered_leads {speed dt : K} (hpos : 0 < dt * speed) (hlt : dt * speed < 2) {i : ℤ} (hi : 0 ≤ i ∧ i ≤ 2) :
    (steady dt).Leads (Steered speed) (Stands speed i 0) := by
  intro w h
  obtain ⟨es, u, hrun, hu, hsettled, _⟩ := h.exists_settled hpos hlt
  obtain ⟨fs, v, hrun', hv⟩ := Machine.leads_of_rank (stands_leads hpos hlt hi) _ u ⟨hu, hsettled, rfl⟩
  exact ⟨es ++ fs, v, hrun.append hrun', hv⟩

omit [Archimedean K] in
theorem Initial.steered {w w₀ : World K} {a : BeginPlayAnswers K} (init : w.Initial) (lane : FindsLane w)
    (begun : w.beginPlay a = .ok w₀) (player : a.player.isSome = true) (controller : w.character.hasController = true) :
    Steered w.gameMode.lanesSwitchingSpeed w₀ := by
  obtain ⟨hlanes, _, _, hcharacter⟩ := onLanes_beginPlay init lane begun player
  obtain ⟨c, hc⟩ := beginPlay_class begun
  obtain ⟨point, tiles, hmode⟩ := (beginPlay_onlyTiles begun hc).gameMode
  refine ⟨hlanes, ?_, ?_⟩
  · rw [hcharacter]
    exact controller
  · rw [hmode]
    rfl

omit [LinearOrder K] [IsStrictOrderedRing K] [Archimedean K] in
/-- A settled player stands at the value of his lane. -/
theorem OnLanes.location_y {w : World K} {c : TileClass K} {start : FTransform K} (h : OnLanes w)
    (horiented : Oriented c start w) (hcan : w.gameMode.canSwitchLanes = true) {l : Lane}
    (hl : w.gameMode.currentLaneIndex = l.index) : w.character.location.y = l.value := by
  have hthere := h.settled hcan
  rw [hl, horiented.get_value] at hthere
  exact (Except.ok.inj hthere).symm

/-- **Every lane can be reached, from wherever the game has got to.** After any events in any order, at any steady
frame length at which a frame covers a part of the way to the lane and less than twice the whole, some `Move`s and
frames, and nothing else, bring the player to stand on the lane that is asked for. -/
theorem every_lane_reachable {w w₀ u : World K} {a : BeginPlayAnswers K} {es : List (Event K)} {dt : K}
    (init : w.Initial) (lane : FindsLane w) (begun : w.beginPlay a = .ok w₀) (player : a.player.isSome = true)
    (controller : w.character.hasController = true) (run : (game K).Run w₀ es u)
    (pos : 0 < dt * w.gameMode.lanesSwitchingSpeed) (lt_two : dt * w.gameMode.lanesSwitchingSpeed < 2) (l : Lane) :
    ∃ es' v, (steady dt).Run u es' v ∧ v.gameMode.canSwitchLanes = true ∧
      v.gameMode.currentLaneIndex = l.index ∧ v.character.location.y = l.value := by
  obtain ⟨c, hc⟩ := beginPlay_class begun
  have hl : 0 ≤ l.index ∧ l.index ≤ 2 := by cases l <;> decide
  obtain ⟨es', v, hrun, hv⟩ := steered_leads pos lt_two hl u ((init.steered lane begun player controller).run run)
  have hindex : v.gameMode.currentLaneIndex = l.index := sub_eq_zero.mp (Int.natAbs_eq_zero.mp hv.distance)
  have horiented := (init.oriented hc begun).1.run (run.append hrun.of_restrict)
  exact ⟨es', v, hrun, hv.canSwitchLanes, hindex, hv.onLanes.location_y horiented hv.canSwitchLanes hindex⟩

/-- On the road with the recycled tile, the runner who was on his way to the left lane is brought to the right one,
at sixty frames a second. -/
theorem every_lane_reachable_staleRecycle : ∃ u es v, (game ℚ).Run fullRoad staleRecycle u ∧
    (steady (1 / 60)).Run u es v ∧ v.gameMode.currentLaneIndex = 2 ∧ v.character.location.y = 255 := by
  obtain ⟨u, hu, _⟩ := run_staleRecycle
  have hfactor : 0 < (1 / 60 : ℚ) * (1 / 2) ∧ (1 / 60 : ℚ) * (1 / 2) < 2 := by norm_num
  obtain ⟨es, v, hv, _, hindex, hy⟩ := every_lane_reachable (World.fresh_initial _ 1) (findsLane_fresh _ 1)
    beginPlay_fullRoad rfl rfl hu hfactor.1 hfactor.2 .right
  exact ⟨u, es, v, hu, hv, hindex, hy⟩

/-! ## What the player meets there -/

omit [Archimedean K] in
/-- While nobody pushes the road aside, a live obstacle is at the lane value of its lane. -/
theorem Initial.obstacle_y {w w₀ u : World K} {a : BeginPlayAnswers K} {es : List (Event K)} {c : TileClass K}
    (init : w.Initial) (hc : w.gameMode.groundTileClass = some c) (begun : w.beginPlay a = .ok w₀)
    (aligned : ∀ k, c.Aligned (c.spawnPoint w.gameMode.nextSpawnPoint k))
    (run : ((game K).restrict StraightOn).Run w₀ es u) {o : ObstacleId} (alive : u.Alive o) :
    ∃ t l, (u.obstacles o).attachParent = some (t, l) ∧ l ≠ .center ∧
      (u.obstacleTransform o).translation.y = l.value := by
  obtain ⟨horiented, hlevel⟩ : Oriented c w.gameMode.nextSpawnPoint u ∧ Level c w.gameMode.nextSpawnPoint u := by
    refine run.invariant (I := fun v => Oriented c w.gameMode.nextSpawnPoint v ∧
      Level c w.gameMode.nextSpawnPoint v) ?_ (init.oriented hc begun)
    rintro x e y hs ⟨hx, hlevel⟩
    obtain ⟨hstep, he⟩ := Machine.restrict_step.mp hs
    exact ⟨hx.step hstep, hlevel.step hx aligned hstep he⟩
  obtain ⟨hriding, hkept⟩ := init.riding_run begun run.of_restrict
  obtain ⟨t, l, hplace, hl, ht, _⟩ := hkept.exists_place alive
  refine ⟨t, l, hplace, hl, ?_⟩
  have hagree := horiented.lanesAgree hlevel aligned t l ((Pool.mem_groundTiles horiented.pool).mpr ht)
  rw [horiented.get_value] at hagree
  rw [hriding.translation_eq alive hplace]
  exact (Except.ok.inj hagree).symm

omit [Archimedean K] in
/-- **A settled player is met by what is on his own lane only.** Where every spawn point aligns the tile that it gets,
and nobody pushes the road aside, a player who stands on a lane is level with the live obstacles of that lane, and a
lane's width beside all others. The centre lane has none. -/
theorem settled_meets_own_lane {w w₀ u : World K} {a : BeginPlayAnswers K} {es : List (Event K)} {c : TileClass K}
    (init : w.Initial) (lane : FindsLane w) (hc : w.gameMode.groundTileClass = some c)
    (begun : w.beginPlay a = .ok w₀) (player : a.player.isSome = true)
    (aligned : ∀ k, c.Aligned (c.spawnPoint w.gameMode.nextSpawnPoint k))
    (run : ((game K).restrict StraightOn).Run w₀ es u) (settled : u.gameMode.canSwitchLanes = true) :
    ∃ p : Lane, u.gameMode.currentLaneIndex = p.index ∧ u.character.location.y = p.value ∧
      ∀ o, u.Alive o → ∃ t l, (u.obstacles o).attachParent = some (t, l) ∧ l ≠ .center ∧
        (l = p ∧ (u.obstacleTransform o).translation.y = u.character.location.y ∨
          l ≠ p ∧ 255 ≤ |(u.obstacleTransform o).translation.y - u.character.location.y|) := by
  have hlanes : OnLanes u := run.of_restrict.invariant (fun _ _ _ hs hw => hw.gameStep hs)
    (onLanes_beginPlay init lane begun player).1
  obtain ⟨p, hp⟩ := Lane.exists_index hlanes.nonneg hlanes.le_two
  have hy := hlanes.location_y ((init.oriented hc begun).1.run run.of_restrict) settled hp
  refine ⟨p, hp, hy, ?_⟩
  intro o alive
  obtain ⟨t, l, hplace, hl, hvalue⟩ := init.obstacle_y hc begun aligned run alive
  refine ⟨t, l, hplace, hl, ?_⟩
  rw [hvalue, hy]
  by_cases hsame : l = p
  · exact .inl ⟨hsame, by rw [hsame]⟩
  · exact .inr ⟨hsame, Lane.le_abs_sub hsame⟩

/-- The runner goes to the centre lane, and an obstacle passes beside him. -/
theorem settled_meets_own_lane_center : ∃ u, ((game ℚ).restrict StraightOn).Run wideTiles
      [.tick 2, .tick 2, .move ⟨1, 0⟩, .tick 2, .tick 2, .groundTick, .physics 1] u ∧ u.Alive 0 ∧
    255 ≤ |(u.obstacleTransform 0).translation.y - u.character.location.y| := by
  obtain ⟨u, hexec, hstate⟩ : ∃ u, (game ℚ).exec wideTiles
      [.tick 2, .tick 2, .move ⟨1, 0⟩, .tick 2, .tick 2, .groundTick, .physics 1] = some u ∧
      (u.numObstacles, (u.obstacles 0).pendingKill, u.gameMode.canSwitchLanes, u.gameMode.currentLaneIndex) =
        (4, false, true, 1) :=
    Option.map_eq_some_iff.mp (by decide +kernel)
  simp only [Prod.mk.injEq] at hstate
  obtain ⟨hnum, hkill, hcan, hindex⟩ := hstate
  have hstraight := (Machine.exec_eq_some.mp hexec).restrict_of_forall (P := StraightOn) (by simp [StraightOn])
  have halive : u.Alive 0 := ⟨hnum ▸ (by decide), hkill⟩
  obtain ⟨p, hp, _, hall⟩ := settled_meets_own_lane (World.fresh_initial _ 2) (findsLane_fresh _ 2) rfl
    (beginPlay_fresh (.ofOffsets ⟨400, 0, 0⟩ ⟨0, -255, 0⟩ 0 ⟨0, 255, 0⟩ 0) 2 (some ()) TileDraw.safe_full) rfl
    ((TileClass.aligned_ofOffsets_iff _ _ _ _ _ 0).mpr (by simp)) hstraight hcan
  obtain ⟨t, l, _, hl, hmeets⟩ := hall 0 halive
  have hcenter : p = .center := by
    rw [hindex] at hp
    cases p <;> simp [Lane.index] at hp ⊢
  refine ⟨u, hstraight, halive, ?_⟩
  rcases hmeets with ⟨hsame, _⟩ | ⟨_, hfar⟩
  · exact absurd (hsame.trans hcenter) hl
  · exact hfar

/-! ## Staying there -/

/-- The player is on lane `l`, or on his way from it to it. -/
def Parked (l : Lane) (w : World K) : Prop :=
  w.gameMode.currentLaneIndex = l.index ∧ w.character.location.y = l.value

omit [IsStrictOrderedRing K] [Archimedean K] in
/-- Only a `Move` takes him away. -/
theorem Parked.step {w w' : World K} {e : Event K} {c : TileClass K} {start : FTransform K} {l : Lane}
    (h : Parked l w) (horiented : Oriented c start w) (hs : (game K).Step w e w') (he : ∀ v, e ≠ .move v) :
    Parked l w' := by
  cases e with
  | move v => exact absurd rfl (he v)
  | tick dt =>
    obtain ⟨hindex, _⟩ := tick_flag hs.2
    refine ⟨hindex.trans h.1, ?_⟩
    rcases tick_cases hs.2 with ⟨_, rfl⟩ | ⟨_, y, hy, hw'⟩
    · exact h.2
    · rw [h.1, horiented.get_value] at hy
      cases hy
      rcases hw' with rfl | rfl
      · rfl
      · show (FVector.lerp w.character.location (w.laneTarget l.value) _).y = _
        rw [lerp_laneTarget_y, h.2, Lib.Approach.toward, sub_self, zero_mul, add_zero]
  | switchToLane i =>
    cases switchToLane_eq_ok (show w.switchToLane i = .ok w' from hs.2)
    obtain ⟨can, hlock⟩ := lockLanes_frame w
    rw [hlock]
    exact h
  | _ =>
    have hlanes : w'.lanesPart = w.lanesPart := view_step hs (p := .lanes) (by simp [Event.writes])
    simp only [lanesPart, LanesPart.mk.injEq] at hlanes
    exact ⟨hlanes.1.trans h.1, hlanes.2.2 ▸ h.2⟩

/-- **The game can be played without danger.** Where every spawn point aligns the tile that it gets, from wherever the
game has got to without a push aside, some `Move`s and frames bring the player to a place where he can stay: however
the game goes on, if he does not move again and nobody pushes the road aside, every live obstacle is a lane's width
beside him for ever. -/
theorem can_play_safe {w w₀ u : World K} {a : BeginPlayAnswers K} {es : List (Event K)} {c : TileClass K} {dt : K}
    (init : w.Initial) (lane : FindsLane w) (hc : w.gameMode.groundTileClass = some c)
    (begun : w.beginPlay a = .ok w₀) (player : a.player.isSome = true) (controller : w.character.hasController = true)
    (aligned : ∀ k, c.Aligned (c.spawnPoint w.gameMode.nextSpawnPoint k))
    (run : ((game K).restrict StraightOn).Run w₀ es u) (pos : 0 < dt * w.gameMode.lanesSwitchingSpeed)
    (lt_two : dt * w.gameMode.lanesSwitchingSpeed < 2) :
    ∃ es' v, (steady dt).Run u es' v ∧
      ∀ fs x, ((game K).restrict fun s e => StraightOn s e ∧ ∀ d, e ≠ .move d).Run v fs x → ∀ o, x.Alive o →
        255 ≤ |(x.obstacleTransform o).translation.y - x.character.location.y| := by
  have hsteered := (init.steered lane begun player controller).run run.of_restrict
  obtain ⟨es', v, hrun, hv⟩ := steered_leads (i := Lane.center.index) pos lt_two (by decide) u hsteered
  have hstraight : ((game K).restrict StraightOn).Run u es' v := by
    refine hrun.restrict_mono ?_
    rintro s e (rfl | ⟨d, rfl⟩) <;> trivial
  have horiented := (init.oriented hc begun).1.run (run.append hstraight).of_restrict
  have hindex : v.gameMode.currentLaneIndex = Lane.center.index :=
    sub_eq_zero.mp (Int.natAbs_eq_zero.mp hv.distance)
  refine ⟨es', v, hrun, ?_⟩
  intro fs x hrest o alive
  obtain ⟨_, _, hy⟩ : Oriented c w.gameMode.nextSpawnPoint x ∧ Parked .center x := by
    refine hrest.invariant (I := fun s => Oriented c w.gameMode.nextSpawnPoint s ∧ Parked .center s) ?_
      ⟨horiented, hindex, hv.onLanes.location_y horiented hv.canSwitchLanes hindex⟩
    rintro s e s' hs ⟨hs₁, hparked⟩
    obtain ⟨hstep, _, hmove⟩ := Machine.restrict_step.mp hs
    exact ⟨hs₁.step hstep, hparked.step hs₁ hstep hmove⟩
  have hon := (run.append hstraight).append (hrest.restrict_mono fun _ _ h => h.1)
  obtain ⟨t, l, _, hl, hvalue⟩ := init.obstacle_y hc begun aligned hon alive
  rw [hvalue, hy]
  exact Lane.le_abs_sub hl

/-- On the wide tiles after two recycles: the runner gets to the middle at sixty frames a second, and an obstacle that
stands on the last tile passes him. -/
theorem can_play_safe_wideTiles : ∃ u es v x, (game ℚ).Run wideTiles
      [.groundTick, .physics 1, .recycle 1 ⟨1, true⟩ ⟨1, true⟩, .recycle 0 ⟨0, true⟩ ⟨1, true⟩] u ∧
    (steady (1 / 60)).Run u es v ∧ (game ℚ).Run v [.groundTick, .physics 1, .collectGarbage] x ∧ x.Alive 6 ∧
      255 ≤ |(x.obstacleTransform 6).translation.y - x.character.location.y| := by
  obtain ⟨u, hexec, hstate⟩ : ∃ u, (game ℚ).exec wideTiles
      [.groundTick, .physics 1, .recycle 1 ⟨1, true⟩ ⟨1, true⟩, .recycle 0 ⟨0, true⟩ ⟨1, true⟩] = some u ∧
      (u.numObstacles, (u.obstacles 6).pendingKill) = (7, false) :=
    Option.map_eq_some_iff.mp (by decide +kernel)
  simp only [Prod.mk.injEq] at hstate
  obtain ⟨hnum, hkill⟩ := hstate
  have hu := Machine.exec_eq_some.mp hexec
  have hfactor : 0 < (1 / 60 : ℚ) * (1 / 2) ∧ (1 / 60 : ℚ) * (1 / 2) < 2 := by norm_num
  obtain ⟨es, v, hv, hsafe⟩ := can_play_safe (World.fresh_initial _ 2) (findsLane_fresh _ 2) rfl
    (beginPlay_fresh (.ofOffsets ⟨400, 0, 0⟩ ⟨0, -255, 0⟩ 0 ⟨0, 255, 0⟩ 0) 2 (some ()) TileDraw.safe_full) rfl rfl
    ((TileClass.aligned_ofOffsets_iff _ _ _ _ _ 0).mpr (by simp))
    (hu.restrict_of_forall (P := StraightOn) (by simp [StraightOn])) hfactor.1 hfactor.2
  have hrest : (game ℚ).Run v [.groundTick, .physics 1, .collectGarbage] ((v.groundTick.physics 1).collectGarbage) :=
    .cons ⟨trivial, rfl⟩ (.cons ⟨trivial, rfl⟩ (Machine.run_singleton.mpr ⟨trivial, rfl⟩))
  -- frames and moves leave the obstacles as they are
  have hroad : v.roadPart = u.roadPart := by
    refine hv.invariant (I := fun s => s.roadPart = u.roadPart) (fun s e t hst hs => ?_) rfl
    obtain ⟨hstep, he⟩ := Machine.restrict_step.mp hst
    exact (view_step hstep (p := .road) (by rcases he with rfl | ⟨d, rfl⟩ <;> simp [Event.writes])).trans hs
  have hnum' : v.numObstacles = 7 := (congrArg RoadPart.numObstacles hroad).trans hnum
  have halive : v.Alive 6 := ⟨hnum' ▸ (by decide),
    (congrArg (fun road => (road.obstacles 6).pendingKill) hroad).trans hkill⟩
  exact ⟨u, es, v, _, hu, hv, hrest, halive,
    hsafe _ _ (hrest.restrict_of_forall (by simp [StraightOn])) 6 halive⟩

end Ordered

end World

end EndlessRunner
