import EndlessRunner.Laws.Attachment
import EndlessRunner.Laws.Obstacles
import EndlessRunner.Laws.Parts
import EndlessRunner.Laws.Road

/-!
# Obstacles ride on their lanes

An obstacle is attached to a lane arrow, the arrow to its tile and the tile to the ground parent, and nothing but the
recycling of its tile moves one against the other. So in every state a live obstacle is where its arrow is
(`World.obstacles_ride`), and while it lives it moves exactly as the ground parent does
(`World.obstacles_move_with_ground`).
-/

set_option autoImplicit false

namespace EndlessRunner

open Lib (Machine)

variable {K : Type} [Field K]

/-! ## Motion of the lanes -/

namespace FTransform

@[simp] theorem translate_zero (t : FTransform K) : t.translate 0 = t := by
  simp only [translate, add_zero]

theorem translate_translate (t : FTransform K) (d e : FVector K) :
    (t.translate d).translate e = t.translate (d + e) := by
  simp only [translate, add_assoc]

end FTransform

namespace GroundTile

theorem laneTransform_moveBy {t : GroundTile K} (h : t.attached = true) (d : FVector K) (l : Lane) :
    (t.moveBy d).laneTransform l = (t.laneTransform l).translate d := by
  rw [moveBy_of_attached h]
  exact FTransform.mul_translate _ _ _

/-- A lane arrow without its location. -/
def laneShape (t : GroundTile K) (l : Lane) : FTransform K := (t.laneTransform l).setLocation 0

theorem laneShape_setActorLocation (t : GroundTile K) (v : FVector K) (l : Lane) :
    (t.setActorLocation v).laneShape l = t.laneShape l := rfl

theorem laneShape_moveBy (t : GroundTile K) (d : FVector K) (l : Lane) : (t.moveBy d).laneShape l = t.laneShape l := by
  unfold moveBy
  split <;> rfl

theorem laneShape_of_bare {t u : GroundTile K} (h : t.bare = u.bare) (l : Lane) : t.laneShape l = u.laneShape l :=
  congr_bare (f := fun tile => tile.laneShape l) (fun _ => rfl) h

end GroundTile

namespace World

theorem OnlyObstacles.laneTransform {w w' : World K} (h : OnlyObstacles w w') (s : TileId) (l : Lane) :
    (w'.tiles s).laneTransform l = (w.tiles s).laneTransform l :=
  GroundTile.congr_bare (f := fun tile => tile.laneTransform l) (fun _ => rfl) (h.bare s)

/-! ## On the lane -/

/-- A live obstacle has the rotation and the scale of its lane arrow, and no offset from it. -/
def Riding (w : World K) : Prop :=
  ∀ o t l, w.Alive o → (w.obstacles o).attachParent = some (t, l) → (w.obstacles o).relative = (w.tiles t).laneShape l

/-- The same obstacles, or fewer, on lanes of the same shape. -/
theorem Riding.of_le {w w' : World K} (h : Riding w)
    (hobstacles : ∀ o, w'.Alive o → w.Alive o ∧ (w'.obstacles o).attachParent = (w.obstacles o).attachParent ∧
      (w'.obstacles o).relative = (w.obstacles o).relative)
    (hlanes : ∀ o t l, w.Alive o → (w.obstacles o).attachParent = some (t, l) →
      (w'.tiles t).laneShape l = (w.tiles t).laneShape l) : Riding w' := by
  intro o t l ho hplace
  obtain ⟨halive, hparent, hrelative⟩ := hobstacles o ho
  rw [hparent] at hplace
  rw [hrelative, hlanes o t l halive hplace]
  exact h o t l halive hplace

theorem alive_destroy {w : World K} {o p : ObstacleId} (h : (w.destroy o).Alive p) :
    w.Alive p ∧ p ≠ o := by
  have hlive : (w.shelves.kill o).Live p := shelves_destroy w o ▸ h
  exact Lib.Shelves.live_kill.mp hlive

theorem obstacles_destroy_of_ne (w : World K) {o p : ObstacleId} (h : p ≠ o) :
    (w.destroy o).obstacles p = w.obstacles p :=
  Function.update_of_ne h ..

theorem Riding.destroy {w : World K} (h : Riding w) (o : ObstacleId) : Riding (w.destroy o) := by
  refine h.of_le ?_ fun _ _ _ _ _ => rfl
  intro p hp
  obtain ⟨halive, hne⟩ := alive_destroy hp
  rw [obstacles_destroy_of_ne w hne]
  exact ⟨halive, rfl, rfl⟩

theorem alive_cleared {w : World K} {t : TileId} {o : ObstacleId} (h : (w.cleared t).Alive o) :
    w.Alive o ∧ some o ∉ (w.tiles t).obstacles := by
  have hlive : (w.shelves.clear t).Live o := shelves_cleared w t ▸ h
  exact Lib.Shelves.live_clear.mp hlive

theorem obstacles_cleared_of_not_mem {w : World K} {t : TileId} {o : ObstacleId} (h : some o ∉ (w.tiles t).obstacles) :
    (w.cleared t).obstacles o = w.obstacles o := by
  rw [cleared_obstacle, if_neg h]

theorem Riding.cleared {w : World K} (h : Riding w) (t : TileId) : Riding (w.cleared t) := by
  refine h.of_le ?_ fun _ s l _ _ => GroundTile.laneShape_of_bare ((onlyObstacles_cleared w t).bare s) l
  intro o ho
  obtain ⟨halive, hnot⟩ := alive_cleared ho
  rw [obstacles_cleared_of_not_mem hnot]
  exact ⟨halive, rfl, rfl⟩

theorem Riding.toEnd {w : World K} (h : Riding w) (t last : TileId) : Riding (w.toEnd t last) := by
  refine h.of_le (fun o ho => ⟨ho, rfl, rfl⟩) ?_
  intro o s l _ _
  by_cases hs : s = t
  · subst hs
    rw [tiles_toEnd_self, GroundTile.laneShape_setActorLocation]
  · rw [tiles_toEnd_of_ne w last hs]

theorem obstacles_withObstacle_of_lt (w : World K) (t : TileId) (l : Lane) {o : ObstacleId} (ho : o < w.numObstacles) :
    (w.withObstacle t l).obstacles o = w.obstacles o :=
  Function.update_of_ne ho.ne ..

/-- A new obstacle is put on its lane as it should be. -/
theorem Riding.withObstacle {w : World K} (h : Riding w) (t : TileId) (l : Lane) : Riding (w.withObstacle t l) := by
  have hshape : ∀ s k, ((w.withObstacle t l).tiles s).laneShape k = (w.tiles s).laneShape k := fun s k =>
    GroundTile.laneShape_of_bare ((onlyObstacles_withObstacle w t l).bare s) k
  intro o s k ho hplace
  rw [hshape]
  rcases Nat.lt_succ_iff_lt_or_eq.mp ho.1 with hlt | rfl
  · have hold := obstacles_withObstacle_of_lt w t l hlt
    rw [hold] at hplace ⊢
    exact h o s k ⟨hlt, hold ▸ ho.2⟩ hplace
  · simp only [World.withObstacle, Function.update_self, Option.some.injEq, Prod.mk.injEq] at hplace ⊢
    obtain ⟨rfl, rfl⟩ := hplace
    rfl

section Ordered

variable [LinearOrder K]

theorem Riding.withDraw {w : World K} (h : Riding w) (d : ObstacleDraw K) (t : TileId) (l : Lane) :
    Riding (w.withDraw d t l) := by
  unfold World.withDraw
  split
  · exact h.withObstacle t l
  · exact h

omit [LinearOrder K] in
theorem Riding.withTile {w : World K} (h : Riding w) (hw : Kept w) (c : TileClass K) : Riding (w.withTile c) := by
  refine h.of_le (fun o ho => ⟨ho, rfl, rfl⟩) ?_
  intro o t l ho hplace
  obtain ⟨s, k, hplace', _, hs, _⟩ := hw.exists_place ho
  cases hplace'.symm.trans hplace
  rw [tiles_withTile_of_ne w c hs.ne]

theorem Riding.step {w w' : World K} {e : Event K} (h : Riding w) (hw : Kept w) (hs : (game K).Step w e w') :
    Riding w' := by
  rcases obstacleStep_cases hs with ⟨_, hsame⟩ | ⟨_, v, o, hsame, rfl⟩ | ⟨_, rfl⟩ | ⟨d, _, rfl⟩ | ⟨_, c, _, _, rfl⟩ |
    ⟨t, left, right, last, _, _, _, rfl⟩
  · simpa only [Riding, Alive, hsame.tiles, hsame.obstacles, hsame.numObstacles] using h
  · have hv : Riding v := by
      simpa only [Riding, Alive, hsame.tiles, hsame.obstacles, hsame.numObstacles] using h
    exact hv.destroy o
  · exact h
  · exact h.of_le (fun o ho => ⟨ho, rfl, rfl⟩) fun _ t l _ _ => GroundTile.laneShape_moveBy _ d l
  · exact h.withTile hw c
  · exact (((h.cleared t).toEnd t last).withDraw left t .left).withDraw right t .right

theorem Initial.riding [IsStrictOrderedRing K] {w w₀ : World K} {a : BeginPlayAnswers K} (init : w.Initial)
    (begun : w.beginPlay a = .ok w₀) : Riding w₀ ∧ Kept w₀ := by
  obtain ⟨c, hc⟩ := beginPlay_class begun
  refine beginPlay_induction (I := fun u => Riding u ∧ Kept u) begun hc ⟨?_, init.kept_opened a.player c⟩ ?_
  · intro o t l ho
    exact absurd (init.numObstacles ▸ ho.1) (Nat.not_lt_zero o)
  · rintro u d ⟨hu, hkept⟩
    exact ⟨((hu.withTile hkept c).withDraw d.left u.numTiles .left).withDraw d.right u.numTiles .right,
      hkept.withRound c d⟩

/-- So it is in every state that the game reaches. -/
theorem Initial.riding_run [IsStrictOrderedRing K] {w w₀ u : World K} {a : BeginPlayAnswers K} {es : List (Event K)}
    (init : w.Initial) (begun : w.beginPlay a = .ok w₀) (run : (game K).Run w₀ es u) : Riding u ∧ Kept u := by
  refine run.invariant (I := fun v => Riding v ∧ Kept v) ?_ (init.riding begun)
  rintro x e y hs ⟨hx, hkept⟩
  exact ⟨hx.step hkept hs, hkept.step hs⟩

omit [LinearOrder K] in
theorem Riding.obstacleTransform_eq {w : World K} (h : Riding w) {o : ObstacleId} {t : TileId} {l : Lane}
    (ho : w.Alive o) (hplace : (w.obstacles o).attachParent = some (t, l)) :
    w.obstacleTransform o = ((w.tiles t).laneTransform l).setLocation 0 * (w.tiles t).laneTransform l := by
  have hrelative := h o t l ho hplace
  simp only [obstacleTransform, hplace, hrelative]
  rfl

omit [LinearOrder K] in
theorem Riding.translation_eq {w : World K} (h : Riding w) {o : ObstacleId} {t : TileId} {l : Lane}
    (ho : w.Alive o) (hplace : (w.obstacles o).attachParent = some (t, l)) :
    (w.obstacleTransform o).translation = ((w.tiles t).laneTransform l).translation := by
  rw [h.obstacleTransform_eq ho hplace, FTransform.mul_translation]
  simp

/-- **Obstacles ride on their lanes.** In every state that the game reaches from `BeginPlay`, a live obstacle is where
the arrow of its lane is, however that has moved; and it sits there as the arrow does exactly when the arrow is not
turned and each part of its scale is zero or one. -/
theorem obstacles_ride [IsStrictOrderedRing K] {w w₀ u : World K} {a : BeginPlayAnswers K} {es : List (Event K)}
    (init : w.Initial) (begun : w.beginPlay a = .ok w₀) (run : (game K).Run w₀ es u) (o : ObstacleId)
    (alive : u.Alive o) :
    ∃ t l, (u.obstacles o).attachParent = some (t, l) ∧
      (u.obstacleTransform o).translation = ((u.tiles t).laneTransform l).translation ∧
      ((u.obstacleTransform o).Same ((u.tiles t).laneTransform l) ↔ Plain ((u.tiles t).laneTransform l)) := by
  obtain ⟨hriding, hkept⟩ := init.riding_run begun run
  obtain ⟨t, l, hplace, _⟩ := hkept.exists_place alive
  refine ⟨t, l, hplace, hriding.translation_eq alive hplace, ?_⟩
  rw [hriding.obstacleTransform_eq alive hplace]
  exact setLocation_mul_same_iff

theorem obstacles_ride_staleRecycle :
    ∃ u, (game ℚ).Run fullRoad staleRecycle u ∧
      ∃ t l, (u.obstacles 2).attachParent = some (t, l) ∧
        (u.obstacleTransform 2).translation = ((u.tiles t).laneTransform l).translation := by
  obtain ⟨u, hexec, hlive⟩ : ∃ u, (game ℚ).exec fullRoad staleRecycle = some u ∧
      (u.numObstacles, (u.obstacles 2).pendingKill) = (4, false) :=
    Option.map_eq_some_iff.mp (by decide +kernel)
  obtain ⟨hnum, hkill⟩ := Prod.mk.inj hlive
  have hu := Machine.exec_eq_some.mp hexec
  have halive : u.Alive 2 := ⟨hnum ▸ (by decide), hkill⟩
  obtain ⟨t, l, hplace, htransform, _⟩ := obstacles_ride (World.fresh_initial _ 1) beginPlay_fullRoad hu 2 halive
  exact ⟨u, hu, t, l, hplace, htransform⟩

/-! ## With the ground -/

/-- The obstacle stays attached as it was, and its lane moves by `d`. -/
structure Carried (d : FVector K) (w w' : World K) (o : ObstacleId) : Prop where
  attachParent : (w'.obstacles o).attachParent = (w.obstacles o).attachParent
  relative : (w'.obstacles o).relative = (w.obstacles o).relative
  lane : ∀ t l, (w.obstacles o).attachParent = some (t, l) →
    (w'.tiles t).laneTransform l = ((w.tiles t).laneTransform l).translate d

omit [LinearOrder K] in
theorem Carried.transform {d : FVector K} {w w' : World K} {o : ObstacleId} (h : Carried d w w' o)
    (hplace : (w.obstacles o).attachParent ≠ none) :
    w'.obstacleTransform o = (w.obstacleTransform o).translate d := by
  obtain ⟨⟨t, l⟩, htl⟩ := Option.ne_none_iff_exists'.mp hplace
  simp only [obstacleTransform, h.attachParent, h.relative, htl, h.lane t l htl, FTransform.mul_translate]

omit [LinearOrder K] in
/-- Nothing moves where the obstacle and its lane stay as they are. -/
theorem Carried.of_still {w w' : World K} {o : ObstacleId} (hground : w'.groundTilesParent.location =
    w.groundTilesParent.location) (hobstacle : (w'.obstacles o).attachParent = (w.obstacles o).attachParent ∧
      (w'.obstacles o).relative = (w.obstacles o).relative)
    (hlane : ∀ t l, (w.obstacles o).attachParent = some (t, l) →
      (w'.tiles t).laneTransform l = (w.tiles t).laneTransform l) :
    Carried (w'.groundTilesParent.location - w.groundTilesParent.location) w w' o := by
  rw [hground, sub_self]
  refine ⟨hobstacle.1, hobstacle.2, ?_⟩
  intro t l hplace
  rw [FTransform.translate_zero]
  exact hlane t l hplace

omit [LinearOrder K] in
theorem carried_translateGround {w : World K} (hpool : ∃ ids, Pool w ids) (hw : Kept w) {o : ObstacleId}
    (ho : w.Alive o) (d : FVector K) :
    Carried ((w.translateGround d).groundTilesParent.location - w.groundTilesParent.location) w
      (w.translateGround d) o := by
  have hd : (w.translateGround d).groundTilesParent.location - w.groundTilesParent.location = d :=
    add_sub_cancel_left _ _
  rw [hd]
  refine ⟨rfl, rfl, ?_⟩
  intro t l hplace
  obtain ⟨s, k, hplace', _, hs, _⟩ := hw.exists_place ho
  cases hplace'.symm.trans hplace
  obtain ⟨ids, hids⟩ := hpool
  exact GroundTile.laneTransform_moveBy (hids.attached t ((hids.mem_iff t).mpr hs)) d l

theorem numObstacles_withDraw_le (w : World K) (d : ObstacleDraw K) (t : TileId) (l : Lane) :
    w.numObstacles ≤ (w.withDraw d t l).numObstacles := by
  unfold withDraw
  split
  · exact Nat.le_succ _
  · exact le_rfl

theorem obstacles_withDraw_of_lt (w : World K) (d : ObstacleDraw K) (t : TileId) (l : Lane) {o : ObstacleId}
    (ho : o < w.numObstacles) : (w.withDraw d t l).obstacles o = w.obstacles o := by
  unfold withDraw
  split
  · exact obstacles_withObstacle_of_lt w t l ho
  · rfl

/-- What `RecycleTile` leaves of an obstacle that was there before. -/
theorem obstacles_recycled_of_lt (w : World K) (left right : ObstacleDraw K) (t last : TileId) {o : ObstacleId}
    (ho : o < w.numObstacles) : (w.recycled left right t last).obstacles o = (w.cleared t).obstacles o := by
  have hleft := obstacles_withDraw_of_lt ((w.cleared t).toEnd t last) left t .left ho
  have hnum : o < (((w.cleared t).toEnd t last).withDraw left t .left).numObstacles :=
    lt_of_lt_of_le ho (numObstacles_withDraw_le ((w.cleared t).toEnd t last) left t .left)
  exact (obstacles_withDraw_of_lt _ right t .right hnum).trans hleft

/-- An obstacle that survives a recycle is not on the tile, and stays where it is. -/
theorem carried_recycled {w : World K} (hw : Kept w) {o : ObstacleId} (ho : w.Alive o) (left right : ObstacleDraw K)
    (t last : TileId) (ho' : (w.recycled left right t last).Alive o) :
    Carried ((w.recycled left right t last).groundTilesParent.location - w.groundTilesParent.location) w
      (w.recycled left right t last) o := by
  have hobstacle := obstacles_recycled_of_lt w left right t last ho.1
  have hnot : some o ∉ (w.tiles t).obstacles := by
    intro hmem
    have hkill := ho'.2
    rw [hobstacle, cleared_obstacle, if_pos hmem] at hkill
    cases hkill
  rw [obstacles_cleared_of_not_mem hnot] at hobstacle
  refine .of_still (congrArg GroundTilesParent.location (recycled_onlyTiles w left right t last).groundTilesParent)
    ⟨by rw [hobstacle], by rw [hobstacle]⟩ ?_
  intro s l hplace
  obtain ⟨s', l', hplace', _, _, hmem⟩ := hw.exists_place ho
  cases hplace'.symm.trans hplace
  have hs : s ≠ t := fun heq => hnot (heq ▸ hmem)
  rw [(recycled_onlyObstacles w left right t last).laneTransform, tiles_toEnd_of_ne w last hs]

/-- **An obstacle that survives a step moves as the ground parent does.** -/
theorem carried_step {w w' : World K} {e : Event K} {o : ObstacleId} (hpool : ∃ ids, Pool w ids) (hw : Kept w)
    (hs : (game K).Step w e w') (ho : w.Alive o) (ho' : w'.Alive o) :
    Carried (w'.groundTilesParent.location - w.groundTilesParent.location) w w' o := by
  have hstep : w.step e = .ok w' := hs.2
  by_cases hwrites : Part.road ∈ e.writes
  · cases e with
    | physics dt =>
      cases hstep
      exact carried_translateGround hpool hw ho _
    | translate d =>
      cases hstep
      exact carried_translateGround hpool hw ho d
    | spawnGroundTile spawned =>
      obtain ⟨c, _, rfl⟩ := step_spawnGroundTile hstep
      refine .of_still rfl ⟨rfl, rfl⟩ ?_
      intro t l hplace
      obtain ⟨s, k, hplace', _, hlt, _⟩ := hw.exists_place ho
      cases hplace'.symm.trans hplace
      rw [tiles_withTile_of_ne w c hlt.ne]
    | recycle t left right =>
      obtain ⟨_, _, last, _, rfl⟩ := recycleTile_eq_ok.mp hstep
      exact carried_recycled hw ho left right t last ho'
    | hit p other =>
      rcases onCollisionBoxOverlap_eq_ok.mp hstep with ⟨_, rfl⟩ | ⟨_, rfl⟩
      · exact .of_still rfl ⟨rfl, rfl⟩ fun _ _ _ => rfl
      · obtain ⟨_, _, _, _, hstruck⟩ := struck_frame w p
        rw [hstruck] at ho' ⊢
        have hobstacle := obstacles_destroy_of_ne w (alive_destroy ho').2
        exact .of_still rfl ⟨congrArg BaseObstacle.attachParent hobstacle, congrArg BaseObstacle.relative hobstacle⟩
          fun _ _ _ => rfl
    | collectGarbage =>
      cases hstep
      exact .of_still rfl ⟨rfl, rfl⟩ fun _ _ _ => rfl
    | _ => simp [Event.writes] at hwrites
  · have hroad : w'.roadPart = w.roadPart := view_step hs hwrites
    simp only [roadPart, RoadPart.mk.injEq] at hroad
    obtain ⟨_, _, hground, htiles, _, hobstacles, _⟩ := hroad
    refine .of_still hground ⟨by rw [hobstacles], by rw [hobstacles]⟩ ?_
    intro t l _
    rw [htiles]

/-- What lives after a step and was there before it lived before it. -/
theorem alive_of_step {w w' : World K} {e : Event K} {o : ObstacleId} (hs : (game K).Step w e w')
    (ho' : w'.Alive o) (ho : o < w.numObstacles) : w.Alive o := by
  refine ⟨ho, ?_⟩
  rcases obstacleStep_cases hs with ⟨_, hsame⟩ | ⟨_, v, p, hsame, rfl⟩ | ⟨_, rfl⟩ | ⟨d, _, rfl⟩ | ⟨_, c, _, _, rfl⟩ |
    ⟨t, left, right, last, _, _, _, rfl⟩
  · exact hsame.obstacles ▸ ho'.2
  · exact hsame.obstacles ▸ (alive_destroy ho').1.2
  · exact ho'.2
  · exact ho'.2
  · exact ho'.2
  · have hkill := ho'.2
    rw [obstacles_recycled_of_lt w left right t last ho] at hkill
    have hcleared : (w.cleared t).Alive o := ⟨ho, hkill⟩
    exact (alive_cleared hcleared).1.2

theorem numObstacles_le_step {w w' : World K} {e : Event K} (hs : (game K).Step w e w') :
    w.numObstacles ≤ w'.numObstacles := by
  rcases obstacleStep_cases hs with ⟨_, hsame⟩ | ⟨_, v, p, hsame, rfl⟩ | ⟨_, rfl⟩ | ⟨d, _, rfl⟩ | ⟨_, c, _, _, rfl⟩ |
    ⟨t, left, right, last, _, _, _, rfl⟩
  · exact hsame.numObstacles.ge
  · exact hsame.numObstacles.ge
  · exact le_rfl
  · exact le_rfl
  · exact le_rfl
  · have hleft := numObstacles_withDraw_le ((w.cleared t).toEnd t last) left t .left
    exact hleft.trans (numObstacles_withDraw_le _ right t .right)

theorem alive_of_run {w w' : World K} {es : List (Event K)} {o : ObstacleId} (hr : (game K).Run w es w')
    (ho' : w'.Alive o) (ho : o < w.numObstacles) : w.Alive o := by
  induction hr with
  | nil w => exact ho'
  | cons hs _ ih => exact alive_of_step hs (ih ho' (ho.trans_le (numObstacles_le_step hs))) ho

/-- **An obstacle moves as the ground does, as long as it lives**: after any run of the game, whatever the order of its
events and whichever tiles it recycles, an obstacle that was there and still lives has moved by what the ground parent
has. -/
theorem obstacles_move_with_ground [IsStrictOrderedRing K] {w w₀ v u : World K} {a : BeginPlayAnswers K}
    {es fs : List (Event K)} (init : w.Initial) (begun : w.beginPlay a = .ok w₀) (before : (game K).Run w₀ es v)
    (run : (game K).Run v fs u) (o : ObstacleId) (spawned : o < v.numObstacles) (alive : u.Alive o) :
    u.obstacleTransform o =
      (v.obstacleTransform o).translate (u.groundTilesParent.location - v.groundTilesParent.location) := by
  have hkept : Kept v := before.invariant (fun _ _ _ hs hw => hw.step hs) (init.kept begun)
  have hpool : ∃ ids, Pool v ids := init.pool begun before
  clear before
  induction run with
  | nil v => rw [sub_self, FTransform.translate_zero]
  | @cons v x u e fs hs hrest ih =>
    have hlater : o < x.numObstacles := spawned.trans_le (numObstacles_le_step hs)
    have hx : x.Alive o := alive_of_run hrest alive hlater
    have hv : v.Alive o := alive_of_step hs hx spawned
    obtain ⟨t, l, hplace, _⟩ := hkept.exists_place hv
    have hone := (carried_step hpool hkept hs hv hx).transform (by rw [hplace]; exact Option.some_ne_none _)
    rw [ih hlater alive (hkept.step hs) (Pool.exists_step hpool hs), hone, FTransform.translate_translate,
      sub_add_sub_cancel']

/-- The other obstacle of the tile is hit on the way. -/
theorem obstacles_move_with_ground_hit :
    ∃ u, (game ℚ).Run fullRoad [.translate ⟨-7, 0, 0⟩, .hit 0 .runner, .physics 1] u ∧
      u.obstacleTransform 1 = (fullRoad.obstacleTransform 1).translate
        (u.groundTilesParent.location - fullRoad.groundTilesParent.location) := by
  obtain ⟨u, hexec, hlive⟩ : ∃ u, (game ℚ).exec fullRoad [.translate ⟨-7, 0, 0⟩, .hit 0 .runner, .physics 1] =
      some u ∧ (u.numObstacles, (u.obstacles 1).pendingKill) = (2, false) :=
    Option.map_eq_some_iff.mp (by decide +kernel)
  obtain ⟨hnum, hkill⟩ := Prod.mk.inj hlive
  have hu := Machine.exec_eq_some.mp hexec
  exact ⟨u, hu, obstacles_move_with_ground (World.fresh_initial _ 1) beginPlay_fullRoad (.nil _) hu 1
    (by decide +kernel) ⟨hnum ▸ (by decide), hkill⟩⟩

end Ordered

end World

end EndlessRunner
