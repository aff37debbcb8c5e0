import EndlessRunner.Laws.Road

/-!
# The player's lanes and the obstacles' lanes

The player is moved to `LaneSwitchValues[i]`, and only the first three values are ever used: those that
`BeginPlay` writes as numbers. Obstacles follow the lane arrows of their tile. Rotation and scale of a tile's
root are for ever those of the spawn point it came from (`World.Oriented`), so the arrows can only be moved
across the road by moving the root. Hence the two agree in every reachable state exactly when the geometry is
the one the numbers were written for (`World.lanes_agree_iff`).
-/

set_option autoImplicit false

namespace EndlessRunner

open Lib (Machine)

variable {K : Type} [Field K]

/-! ## The geometry -/

/-- The spawn points of the first tile, the second and so on, when the first is `start`. -/
def TileClass.spawnPoint (c : TileClass K) (start : FTransform K) : ℕ → FTransform K
  | 0 => start
  | k + 1 => c.attachPoint * c.spawnPoint start k

/-- The lane values that `BeginPlay` writes. -/
def Lane.value : Lane → K
  | .left => -255
  | .center => 0
  | .right => 255

/-- A tile with its root at `root` has its lanes at the lane values, and its attach point straight ahead. -/
def TileClass.Aligned (c : TileClass K) (root : FTransform K) : Prop :=
  (∀ l : Lane, (c.lane l * root).translation.y = l.value) ∧
    (c.attachPoint * root).translation.y = root.translation.y

/-- Where every tile is aligned, they are all in line. -/
theorem TileClass.spawnPoint_y {c : TileClass K} {start : FTransform K}
    (h : ∀ k, c.Aligned (c.spawnPoint start k)) (k : ℕ) :
    (c.spawnPoint start k).translation.y = start.translation.y := by
  induction k with
  | zero => rfl
  | succ k ih => exact (h k).2.trans ih

/-- Unrotated, unscaled tiles without an offset across the road stay in line. -/
theorem TileClass.spawnPoint_ofOffsets {attach : FVector K} (left center right trigger start : FVector K)
    (hattach : attach.y = 0) (k : ℕ) :
    ∃ p, (TileClass.ofOffsets attach left center right trigger).spawnPoint (.ofOffset start) k = .ofOffset p ∧
      p.y = start.y := by
  induction k with
  | zero => exact ⟨start, rfl, rfl⟩
  | succ k ih =>
    obtain ⟨p, hp, hy⟩ := ih
    refine ⟨p + attach, ?_, ?_⟩
    · show FTransform.ofOffset attach * TileClass.spawnPoint _ _ k = _
      rw [hp, FTransform.ofOffset_mul_ofOffset]
    · rw [FVector.add_y, hattach, add_zero, hy]

/-- **For unrotated, unscaled tiles** the condition is on four offsets across the road. -/
theorem TileClass.aligned_ofOffsets_iff (attach left center right trigger start : FVector K) :
    (∀ k, (TileClass.ofOffsets attach left center right trigger).Aligned
      ((TileClass.ofOffsets attach left center right trigger).spawnPoint (.ofOffset start) k)) ↔
      attach.y = 0 ∧ left.y + start.y = -255 ∧ center.y + start.y = 0 ∧ right.y + start.y = 255 := by
  have hy : ∀ a p : FVector K, (FTransform.ofOffset a * FTransform.ofOffset p).translation.y = a.y + p.y := by
    intro a p
    rw [FTransform.mul_ofOffset_translation]
    rfl
  constructor
  · intro h
    obtain ⟨hlanes, hattach⟩ := h 0
    have hstart : attach.y + start.y = start.y := (hy attach start).symm.trans hattach
    exact ⟨add_eq_right.mp hstart, (hy left start).symm.trans (hlanes .left),
      (hy center start).symm.trans (hlanes .center), (hy right start).symm.trans (hlanes .right)⟩
  · intro h k
    obtain ⟨hattach, hleft, hcenter, hright⟩ := h
    obtain ⟨p, hp, hpy⟩ := TileClass.spawnPoint_ofOffsets left center right trigger start hattach k
    rw [hp]
    refine ⟨?_, ?_⟩
    · intro l
      cases l with
      | left => exact (hy left p).trans (hpy.symm ▸ hleft)
      | center => exact (hy center p).trans (hpy.symm ▸ hcenter)
      | right => exact (hy right p).trans (hpy.symm ▸ hright)
    · show (FTransform.ofOffset attach * FTransform.ofOffset p).translation.y = p.y
      rw [hy, hattach, zero_add]

/-- A tile of class `c` whose root has the rotation and scale of `root`. -/
structure GroundTile.Placed (c : TileClass K) (root : FTransform K) (t : GroundTile K) : Prop where
  tileClass : t.toTileClass = c
  rotation : t.sceneComponent.rotation = root.rotation
  scale3D : t.sceneComponent.scale3D = root.scale3D

namespace GroundTile.Placed

variable {c : TileClass K} {root : FTransform K} {t : GroundTile K}

theorem lane_y (h : t.Placed c root) (l : Lane) : (t.laneTransform l).translation.y =
    (c.lane l * root).translation.y - root.translation.y + t.location.y := by
  rw [laneTransform, h.tileClass, FTransform.mul_translation_of_same _ h.rotation h.scale3D]
  rfl

theorem attach_y (h : t.Placed c root) : t.attachTransform.translation.y =
    (c.attachPoint * root).translation.y - root.translation.y + t.location.y := by
  rw [attachTransform, h.tileClass, FTransform.mul_translation_of_same _ h.rotation h.scale3D]
  rfl

theorem moveBy (h : t.Placed c root) (d : FVector K) : (t.moveBy d).Placed c root := by
  unfold GroundTile.moveBy
  split
  · exact ⟨h.tileClass, h.rotation, h.scale3D⟩
  · exact h

theorem of_bare {u : GroundTile K} (h : t.Placed c root) (hbare : u.bare = t.bare) : u.Placed c root :=
  (GroundTile.congr_bare (f := fun t => t.Placed c root)
    (fun _ => propext ⟨fun h => ⟨h.1, h.2, h.3⟩, fun h => ⟨h.1, h.2, h.3⟩⟩) hbare).mpr h

end GroundTile.Placed

namespace World

/-- What Tick moves the player to and what the obstacles hang on agree, for each tile of the pool. -/
def LanesAgree (w : World K) : Prop :=
  ∀ t l, some t ∈ w.gameMode.groundTiles →
    TArray.get w.gameMode.laneSwitchValues l.index = .ok ((w.tiles t).laneTransform l).translation.y

/-- What every event keeps of the geometry: classes, rotations and scales, the stored spawn point, and the lane
values. -/
structure Oriented (c : TileClass K) (start : FTransform K) (w : World K) : Prop where
  pool : ∃ ids, Pool w ids
  groundTileClass : w.gameMode.groundTileClass = some c
  nextSpawnPoint : w.gameMode.nextSpawnPoint = c.spawnPoint start w.numTiles
  placed : ∀ t < w.numTiles, (w.tiles t).Placed c (c.spawnPoint start t)
  laneSwitchValues : ∃ rest, w.gameMode.laneSwitchValues = -255 :: 0 :: 255 :: rest
  alongX : AlongX w

/-- Each root is as far across the road as the spawn point it came from. -/
def Level (c : TileClass K) (start : FTransform K) (w : World K) : Prop :=
  ∀ t < w.numTiles, (w.tiles t).location.y = (c.spawnPoint start t).translation.y

variable {c : TileClass K} {start : FTransform K} {w w' : World K}

theorem Oriented.get_value (h : Oriented c start w) (l : Lane) :
    TArray.get w.gameMode.laneSwitchValues l.index = .ok l.value := by
  obtain ⟨rest, hrest⟩ := h.laneSwitchValues
  rw [hrest]
  cases l <;> rfl

/-- Where every tile is aligned and level, the lanes agree. -/
theorem Oriented.lanesAgree (h : Oriented c start w) (hlevel : Level c start w)
    (haligned : ∀ k, c.Aligned (c.spawnPoint start k)) : LanesAgree w := by
  intro t l ht
  have hlt := (Pool.mem_groundTiles h.pool).mp ht
  rw [h.get_value, (h.placed t hlt).lane_y, hlevel t hlt, sub_add_cancel, (haligned t).1]

/-- Where they agree on a tile, its lanes are at the lane values. -/
theorem Oriented.lane_y_of_lanesAgree (h : Oriented c start w) (hagree : LanesAgree w) {t : TileId}
    (ht : t < w.numTiles) (l : Lane) :
    (c.lane l * c.spawnPoint start t).translation.y - (c.spawnPoint start t).translation.y +
      (w.tiles t).location.y = l.value := by
  rw [← (h.placed t ht).lane_y]
  exact Except.ok.inj ((hagree t l ((Pool.mem_groundTiles h.pool).mpr ht)).symm.trans (h.get_value l))

/-! ## Steps -/

theorem Oriented.of_sameRoad (h : Oriented c start w) (hsame : SameRoad w w') : Oriented c start w' := by
  obtain ⟨ids, hids⟩ := h.pool
  refine ⟨⟨ids, (hids.of_sameRoad hsame).1⟩, hsame.groundTileClass.trans h.groundTileClass, ?_, ?_, ?_,
    hsame.alongX h.alongX⟩
  · rw [hsame.nextSpawnPoint, hsame.numTiles]
    exact h.nextSpawnPoint
  · rw [hsame.numTiles, hsame.tiles]
    exact h.placed
  · rw [hsame.laneSwitchValues]
    exact h.laneSwitchValues

theorem Oriented.of_onlyObstacles (h : Oriented c start w) (honly : OnlyObstacles w w') :
    Oriented c start w' := by
  obtain ⟨ids, hids⟩ := h.pool
  refine ⟨⟨ids, (hids.of_onlyObstacles honly).1⟩, ?_, ?_, ?_, ?_, ?_⟩
  · rw [honly.gameMode]
    exact h.groundTileClass
  · rw [honly.gameMode, honly.numTiles]
    exact h.nextSpawnPoint
  · intro t ht
    exact (h.placed t (honly.numTiles ▸ ht)).of_bare (honly.bare t)
  · rw [honly.gameMode]
    exact h.laneSwitchValues
  · rw [AlongX, honly.groundTilesParent]
    exact h.alongX

theorem Oriented.translateGround (h : Oriented c start w) (d : FVector K) :
    Oriented c start (w.translateGround d) := by
  obtain ⟨ids, hids⟩ := h.pool
  exact ⟨⟨ids, (hids.translateGround d).1⟩, h.groundTileClass, h.nextSpawnPoint,
    fun t ht => (h.placed t ht).moveBy d, h.laneSwitchValues, h.alongX⟩

theorem Oriented.toEnd (h : Oriented c start w) {t last : TileId} (ht : t < w.numTiles)
    (hlast : w.gameMode.groundTiles.getLast? = some (some last)) : Oriented c start (w.toEnd t last) := by
  obtain ⟨ids, hids⟩ := h.pool
  refine ⟨⟨_, (hids.toEnd ((hids.mem_iff t).mpr ht) (hids.getLast?.mp hlast)).1⟩, h.groundTileClass,
    h.nextSpawnPoint, ?_, h.laneSwitchValues, h.alongX⟩
  intro s hs
  by_cases hst : s = t
  · subst hst
    obtain ⟨hclass, hrotation, hscale⟩ := h.placed s hs
    rw [tiles_toEnd_self]
    exact ⟨hclass, hrotation, hscale⟩
  · rw [tiles_toEnd_of_ne w last hst]
    exact h.placed s hs

/-- A new tile is placed at its spawn point. -/
theorem Oriented.withTile (h : Oriented c start w) : Oriented c start (w.withTile c) := by
  obtain ⟨ids, hids⟩ := h.pool
  refine ⟨⟨_, (hids.withTile c).1⟩, h.groundTileClass, ?_, ?_, h.laneSwitchValues, h.alongX⟩
  · show c.attachPoint * w.gameMode.nextSpawnPoint = c.attachPoint * c.spawnPoint start w.numTiles
    rw [h.nextSpawnPoint]
  · intro t ht
    rcases Nat.lt_succ_iff_lt_or_eq.mp ht with hold | rfl
    · rw [tiles_withTile_of_ne w c hold.ne]
      exact h.placed t hold
    · rw [← h.nextSpawnPoint]
      rw [tiles_withTile_self]
      exact ⟨rfl, rfl, rfl⟩

theorem Level.withTile (h : Level c start w) (horiented : Oriented c start w) :
    Level c start (w.withTile c) := by
  intro t ht
  rcases Nat.lt_succ_iff_lt_or_eq.mp ht with hold | rfl
  · rw [tiles_withTile_of_ne w c hold.ne]
    exact h t hold
  · rw [location_withTile, horiented.nextSpawnPoint]

theorem Level.of_onlyObstacles (h : Level c start w) (honly : OnlyObstacles w w') : Level c start w' := by
  intro t ht
  rw [honly.location]
  exact h t (honly.numTiles ▸ ht)

/-- The road stays level when it moves along X. -/
theorem Level.translateGround (h : Level c start w) (horiented : Oriented c start w) {d : FVector K}
    (hd : d.y = 0) : Level c start (w.translateGround d) := by
  obtain ⟨ids, hids⟩ := horiented.pool
  intro t ht
  have hat := hids.attached t ((hids.mem_iff t).mpr ht)
  show ((w.tiles t).moveBy d).location.y = _
  rw [GroundTile.location_moveBy hat, FVector.add_y, hd, add_zero]
  exact h t ht

/-- Where every tile is aligned, a tile that goes to the end stays level. -/
theorem Level.toEnd (h : Level c start w) (horiented : Oriented c start w)
    (haligned : ∀ k, c.Aligned (c.spawnPoint start k)) {t last : TileId}
    (hlast : w.gameMode.groundTiles.getLast? = some (some last)) : Level c start (w.toEnd t last) := by
  intro s hs
  by_cases hst : s = t
  · subst hst
    have hlt : last < w.numTiles := (Pool.mem_groundTiles horiented.pool).mp (List.mem_of_getLast? hlast)
    rw [tiles_toEnd_self, GroundTile.location_setActorLocation, (horiented.placed last hlt).attach_y, h last hlt,
      sub_add_cancel, (haligned last).2, TileClass.spawnPoint_y haligned, TileClass.spawnPoint_y haligned]
  · rw [tiles_toEnd_of_ne w last hst]
    exact h s hs

section Ordered

variable [LinearOrder K]

theorem Oriented.step {e : Event K} (h : Oriented c start w) (hs : (game K).Step w e w') :
    Oriented c start w' := by
  rcases roadStep_cases hs with ⟨_, v, hsame, honly⟩ | ⟨d, _, rfl⟩ | ⟨spawned, c', _, hc', rfl⟩ |
    ⟨t, left, right, last, _, hmem, hlast, honly⟩
  · exact (h.of_sameRoad hsame).of_onlyObstacles honly
  · exact h.translateGround d
  · cases h.groundTileClass.symm.trans hc'
    exact h.withTile
  · exact (h.toEnd ((Pool.mem_groundTiles h.pool).mp hmem) hlast).of_onlyObstacles honly

theorem Oriented.run {es : List (Event K)} (h : Oriented c start w) (hr : (game K).Run w es w') :
    Oriented c start w' :=
  hr.invariant (fun _ _ _ hs hw => hw.step hs) h

/-- The ground parent is moved along X only. -/
def StraightOn (_ : World K) : Event K → Prop
  | .translate d => d.y = 0 ∧ d.z = 0
  | _ => True

/-- **Where every tile is aligned, every event but a sideways push keeps the road level.** -/
theorem Level.step {e : Event K} (h : Level c start w) (horiented : Oriented c start w)
    (haligned : ∀ k, c.Aligned (c.spawnPoint start k)) (hs : (game K).Step w e w') (he : StraightOn w e) :
    Level c start w' := by
  rcases roadStep_cases hs with ⟨_, v, hsame, honly⟩ | ⟨d, hd, rfl⟩ | ⟨spawned, c', _, hc', rfl⟩ |
    ⟨t, left, right, last, _, _, hlast, honly⟩
  · have hv : Level c start v := by
      intro t ht
      rw [hsame.tiles]
      exact h t (hsame.numTiles ▸ ht)
    exact hv.of_onlyObstacles honly
  · apply h.translateGround horiented
    rcases hd with rfl | ⟨dt, _, rfl⟩
    · exact he.1
    · rw [FVector.smul_y, horiented.alongX.1, zero_mul]
  · cases horiented.groundTileClass.symm.trans hc'
    exact h.withTile horiented
  · exact (h.toEnd horiented haligned hlast).of_onlyObstacles honly

/-! ## Runs that show a geometry at fault -/

/-- Any number of tiles can be spawned, and none of them leaves its spawn point. -/
theorem exists_run_spawn (n : ℕ) : ∀ {w : World K}, Oriented c start w → Level c start w →
    ∃ u, (game K).Run w (List.replicate n (.spawnGroundTile true)) u ∧ Oriented c start u ∧
      Level c start u ∧ n ≤ u.numTiles := by
  induction n with
  | zero =>
    intro w h hlevel
    exact ⟨w, .nil w, h, hlevel, Nat.zero_le _⟩
  | succ n ih =>
    intro w h hlevel
    obtain ⟨u, hu, horiented, hlevel', hn⟩ := ih h hlevel
    refine ⟨u.withTile c, ?_, horiented.withTile, hlevel'.withTile horiented, Nat.succ_le_succ hn⟩
    rw [List.replicate_succ']
    apply hu.snoc
    refine ⟨trivial, ?_⟩
    show u.step (.spawnGroundTile true) = _
    simp only [World.step, spawnGroundTile_eq, horiented.groundTileClass]
    rfl

/-- A tile of the pool can be recycled, with nothing put on it. -/
theorem Oriented.exists_recycle (h : Oriented c start w) {t : TileId} (ht : t < w.numTiles) :
    ∃ last v, w.gameMode.groundTiles.getLast? = some (some last) ∧
      (game K).Step w (.recycle t ⟨0, true⟩ ⟨0, true⟩) v ∧ OnlyObstacles (w.toEnd t last) v := by
  have hmem := (Pool.mem_groundTiles h.pool).mpr ht
  obtain ⟨last, hlast⟩ : ∃ last, w.gameMode.groundTiles.getLast? = some (some last) := by
    obtain ⟨ids, hids⟩ := h.pool
    have hne : ids ≠ [] := List.ne_nil_of_mem ((hids.mem_iff t).mpr ht)
    exact ⟨ids.getLast hne, hids.getLast?.mpr (List.getLast?_eq_some_getLast hne)⟩
  refine ⟨last, w.recycled ⟨0, true⟩ ⟨0, true⟩ t last, hlast, ⟨hmem, ?_⟩,
    recycled_onlyObstacles w _ _ t last⟩
  exact recycleTile_eq_ok.mpr ⟨fun _ => rfl, fun _ => rfl, last, hlast, rfl⟩

/-- **A tile that is recycled twice goes on by its own length**, so where the lanes agree before and after,
its attach point is straight ahead. -/
theorem Oriented.attach_y_of_agree (h : Oriented c start w) {t : TileId} (ht : t < w.numTiles)
    (hagree : ∀ es u, (game K).Run w es u → (∀ e ∈ es, ∀ v : World K, StraightOn v e) → LanesAgree u) :
    (c.attachPoint * c.spawnPoint start t).translation.y = (c.spawnPoint start t).translation.y := by
  obtain ⟨last, v, hlast, hv, honly⟩ := h.exists_recycle ht
  have horiented := h.step hv
  have htv : t < v.numTiles := honly.numTiles ▸ ht
  have hend : v.gameMode.groundTiles.getLast? = some (some t) := by
    rw [honly.gameMode]
    exact List.getLast?_concat
  obtain ⟨last', u, hlast', hu, honly'⟩ := horiented.exists_recycle htv
  cases hend.symm.trans hlast'
  have horiented' := horiented.step hu
  have htu : t < u.numTiles := honly'.numTiles ▸ htv
  have hsecond : (u.tiles t).location.y = (v.tiles t).attachTransform.translation.y := by
    rw [honly'.location, tiles_toEnd_self, GroundTile.location_setActorLocation]
  have hfirst := horiented.lane_y_of_lanesAgree (hagree _ v (Machine.run_singleton.mpr hv) (by simp [StraightOn]))
    htv .center
  have hthen := horiented'.lane_y_of_lanesAgree
    (hagree _ u (.cons hv (Machine.run_singleton.mpr hu)) (by simp [StraightOn])) htu .center
  rw [hsecond, (horiented.placed t htv).attach_y] at hthen
  have hsum := add_left_cancel (hthen.trans hfirst.symm)
  exact sub_eq_zero.mp (add_eq_right.mp hsum)

/-! ## From `BeginPlay` -/

variable [IsStrictOrderedRing K]

theorem Initial.oriented {w₀ : World K} {a : BeginPlayAnswers K} (init : w.Initial)
    (hc : w.gameMode.groundTileClass = some c) (begun : w.beginPlay a = .ok w₀) :
    Oriented c w.gameMode.nextSpawnPoint w₀ ∧ Level c w.gameMode.nextSpawnPoint w₀ := by
  apply beginPlay_induction (I := fun u => Oriented c w.gameMode.nextSpawnPoint u ∧
    Level c w.gameMode.nextSpawnPoint u) begun hc
  · have hnone : (w.prepared a.player).numTiles = 0 := init.numTiles
    have hprepared : Oriented c w.gameMode.nextSpawnPoint (w.prepared a.player) := by
      refine ⟨⟨[], init.pool_prepared a.player⟩, hc, ?_, ?_, ⟨[], ?_⟩, ⟨rfl, rfl⟩⟩
      · rw [hnone]
        rfl
      · intro t ht
        exact absurd (hnone ▸ ht) (Nat.not_lt_zero t)
      · show w.gameMode.laneSwitchValues ++ [-255, 0, 255] = _
        rw [init.laneSwitchValues, List.nil_append]
    have hlevel : Level c w.gameMode.nextSpawnPoint (w.prepared a.player) := by
      intro t ht
      exact absurd (hnone ▸ ht) (Nat.not_lt_zero t)
    obtain ⟨⟨ids, h₁, h₂, h₃, h₄⟩, hclass, hpoint, hplaced, ⟨rest, hrest⟩, halong⟩ := hprepared.withTile
    refine ⟨⟨⟨ids, h₁, h₂, h₃, h₄⟩, hclass, hpoint, hplaced, ?_, halong⟩, hlevel.withTile hprepared⟩
    exact ⟨_, (congrArg (· ++ _) hrest).trans (List.cons_append ..)⟩
  · intro u d hu
    have honly := withRound_onlyObstacles u c d
    exact ⟨hu.1.withTile.of_onlyObstacles honly, (hu.2.withTile hu.1).of_onlyObstacles honly⟩

/-- **The player's lanes are the obstacles' lanes, in every state that the game reaches from `BeginPlay`,
exactly when every spawn point aligns the tile that it gets.** -/
theorem lanes_agree_iff {w₀ : World K} {a : BeginPlayAnswers K} (init : w.Initial)
    (hc : w.gameMode.groundTileClass = some c) (begun : w.beginPlay a = .ok w₀) :
    (∀ es u, ((game K).restrict StraightOn).Run w₀ es u → LanesAgree u) ↔
      ∀ k, c.Aligned (c.spawnPoint w.gameMode.nextSpawnPoint k) := by
  obtain ⟨horiented, hlevel⟩ := init.oriented hc begun
  constructor
  · intro hagree k
    have hall : ∀ es u, (game K).Run w₀ es u → (∀ e ∈ es, ∀ v : World K, StraightOn v e) → LanesAgree u :=
      fun es u hu he => hagree es u (hu.restrict_of_forall fun v e hmem => he e hmem v)
    obtain ⟨u, hu, horiented', hlevel', hk⟩ := exists_run_spawn (k + 1) horiented hlevel
    have hspawns : ∀ e ∈ List.replicate (k + 1) (.spawnGroundTile true : Event K),
        ∀ v : World K, StraightOn v e := by
      intro e he v
      rw [(List.mem_replicate.mp he).2]
      trivial
    refine ⟨fun l => ?_, ?_⟩
    · have hlane := horiented'.lane_y_of_lanesAgree (hall _ u hu hspawns) hk l
      rwa [hlevel' k hk, sub_add_cancel] at hlane
    · apply horiented'.attach_y_of_agree hk
      intro es v hv hes
      apply hall _ v (hu.append hv)
      intro e he x
      rcases List.mem_append.mp he with hmem | hmem
      · exact hspawns e hmem x
      · exact hes e hmem x
  · intro haligned es u hrun
    have hu := hrun.invariant (I := fun v => Oriented c w.gameMode.nextSpawnPoint v ∧
      Level c w.gameMode.nextSpawnPoint v) ?_ ⟨horiented, hlevel⟩
    · exact hu.1.lanesAgree hu.2 haligned
    · intro x e y hs hx
      obtain ⟨hstep, he⟩ := Machine.restrict_step.mp hs
      exact ⟨hx.1.step hstep, hx.2.step hx.1 haligned hstep he⟩

/-- Tiles whose lanes are at the values `BeginPlay` writes. -/
def wideTiles : World ℚ := started (.ofOffsets ⟨400, 0, 0⟩ ⟨0, -255, 0⟩ 0 ⟨0, 255, 0⟩ 0) 2 (some ()) .full

theorem lanes_agree_iff_wideTiles :
    ∃ u, ((game ℚ).restrict StraightOn).Run wideTiles
        [.groundTick, .physics 1, .recycle 1 ⟨1, true⟩ ⟨1, true⟩, .recycle 0 ⟨0, true⟩ ⟨1, true⟩] u ∧
      LanesAgree u := by
  obtain ⟨u, hu⟩ := Machine.exists_run_of_exec (M := game ℚ) wideTiles
    [.groundTick, .physics 1, .recycle 1 ⟨1, true⟩ ⟨1, true⟩, .recycle 0 ⟨0, true⟩ ⟨1, true⟩] (by decide +kernel)
  have hstraight := hu.restrict_of_forall (P := StraightOn) (by simp [StraightOn])
  exact ⟨u, hstraight, (lanes_agree_iff (World.fresh_initial _ 2) rfl
    (beginPlay_fresh (.ofOffsets ⟨400, 0, 0⟩ ⟨0, -255, 0⟩ 0 ⟨0, 255, 0⟩ 0) 2 (some ()) TileDraw.safe_full)).mpr
    ((TileClass.aligned_ofOffsets_iff _ _ _ _ _ 0).mpr (by simp)) _ u hstraight⟩

/-- On tiles with narrower lanes the player is moved beside the obstacles. -/
theorem not_lanes_agree :
    ¬ ∀ (w w₀ : World ℚ) (c : TileClass ℚ) (a : BeginPlayAnswers ℚ), w.Initial →
      w.gameMode.groundTileClass = some c → w.beginPlay a = .ok w₀ →
      ∀ es u, ((game ℚ).restrict StraightOn).Run w₀ es u → LanesAgree u := by
  intro h
  have hagree := h _ _ _ _ (World.fresh_initial _ 2) rfl
    (beginPlay_fresh (.ofOffsets ⟨400, 0, 0⟩ ⟨0, -100, 0⟩ 0 ⟨0, 100, 0⟩ 0) 2 (some ()) TileDraw.safe_full)
    [] _ (.nil _)
  exact absurd (hagree 0 .left (by decide +kernel)) (by decide +kernel)

end Ordered

end World

end EndlessRunner
