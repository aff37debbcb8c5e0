import EndlessRunner.Laws.Road

/-!
# Recycling

`RecycleTile` reads the end of the road before it takes the tile out of the list, and gives the tile the location of
that end and nothing else of its transform. So it appends a tile that is last already to itself
(`World.appends_iff`), and it agrees with `SpawnGroundTile`, which hands over the whole transform, where the tile's
rotation and scale are those of the end (`World.recycling_agrees_iff`).
-/

set_option autoImplicit false

namespace EndlessRunner

open Lib (Machine)

variable {K : Type} [Field K]

namespace World

/-! ## Which tile is recycled -/

/-- Tile `t` was appended: the list has the same tiles, each once, `t` last and the others in their order; these have
not moved, and `t` has its root at the attach point of the tile that now stands before it. -/
structure Appended (w w' : World K) (t : TileId) : Prop where
  perm : w'.gameMode.groundTiles.Perm w.gameMode.groundTiles
  nodup : w'.gameMode.groundTiles.Nodup
  order : w'.gameMode.groundTiles.filter (· ≠ some t) = w.gameMode.groundTiles.filter (· ≠ some t)
  unmoved : ∀ s, some s ∈ w.gameMode.groundTiles → s ≠ t → (w'.tiles s).sceneComponent = (w.tiles s).sceneComponent
  placed : ∃ front s, w'.gameMode.groundTiles = front ++ [some s, some t] ∧
    (w'.tiles t).location = (w'.tiles s).attachTransform.translation

/-- When the tile is the last of the list, its attach point is where that of the tile before it is. -/
def EndsAlike (w : World K) (t : TileId) : Prop :=
  ∀ front s, w.gameMode.groundTiles = front ++ [some s, some t] →
    (w.tiles t).attachTransform.translation = (w.tiles s).attachTransform.translation

/-- The tile that goes to the end is laid at the attach point of the tile that was last. -/
theorem location_toEnd (w : World K) (t last : TileId) :
    ((w.toEnd t last).tiles t).location = (w.tiles last).attachTransform.translation := by
  rw [tiles_toEnd_self, GroundTile.location_setActorLocation]

/-- The two last entries of a list of tiles. -/
theorem eq_of_last_two {front : List TileId} {front' : List (Option TileId)} {s s' t : TileId}
    (h : front' ++ [some s', some t] = (front ++ [s, t]).map some) : s' = s := by
  rw [List.map_append] at h
  have hlast := (List.append_inj' h rfl).2
  exact Option.some.inj (List.cons.inj hlast).1

variable [LinearOrder K]

/-- Everything but the place of the tile is as it should be, whichever tile is recycled. -/
theorem appended_iff {w : World K} {ids front : List TileId} {s t last : TileId} (left right : ObstacleDraw K)
    (htiles : w.gameMode.groundTiles = ids.map some) (hnodup : ids.Nodup) (ht : t ∈ ids)
    (hbefore : ids.filter (· ≠ t) = front ++ [s]) :
    Appended w (w.recycled left right t last) t ↔
      (w.tiles last).attachTransform.translation = (w.tiles s).attachTransform.translation := by
  have honly := recycled_onlyObstacles w left right t last
  have hground : (w.recycled left right t last).gameMode.groundTiles = (front ++ [s, t]).map some := by
    rw [honly.gameMode, groundTiles_toEnd htiles, hbefore, List.append_assoc, List.singleton_append]
  have hplace : ((w.recycled left right t last).tiles t).location =
      (w.tiles last).attachTransform.translation :=
    (honly.location t).trans (location_toEnd w t last)
  have hs : s ≠ t := by
    have hmem : s ∈ ids.filter (· ≠ t) := by
      rw [hbefore]
      exact List.mem_append_right _ (List.mem_singleton.mpr rfl)
    exact of_decide_eq_true (List.mem_filter.mp hmem).2
  have hstay : ((w.recycled left right t last).tiles s).attachTransform = (w.tiles s).attachTransform := by
    rw [honly.attachTransform, tiles_toEnd_of_ne w last hs]
  constructor
  · rintro ⟨_, _, _, _, front', s', hsplit, hjoined⟩
    cases eq_of_last_two (hsplit.symm.trans hground)
    rw [← hplace, hjoined, hstay]
  · intro halike
    have hperm : (front ++ [s, t]).Perm ids := by
      rw [← List.singleton_append, ← List.append_assoc, ← hbefore]
      exact filter_ne_append_perm hnodup ht
    refine ⟨?_, ?_, ?_, ?_, front.map some, s, ?_, ?_⟩
    · rw [hground, htiles]
      exact hperm.map some
    · rw [hground]
      exact (hperm.nodup_iff.mpr hnodup).map (Option.some_injective _)
    · rw [honly.gameMode]
      show (TArray.remove w.gameMode.groundTiles (some t) ++ [some t]).filter _ = _
      simp [TArray.remove]
    · intro r _ hr
      rw [honly.sceneComponent, tiles_toEnd_of_ne w last hr]
    · rw [hground, List.map_append]
      rfl
    · rw [hplace, hstay]
      exact halike

/-- **`RecycleTile` appends the tile it is given exactly when it is not the last one**, or ends where the tile before
it ends. -/
theorem appends_iff {w w' : World K} {ids : List TileId} {t : TileId} {left right : ObstacleDraw K}
    (tiles : w.gameMode.groundTiles = ids.map some) (distinct : ids.Nodup) (two : 2 ≤ ids.length) (mem : t ∈ ids)
    (recycled : w.recycleTile left right (some t) = .ok w') : Appended w w' t ↔ EndsAlike w t := by
  obtain ⟨_, _, last, hlast, rfl⟩ := recycleTile_eq_ok.mp recycled
  have hend : ids.getLast? = some last := by
    rw [tiles, List.getLast?_map] at hlast
    obtain ⟨_, hlast', heq⟩ := Option.map_eq_some_iff.mp hlast
    cases heq
    exact hlast'
  obtain ⟨init, rfl⟩ := List.getLast?_eq_some_iff.mp hend
  by_cases htl : t = last
  · -- the tile is last already: the one before it is the last of the rest
    subst htl
    have hne : init ≠ [] := by
      rintro rfl
      simp at two
    obtain ⟨front, s, rfl⟩ := (List.eq_nil_or_concat init).resolve_left hne
    rw [List.concat_eq_append] at tiles distinct mem
    have hbefore : (front ++ [s] ++ [t]).filter (· ≠ t) = front ++ [s] := by
      have hkeep : ∀ r ∈ front ++ [s], r ≠ t := fun r hr =>
        (List.nodup_append.mp distinct).2.2 r hr t (List.mem_singleton.mpr rfl)
      rw [List.filter_append, List.filter_eq_self.mpr fun r hr => decide_eq_true (hkeep r hr)]
      simp
    have htwo : w.gameMode.groundTiles = (front ++ [s, t]).map some := by
      rw [tiles, List.append_assoc, List.singleton_append]
    rw [appended_iff left right tiles distinct mem hbefore]
    constructor
    · intro halike front' s' hsplit
      cases eq_of_last_two (hsplit.symm.trans htwo)
      exact halike
    · exact fun h => h (front.map some) s (by rw [htwo, List.map_append]; rfl)
  · -- the tile that was last stands before it
    have hbefore : (init ++ [last]).filter (· ≠ t) = init.filter (· ≠ t) ++ [last] := by
      rw [List.filter_append, List.filter_singleton, decide_eq_true (Ne.symm htl)]
      rfl
    rw [appended_iff left right tiles distinct mem hbefore]
    refine iff_of_true rfl fun front' s' hsplit => ?_
    rw [hsplit, List.getLast?_append] at hlast
    cases hlast
    exact absurd rfl htl

/-! ## Recycling and spawning -/

/-- The root of tile `t` has the rotation and scale of the attach point of tile `last`. -/
def FitsEnd (w : World K) (t last : TileId) : Prop :=
  (∀ v, FQuat.rotateVector (w.tiles t).sceneComponent.rotation v =
      FQuat.rotateVector (w.tiles last).attachTransform.rotation v) ∧
    (w.tiles t).sceneComponent.scale3D = (w.tiles last).attachTransform.scale3D

/-- The world with another spawn point. -/
def withSpawnPoint (w : World K) (point : FTransform K) : World K := { w with gameMode.nextSpawnPoint := point }

omit [LinearOrder K] in
/-- The tile that goes to the end has the location of the end, and keeps its rotation and scale. -/
theorem same_toEnd_iff (w : World K) (t last : TileId) :
    ((w.toEnd t last).tiles t).sceneComponent.Same (w.tiles last).attachTransform ↔ FitsEnd w t last := by
  rw [tiles_toEnd_self]
  constructor
  · exact fun h => ⟨h.rotation, h.scale3D⟩
  · exact fun h => ⟨h.1, rfl, h.2⟩

omit [LinearOrder K] in
/-- `SpawnGroundTile` places the tile at the spawn point. -/
theorem spawned_sceneComponent {w u : World K} {point : FTransform K} {n : TileId}
    (h : (w.withSpawnPoint point).spawnGroundTile true = .ok (u, some n)) : (u.tiles n).sceneComponent = point := by
  rw [spawnGroundTile_eq, withSpawnPoint] at h
  rcases hc : w.gameMode.groundTileClass with _ | c
  · rw [hc] at h
    cases h
  · rw [hc] at h
    cases h
    rw [tiles_withTile_self]

/-- Tile `t` is placed as `SpawnGroundTile` places a tile at the attach point of `s`. -/
def SpawnedAfter (w : World K) (s t : TileId) : Prop := (w.tiles t).sceneComponent.Same (w.tiles s).attachTransform

/-- The road has the shape of one whose tiles were all spawned: each tile of the pool but the first is placed as
`SpawnGroundTile` places a tile at the attach point of the one before it. -/
def AsSpawned (w : World K) : Prop :=
  ∀ i s t, w.gameMode.groundTiles[i]? = some (some s) → w.gameMode.groundTiles[i + 1]? = some (some t) →
    SpawnedAfter w s t

/-- A tile is recycled when it is the first of several, and none is spawned. -/
def RecyclesHead (w : World K) : Event K → Prop
  | .recycle t _ _ => ∃ rest, rest ≠ [] ∧ w.gameMode.groundTiles = some t :: rest
  | .spawnGroundTile _ => False
  | _ => True

/-- A recycled tile has the rotation and scale of the end of the road. -/
def RecycleFits (w : World K) : Event K → Prop
  | .recycle t _ _ => ∀ last, w.gameMode.groundTiles.getLast? = some (some last) → FitsEnd w t last
  | _ => True

end World

/-- The game in which the tiles are recycled from the head of the road. -/
def headGame (K : Type) [Field K] [LinearOrder K] : Machine (World K) (Event K) Fault :=
  (game K).restrict World.RecyclesHead

namespace World

theorem AsSpawned.congr {w w' : World K} (hground : w'.gameMode.groundTiles = w.gameMode.groundTiles)
    (hbare : ∀ s, (w'.tiles s).bare = (w.tiles s).bare) : AsSpawned w' ↔ AsSpawned w := by
  have hscene : ∀ s, (w'.tiles s).sceneComponent = (w.tiles s).sceneComponent := fun s =>
    GroundTile.congr_bare (f := fun t => t.sceneComponent) (fun _ => rfl) (hbare s)
  have hattach : ∀ s, (w'.tiles s).attachTransform = (w.tiles s).attachTransform := fun s =>
    GroundTile.congr_bare (f := GroundTile.attachTransform) (fun _ => rfl) (hbare s)
  simp only [AsSpawned, SpawnedAfter, hground, hscene, hattach]

/-- The road keeps its shape when it moves. -/
theorem AsSpawned.translateGround {w : World K} {ids : List TileId} (h : AsSpawned w) (hpool : Pool w ids)
    (d : FVector K) : AsSpawned (w.translateGround d) := by
  intro i s t hs ht
  have hattached : ∀ {i s}, w.gameMode.groundTiles[i]? = some (some s) → (w.tiles s).attached = true := fun hs =>
    hpool.attached _ (hpool.some_mem.mp (List.mem_of_getElem? hs))
  have hold := (h i s t hs ht).translate d
  show ((w.tiles t).moveBy d).sceneComponent.Same ((w.tiles s).moveBy d).attachTransform
  rw [GroundTile.attachTransform_moveBy (hattached hs), GroundTile.moveBy_of_attached (hattached ht)]
  exact hold

/-- The head of the road goes to its end: the road keeps its shape exactly when the tile fits there. -/
theorem AsSpawned.toEnd {w : World K} {rest : List TileId} {t last : TileId} (h : AsSpawned w)
    (hpool : Pool w (t :: rest)) (hlast : rest.getLast? = some last) :
    AsSpawned (w.toEnd t last) ↔ FitsEnd w t last := by
  obtain ⟨hnotin, _⟩ := List.nodup_cons.mp hpool.nodup
  have hne : ∀ s ∈ rest, s ≠ t := fun s hs heq => hnotin (heq ▸ hs)
  have hend : (t :: rest).getLast? = some last := by
    rw [List.getLast?_cons, hlast]
    rfl
  have hpool' := (hpool.toEnd List.mem_cons_self hend).1
  have hfilter : (t :: rest).filter (· ≠ t) = rest := by
    rw [List.filter_cons_of_neg (by simp), List.filter_eq_self]
    exact fun s hs => decide_eq_true (hne s hs)
  rw [hfilter] at hpool'
  have hchain := ((hpool.isChain_iff w.SpawnedAfter).mpr h).tail
  rw [List.tail_cons] at hchain
  have hkeep : rest.IsChain (w.toEnd t last).SpawnedAfter := by
    refine hchain.imp_of_mem_imp fun x y hx hy hxy => ?_
    rw [SpawnedAfter, tiles_toEnd_of_ne w last (hne x hx), tiles_toEnd_of_ne w last (hne y hy)]
    exact hxy
  have hjoin : (w.toEnd t last).SpawnedAfter last t ↔ FitsEnd w t last := by
    rw [SpawnedAfter, tiles_toEnd_of_ne w last (hne last (List.mem_of_getLast? hlast))]
    exact same_toEnd_iff w t last
  rw [AsSpawned, ← hpool'.isChain_iff, List.isChain_append, ← hjoin]
  constructor
  · exact fun hall => hall.2.2 last hlast t rfl
  · intro hfits
    refine ⟨hkeep, List.isChain_singleton t, fun x hx y hy => ?_⟩
    cases hlast.symm.trans hx
    cases hy
    exact hfits

variable [LinearOrder K]

/-- **A step keeps the shape of the road exactly when the tile it recycles fits.** -/
theorem AsSpawned.step {w w' : World K} {e : Event K} (h : AsSpawned w) (hpool : ∃ ids, Pool w ids)
    (hs : (headGame K).Step w e w') : AsSpawned w' ↔ RecycleFits w e := by
  obtain ⟨hgame, hhead⟩ := Machine.restrict_step.mp hs
  obtain ⟨ids, hids⟩ := hpool
  rcases roadStep_cases hgame with ⟨hmoves, v, hsame, honly⟩ | ⟨d, he, rfl⟩ | ⟨spawned, c, rfl, _⟩ |
    ⟨t, left, right, last, rfl, _, hlast, honly⟩
  · have hfits : RecycleFits w e := by
      cases e with
      | recycle t left right => exact absurd trivial hmoves
      | _ => trivial
    refine iff_of_true ((AsSpawned.congr ?_ fun s => ?_).mpr h) hfits
    · rw [honly.gameMode, hsame.groundTiles]
    · rw [honly.bare, hsame.tiles]
  · refine iff_of_true (h.translateGround hids d) ?_
    rcases he with rfl | ⟨dt, rfl, _⟩ <;> trivial
  · exact hhead.elim
  · obtain ⟨tail, hne, hsplit⟩ := hhead
    obtain ⟨t', rest, rfl, ht', rfl⟩ := List.map_eq_cons_iff.mp (hids.groundTiles.symm.trans hsplit)
    cases ht'
    have hlast' : rest.getLast? = some last := by
      obtain ⟨r, hr⟩ : ∃ r, rest.getLast? = some r :=
        Option.isSome_iff_exists.mp (by rw [List.getLast?_isSome]; exact fun h => hne (h ▸ rfl))
      have hend := hids.getLast?.mp hlast
      rw [List.getLast?_cons, hr] at hend
      rw [hr]
      exact hend
    have hfits : RecycleFits w (.recycle t left right) ↔ FitsEnd w t last := by
      refine ⟨fun hall => hall last hlast, fun hone last' hother => ?_⟩
      cases hlast.symm.trans hother
      exact hone
    rw [hfits, AsSpawned.congr (congrArg GameMode.groundTiles honly.gameMode) honly.bare]
    exact h.toEnd hids hlast'

omit [LinearOrder K] in
/-- A tile that is spawned at the end of the road is placed after it. -/
theorem AsSpawned.withTile {w : World K} {ids : List TileId} (h : AsSpawned w) (hpool : Pool w ids)
    (hfollows : SpawnPointFollows w) (c : TileClass K) : AsSpawned (w.withTile c) := by
  have hpool' := (hpool.withTile c).1
  have hold : ∀ t ∈ ids, (w.withTile c).tiles t = w.tiles t := fun t ht =>
    tiles_withTile_of_ne w c ((hpool.mem_iff t).mp ht).ne
  obtain ⟨last, hlast, hpoint⟩ := hfollows
  rw [AsSpawned, ← hpool'.isChain_iff, List.isChain_append]
  refine ⟨?_, List.isChain_singleton _, fun x hx y hy => ?_⟩
  · refine ((hpool.isChain_iff w.SpawnedAfter).mpr h).imp_of_mem_imp fun x y hx hy hxy => ?_
    rw [SpawnedAfter, hold x hx, hold y hy]
    exact hxy
  · cases (hpool.getLast?.mp hlast).symm.trans hx
    cases hy
    rw [SpawnedAfter, hold last (hpool.some_mem.mp (List.mem_of_getLast? hlast)), ← hpoint, tiles_withTile_self]
    exact .refl _

/-- **`BeginPlay` spawns every tile of its road.** -/
theorem Initial.asSpawned [IsStrictOrderedRing K] {w w₀ : World K} {a : BeginPlayAnswers K} (init : w.Initial)
    (begun : w.beginPlay a = .ok w₀) : AsSpawned w₀ := by
  obtain ⟨c, hc⟩ := beginPlay_class begun
  have hall : (∃ ids, Pool w₀ ids) ∧ SpawnPointFollows w₀ ∧ AsSpawned w₀ := by
    apply beginPlay_induction (I := fun u => (∃ ids, Pool u ids) ∧ SpawnPointFollows u ∧ AsSpawned u) begun hc
    · -- one tile
      obtain ⟨⟨hground, hnodup, hmem, hattached⟩, _⟩ := (init.pool_prepared a.player).withTile c
      have hpool : Pool (w.opened a.player c) _ := ⟨hground, hnodup, hmem, hattached⟩
      obtain ⟨last, hlast, hpoint⟩ := spawnPointFollows_withTile (w.prepared a.player) c
      exact ⟨⟨_, hpool⟩, ⟨last, hlast, hpoint⟩, (hpool.isChain_iff _).mp (List.isChain_singleton _)⟩
    · rintro u d ⟨⟨ids, hids⟩, hfollows, hu⟩
      have honly := withRound_onlyObstacles u c d
      refine ⟨⟨_, ((hids.withTile c).1.of_onlyObstacles honly).1⟩,
        (SpawnPointFollows.of_onlyObstacles honly).mpr (spawnPointFollows_withTile u c), ?_⟩
      exact (AsSpawned.congr (congrArg GameMode.groundTiles honly.gameMode) honly.bare).mpr
        (hu.withTile hids hfollows c)
  exact hall.2.2

/-- **Recycling agrees with spawning exactly where the recycled tile has the rotation and scale of the end of the
road.** For one tile: it is then placed as a tile that `SpawnGroundTile` spawns at the last attach point. For a run in
which tiles are recycled from the head of the road: it is then always shaped like a road whose tiles were all
spawned. -/
theorem recycling_agrees_iff [IsStrictOrderedRing K] :
    (∀ {w w' u : World K} {t last n : TileId} {left right : ObstacleDraw K},
      w.gameMode.groundTiles.getLast? = some (some last) →
      w.recycleTile left right (some t) = .ok w' →
      (w.withSpawnPoint (w.tiles last).attachTransform).spawnGroundTile true = .ok (u, some n) →
      ((w'.tiles t).sceneComponent.Same (u.tiles n).sceneComponent ↔ FitsEnd w t last)) ∧
    ∀ {w w₀ v : World K} {a : BeginPlayAnswers K} {es : List (Event K)}, w.Initial → w.beginPlay a = .ok w₀ →
      (headGame K).Run w₀ es v →
      ((headGame K).Throughout AsSpawned w₀ es ↔ (headGame K).Along RecycleFits w₀ es) := by
  constructor
  · intro w w' u t last n left right hlast hrecycled hspawned
    obtain ⟨_, _, last', hlast', rfl⟩ := recycleTile_eq_ok.mp hrecycled
    cases hlast.symm.trans hlast'
    rw [spawned_sceneComponent hspawned, (recycled_onlyObstacles w left right t last).sceneComponent]
    exact same_toEnd_iff w t last
  · intro w w₀ v a es init begun run
    exact run.throughout_iff (J := fun u => ∃ ids, Pool u ids)
      (fun _ _ _ hs hu => Pool.exists_step hu (Machine.restrict_step.mp hs).1)
      (fun _ _ _ hs hpool hu => hu.step hpool hs) (init.laid begun).1.pool (init.asSpawned begun)

/-- Three tiles, one of which is recycled without obstacles. -/
theorem recycle_threeTiles (t : TileId) :
    threeTiles.recycleTile ⟨0, true⟩ ⟨0, true⟩ (some t) =
      .ok (threeTiles.recycled ⟨0, true⟩ ⟨0, true⟩ t 2) := by
  refine recycleTile_eq_ok.mpr ⟨by decide +kernel, by decide +kernel, 2, ?_, rfl⟩
  rw [threeTiles_groundTiles]
  rfl

theorem appends_second : Appended threeTiles (threeTiles.recycled ⟨0, true⟩ ⟨0, true⟩ 1 2) 1 := by
  have hids : threeTiles.gameMode.groundTiles = [0, 1, 2].map some := threeTiles_groundTiles
  refine (appends_iff hids (by decide) (by decide) (by decide) (recycle_threeTiles 1)).mpr ?_
  intro front s hsplit
  have hlast := congrArg List.getLast? hsplit
  rw [threeTiles_groundTiles, List.getLast?_append] at hlast
  cases hlast

/-- The last tile is recycled, and laid at its own attach point. -/
theorem not_appends :
    ¬ ∀ (w w' : World ℚ) (ids : List TileId) (t : TileId) (left right : ObstacleDraw ℚ),
      w.gameMode.groundTiles = ids.map some → ids.Nodup → 2 ≤ ids.length → t ∈ ids →
      w.recycleTile left right (some t) = .ok w' → Appended w w' t := by
  intro h
  have happended := h threeTiles _ [0, 1, 2] 2 _ _ threeTiles_groundTiles (by decide) (by decide) (by decide)
    (recycle_threeTiles 2)
  have hbefore : [0, 1, 2].filter (· ≠ 2) = [0] ++ [1] := by decide
  have hends := (appended_iff _ _ threeTiles_groundTiles (by decide) (by decide) hbefore).mp happended
  exact absurd (congrArg FVector.x hends) (by decide +kernel)

/-- The head of the road goes to its end. -/
theorem recycling_agrees_threeTiles :
    (headGame ℚ).Throughout AsSpawned threeTiles [.recycle 0 ⟨0, true⟩ ⟨0, true⟩] := by
  have hs : (headGame ℚ).Step threeTiles (.recycle 0 ⟨0, true⟩ ⟨0, true⟩)
      (threeTiles.recycled ⟨0, true⟩ ⟨0, true⟩ 0 2) := by
    refine Machine.restrict_step.mpr ⟨⟨?_, recycle_threeTiles 0⟩, [some 1, some 2], by decide, threeTiles_groundTiles⟩
    show some 0 ∈ threeTiles.gameMode.groundTiles
    rw [threeTiles_groundTiles]
    exact List.mem_cons_self
  refine (recycling_agrees_iff.2 (World.fresh_initial _ 2) beginPlay_threeTiles (Machine.run_singleton.mpr hs)).mpr ?_
  intro es₁ e es₂ u hsplit hu
  obtain ⟨rfl, rfl, rfl⟩ : es₁ = [] ∧ e = .recycle 0 ⟨0, true⟩ ⟨0, true⟩ ∧ es₂ = [] := by
    cases es₁ <;> simp_all
  cases Machine.run_nil.mp hu
  intro last hlast
  rw [threeTiles_groundTiles] at hlast
  cases hlast
  have hrotation : (threeTiles.tiles 0).sceneComponent.rotation = (threeTiles.tiles 2).attachTransform.rotation :=
    Quaternion.ext _ _ (by decide +kernel) (by decide +kernel) (by decide +kernel) (by decide +kernel)
  exact ⟨fun v => by rw [hrotation], by decide +kernel⟩

/-- Tiles whose attach point is turned. -/
def turning : TileClass ℚ := { TileClass.ofOffsets 0 0 0 0 0 with
  attachPoint := ⟨⟨3 / 5, 0, 0, 4 / 5⟩, ⟨400, 0, 0⟩, ⟨1, 1, 1⟩⟩ }

def turningTiles : World ℚ := started turning 2 (some ()) .bare

/-- The head of a road that turns goes to its end unturned. -/
theorem not_recycling_agrees :
    ¬ ∀ (w w₀ w' u : World ℚ) (a : BeginPlayAnswers ℚ) (t last n : TileId) (left right : ObstacleDraw ℚ),
      w.Initial → w.beginPlay a = .ok w₀ → some t ∈ w₀.gameMode.groundTiles →
      w₀.gameMode.groundTiles.getLast? = some (some last) → t ≠ last →
      w₀.recycleTile left right (some t) = .ok w' →
      (w₀.withSpawnPoint (w₀.tiles last).attachTransform).spawnGroundTile true = .ok (u, some n) →
      (w'.tiles t).sceneComponent.Same (u.tiles n).sceneComponent := by
  intro h
  have begun : (World.fresh turning 2).beginPlay ⟨some (), true, fun _ => .bare⟩ = .ok turningTiles :=
    beginPlay_fresh _ 2 _ TileDraw.safe_bare
  have hground : turningTiles.gameMode.groundTiles = [some 0, some 1, some 2] := by decide +kernel
  have hlast : turningTiles.gameMode.groundTiles.getLast? = some (some 2) := by
    rw [hground]
    rfl
  have hmem : some 0 ∈ turningTiles.gameMode.groundTiles := by
    rw [hground]
    exact List.mem_cons_self
  have hrecycled : turningTiles.recycleTile ⟨0, true⟩ ⟨0, true⟩ (some 0) =
      .ok (turningTiles.recycled ⟨0, true⟩ ⟨0, true⟩ 0 2) :=
    recycleTile_eq_ok.mpr ⟨by decide +kernel, by decide +kernel, 2, hlast, rfl⟩
  have hspawned : (turningTiles.withSpawnPoint (turningTiles.tiles 2).attachTransform).spawnGroundTile true =
      .ok ((turningTiles.withSpawnPoint (turningTiles.tiles 2).attachTransform).withTile turning,
        some turningTiles.numTiles) := by
    have hclass : (turningTiles.withSpawnPoint (turningTiles.tiles 2).attachTransform).gameMode.groundTileClass =
        some turning := (beginPlay_onlyTiles begun rfl).groundTileClass
    rw [spawnGroundTile_eq, hclass]
    rfl
  have hsame := h _ turningTiles _ _ _ 0 2 _ _ _ (World.fresh_initial _ 2) begun hmem hlast (by decide) hrecycled
    hspawned
  rw [(recycled_onlyObstacles turningTiles _ _ 0 2).sceneComponent, spawned_sceneComponent hspawned,
    same_toEnd_iff] at hsame
  exact absurd (congrArg FVector.x (hsame.1 ⟨1, 0, 0⟩)) (by decide +kernel)

end World

end EndlessRunner
