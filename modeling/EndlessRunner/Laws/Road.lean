import EndlessRunner.Laws.Frames
import EndlessRunner.Lib.Strip
import Mathlib.Algebra.Order.Ring.Rat
import Mathlib.Logic.Relation

/-!
# The road

The pool of tiles is a strip laid end to end (`World.strip`): the ground parent's motion shifts it, and
`RecycleTile` sends a piece to its end. So the general fact about strips applies: a frame that recycles a
proper prefix of the pool, in whatever order, leaves no gap (`World.road_unbroken`).

The spawn point is a copy of the last tile's attach point that only `SpawnGroundTile` renews. So it follows the
road exactly as long as nothing else moves the end of it (`World.spawnPoint_follows_iff`).
-/

set_option autoImplicit false

namespace EndlessRunner

open Lib (Machine Piece Strip)

variable {K : Type} [Field K]

namespace World

/-! ## The pool -/

/-- The pool is `ids`: the tiles that were spawned, each once, all attached to the ground parent. -/
structure Pool (w : World K) (ids : List TileId) : Prop where
  groundTiles : w.gameMode.groundTiles = ids.map some
  nodup : ids.Nodup
  mem_iff : ∀ t, t ∈ ids ↔ t < w.numTiles
  attached : ∀ t ∈ ids, (w.tiles t).attached = true

/-- A tile as a piece of the strip, which reaches from its root to its attach point. -/
def piece (w : World K) (t : TileId) : Piece TileId (FVector K) where
  id := t
  pos := (w.tiles t).location
  reach := (w.tiles t).attachTransform.translation - (w.tiles t).location

def strip (w : World K) (ids : List TileId) : Strip TileId (FVector K) := ids.map w.piece

theorem piece_tip (w : World K) (t : TileId) : (w.piece t).tip = (w.tiles t).attachTransform.translation :=
  add_sub_cancel _ _

theorem ids_strip (w : World K) (ids : List TileId) : (w.strip ids).ids = ids := by
  rw [strip, Strip.ids, List.map_map]
  exact List.map_id ids

/-- Each tile of the pool but the first has its root at the attach point of the one before it. -/
def Unbroken (w : World K) : Prop :=
  ∀ i s t, w.gameMode.groundTiles[i]? = some (some s) → w.gameMode.groundTiles[i + 1]? = some (some t) →
    (w.tiles t).location = (w.tiles s).attachTransform.translation

/-- Consecutive tiles of the pool. -/
theorem Pool.isChain_iff {w : World K} {ids : List TileId} (h : Pool w ids) (R : TileId → TileId → Prop) :
    ids.IsChain R ↔ ∀ i s t, w.gameMode.groundTiles[i]? = some (some s) →
      w.gameMode.groundTiles[i + 1]? = some (some t) → R s t := by
  have hentry : ∀ (i : ℕ) (s : TileId), w.gameMode.groundTiles[i]? = some (some s) ↔ ids[i]? = some s := by
    intro i s
    rw [h.groundTiles, List.getElem?_map]
    cases ids[i]? <;> simp
  simp only [hentry, List.isChain_iff_getElem]
  constructor
  · intro hchain i s t hs ht
    obtain ⟨_, rfl⟩ := List.getElem?_eq_some_iff.mp hs
    obtain ⟨hi, rfl⟩ := List.getElem?_eq_some_iff.mp ht
    exact hchain i hi
  · exact fun hall i hi => hall i _ _ (List.getElem?_eq_getElem _) (List.getElem?_eq_getElem hi)

/-- **The road is unbroken when its strip is joined.** -/
theorem Pool.unbroken {w : World K} {ids : List TileId} (h : Pool w ids) (hjoined : (w.strip ids).Joined) :
    Unbroken w := by
  refine (h.isChain_iff fun s t => (w.tiles t).location = (w.tiles s).attachTransform.translation).mp ?_
  apply ((List.isChain_map w.piece).mp hjoined).imp
  intro s t hst
  rw [piece_tip] at hst
  exact hst

theorem Pool.getLast? {w : World K} {ids : List TileId} {last : TileId} (h : Pool w ids) :
    w.gameMode.groundTiles.getLast? = some (some last) ↔ ids.getLast? = some last := by
  rw [h.groundTiles, List.getLast?_map]
  cases ids.getLast? <;> simp

theorem Pool.some_mem {w : World K} {ids : List TileId} (h : Pool w ids) {t : TileId} :
    some t ∈ w.gameMode.groundTiles ↔ t ∈ ids := by
  rw [h.groundTiles, List.mem_map_of_injective (Option.some_injective _)]

theorem Pool.mem_groundTiles {w : World K} (h : ∃ ids, Pool w ids) {t : TileId} :
    some t ∈ w.gameMode.groundTiles ↔ t < w.numTiles := by
  obtain ⟨ids, hids⟩ := h
  exact hids.some_mem.trans (hids.mem_iff t)

/-! ## The functions of the source, on the strip -/

theorem Pool.of_sameRoad {w w' : World K} {ids : List TileId} (h : Pool w ids) (hsame : SameRoad w w') :
    Pool w' ids ∧ w'.strip ids = w.strip ids := by
  refine ⟨⟨hsame.groundTiles.trans h.groundTiles, h.nodup, ?_, ?_⟩, ?_⟩
  · rw [hsame.numTiles]
    exact h.mem_iff
  · rw [hsame.tiles]
    exact h.attached
  · apply List.map_congr_left
    intro t _
    simp only [piece, hsame.tiles]

theorem Pool.of_onlyObstacles {w w' : World K} {ids : List TileId} (h : Pool w ids)
    (honly : OnlyObstacles w w') : Pool w' ids ∧ w'.strip ids = w.strip ids := by
  refine ⟨⟨?_, h.nodup, ?_, ?_⟩, ?_⟩
  · rw [honly.gameMode]
    exact h.groundTiles
  · rw [honly.numTiles]
    exact h.mem_iff
  · intro t ht
    rw [honly.attached]
    exact h.attached t ht
  · apply List.map_congr_left
    intro t _
    simp only [piece, honly.location, honly.attachTransform]

/-- The ground parent's motion shifts the strip: every piece hangs on it. -/
theorem Pool.translateGround {w : World K} {ids : List TileId} (h : Pool w ids) (d : FVector K) :
    Pool (w.translateGround d) ids ∧ (w.translateGround d).strip ids = (w.strip ids).shift d := by
  refine ⟨⟨h.groundTiles, h.nodup, h.mem_iff, ?_⟩, ?_⟩
  · intro t ht
    exact (GroundTile.moveBy_attached _ d).trans (h.attached t ht)
  · rw [strip, strip, Strip.shift, List.map_map]
    apply List.map_congr_left
    intro t ht
    have hat := h.attached t ht
    simp only [piece, World.translateGround, Function.comp_apply,
      GroundTile.location_moveBy hat, GroundTile.attachTransform_moveBy hat, FTransform.translate_translation,
      add_sub_add_right_eq_sub]

/-- A tile that goes to the end keeps its reach. -/
theorem piece_toEnd_self (w : World K) (t last : TileId) :
    (w.toEnd t last).piece t = { w.piece t with pos := (w.piece last).tip } := by
  rw [piece_tip]
  simp only [piece, tiles_toEnd_self, GroundTile.location_setActorLocation, Piece.mk.injEq, true_and]
  exact (congrArg (· - _) (FTransform.mul_setLocation_translation _ _ _)).trans (add_sub_cancel_right _ _)

theorem piece_toEnd_of_ne (w : World K) {s t : TileId} (last : TileId) (hs : s ≠ t) :
    (w.toEnd t last).piece s = w.piece s := by
  simp only [piece, tiles_toEnd_of_ne w last hs]

theorem find_strip (w : World K) {ids : List TileId} {t : TileId} (ht : t ∈ ids) :
    (w.strip ids).find? (·.id = t) = some (w.piece t) := by
  obtain ⟨p, hp⟩ : ∃ p, (w.strip ids).find? (·.id = t) = some p := by
    apply Option.isSome_iff_exists.mp
    apply List.find?_isSome.mpr
    exact ⟨w.piece t, List.mem_map_of_mem ht, decide_eq_true rfl⟩
  obtain ⟨s, _, rfl⟩ := List.mem_map.mp (List.mem_of_find?_eq_some hp)
  have hid := List.find?_some hp
  have hs : s = t := of_decide_eq_true hid
  rw [hp, hs]

/-- Taking a tile out and putting it last is a permutation. -/
theorem filter_ne_append_perm {ids : List TileId} {t : TileId} (hnodup : ids.Nodup) (ht : t ∈ ids) :
    (ids.filter (· ≠ t) ++ [t]).Perm ids := by
  have herase : ids.filter (· ≠ t) = ids.erase t := by
    rw [hnodup.erase_eq_filter]
    congr 1
    funext a
    simp only [decide_not, bne, beq_eq_decide]
  rw [herase]
  exact (List.perm_append_singleton t _).trans (List.perm_cons_erase ht).symm

theorem groundTiles_toEnd {w : World K} {ids : List TileId} (h : w.gameMode.groundTiles = ids.map some)
    (t last : TileId) :
    (w.toEnd t last).gameMode.groundTiles = (ids.filter (· ≠ t) ++ [t]).map some := by
  show TArray.remove w.gameMode.groundTiles (some t) ++ [some t] = _
  rw [h, TArray.remove, List.filter_map, List.map_append, List.map_singleton]
  simp only [Function.comp_def, ne_eq, Option.some.injEq]

/-- `RecycleTile` sends the piece to the end of the strip, and the tile to the end of the pool. -/
theorem Pool.toEnd {w : World K} {ids : List TileId} {t last : TileId} (h : Pool w ids) (ht : t ∈ ids)
    (hlast : ids.getLast? = some last) :
    Pool (w.toEnd t last) (ids.filter (· ≠ t) ++ [t]) ∧
      (w.toEnd t last).strip (ids.filter (· ≠ t) ++ [t]) = (w.strip ids).toEnd t := by
  have hperm := filter_ne_append_perm h.nodup ht
  refine ⟨⟨groundTiles_toEnd h.groundTiles t last, hperm.nodup_iff.mpr h.nodup,
    fun s => hperm.mem_iff.trans (h.mem_iff s), ?_⟩, ?_⟩
  · intro s hs
    by_cases hst : s = t
    · subst hst
      rw [tiles_toEnd_self, GroundTile.setActorLocation_attached]
      exact h.attached s ht
    · rw [tiles_toEnd_of_ne w last hst]
      exact h.attached s (hperm.mem_iff.mp hs)
  · have hfind : (w.strip ids).find? (·.id = t) = some (w.piece t) := find_strip w ht
    have hend : (w.strip ids).getLast? = some (w.piece last) := by
      rw [strip, List.getLast?_map, hlast]
      rfl
    rw [Strip.toEnd, hfind, hend, strip, strip, List.map_append, List.map_singleton, piece_toEnd_self,
      List.filter_map]
    congr 1
    apply List.map_congr_left
    intro s hs
    exact piece_toEnd_of_ne w last (of_decide_eq_true (List.mem_filter.mp hs).2)

theorem attachTransform_withTile (w : World K) (c : TileClass K) :
    ((w.withTile c).tiles w.numTiles).attachTransform = (w.withTile c).gameMode.nextSpawnPoint := by
  rw [tiles_withTile_self]
  rfl

theorem location_withTile (w : World K) (c : TileClass K) :
    ((w.withTile c).tiles w.numTiles).location = w.gameMode.nextSpawnPoint.translation := by
  rw [tiles_withTile_self]
  rfl

/-- `SpawnGroundTile` lays a piece after the others, wherever the spawn point is. -/
theorem Pool.withTile {w : World K} {ids : List TileId} (h : Pool w ids) (c : TileClass K) :
    Pool (w.withTile c) (ids ++ [w.numTiles]) ∧
      (w.withTile c).strip (ids ++ [w.numTiles]) = w.strip ids ++ [(w.withTile c).piece w.numTiles] := by
  have hold : ∀ t ∈ ids, (w.withTile c).tiles t = w.tiles t := fun t ht =>
    tiles_withTile_of_ne w c ((h.mem_iff t).mp ht).ne
  refine ⟨⟨?_, ?_, ?_, ?_⟩, ?_⟩
  · show w.gameMode.groundTiles ++ [some w.numTiles] = _
    rw [h.groundTiles, List.map_append, List.map_singleton]
  · apply List.nodup_append.mpr
    refine ⟨h.nodup, List.nodup_singleton _, ?_⟩
    intro t ht s hs
    rw [List.mem_singleton.mp hs]
    exact ((h.mem_iff t).mp ht).ne
  · intro t
    rw [List.mem_append, List.mem_singleton, h.mem_iff]
    exact Nat.lt_succ_iff_lt_or_eq.symm
  · intro t ht
    rcases List.mem_append.mp ht with hmem | hmem
    · rw [hold t hmem]
      exact h.attached t hmem
    · rw [List.mem_singleton.mp hmem, tiles_withTile_self]
  · rw [strip, strip, List.map_append, List.map_singleton]
    congr 1
    apply List.map_congr_left
    intro t ht
    simp only [piece, hold t ht]

/-! ## Steps -/

end World

/-- The event calls `SpawnGroundTile`. -/
def Event.Spawns : Event K → Prop
  | .spawnGroundTile _ => True
  | _ => False

/-- The tiles that a sequence of events recycles, in its order. -/
def recycledTiles : List (Event K) → List TileId
  | [] => []
  | .recycle t _ _ :: es => t :: recycledTiles es
  | _ :: es => recycledTiles es

theorem recycledTiles_cons {K : Type} (e : Event K) (es : List (Event K)) :
    recycledTiles (e :: es) = recycledTiles [e] ++ recycledTiles es := by
  cases e <;> rfl

namespace World

section Ordered

variable [LinearOrder K]

/-- **Every event but a spawn is a move of the strip, or none.** -/
theorem Pool.step {w w' : World K} {e : Event K} {ids : List TileId} (h : Pool w ids)
    (hs : (game K).Step w e w') (hspawn : ¬ e.Spawns) :
    ∃ ids' ms, Pool w' ids' ∧ Strip.sent ms = recycledTiles [e] ∧
      w'.strip ids' = Strip.run ms (w.strip ids) := by
  rcases roadStep_cases hs with ⟨hmoves, v, hsame, honly⟩ | ⟨d, he, rfl⟩ | ⟨spawned, c, rfl, _⟩ |
    ⟨t, left, right, last, rfl, hmem, hlast, honly⟩
  · obtain ⟨hpool, hstrip⟩ := h.of_sameRoad hsame
    obtain ⟨hpool', hstrip'⟩ := hpool.of_onlyObstacles honly
    refine ⟨ids, [], hpool', ?_, hstrip'.trans hstrip⟩
    cases e with
    | recycle t left right => exact absurd trivial hmoves
    | _ => rfl
  · obtain ⟨hpool, hstrip⟩ := h.translateGround d
    refine ⟨ids, [.shift d], hpool, ?_, hstrip⟩
    rcases he with rfl | ⟨dt, rfl, _⟩
    · rfl
    · rfl
  · exact absurd trivial hspawn
  · obtain ⟨hend, hstrip⟩ := h.toEnd (h.some_mem.mp hmem) (h.getLast?.mp hlast)
    obtain ⟨hpool, hsame⟩ := hend.of_onlyObstacles honly
    exact ⟨_, [.toEnd t], hpool, rfl, hsame.trans hstrip⟩

/-- Every event, a spawn included, keeps the pool. -/
theorem Pool.exists_step {w w' : World K} {e : Event K} (h : ∃ ids, Pool w ids)
    (hs : (game K).Step w e w') : ∃ ids, Pool w' ids := by
  obtain ⟨ids, hids⟩ := h
  by_cases hspawn : e.Spawns
  · cases e with
    | spawnGroundTile spawned =>
      obtain ⟨c, _, rfl⟩ := step_spawnGroundTile hs.2
      exact ⟨_, (hids.withTile c).1⟩
    | _ => exact hspawn.elim
  · obtain ⟨ids', _, hids', _⟩ := hids.step hs hspawn
    exact ⟨ids', hids'⟩

/-- A run without spawns moves the strip, and sends to the end what it recycles. -/
theorem Pool.run {w w' : World K} {es : List (Event K)} (hr : (game K).Run w es w') :
    ∀ {ids}, Pool w ids → (∀ e ∈ es, ¬ e.Spawns) →
      ∃ ids' ms, Pool w' ids' ∧ Strip.sent ms = recycledTiles es ∧
        w'.strip ids' = Strip.run ms (w.strip ids) := by
  induction hr with
  | nil w =>
    intro ids h _
    exact ⟨ids, [], h, rfl, rfl⟩
  | @cons w u w' e es hs _ ih =>
    intro ids h hspawn
    obtain ⟨hspawn₁, hspawn₂⟩ := List.forall_mem_cons.mp hspawn
    obtain ⟨ids₁, ms₁, hpool₁, hsent₁, hstrip₁⟩ := h.step hs hspawn₁
    obtain ⟨ids₂, ms₂, hpool₂, hsent₂, hstrip₂⟩ := ih hpool₁ hspawn₂
    refine ⟨ids₂, ms₁ ++ ms₂, hpool₂, ?_, ?_⟩
    · rw [Strip.sent_append, hsent₁, hsent₂, ← recycledTiles_cons]
    · rw [hstrip₂, hstrip₁, Strip.run_append]

/-! ## Frames -/

/-- A frame recycles each tile of a proper prefix of the pool once, in any order. Whatever else may happen
happens in it too, but for a spawn. -/
def Frame (w w' : World K) : Prop :=
  ∃ es, (game K).Run w es w' ∧ (∀ e ∈ es, ¬ e.Spawns) ∧
    ∃ first rest, w.gameMode.groundTiles = first ++ rest ∧ rest ≠ [] ∧
      ((recycledTiles es).map some).Perm first

/-- The pool is a strip without a gap. -/
def Laid (w : World K) : Prop := ∃ ids, Pool w ids ∧ (w.strip ids).Joined

omit [LinearOrder K] in
theorem Laid.pool {w : World K} (h : Laid w) : ∃ ids, Pool w ids := h.imp fun _ => And.left

/-- **A frame leaves no gap.** -/
theorem Laid.frame {w w' : World K} (h : Laid w) (hf : Frame w w') : Laid w' := by
  obtain ⟨ids, hpool, hjoined⟩ := h
  obtain ⟨es, hrun, hspawn, first, rest, hsplit, hrest, hperm⟩ := hf
  obtain ⟨ids', ms, hpool', hsent, hstrip⟩ := Pool.run hrun hpool hspawn
  refine ⟨ids', hpool', ?_⟩
  obtain ⟨front, back, rfl, rfl, rfl⟩ := List.map_eq_append_iff.mp (hpool.groundTiles.symm.trans hsplit)
  have happend : w.strip (front ++ back) = w.strip front ++ w.strip back := List.map_append
  rw [hstrip, happend]
  rw [happend] at hjoined
  apply Strip.joined_run
  · rw [← happend, ids_strip]
    exact hpool.nodup
  · intro h
    exact hrest (by rw [List.map_eq_nil_iff.mp h, List.map_nil])
  · exact (List.isChain_append.mp hjoined).2.1
  · rw [hsent, ids_strip]
    exact (List.map_perm_map_iff (Option.some_injective _)).mp hperm

end Ordered

/-! ## The spawn point -/

/-- The spawn point is the attach point of the last tile of the pool. -/
def SpawnPointFollows (w : World K) : Prop :=
  ∃ last, w.gameMode.groundTiles.getLast? = some (some last) ∧
    w.gameMode.nextSpawnPoint = (w.tiles last).attachTransform

theorem spawnPointFollows_iff {w : World K} {last : TileId}
    (hlast : w.gameMode.groundTiles.getLast? = some (some last)) :
    SpawnPointFollows w ↔ w.gameMode.nextSpawnPoint = (w.tiles last).attachTransform := by
  constructor
  · intro h
    obtain ⟨last', hlast', heq⟩ := h
    cases hlast.symm.trans hlast'
    exact heq
  · intro h
    exact ⟨last, hlast, h⟩

/-- What `SpawnGroundTile` leaves follows, whatever was before it. -/
theorem spawnPointFollows_withTile (w : World K) (c : TileClass K) : SpawnPointFollows (w.withTile c) :=
  ⟨w.numTiles, List.getLast?_concat, (attachTransform_withTile w c).symm⟩

theorem SpawnPointFollows.of_onlyObstacles {w w' : World K} (h : OnlyObstacles w w') :
    SpawnPointFollows w' ↔ SpawnPointFollows w := by
  simp only [SpawnPointFollows, h.gameMode, h.attachTransform]

theorem SpawnPointFollows.of_sameRoad {w w' : World K} (h : SameRoad w w') :
    SpawnPointFollows w' ↔ SpawnPointFollows w := by
  simp only [SpawnPointFollows, h.groundTiles, h.nextSpawnPoint, h.tiles]

/-- Moving the road away leaves the spawn point behind. -/
theorem SpawnPointFollows.translateGround {w : World K} {ids : List TileId} (h : SpawnPointFollows w)
    (hpool : Pool w ids) (d : FVector K) : SpawnPointFollows (w.translateGround d) ↔ d = 0 := by
  obtain ⟨last, hlast, hpoint⟩ := h
  have hmem : last ∈ ids := hpool.some_mem.mp (List.mem_of_getLast? hlast)
  have hlast' : (w.translateGround d).gameMode.groundTiles.getLast? = some (some last) := hlast
  have hpoint' : (w.translateGround d).gameMode.nextSpawnPoint = (w.tiles last).attachTransform := hpoint
  rw [spawnPointFollows_iff hlast', hpoint']
  show _ = ((w.tiles last).moveBy d).attachTransform ↔ _
  rw [GroundTile.attachTransform_moveBy (hpool.attached last hmem)]
  exact FTransform.eq_translate_iff _ _

/-- Sending a tile to the end leaves the spawn point behind, unless the tile has no length. -/
theorem SpawnPointFollows.toEnd {w : World K} {last : TileId} (h : SpawnPointFollows w)
    (hlast : w.gameMode.groundTiles.getLast? = some (some last)) (t : TileId) :
    SpawnPointFollows (w.toEnd t last) ↔
      (w.tiles t).attachTransform.translation = (w.tiles t).location ∧
      (w.tiles t).attachTransform.rotation = w.gameMode.nextSpawnPoint.rotation ∧
      (w.tiles t).attachTransform.scale3D = w.gameMode.nextSpawnPoint.scale3D := by
  have hpoint := (spawnPointFollows_iff hlast).mp h
  have hlast' : (w.toEnd t last).gameMode.groundTiles.getLast? = some (some t) := List.getLast?_concat
  rw [spawnPointFollows_iff hlast', tiles_toEnd_self, ← hpoint]
  exact FTransform.eq_mul_setLocation_iff _ _ _

section Ordered

variable [LinearOrder K]

/-- What the spawn point survives: the ground parent stays where it is, and a tile is recycled only if its
attach point is at its root, with the rotation and scale of the spawn point. -/
def KeepsSpawnPoint (w : World K) : Event K → Prop
  | .physics deltaTime => deltaTime • w.groundTilesParent.physicsLinearVelocity = 0
  | .translate d => d = 0
  | .recycle t _ _ => (w.tiles t).attachTransform.translation = (w.tiles t).location ∧
      (w.tiles t).attachTransform.rotation = w.gameMode.nextSpawnPoint.rotation ∧
      (w.tiles t).attachTransform.scale3D = w.gameMode.nextSpawnPoint.scale3D
  | _ => True

theorem SpawnPointFollows.step {w w' : World K} {e : Event K} (h : SpawnPointFollows w)
    (hpool : ∃ ids, Pool w ids) (hs : (game K).Step w e w') : SpawnPointFollows w' ↔ KeepsSpawnPoint w e := by
  obtain ⟨ids, hids⟩ := hpool
  rcases roadStep_cases hs with ⟨hmoves, v, hsame, honly⟩ | ⟨d, he, rfl⟩ | ⟨spawned, c, rfl, _, rfl⟩ |
    ⟨t, left, right, last, rfl, _, hlast, honly⟩
  · have hkeeps : KeepsSpawnPoint w e := by
      cases e with
      | physics | translate | recycle => exact absurd trivial hmoves
      | _ => trivial
    refine iff_of_true ?_ hkeeps
    exact (SpawnPointFollows.of_onlyObstacles honly).mpr ((SpawnPointFollows.of_sameRoad hsame).mpr h)
  · rcases he with rfl | ⟨dt, rfl, rfl⟩
    · exact h.translateGround hids d
    · exact h.translateGround hids _
  · exact iff_of_true (spawnPointFollows_withTile w c) trivial
  · rw [SpawnPointFollows.of_onlyObstacles honly]
    exact h.toEnd hlast t

/-! ## From `BeginPlay` -/

theorem Laid.withRound {w : World K} (h : Laid w) (hfollows : SpawnPointFollows w) (c : TileClass K)
    (d : TileDraw K) : Laid (w.withRound c d) := by
  obtain ⟨ids, hpool, hjoined⟩ := h
  obtain ⟨last, hlast, hpoint⟩ := hfollows
  obtain ⟨hpool', hstrip⟩ := hpool.withTile c
  obtain ⟨hpool'', hsame⟩ := hpool'.of_onlyObstacles (withRound_onlyObstacles w c d)
  refine ⟨_, hpool'', ?_⟩
  have hend : (w.strip ids).getLast? = some (w.piece last) := by
    rw [strip, List.getLast?_map, hpool.getLast?.mp hlast]
    rfl
  rw [hsame, hstrip]
  apply Strip.joined_snoc hjoined hend
  rw [piece_tip, ← hpoint]
  exact location_withTile w c

omit [LinearOrder K] in
/-- There are no tiles before `BeginPlay` spawns its first. -/
theorem Initial.pool_prepared {w : World K} (init : w.Initial) (player : Option CharacterId) :
    Pool (w.prepared player) [] where
  groundTiles := init.groundTiles
  nodup := List.nodup_nil
  mem_iff t := by
    rw [show (w.prepared player).numTiles = 0 from init.numTiles]
    exact iff_of_false List.not_mem_nil (Nat.not_lt_zero t)
  attached t ht := absurd ht List.not_mem_nil

/-- **`BeginPlay` lays the road**, and leaves the spawn point at its end. -/
theorem Initial.laid [IsStrictOrderedRing K] {w w₀ : World K} {a : BeginPlayAnswers K} (init : w.Initial)
    (begun : w.beginPlay a = .ok w₀) : Laid w₀ ∧ SpawnPointFollows w₀ := by
  obtain ⟨c, hc⟩ := beginPlay_class begun
  apply beginPlay_induction (I := fun u => Laid u ∧ SpawnPointFollows u) begun hc
  · obtain ⟨⟨hground, hnodup, hmem, hattached⟩, _⟩ := (init.pool_prepared a.player).withTile c
    obtain ⟨last, hlast, hpoint⟩ := spawnPointFollows_withTile (w.prepared a.player) c
    exact ⟨⟨_, ⟨hground, hnodup, hmem, hattached⟩, List.isChain_singleton _⟩, last, hlast, hpoint⟩
  · intro u d hu
    exact ⟨hu.1.withRound hu.2 c d, (SpawnPointFollows.of_onlyObstacles (withRound_onlyObstacles u c d)).mpr
      (spawnPointFollows_withTile u c)⟩

/-- In every state that the game reaches from `BeginPlay` there is a pool. -/
theorem Initial.pool [IsStrictOrderedRing K] {w w₀ u : World K} {a : BeginPlayAnswers K} {es : List (Event K)}
    (init : w.Initial) (begun : w.beginPlay a = .ok w₀) (run : (game K).Run w₀ es u) : ∃ ids, Pool u ids :=
  run.invariant (I := fun v => ∃ ids, Pool v ids) (fun _ _ _ hs hv => Pool.exists_step hv hs)
    (init.laid begun).1.pool

/-- **The road stays one unbroken strip.** From `BeginPlay` on, after any events in any order, the pool is a
permutation of the tiles that were spawned, and after any number of frames each tile but the first has its
root at the attach point of the tile before it. -/
theorem road_unbroken [IsStrictOrderedRing K] {w w₀ : World K} {a : BeginPlayAnswers K} (init : w.Initial)
    (begun : w.beginPlay a = .ok w₀) :
    (∀ es u, (game K).Run w₀ es u → u.gameMode.groundTiles.Nodup ∧
      u.gameMode.groundTiles.Perm ((List.range u.numTiles).map some)) ∧
    ∀ u, Relation.ReflTransGen Frame w₀ u → Unbroken u := by
  constructor
  · intro es u hrun
    obtain ⟨ids, hpool⟩ := init.pool begun hrun
    rw [hpool.groundTiles]
    refine ⟨hpool.nodup.map (Option.some_injective _), List.Perm.map some ?_⟩
    apply (List.perm_ext_iff_of_nodup hpool.nodup List.nodup_range).mpr
    intro t
    rw [hpool.mem_iff, List.mem_range]
  · intro u hframes
    have hu : Laid u := by
      induction hframes with
      | refl => exact (init.laid begun).1
      | tail _ hf ih => exact ih.frame hf
    obtain ⟨ids, hpool, hjoined⟩ := hu
    exact hpool.unbroken hjoined

/-- Three tiles of length 400. -/
def threeTiles : World ℚ := started (.ofOffsets ⟨400, 0, 0⟩ 0 0 0 0) 2 (some ()) .bare

theorem beginPlay_threeTiles :
    (World.fresh (.ofOffsets ⟨400, 0, 0⟩ 0 0 0 0) 2).beginPlay ⟨some (), true, fun _ => .bare⟩ =
      .ok threeTiles :=
  beginPlay_fresh _ 2 _ TileDraw.safe_bare

theorem threeTiles_groundTiles : threeTiles.gameMode.groundTiles = [some 0, some 1, some 2] := by
  decide +kernel

/-- Two of them are recycled in one frame, the second one first. -/
theorem road_unbroken_threeTiles : ∃ u, Frame threeTiles u ∧ Unbroken u := by
  obtain ⟨u, hu⟩ := Machine.exists_run_of_exec (M := game ℚ) threeTiles
    [.groundTick, .physics (1 / 2), .recycle 1 ⟨0, true⟩ ⟨0, true⟩, .recycle 0 ⟨0, true⟩ ⟨0, true⟩]
    (by decide +kernel)
  have hframe : Frame threeTiles u :=
    ⟨_, hu, by simp [Event.Spawns], [some 0, some 1], [some 2], threeTiles_groundTiles,
      by decide, List.Perm.swap ..⟩
  exact ⟨u, hframe, (road_unbroken (World.fresh_initial _ 2) beginPlay_threeTiles).2 u (.single hframe)⟩

/-- **The spawn point follows the road exactly in the runs in which nothing but `SpawnGroundTile` moves its
end.** -/
theorem spawnPoint_follows_iff [IsStrictOrderedRing K] {w w₀ u : World K} {a : BeginPlayAnswers K}
    {es : List (Event K)} (init : w.Initial) (begun : w.beginPlay a = .ok w₀) (run : (game K).Run w₀ es u) :
    (game K).Throughout SpawnPointFollows w₀ es ↔ (game K).Along KeepsSpawnPoint w₀ es := by
  obtain ⟨hlaid, hfollows⟩ := init.laid begun
  exact run.throughout_iff (J := fun v => ∃ ids, Pool v ids) (fun _ _ _ hs hv => Pool.exists_step hv hs)
    (fun _ _ _ hs hpool hv => hv.step hpool hs) hlaid.pool hfollows

/-- The road moves for one second. -/
theorem run_oneSecond :
    (game ℚ).Run threeTiles [.groundTick, .physics 1] (threeTiles.groundTick.physics 1) :=
  .cons ⟨trivial, rfl⟩ (Machine.run_singleton.mpr ⟨trivial, rfl⟩)

theorem spawnPoint_follows_iff_oneSecond :
    (game ℚ).Throughout SpawnPointFollows threeTiles [.groundTick, .physics 1] ↔
      (game ℚ).Along KeepsSpawnPoint threeTiles [.groundTick, .physics 1] :=
  spawnPoint_follows_iff (World.fresh_initial _ 2) beginPlay_threeTiles run_oneSecond

/-- The road has moved on by 600, and the spawn point has not. -/
theorem not_spawnPoint_follows :
    ¬ ∀ (w w₀ u : World ℚ) (a : BeginPlayAnswers ℚ) (es : List (Event ℚ)), w.Initial →
      w.beginPlay a = .ok w₀ → (game ℚ).Run w₀ es u → (game ℚ).Throughout SpawnPointFollows w₀ es := by
  intro h
  have hall := h _ _ _ _ _ (World.fresh_initial _ 2) beginPlay_threeTiles run_oneSecond
  have hlast := hall _ [] _ (List.append_nil _).symm run_oneSecond
  have hend : (threeTiles.groundTick.physics 1).gameMode.groundTiles.getLast? = some (some 2) :=
    congrArg List.getLast? threeTiles_groundTiles
  have hx := congrArg (fun t => t.translation.x) ((spawnPointFollows_iff hend).mp hlast)
  exact absurd hx (by decide +kernel)

end Ordered

end World

end EndlessRunner
