import EndlessRunner.Laws.Functions

/-!
# The two overlap handlers

An overlap of the runner's box with a tile's is reported to both actors, to each with the other side's component. The
runner asks whether that component is tagged as a tile's box, and it is; the tile asks whether it is the tile's own
box, and it is the runner's. So the runner passes on every tile, and no tile ever broadcasts
(`overlaps_agree_iff`).
-/

set_option autoImplicit false

namespace EndlessRunner

/-- The tiles that the runner's handler hands to `RecycleTile` over a sequence of overlaps. -/
def passedTiles (overlaps : List TileId) : List TileId :=
  overlaps.filterMap fun t => (OverlapReport.toCharacter t).passedTile

/-- The tiles whose handlers broadcast `OnTileOverlap` over a sequence of overlaps. -/
def broadcastTiles (overlaps : List TileId) : List TileId :=
  overlaps.filter fun t => (OverlapReport.toGroundTile t).broadcasts t

/-- The runner's handler recycles the tile that it selects, and nothing else. -/
theorem World.onTriggerBoxOverlap_report {K : Type} [Field K] [LinearOrder K] (report : OverlapReport)
    (left right : ObstacleDraw K) (w : World K) :
    w.onTriggerBoxOverlap report.otherComp.hasGroundTag report.otherActor.asGroundTile left right =
      match report.passedTile with
      | some t => w.recycleTile left right (some t)
      | none => .ok w := by
  unfold World.onTriggerBoxOverlap OverlapReport.passedTile
  cases report.otherComp.hasGroundTag with
  | false => rfl
  | true => cases report.otherActor.asGroundTile <;> rfl

/-- The game's `recycle` event is the runner's handler, told of the overlap with the tile's box. -/
theorem World.step_recycle_report {K : Type} [Field K] [LinearOrder K] (t : TileId) (left right : ObstacleDraw K)
    (w : World K) :
    w.step (.recycle t left right) =
      match (OverlapReport.toCharacter t).passedTile with
      | some s => w.recycleTile left right (some s)
      | none => .ok w :=
  World.onTriggerBoxOverlap_report (OverlapReport.toCharacter t) left right w

/-- **The runner selects every tile.** -/
theorem passedTiles_eq (overlaps : List TileId) : passedTiles overlaps = overlaps :=
  List.filterMap_some

/-- A tile's handler broadcasts only when it is told of the tile's own box, which the other side's component never
is. -/
theorem broadcasts_eq_true {t : TileId} {report : OverlapReport} (h : report.broadcasts t = true) :
    report.otherComp = .groundTriggerBox t := by
  unfold OverlapReport.broadcasts at h
  split at h
  · cases h
  · split_ifs at h with hcomp
    exact not_not.mp hcomp

/-- **No tile broadcasts.** -/
theorem broadcastTiles_eq (overlaps : List TileId) : broadcastTiles overlaps = [] := by
  apply List.filter_eq_nil_iff.mpr
  intro t _ h
  cases broadcasts_eq_true h

/-- **The two handlers agree on which tiles were passed exactly when none was.** -/
theorem overlaps_agree_iff (overlaps : List TileId) :
    passedTiles overlaps = broadcastTiles overlaps ↔ overlaps = [] := by
  rw [passedTiles_eq, broadcastTiles_eq]

/-- The runner passes tile 0, and is alone in noticing. -/
theorem not_overlaps_agree : ¬ ∀ overlaps : List TileId, passedTiles overlaps = broadcastTiles overlaps :=
  fun h => absurd (h [0]) (by decide)

end EndlessRunner
