import EndlessRunner.Laws.LaneGeometry
import EndlessRunner.Laws.Passing
import EndlessRunner.Lib.Belt

/-!
# The endless road

There is a handful of tiles, and the road has no end: tile `j` of it is the `j`-th that the player comes to,
whichever actor that is. Where the tiles of a class have one pitch (`TileClass.Regular`), the road is a belt
(`Lib.Belt`), and the pool is what is seen of it through a window (`World.Rolling`). A frame recycles exactly the
tiles that have come within reach, so the window moves on by as many and shows the same belt
(`World.Rolling.frame`), whatever the player, the obstacles and the timers do meanwhile.

From `BeginPlay` on, then, the pool is the road from its first tile that is out of reach
(`World.endless_road`). Neither the order in which a frame recycles its tiles nor the way in which the frames cut
up the distance leaves a trace (`World.road_settled_by_distance`).
-/

set_option autoImplicit false

namespace EndlessRunner

open Lib (Belt.Shows Belt.Taken Machine Piece Strip)
open Lib.Belt (place)
open Lib.Rounding

variable {K : Type} [Field K]

/-! ## Regular classes -/

/-- An attach point that does not turn or scale what is put on it makes every spawn point like the first. -/
theorem TileClass.spawnPoint_of_unturned {c : TileClass K} (start : FTransform K)
    (hrotation : c.attachPoint.rotation = 1) (hscale : c.attachPoint.scale3D = ⟨1, 1, 1⟩) (k : ℕ) :
    (c.spawnPoint start k).rotation = start.rotation ∧ (c.spawnPoint start k).scale3D = start.scale3D := by
  induction k with
  | zero => exact ⟨rfl, rfl⟩
  | succ k ih =>
    refine ⟨?_, ?_⟩
    · rw [TileClass.spawnPoint, FTransform.mul_rotation, hrotation, mul_one, ih.1]
    · rw [TileClass.spawnPoint, FTransform.mul_scale3D, hscale, ih.2]
      ext <;> simp [FVector.hadamard]

/-- Then a component is as far along from the root on each tile as on the first. -/
theorem TileClass.offset_of_unturned {c : TileClass K} (start : FTransform K) (hrotation : c.attachPoint.rotation = 1)
    (hscale : c.attachPoint.scale3D = ⟨1, 1, 1⟩) (k : ℕ) (m : FTransform K) :
    (m * c.spawnPoint start k).translation.x - (c.spawnPoint start k).translation.x =
      (m * start).translation.x - start.translation.x := by
  obtain ⟨hr, hs⟩ := c.spawnPoint_of_unturned start hrotation hscale k
  rw [FTransform.mul_translation_of_same m hr hs]
  exact add_sub_cancel_right _ _

theorem FTransform.offset_ofOffset (m : FTransform K) (start : FVector K) :
    (m * .ofOffset start).translation.x - (FTransform.ofOffset start).translation.x = m.translation.x := by
  rw [FTransform.mul_ofOffset_translation]
  exact add_sub_cancel_right _ _

section Regular

variable [LinearOrder K]

/-- Every tile reaches `pitch` along the road, and has its trigger box `ahead` of its root. The boxes are not turned,
and meet the player's within `reach`. -/
structure TileClass.Regular (c : TileClass K) (start : FTransform K) (pitch ahead reach : K) : Prop where
  pitch : ∀ k, (c.attachPoint * c.spawnPoint start k).translation.x - (c.spawnPoint start k).translation.x = pitch
  ahead : ∀ k, (c.groundTriggerBox * c.spawnPoint start k).translation.x - (c.spawnPoint start k).translation.x = ahead
  unturned : ∀ k v, FQuat.rotateVector (c.groundTriggerBox * c.spawnPoint start k).rotation v = v
  reach : ∀ k, (c.groundTriggerBox * c.spawnPoint start k).triggerReach = reach

/-- **Such a class is regular**, if the trigger box of its first tile is not turned. -/
theorem TileClass.regular_of_unturned {c : TileClass K} (start : FTransform K)
    (hrotation : c.attachPoint.rotation = 1) (hscale : c.attachPoint.scale3D = ⟨1, 1, 1⟩)
    (hbox : ∀ v, FQuat.rotateVector (c.groundTriggerBox * start).rotation v = v) :
    c.Regular start ((c.attachPoint * start).translation.x - start.translation.x)
      ((c.groundTriggerBox * start).translation.x - start.translation.x) (c.groundTriggerBox * start).triggerReach where
  pitch k := c.offset_of_unturned start hrotation hscale k _
  ahead k := c.offset_of_unturned start hrotation hscale k _
  unturned k v := by
    rw [FTransform.mul_rotation, (c.spawnPoint_of_unturned start hrotation hscale k).1]
    exact hbox v
  reach k := by
    rw [FTransform.triggerReach, FTransform.mul_scale3D, (c.spawnPoint_of_unturned start hrotation hscale k).2]
    rfl

theorem TileClass.Regular.reach_pos [IsStrictOrderedRing K] {c : TileClass K} {start : FTransform K}
    {pitch ahead reach : K} (h : c.Regular start pitch ahead reach) : 0 < reach := by
  rw [← h.reach 0, FTransform.triggerReach]
  positivity

/-- A class of unturned and unscaled components, but for the width of the trigger box. -/
def TileClass.ofWidth (attach trigger : FVector K) (width : K) : TileClass K :=
  { TileClass.ofOffsets attach 0 0 0 trigger with groundTriggerBox := ⟨1, trigger, ⟨width, 1, 1⟩⟩ }

theorem TileClass.regular_ofWidth (attach trigger : FVector K) (width : K) (start : FVector K) :
    (TileClass.ofWidth attach trigger width).Regular (.ofOffset start) attach.x trigger.x (16 * |width| + 32) := by
  have hregular := TileClass.regular_of_unturned (c := .ofWidth attach trigger width) (.ofOffset start) rfl rfl
    (fun v => by simp [TileClass.ofWidth, FTransform.ofOffset])
  rw [FTransform.offset_ofOffset, FTransform.offset_ofOffset] at hregular
  have hreach : ((TileClass.ofWidth attach trigger width).groundTriggerBox * .ofOffset start).triggerReach =
      16 * |width| + 32 := by
    simp [FTransform.triggerReach, TileClass.ofWidth, FTransform.ofOffset, FVector.hadamard]
  rwa [hreach] at hregular

end Regular

namespace World

section Pool

variable {w : World K}

theorem Pool.getElem?_eq {ids : List TileId} (h : Pool w ids) {i : ℕ} {t : TileId} :
    w.gameMode.groundTiles[i]? = some (some t) ↔ ids[i]? = some t := by
  rw [h.groundTiles, List.getElem?_map]
  cases ids[i]? <;> simp

/-- The array says what the pool is. -/
theorem Pool.unique {ids ids' : List TileId} (h : Pool w ids) (h' : Pool w ids') : ids = ids' :=
  List.map_injective_iff.mpr (Option.some_injective _) (h.groundTiles.symm.trans h'.groundTiles)

theorem Pool.length_eq {ids : List TileId} (h : Pool w ids) : ids.length = w.numTiles := by
  have hperm : ids.Perm (List.range w.numTiles) := by
    apply (List.perm_ext_iff_of_nodup h.nodup List.nodup_range).mpr
    intro t
    rw [h.mem_iff, List.mem_range]
  rw [hperm.length_eq, List.length_range]

end Pool

variable [LinearOrder K] {c : TileClass K} {start : FTransform K} {pitch ahead reach : K} {w w' : World K}

/-! ## Places along the road -/

/-- On a regular road a tile is followed at its pitch. -/
theorem Oriented.attach_x (h : Oriented c start w) (regular : c.Regular start pitch ahead reach) {t : TileId}
    (ht : t < w.numTiles) : (w.tiles t).attachTransform.translation.x = (w.tiles t).location.x + pitch := by
  obtain ⟨hclass, hr, hs⟩ := h.placed t ht
  rw [GroundTile.attachTransform, hclass, FTransform.mul_translation_of_same _ hr hs, add_comm,
    ← regular.pitch t]
  rfl

/-- On a regular road the trigger boxes are as far apart as the roots. -/
theorem Oriented.triggerOffset_eq (h : Oriented c start w) (regular : c.Regular start pitch ahead reach) {t : TileId}
    (ht : t < w.numTiles) :
    w.triggerOffset t = (w.tiles t).location.x + ahead - w.character.location.x := by
  obtain ⟨hclass, hr, hs⟩ := h.placed t ht
  rw [triggerOffset, GroundTile.triggerTransform, hclass, FTransform.mul_translation_of_same _ hr hs,
    add_comm (w.tiles t).location.x, ← regular.ahead t]
  rfl

/-- On a regular road all trigger boxes are equally wide. -/
theorem Oriented.triggerReach_eq (h : Oriented c start w) (regular : c.Regular start pitch ahead reach) {t : TileId}
    (ht : t < w.numTiles) : w.triggerReach t = reach := by
  obtain ⟨hclass, _, hs⟩ := h.placed t ht
  rw [← regular.reach t, World.triggerReach, GroundTile.triggerTransform, hclass, FTransform.triggerReach,
    FTransform.triggerReach, FTransform.mul_scale3D, FTransform.mul_scale3D, hs]

/-- **A joined pool shows the belt**, from where its first tile is. -/
theorem Oriented.shows (h : Oriented c start w) (regular : c.Regular start pitch ahead reach) {ids : List TileId}
    (hpool : Pool w ids) (hjoined : (w.strip ids).Joined) {x d : K} {m : ℕ}
    (hhead : ∀ t, ids.head? = some t → w.triggerOffset t = place x pitch d m) :
    Belt.Shows w.triggerOffset x pitch d m ids := by
  refine Lib.Belt.shows_of_isChain ?_ hhead
  have hchain : ids.IsChain fun s t => (w.tiles t).location = (w.tiles s).attachTransform.translation := by
    apply ((List.isChain_map w.piece).mp hjoined).imp
    intro s t hst
    rw [piece_tip] at hst
    exact hst
  apply hchain.imp_of_mem_imp
  intro s t hs ht hst
  have hs' := (hpool.mem_iff s).mp hs
  rw [h.triggerOffset_eq regular ((hpool.mem_iff t).mp ht), h.triggerOffset_eq regular hs', hst,
    h.attach_x regular hs']
  ring

/-! ## Frames -/

/-- Recycling sends the pieces to the end; what else may happen leaves the strip as it is. -/
theorem Pool.recycles {es : List (Event K)} (hr : (game K).Run w es w') : ∀ {ids}, Pool w ids →
    (∀ e ∈ es, e.LeavesRoad ∨ e.Recycles) →
    ∃ ids', Pool w' ids' ∧ w'.strip ids' = Strip.run ((recycledTiles es).map .toEnd) (w.strip ids) := by
  induction hr with
  | nil w => exact fun {ids} h _ => ⟨ids, h, rfl⟩
  | @cons w u w' e es hs _ ih =>
    intro ids h hall
    obtain ⟨he, hes⟩ := List.forall_mem_cons.mp hall
    rcases he with hleaves | hrecycles
    · obtain ⟨hpool, hstrip⟩ := (sameWay_step hs hleaves).pool h
      obtain ⟨ids', hpool', hrun⟩ := ih hpool hes
      refine ⟨ids', hpool', ?_⟩
      rw [hrun, hstrip]
      cases e <;> first | rfl | exact hleaves.elim
    · cases e with
      | recycle t left right =>
        obtain ⟨_, _, last, hlast, rfl⟩ := recycleTile_eq_ok.mp hs.2
        obtain ⟨hend, hstrip⟩ := h.toEnd (h.some_mem.mp hs.1) (h.getLast?.mp hlast)
        obtain ⟨hpool, hsame⟩ := hend.of_onlyObstacles (recycled_onlyObstacles w left right t last)
        obtain ⟨ids', hpool', hrun⟩ := ih hpool hes
        refine ⟨ids', hpool', ?_⟩
        rw [hrun, hsame, hstrip, recycledTiles, List.map_cons, Strip.run]
      | _ => exact hrecycles.elim

/-- **Recycling the front of the pool makes the rest the front**, and the road stays joined. -/
theorem Pool.recycles_front {es : List (Event K)} {p q : List TileId} (h : Pool w (p ++ q))
    (hjoined : (w.strip (p ++ q)).Joined) (hne : q ≠ []) (hr : (game K).Run w es w')
    (hes : ∀ e ∈ es, e.LeavesRoad ∨ e.Recycles) (hperm : (recycledTiles es).Perm p) :
    Pool w' (q ++ recycledTiles es) ∧ (w'.strip (q ++ recycledTiles es)).Joined := by
  obtain ⟨ids', hpool', hstrip⟩ := h.recycles hr hes
  have happend : w.strip (p ++ q) = w.strip p ++ w.strip q := List.map_append
  have hne' : w.strip q ≠ [] := fun hnil => hne (List.map_eq_nil_iff.mp hnil)
  have hnodup : (w.strip p ++ w.strip q).ids.Nodup := by
    rw [← happend, ids_strip]
    exact h.nodup
  have hback : (w.strip q).Joined := (List.isChain_append.mp (happend ▸ hjoined)).2.1
  have hperm' : (recycledTiles es).Perm (w.strip p).ids := (ids_strip w p).symm ▸ hperm
  obtain ⟨p', hrun, hsent⟩ := Strip.run_toEnd (recycledTiles es) hnodup hne' hback hperm'
  have hids : ids' = q ++ recycledTiles es := by
    rw [← ids_strip w' ids', hstrip, happend, hrun, Strip.ids_append, ids_strip, hsent]
  subst hids
  refine ⟨hpool', ?_⟩
  rw [hstrip, happend]
  apply Strip.joined_run _ hnodup hne' hback
  rw [Strip.sent_map_toEnd]
  exact hperm'

/-- The pool shows the belt from its `m`-th tile on, which is the first one out of reach. -/
structure Rolling (c : TileClass K) (start : FTransform K) (reach x pitch d : K) (m : ℕ) (w : World K) : Prop where
  oriented : Oriented c start w
  window : ∃ ids, Pool w ids ∧ (w.strip ids).Joined ∧ Belt.Shows w.triggerOffset x pitch d m ids
  taken : Belt.Taken reach x pitch d m

variable [IsStrictOrderedRing K]

/-- While the pool is longer than the two boxes are wide, its last tile is in front of the player when a frame's
motion ends, and none is behind. -/
theorem Rolling.motion {v : World K} {x d dt : K} {m : ℕ} {es₁ es₂ es₃ : List (Event K)}
    (h : Rolling c start reach x pitch d m w) (hreach : 0 < reach) (hpitch : 0 < pitch)
    (hlong : reach + reach + pitch ≤ w.numTiles * pitch) (hstep : w.nextSpeed * dt ≤ reach + reach)
    (hrun : (game K).Run w (es₁ ++ .tick dt :: (es₂ ++ .groundTick :: (es₃ ++ [.physics dt]))) v)
    (hes : ∀ e ∈ es₁ ++ es₂ ++ es₃, e.LeavesRoad) :
    ∃ ids, Pool w ids ∧ Pool v ids ∧ (v.strip ids).Joined ∧
      Belt.Shows v.triggerOffset x pitch (d + w.nextSpeed * dt) m ids ∧
      (∀ t ∈ ids, -reach ≤ v.triggerOffset t) ∧ ∃ t ∈ ids, reach < v.triggerOffset t := by
  obtain ⟨ids, hpool, hjoined, hshows⟩ := h.window
  obtain ⟨hpool', _, _, hback⟩ := motion_facts hpool hrun hes
  have honly := motion_moves_only dt hes
  obtain ⟨ids', ms, hpool'', hsent, hstrip⟩ := Pool.run hrun hpool fun e he => (honly e he).1
  cases hpool'.unique hpool''
  have hplace : ∀ (i : ℕ) (t : TileId), ids[i]? = some t → reach + i * pitch < w.triggerOffset t := by
    intro i t ht
    have hout := lt_of_not_ge ((h.taken m).not.mp (lt_irrefl m))
    rw [hshows i t ht, Lib.Belt.place_add]
    linarith
  obtain ⟨n, hn⟩ : ∃ n, ids.length = n + 1 := by
    apply Nat.exists_eq_succ_of_ne_zero
    intro hnone
    rw [← hpool.length_eq, hnone, Nat.cast_zero, zero_mul] at hlong
    linarith
  have hne : w.strip ids ≠ [] := fun hnil => by simp [List.map_eq_nil_iff.mp hnil] at hn
  refine ⟨ids, hpool, hpool', ?_, hshows.closer hback, ?_, ?_⟩
  · rw [hstrip]
    apply Strip.joined_run ms (p := []) _ hne hjoined
    · rw [hsent, recycledTiles_eq_nil fun e he => (honly e he).2]
      exact List.Perm.refl []
    · rw [List.nil_append, ids_strip]
      exact hpool.nodup
  · intro t ht
    obtain ⟨i, hi⟩ := List.mem_iff_getElem?.mp ht
    have hin := hplace i t hi
    have hfar : (0 : K) ≤ i * pitch := by positivity
    rw [hback t ht]
    linarith
  · obtain ⟨t, ht⟩ : ∃ t, ids[n]? = some t := ⟨_, List.getElem?_eq_getElem (hn ▸ Nat.lt_succ_self n)⟩
    have hmem := List.mem_of_getElem? ht
    have hfar := hplace n t ht
    refine ⟨t, hmem, ?_⟩
    rw [hback t hmem]
    rw [← hpool.length_eq, hn, Nat.cast_succ] at hlong
    linarith

/-- When a frame's motion ends, the player's box overlaps those of the front of the pool, and the rest is out of
reach. -/
theorem Rolling.overlaps {v : World K} {x d dt : K} {m : ℕ} {es₁ es₂ es₃ : List (Event K)}
    (h : Rolling c start reach x pitch d m w) (regular : c.Regular start pitch ahead reach) (hpitch : 0 < pitch)
    (hlong : reach + reach + pitch ≤ w.numTiles * pitch) (hstep : w.nextSpeed * dt ≤ reach + reach)
    (hrun : (game K).Run w (es₁ ++ .tick dt :: (es₂ ++ .groundTick :: (es₃ ++ [.physics dt]))) v)
    (hes : ∀ e ∈ es₁ ++ es₂ ++ es₃, e.LeavesRoad) :
    ∃ p q, Pool w (p ++ q) ∧ Pool v (p ++ q) ∧ (v.strip (p ++ q)).Joined ∧ q ≠ [] ∧
      Belt.Shows v.triggerOffset x pitch (d + w.nextSpeed * dt) m (p ++ q) ∧
      (∀ t ∈ p, v.triggerOffset t ≤ reach) ∧ (∀ t ∈ q, reach < v.triggerOffset t) ∧
      ∀ t, some t ∈ v.gameMode.groundTiles ∧ v.Overlaps t ↔ t ∈ p := by
  obtain ⟨ids, hfirst, hpool, hjoined, hshows, hback, t₀, ht₀, hfar⟩ :=
    h.motion regular.reach_pos hpitch hlong hstep hrun hes
  obtain ⟨p, q, rfl, hp, hq⟩ := hshows.split (r := reach) hpitch
  have hne : q ≠ [] := by
    rintro rfl
    rw [List.append_nil] at ht₀
    exact absurd (hp t₀ ht₀) (not_le_of_gt hfar)
  refine ⟨p, q, hfirst, hpool, hjoined, hne, hshows, hp, hq, ?_⟩
  intro t
  rw [hpool.some_mem]
  constructor
  · rintro ⟨ht, hover⟩
    have hreach := (h.oriented.run hrun).triggerReach_eq regular ((hpool.mem_iff t).mp ht)
    rcases List.mem_append.mp ht with hin | hout
    · exact hin
    · exact absurd (hover.2.trans_eq hreach) (not_le_of_gt (hq t hout))
  · intro ht
    have hmem := List.mem_append_left q ht
    have hreach := (h.oriented.run hrun).triggerReach_eq regular ((hpool.mem_iff t).mp hmem)
    rw [Overlaps, hreach]
    exact ⟨hmem, hback t hmem, hp t ht⟩

/-- **A frame recycles exactly what has come within reach**, and the window moves on by as many tiles: they leave the
front of the pool, and come to its end as they were recycled. -/
theorem Rolling.frame {x d dt : K} {m : ℕ} {es : List (Event K)} (h : Rolling c start reach x pitch d m w)
    (regular : c.Regular start pitch ahead reach) (hpitch : 0 < pitch)
    (hlong : reach + reach + pitch ≤ w.numTiles * pitch)
    (hstep : 0 ≤ w.nextSpeed * dt ∧ w.nextSpeed * dt ≤ reach + reach) (hframe : PlayFrame dt es w w') :
    Rolling c start reach x pitch (d + w.nextSpeed * dt) (m + (recycledTiles es).length) w' ∧
      ∃ p q, Pool w (p ++ q) ∧ (recycledTiles es).Perm p ∧ Pool w' (q ++ recycledTiles es) := by
  obtain ⟨es₁, es₂, es₃, es₄, v, rfl, hmotion, hothers, hrecycles, hes, hnodup, hmem⟩ := hframe
  have hquiet := motion_moves_only dt hothers
  rw [recycledTiles_append, recycledTiles_eq_nil fun e he => (hquiet e he).2, List.nil_append]
  obtain ⟨p, q, hfirst, hpool, hjoined, hne, hshows, hp, hq, hseen⟩ :=
    h.overlaps regular hpitch hlong hstep.2 hmotion hothers
  obtain ⟨hnodup₁, _, hdisjoint⟩ := List.nodup_append.mp hpool.nodup
  have hperm : (recycledTiles es₄).Perm p :=
    (List.perm_ext_iff_of_nodup hnodup hnodup₁).mpr fun t => (hmem t).trans (hseen t)
  obtain ⟨hpool', hjoined'⟩ := hpool.recycles_front hjoined hne hrecycles hes hperm
  have horiented : Oriented c start w' := (h.oriented.run hmotion).run hrecycles
  rw [hperm.length_eq]
  refine ⟨⟨horiented, ⟨_, hpool', hjoined', ?_⟩, h.taken.advance hpitch hstep.1 hshows hp hq hne⟩,
    p, q, hfirst, hperm, hpool'⟩
  apply horiented.shows regular hpool' hjoined'
  intro t ht
  rw [List.head?_append_of_ne_nil _ hne] at ht
  obtain ⟨_, _, _, hstay⟩ := recycles_facts hrecycles ⟨_, hpool⟩ hes
  rw [hstay t, hshows.head_right ht]
  intro htp
  exact hdisjoint t (hperm.mem_iff.mp htp) t (List.mem_of_mem_head? ht) rfl

/-- How far frames of these lengths take the road. -/
def covered (w : World K) (dts : List K) : K := (w.stepsAhead dts).sum

/-- None of them takes it back, or further than the two boxes are wide together. -/
def Gentle (reach : K) (w : World K) (dts : List K) : Prop := ∀ s ∈ w.stepsAhead dts, 0 ≤ s ∧ s ≤ reach + reach

def recycledCount (fs : List (K × List (Event K))) : ℕ := (recycledInTurn fs).length

omit [Field K] [LinearOrder K] [IsStrictOrderedRing K] in
theorem recycledCount_cons (dt : K) (es : List (Event K)) (fs : List (K × List (Event K))) :
    recycledCount ((dt, es) :: fs) = (recycledTiles es).length + recycledCount fs := by
  rw [recycledCount, recycledInTurn, List.flatMap_cons, List.length_append]
  rfl

/-- **The window rolls along the belt**, frame after frame. -/
theorem Rolling.play {fs : List (K × List (Event K))} (regular : c.Regular start pitch ahead reach) (hpitch : 0 < pitch)
    (hplay : Play w fs w') : ∀ {x d : K} {m : ℕ}, Rolling c start reach x pitch d m w →
      reach + reach + pitch ≤ w.numTiles * pitch →
      Gentle reach w (fs.map Prod.fst) →
      Rolling c start reach x pitch (d + w.covered (fs.map Prod.fst)) (m + recycledCount fs) w' ∧
        w'.numTiles = w.numTiles := by
  induction hplay with
  | nil w =>
    intro x d m h _ _
    exact ⟨by simpa [covered, stepsAhead, steps, recycledCount, recycledInTurn] using h, rfl⟩
  | @cons w u w' dt es fs hframe _ ih =>
    intro x d m h hlong hsteps
    have hpool : ∃ ids, Pool w ids := h.window.imp fun _ => And.left
    rw [List.map_cons, Gentle, hframe.stepsAhead hpool] at hsteps
    obtain ⟨hstep, hrest⟩ := List.forall_mem_cons.mp hsteps
    obtain ⟨_, hnum, _⟩ := hframe.facts hpool
    obtain ⟨hthen, hnum'⟩ := ih (h.frame regular hpitch hlong hstep hframe).1 (hnum ▸ hlong) hrest
    rw [List.map_cons, covered, hframe.stepsAhead hpool, List.sum_cons, recycledCount_cons, ← add_assoc, ← add_assoc]
    exact ⟨hthen, hnum'.trans hnum⟩

/-! ## Every frame can be played -/

omit [IsStrictOrderedRing K] in
/-- Any tiles of the pool can be recycled one after the other. -/
theorem Oriented.exists_recycles (ts : List TileId) : ∀ {w : World K}, Oriented c start w → OnLanes w →
    (∀ t ∈ ts, t < w.numTiles) →
    ∃ es w', (game K).Run w es w' ∧ (∀ e ∈ es, e.Recycles) ∧ recycledTiles es = ts ∧ OnLanes w' := by
  induction ts with
  | nil => exact fun {w} _ hlanes _ => ⟨[], w, .nil w, by simp, rfl, hlanes⟩
  | cons t ts ih =>
    intro w h hlanes hts
    obtain ⟨ht, hrest⟩ := List.forall_mem_cons.mp hts
    obtain ⟨last, v, _, hstep, honly⟩ := h.exists_recycle ht
    have hlanes' : OnLanes v := by
      refine ⟨?_, ?_, ?_, ?_, ?_⟩
      all_goals rw [honly.gameMode]
      · exact hlanes.player
      · exact hlanes.nonneg
      · exact hlanes.le_two
      · exact hlanes.inRange
      · rw [honly.character]
        exact hlanes.settled
    obtain ⟨es, w', hrun, hes, hsame, hfinal⟩ := ih (h.step hstep) hlanes' fun s hs => honly.numTiles ▸ hrest s hs
    refine ⟨_, w', .cons hstep hrun, List.forall_mem_cons.mpr ⟨trivial, hes⟩, ?_, hfinal⟩
    rw [recycledTiles, hsame]

/-- A frame of suitable length can be played. -/
theorem Rolling.exists_frame {x d dt : K} {m : ℕ} (h : Rolling c start reach x pitch d m w)
    (regular : c.Regular start pitch ahead reach) (hlanes : OnLanes w) (hpitch : 0 < pitch)
    (hlong : reach + reach + pitch ≤ w.numTiles * pitch) (hstep : w.nextSpeed * dt ≤ reach + reach) :
    ∃ es w', PlayFrame dt es w w' ∧ OnLanes w' := by
  obtain ⟨v, hmotion, hlanes'⟩ := hlanes.exists_motion dt
  have hnothing : ∀ e ∈ ([] ++ [] ++ [] : List (Event K)), e.LeavesRoad := by simp
  obtain ⟨p, q, _, hpool, _, _, _, _, _, hseen⟩ := h.overlaps regular hpitch hlong hstep hmotion hnothing
  obtain ⟨es, w', hrun, hes, hsame, hfinal⟩ := (h.oriented.run hmotion).exists_recycles p hlanes'
    fun t ht => (hpool.mem_iff t).mp (List.mem_append_left q ht)
  subst hsame
  exact ⟨_, w', ⟨[], [], [], es, v, rfl, hmotion, hnothing, hrun, fun e he => .inr (hes e he),
    (List.nodup_append.mp hpool.nodup).1, fun t => (hseen t).symm⟩, hfinal⟩

/-- Frames of suitable lengths can be played, one after the other. -/
theorem Rolling.exists_play (regular : c.Regular start pitch ahead reach) (hpitch : 0 < pitch) (dts : List K) :
    ∀ {w : World K} {x d : K} {m : ℕ}, Rolling c start reach x pitch d m w → OnLanes w →
      reach + reach + pitch ≤ w.numTiles * pitch → Gentle reach w dts →
      ∃ fs w', fs.map Prod.fst = dts ∧ Play w fs w' := by
  induction dts with
  | nil => exact fun {w} _ _ _ _ _ _ _ => ⟨[], w, rfl, .nil w⟩
  | cons dt dts ih =>
    intro w x d m h hlanes hlong hsteps
    have hpool : ∃ ids, Pool w ids := h.window.imp fun _ => And.left
    have hfirst : 0 ≤ w.nextSpeed * dt ∧ w.nextSpeed * dt ≤ reach + reach := hsteps _ List.mem_cons_self
    obtain ⟨es, u, hframe, hlanes'⟩ := h.exists_frame regular hlanes hpitch hlong hfirst.2
    obtain ⟨_, hnum, _⟩ := hframe.facts hpool
    rw [Gentle, hframe.stepsAhead hpool] at hsteps
    obtain ⟨hstep, hrest⟩ := List.forall_mem_cons.mp hsteps
    obtain ⟨fs, w', rfl, hplay⟩ := ih (h.frame regular hpitch hlong hstep hframe).1 hlanes' (hnum ▸ hlong) hrest
    exact ⟨(dt, es) :: fs, w', rfl, .cons hframe hplay⟩

/-! ## From `BeginPlay` -/

omit [IsStrictOrderedRing K] in
/-- The start-up loop adds its tiles in the order of their numbers. -/
theorem tiles_withRounds (h : w.gameMode.groundTiles = (List.range w.numTiles).map some) (c : TileClass K)
    (tile : ℕ → TileDraw K) (n : ℕ) :
    (w.withRounds c tile n).numTiles = w.numTiles + n ∧
      (w.withRounds c tile n).gameMode.groundTiles = (List.range (w.numTiles + n)).map some := by
  induction n with
  | zero => exact ⟨rfl, h⟩
  | succ n ih =>
    obtain ⟨hnum, hground⟩ := ih
    have honly := withRound_onlyObstacles (w.withRounds c tile n) c (tile n)
    refine ⟨honly.numTiles.trans (congrArg (· + 1) hnum), ?_⟩
    have hnew : (w.withRounds c tile (n + 1)).gameMode.groundTiles =
        (w.withRounds c tile n).gameMode.groundTiles ++ [some (w.withRounds c tile n).numTiles] :=
      congrArg GameMode.groundTiles honly.gameMode
    rw [hnew, hground, hnum, ← add_assoc, List.range_succ, List.map_append, List.map_singleton]

/-- `BeginPlay` leaves the tiles in the order of their numbers, one more than it was told. -/
theorem Initial.pool_range {w₀ : World K} {a : BeginPlayAnswers K} (init : w.Initial)
    (begun : w.beginPlay a = .ok w₀) :
    w₀.numTiles = w.gameMode.numInitialGroundTiles.toNat + 1 ∧ Pool w₀ (List.range w₀.numTiles) := by
  obtain ⟨ids, hpool⟩ := (init.laid begun).1.pool
  obtain ⟨c, _, _, _, hrounds⟩ := beginPlay_eq_ok.mp begun
  have hnone : (w.opened a.player c).numTiles = 1 := congrArg (· + 1) init.numTiles
  have hfirst : (w.opened a.player c).gameMode.groundTiles =
      (List.range (w.opened a.player c).numTiles).map some := by
    rw [hnone]
    show w.gameMode.groundTiles ++ [some w.numTiles] = _
    rw [init.groundTiles, init.numTiles]
    rfl
  obtain ⟨hnum, hground⟩ := tiles_withRounds hfirst c a.tile w.gameMode.numInitialGroundTiles.toNat
  rw [← hrounds, hnone] at hnum hground
  rw [← hnum] at hground
  refine ⟨hnum.trans (add_comm _ _), ?_⟩
  cases List.map_injective_iff.mpr (Option.some_injective _) (hpool.groundTiles.symm.trans hground)
  exact hpool

/-- What a play sets out from: `BeginPlay` has laid a regular road whose tiles after the first are together no shorter
than the two boxes are wide, and the first tile's box is in front of the player's. -/
structure Outset (w : World K) (a : BeginPlayAnswers K) (c : TileClass K) (pitch ahead reach : K)
    (w₀ : World K) : Prop where
  init : w.Initial
  groundTileClass : w.gameMode.groundTileClass = some c
  begun : w.beginPlay a = .ok w₀
  regular : c.Regular w.gameMode.nextSpawnPoint pitch ahead reach
  pitch_pos : 0 < pitch
  long : reach + reach ≤ w.gameMode.numInitialGroundTiles.toNat * pitch
  inFront : InFront w₀ 0

section Outset

variable {w₀ u : World K} {a : BeginPlayAnswers K} {fs : List (K × List (Event K))}

theorem Outset.room (h : Outset w a c pitch ahead reach w₀) :
    reach + reach + pitch ≤ w₀.numTiles * pitch := by
  have hlong := h.long
  rw [(h.init.pool_range h.begun).1, Nat.cast_succ]
  linarith

theorem Outset.front (h : Outset w a c pitch ahead reach w₀) : reach < w₀.triggerOffset 0 := by
  have hsome : 0 < w₀.numTiles := (h.init.pool_range h.begun).1 ▸ Nat.succ_pos _
  rw [← (h.init.oriented h.groundTileClass h.begun).1.triggerReach_eq h.regular hsome]
  exact h.inFront

/-- It shows the belt from its beginning. -/
theorem Outset.rolling (h : Outset w a c pitch ahead reach w₀) :
    Rolling c w.gameMode.nextSpawnPoint reach (w₀.triggerOffset 0) pitch 0 0 w₀ := by
  obtain ⟨horiented, _⟩ := h.init.oriented h.groundTileClass h.begun
  obtain ⟨ids, hpool, hjoined⟩ := (h.init.laid h.begun).1
  obtain ⟨hnum, hrange⟩ := h.init.pool_range h.begun
  refine ⟨horiented, ⟨ids, hpool, hjoined, horiented.shows h.regular hpool hjoined ?_⟩, fun j => ?_⟩
  · cases hpool.unique hrange
    intro t ht
    rw [hnum, List.range_succ_eq_map] at ht
    cases ht
    simp [place]
  · refine iff_of_false (Nat.not_lt_zero j) ?_
    have hpitch := h.pitch_pos
    have hfar : (0 : K) ≤ j * pitch := by positivity
    have hfront := h.front
    rw [place]
    linarith

/-- And it rolls as long as the frames are short enough. -/
theorem Outset.rolls (h : Outset w a c pitch ahead reach w₀) (hplay : Play w₀ fs u)
    (hgentle : Gentle reach w₀ (fs.map Prod.fst)) :
    Rolling c w.gameMode.nextSpawnPoint reach (w₀.triggerOffset 0) pitch (w₀.covered (fs.map Prod.fst))
      (recycledCount fs) u ∧ u.numTiles = w₀.numTiles := by
  obtain ⟨hrolls, hnum⟩ := h.rolling.play h.regular h.pitch_pos hplay h.room hgentle
  rw [zero_add, zero_add] at hrolls
  exact ⟨hrolls, hnum⟩

/-- Such frames can be played. -/
theorem Outset.exists_play (h : Outset w a c pitch ahead reach w₀) (lane : FindsLane w)
    (player : a.player.isSome = true) {dts : List K} (hgentle : Gentle reach w₀ dts) :
    ∃ fs u, fs.map Prod.fst = dts ∧ Play w₀ fs u :=
  h.rolling.exists_play h.regular h.pitch_pos dts (onLanes_beginPlay h.init lane h.begun player).1 h.room hgentle

/-- **The pool is a window of an endless road.** The road begins at the first tile that `BeginPlay` spawns, with
a tile at every multiple of the pitch, and the player has come some way along it. In every play whose frames
are short enough, the number of tiles that were recycled is the number of road tiles that have come within
reach, and the pool's tiles, in their order, are where the next tiles of the road are. -/
theorem endless_road (outset : Outset w a c pitch ahead reach w₀) (play : Play w₀ fs u)
    (gentle : Gentle reach w₀ (fs.map Prod.fst)) :
    ∃ ids : List TileId, u.gameMode.groundTiles = ids.map some ∧ ids.length = w₀.numTiles ∧
      (∀ j, j < recycledCount fs ↔
        place (w₀.triggerOffset 0) pitch (w₀.covered (fs.map Prod.fst)) j ≤ reach) ∧
      ∀ i t, ids[i]? = some t → u.triggerOffset t =
        place (w₀.triggerOffset 0) pitch (w₀.covered (fs.map Prod.fst)) (recycledCount fs + i) := by
  obtain ⟨⟨_, ⟨ids, hpool, _, hshows⟩, htaken⟩, hnum⟩ := outset.rolls play gentle
  exact ⟨ids, hpool.groundTiles, hpool.length_eq.trans hnum, htaken, hshows⟩

end Outset

/-- Tiles of length 400, with trigger boxes of half the width a hundred behind their beginnings. -/
def halfBoxes : TileClass ℚ := .ofWidth ⟨400, 0, 0⟩ ⟨100, 0, 0⟩ (1 / 2)

/-- Three of them. -/
def threeBoxes : World ℚ := started halfBoxes 2 (some ()) .bare

theorem triggerOffset_threeBoxes : threeBoxes.triggerOffset 0 = 100 := by decide +kernel

theorem stepsAhead_threeBoxes (dts : List ℚ) : threeBoxes.stepsAhead dts = steps id 600 (1 / 10) dts := by
  obtain ⟨_, _, hmode⟩ := (beginPlay_onlyTiles (beginPlay_fresh halfBoxes 2 (some ()) TileDraw.safe_bare) rfl).gameMode
  rw [stepsAhead, threeBoxes, hmode]
  rfl

theorem outset_threeBoxes :
    Outset (World.fresh halfBoxes 2) ⟨some (), true, fun _ => .bare⟩ halfBoxes 400 100 40 threeBoxes where
  init := World.fresh_initial _ 2
  groundTileClass := rfl
  begun := beginPlay_fresh _ 2 _ TileDraw.safe_bare
  regular := by
    have hregular := TileClass.regular_ofWidth (⟨400, 0, 0⟩ : FVector ℚ) ⟨100, 0, 0⟩ (1 / 2) 0
    norm_num [abs_of_pos] at hregular
    exact hregular
  pitch_pos := by norm_num
  long := by
    show (40 + 40 : ℚ) ≤ (2 : ℕ) * 400
    norm_num
  inFront := by
    rw [InFront, triggerOffset_threeBoxes]
    decide +kernel

/-- Two frames of a tenth of a second on three tiles of length 400. -/
theorem exists_twoFrames : ∃ fs u, fs.map Prod.fst = [1 / 10, 1 / 10] ∧ Play threeBoxes fs u ∧
    Gentle 40 threeBoxes (fs.map Prod.fst) ∧ threeBoxes.covered (fs.map Prod.fst) = 12003 / 100 := by
  have hgentle : Gentle 40 threeBoxes [1 / 10, 1 / 10] := by
    rw [Gentle, stepsAhead_threeBoxes]
    norm_num [steps]
  obtain ⟨fs, u, hfst, hplay⟩ := outset_threeBoxes.exists_play (findsLane_fresh _ 2) rfl hgentle
  refine ⟨fs, u, hfst, hplay, hfst ▸ hgentle, ?_⟩
  rw [hfst, covered, stepsAhead_threeBoxes]
  norm_num [steps]

/-- They recycle one tile. -/
theorem endless_road_twoFrames : ∃ fs u, fs.map Prod.fst = [1 / 10, 1 / 10] ∧ Play threeBoxes fs u ∧
    recycledCount fs = 1 := by
  obtain ⟨fs, u, hfst, hplay, hgentle, hcovered⟩ := exists_twoFrames
  obtain ⟨_, _, _, hcount, _⟩ := endless_road outset_threeBoxes hplay hgentle
  rw [triggerOffset_threeBoxes, hcovered] at hcount
  have h0 : 0 < recycledCount fs := (hcount 0).mpr (by norm_num [place])
  have h1 : ¬ 1 < recycledCount fs := (hcount 1).not.mpr (by norm_num [place])
  exact ⟨fs, u, hfst, hplay, by omega⟩

/-- **How far the road has come settles where it is.** Two plays that have come equally far, whatever their frames and
the orders in which these recycle, have recycled equally many tiles, and the `i`-th tile of the pool after the
one is as far from the player as the `i`-th tile after the other. -/
theorem road_settled_by_distance {w₀ u u' : World K} {a : BeginPlayAnswers K}
    {fs fs' : List (K × List (Event K))}
    (outset : Outset w a c pitch ahead reach w₀) (play : Play w₀ fs u) (gentle : Gentle reach w₀ (fs.map Prod.fst))
    (play' : Play w₀ fs' u') (gentle' : Gentle reach w₀ (fs'.map Prod.fst))
    (same : w₀.covered (fs.map Prod.fst) = w₀.covered (fs'.map Prod.fst)) :
    recycledCount fs = recycledCount fs' ∧
      ∀ (i : ℕ) (t t' : TileId), u.gameMode.groundTiles[i]? = some (some t) →
        u'.gameMode.groundTiles[i]? = some (some t') →
        (u.tiles t).location.x - u.character.location.x =
          (u'.tiles t').location.x - u'.character.location.x := by
  obtain ⟨⟨horiented, ⟨ids, hpool, _, hshows⟩, htaken⟩, _⟩ := outset.rolls play gentle
  obtain ⟨⟨horiented', ⟨ids', hpool', _, hshows'⟩, htaken'⟩, _⟩ := outset.rolls play' gentle'
  rw [← same] at hshows' htaken'
  have hcount := htaken.unique htaken'
  refine ⟨hcount, ?_⟩
  intro i t t' ht ht'
  have hentry := hpool.getElem?_eq.mp ht
  have hentry' := hpool'.getElem?_eq.mp ht'
  have hoffset : u.triggerOffset t = u'.triggerOffset t' := by
    rw [hshows i t hentry, hshows' i t' hentry', hcount]
  rw [horiented.triggerOffset_eq outset.regular ((hpool.mem_iff t).mp (List.mem_of_getElem? hentry)),
    horiented'.triggerOffset_eq outset.regular ((hpool'.mem_iff t').mp (List.mem_of_getElem? hentry'))] at hoffset
  linarith

/-- Two frames and three that take the road equally far. -/
theorem road_settled_by_distance_twoAndThree : ∃ fs fs' u u', fs.map Prod.fst = [1 / 10, 1 / 10] ∧
    fs'.map Prod.fst = [1 / 10, 1 / 20, 3001 / 60030] ∧ Play threeBoxes fs u ∧ Play threeBoxes fs' u' ∧
    recycledCount fs = recycledCount fs' := by
  have hgentle' : Gentle 40 threeBoxes [1 / 10, 1 / 20, 3001 / 60030] := by
    rw [Gentle, stepsAhead_threeBoxes]
    norm_num [steps]
  have hcovered' : threeBoxes.covered [1 / 10, 1 / 20, 3001 / 60030] = 12003 / 100 := by
    rw [covered, stepsAhead_threeBoxes]
    norm_num [steps]
  obtain ⟨fs, u, hfst, hplay, hgentle, hcovered⟩ := exists_twoFrames
  obtain ⟨fs', u', hfst', hplay'⟩ := outset_threeBoxes.exists_play (findsLane_fresh _ 2) rfl hgentle'
  rw [← hfst'] at hgentle' hcovered'
  exact ⟨fs, fs', u, u', hfst, hfst', hplay, hplay', (road_settled_by_distance outset_threeBoxes hplay
    hgentle hplay' hgentle' (hcovered.trans hcovered'.symm)).1⟩

end World

end EndlessRunner
