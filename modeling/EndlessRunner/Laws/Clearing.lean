import EndlessRunner.Laws.Obstacles

/-!
# Clearing a tile

`ClearObstacles` walks the tile's list from its end and takes entries out of it on the way. Its calls are a run of a
small machine (`World.run_clearCalls_iff`), in which a call with an index outside the list as it is then faults. The
loop succeeds whatever the list, so none of its calls does, and what it destroys can be counted among them
(`World.clearObstacles_clears`).
-/

set_option autoImplicit false

namespace EndlessRunner

open Lib (Machine)

variable {K : Type} [Field K]

namespace World

/-- The calls of the loop of `ClearObstacles`, with `n` entries still to visit. -/
def clearCalls (t : TileId) (n : ℕ) (w : World K) : List ClearCall := (clearLoop t n w).calls

/-- What a call does, on tile `t`'s list or to an obstacle. -/
def performClearCall (t : TileId) (w : World K) : ClearCall → Except Fault (World K)
  | .read i => do
    let _ ← TArray.get (w.tiles t).obstacles i
    pure w
  | .removeAt i => do
    let entries ← TArray.removeAt (w.tiles t).obstacles i
    pure (w.modifyTile t fun tile => { tile with obstacles := entries })
  | .destroy o => pure (w.destroy o)

/-- The calls on tile `t`'s list and on obstacles. -/
def clearing (K : Type) [Field K] (t : TileId) : Machine (World K) ClearCall Fault where
  enabled _ _ := True
  step := performClearCall t

/-- The call reads and removes within tile `t`'s list as it is. -/
def InRange (t : TileId) (w : World K) : ClearCall → Prop
  | .read i | .removeAt i => 0 ≤ i ∧ i < (w.tiles t).obstacles.length
  | .destroy _ => True

/-- A call that succeeds is within the list. -/
theorem inRange_of_step {t : TileId} {w w' : World K} {call : ClearCall} (hs : (clearing K t).Step w call w') :
    InRange t w call := by
  have hstep : performClearCall t w call = .ok w' := hs.2
  cases call with
  | read i =>
    obtain ⟨entry, hget, _⟩ := bind_eq_ok.mp hstep
    obtain ⟨h0, hentry⟩ := TArray.get_eq_ok.mp hget
    obtain ⟨hlt, _⟩ := List.getElem?_eq_some_iff.mp hentry
    exact ⟨h0, (Int.toNat_lt h0).mp hlt⟩
  | removeAt i =>
    obtain ⟨entries, hremove, _⟩ := bind_eq_ok.mp hstep
    obtain ⟨h0, hlt, _⟩ := TArray.removeAt_eq_ok.mp hremove
    exact ⟨h0, (Int.toNat_lt h0).mp hlt⟩
  | destroy o => trivial

/-- **The loop makes these calls, and does nothing else.** -/
theorem run_clearCalls_iff (t : TileId) (n : ℕ) {w' : World K} : ∀ {w : World K},
    (clearing K t).Run w (clearCalls t n w) w' ↔ (clearLoop t n w).result = .ok w' := by
  induction n with
  | zero =>
    intro w
    exact Machine.run_nil.trans (Except.ok.injEq w w').to_iff.symm
  | succ n ih =>
    intro w
    rw [clearCalls, clearLoop]
    cases hget : TArray.get (w.tiles t).obstacles n with
    | error e =>
      rw [Logged.call_error_bind]
      refine iff_of_false (fun hrun => ?_) (fun h => by cases h)
      obtain ⟨entry, hentry, _⟩ := bind_eq_ok.mp (Machine.run_singleton.mp hrun).2
      cases hget.symm.trans hentry
    | ok entry =>
      have hread : (clearing K t).Step w (.read n) w := ⟨trivial, bind_eq_ok.mpr ⟨entry, hget, rfl⟩⟩
      rw [Logged.call_ok_bind, Machine.run_cons_of_step hread]
      cases entry with
      | none => exact ih
      | some o =>
        cases hremove : TArray.removeAt (w.tiles t).obstacles n with
        | error e =>
          simp only [Logged.call_error_bind]
          refine iff_of_false (fun hrun => ?_) (fun h => by cases h)
          obtain ⟨entries, hentries, _⟩ := bind_eq_ok.mp (Machine.run_singleton.mp hrun).2
          cases hremove.symm.trans hentries
        | ok entries =>
          have htaken : (clearing K t).Step w (.removeAt n)
              (w.modifyTile t fun tile => { tile with obstacles := entries }) :=
            ⟨trivial, bind_eq_ok.mpr ⟨entries, hremove, rfl⟩⟩
          have hdestroyed : (clearing K t).Step (w.modifyTile t fun tile => { tile with obstacles := entries })
              (.destroy o) ((w.modifyTile t fun tile => { tile with obstacles := entries }).destroy o) :=
            ⟨trivial, rfl⟩
          simp only [Logged.call_ok_bind]
          rw [Machine.run_cons_of_step htaken, Machine.run_cons_of_step hdestroyed]
          exact ih

/-- The loop destroys an obstacle as often as it stands among the entries that are to be visited. -/
theorem count_destroy_clearCalls (t : TileId) (o : ObstacleId) (n : ℕ) : ∀ {w : World K},
    n ≤ (w.tiles t).obstacles.length →
      (clearCalls t n w).count (.destroy o) = ((w.tiles t).obstacles.take n).count (some o) := by
  induction n with
  | zero =>
    intro w _
    rw [List.take_zero]
    rfl
  | succ n ih =>
    intro w hn
    have hlt : n < (w.tiles t).obstacles.length := hn
    rw [clearCalls, clearLoop, TArray.get_natCast hlt, Logged.call_ok_bind, List.take_succ_eq_append_getElem hlt,
      List.count_append, List.count_cons_of_ne (by simp)]
    cases hentry : (w.tiles t).obstacles[n] with
    | none =>
      rw [List.count_singleton, if_neg (by simp), Nat.add_zero]
      exact ih hlt.le
    | some p =>
      simp only [TArray.removeAt_natCast hlt, Logged.call_ok_bind]
      rw [List.count_cons_of_ne (by simp), List.count_cons]
      refine (congrArg (· + _) (ih ?_)).trans ?_
      · rw [destroy_tiles, modifyTile_tiles_self, List.length_eraseIdx_of_lt hlt]
        exact Nat.le_sub_one_of_lt hlt
      · -- what is left to visit is not moved by the removal
        rw [destroy_tiles, modifyTile_tiles_self, List.take_eraseIdx_eq_take_of_le _ _ _ le_rfl, List.count_singleton]
        simp

/-- **`ClearObstacles` stays within the list it takes entries out of, destroys each obstacle of it once and no other,
and leaves only null entries.** -/
theorem clearObstacles_clears {w : World K} {t : TileId}
    (distinct : ((w.tiles t).obstacles.filter (·.isSome)).Nodup) :
    ∃ w', w.clearObstacles (some t) = .ok w' ∧
      (clearing K t).Run w (clearCalls t (w.tiles t).obstacles.length w) w' ∧
      (clearing K t).Along (InRange t) w (clearCalls t (w.tiles t).obstacles.length w) ∧
      (∀ o, (clearCalls t (w.tiles t).obstacles.length w).count (.destroy o) =
        if some o ∈ (w.tiles t).obstacles then 1 else 0) ∧
      ∀ entry ∈ (w'.tiles t).obstacles, entry = none := by
  have hrun := (run_clearCalls_iff t _).mpr (clearObstacles_some w t)
  refine ⟨_, clearObstacles_some w t, hrun, hrun.along fun _ _ _ => inRange_of_step, fun o => ?_,
    fun entry hentry => ?_⟩
  · have hcount : (w.tiles t).obstacles.count (some o) = ((w.tiles t).obstacles.filter (·.isSome)).count (some o) :=
      (List.count_filter rfl).symm
    rw [count_destroy_clearCalls t o _ le_rfl, List.take_length, hcount, distinct.count]
    simp
  · rw [cleared_obstacles] at hentry
    exact Option.isNone_iff_eq_none.mp (List.mem_filter.mp hentry).2

/-- A list with a null entry, an obstacle that was hit before, and one that was not. -/
theorem clearObstacles_clears_afterHit :
    ∃ u, (game ℚ).Run fullRoad (staleRecycle ++ [.hit 2 .runner]) u ∧ (u.obstacles 2).pendingKill = true ∧
      ∃ w', u.clearObstacles (some 1) = .ok w' ∧ (clearCalls 1 3 u).count (.destroy 2) = 1 ∧
        ∀ entry ∈ (w'.tiles 1).obstacles, entry = none := by
  have hexec : ((game ℚ).exec fullRoad (staleRecycle ++ [.hit 2 .runner])).map
      (fun u => ((u.tiles 1).obstacles, (u.obstacles 2).pendingKill)) = some ([none, some 2, some 3], true) := by
    decide +kernel
  obtain ⟨u, hu, heq⟩ := Option.map_eq_some_iff.mp hexec
  obtain ⟨hlist, hkilled⟩ := Prod.mk.inj heq
  obtain ⟨w', hcleared, _, _, hcount, hnull⟩ := clearObstacles_clears (w := u) (t := 1) (by rw [hlist]; decide)
  refine ⟨u, Machine.exec_eq_some.mp hu, hkilled, w', hcleared, ?_, hnull⟩
  have htwo := hcount 2
  rw [hlist] at htwo
  exact htwo

end World

end EndlessRunner
