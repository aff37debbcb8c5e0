import EndlessRunner.Laws.Parts
import EndlessRunner.Laws.Invincibility

/-!
# The order of events

The engine promises no order for what happens in one frame: actors tick, boxes meet and timers fire as it sees fit.
Where two events work with different parts of the world, or are both hits, the order makes no difference
(`World.run_reordered`). So the game is three machines side by side, the lanes, the shield and the road, and each runs
by its own events alone (`World.game_splits`).
-/

set_option autoImplicit false

namespace EndlessRunner

open Lib (Machine Footprint)

variable {K : Type} [Field K]

namespace World

/-! ## Hits -/

theorem destroy_comm (w : World K) (o p : ObstacleId) : (w.destroy o).destroy p = (w.destroy p).destroy o := by
  by_cases h : o = p
  · rw [h]
  · have hne : p ≠ o := fun heq => h heq.symm
    simp only [destroy, modifyObstacle, Function.update_of_ne hne, Function.update_of_ne h, World.mk.injEq, true_and,
      and_true]
    exact Function.update_comm h ..

section Ordered

variable [LinearOrder K]

theorem togglePlayerInvincibility_destroy (w : World K) (o : ObstacleId) (value : Bool) :
    (w.destroy o).togglePlayerInvincibility value = (w.togglePlayerInvincibility value).destroy o := by
  rcases hp : w.gameMode.player with _ | p
  · simp only [togglePlayerInvincibility, destroy, modifyObstacle, hp]
  · by_cases hduration : 0 < w.gameMode.invincibilityDuration
    · simp only [togglePlayerInvincibility, setTimer, destroy, modifyObstacle, hp, hduration, if_true]
    · simp only [togglePlayerInvincibility, setTimer, destroy, modifyObstacle, hp, hduration, if_false]

/-- What a hit does to the runner. -/
def hurt (w : World K) : World K :=
  (if w.character.bIsInvincible = true then w else w.updateLives (-1)).togglePlayerInvincibility true

theorem struck_eq_hurt (w : World K) (o : ObstacleId) : w.struck o = w.hurt.destroy o := rfl

/-- It does not depend on which obstacles are destroyed. -/
theorem hurt_destroy (w : World K) (o : ObstacleId) : (w.destroy o).hurt = w.hurt.destroy o := by
  have hflag : (w.destroy o).character = w.character := rfl
  unfold hurt
  rw [hflag]
  split_ifs
  · exact togglePlayerInvincibility_destroy w o true
  · exact togglePlayerInvincibility_destroy (w.updateLives (-1)) o true

/-- **Of two hits in a row it does not matter which comes first**: the first costs the life, and each sets the same
timer. -/
theorem struck_comm (w : World K) (o p : ObstacleId) : (w.struck o).struck p = (w.struck p).struck o := by
  rw [struck_eq_hurt, struck_eq_hurt, struck_eq_hurt, struck_eq_hurt, hurt_destroy, hurt_destroy, destroy_comm]

end Ordered

end World

/-- The event is a hit. -/
def Event.IsHit : Event K → Prop
  | .hit _ _ => True
  | _ => False

namespace World

variable [LinearOrder K]

theorem hits_commute {e f : Event K} (he : e.IsHit) (hf : f.IsHit) : (game K).Commutes e f := by
  cases e with
  | hit o other =>
    cases f with
    | hit p other' =>
      intro s t u hs ht
      have hs' : s.onCollisionBoxOverlap o other = .ok t := hs.2
      have ht' : t.onCollisionBoxOverlap p other' = .ok u := ht.2
      rcases onCollisionBoxOverlap_eq_ok.mp hs' with ⟨hmiss, rfl⟩ | ⟨hmeets, rfl⟩
      · exact ⟨u, ht, trivial, onCollisionBoxOverlap_eq_ok.mpr (.inl ⟨hmiss, rfl⟩)⟩
      · rcases onCollisionBoxOverlap_eq_ok.mp ht' with ⟨hmiss', rfl⟩ | ⟨hmeets', rfl⟩
        · exact ⟨s, ⟨trivial, onCollisionBoxOverlap_eq_ok.mpr (.inl ⟨hmiss', rfl⟩)⟩, hs⟩
        · refine ⟨s.struck p, ⟨trivial, onCollisionBoxOverlap_eq_ok.mpr (.inr ⟨hmeets', rfl⟩)⟩, trivial, ?_⟩
          exact onCollisionBoxOverlap_eq_ok.mpr (.inr ⟨hmeets, struck_comm s o p⟩)
    | _ => exact hf.elim
  | _ => exact he.elim

/-! ## Reordering -/

/-- Two events whose order does not matter: they work with different parts of the world, or both are hits. -/
def MayExchange (e f : Event K) : Prop := (footprint K).Independent e f ∨ e.IsHit ∧ f.IsHit

/-- **The order of such events does not matter**: a run may be reordered by exchanging neighbours, and leads to the same
world. -/
theorem run_reordered {w u : World K} {es fs : List (Event K)} (reordered : Machine.Reordered MayExchange es fs)
    (run : (game K).Run w es u) : (game K).Run w fs u := by
  apply run.reordered _ reordered
  intro e f h
  rcases h with hindependent | ⟨he, hf⟩
  · exact hindependent.commutes
  · exact hits_commute he hf

/-- A frame with two hits, and a timer. -/
def frameOrder : List (Event ℚ) := [.tick 2, .hit 0 .runner, .hit 1 .runner, .advance (1 / 5), .fire 0]

/-- The hits come the other way round, and before the `Tick`. -/
def otherOrder : List (Event ℚ) := [.hit 1 .runner, .hit 0 .runner, .tick 2, .advance (1 / 5), .fire 0]

theorem independent_tick_hit (dt : K) (o : ObstacleId) (other : OtherActor) :
    (footprint K).Independent (.tick dt) (.hit o other) := by
  constructor <;> intro p hp <;> rcases hp with rfl | rfl <;>
    simp [footprint, Event.needs, Event.writes, Event.reads]

theorem run_reordered_frame :
    ∃ u, (game ℚ).Run fourObstacles frameOrder u ∧ (game ℚ).Run fourObstacles otherOrder u := by
  obtain ⟨u, hu⟩ := Machine.exists_run_of_exec (M := game ℚ) fourObstacles frameOrder (by decide +kernel)
  refine ⟨u, hu, run_reordered ?_ hu⟩
  have hhits : Machine.Reordered MayExchange frameOrder
      [.tick 2, .hit 1 .runner, .hit 0 .runner, .advance (1 / 5), .fire 0] :=
    .single (Machine.Swap.mk [Event.tick 2] _ (Or.inr ⟨trivial, trivial⟩))
  have hfirst := hhits.tail (Machine.Swap.mk [] _ (Or.inl (independent_tick_hit 2 1 .runner)))
  exact hfirst.tail (Machine.Swap.mk [Event.hit 1 .runner] _ (Or.inl (independent_tick_hit 2 0 .runner)))

end World

/-! ## Three machines side by side -/

/-- The events that steer and switch. -/
def Event.steers : Event K → Bool
  | .tick _ | .move _ | .switchToLane _ => true
  | _ => false

/-- The events that touch the lives, the shield or the clock. -/
def Event.shields : Event K → Bool
  | .hit _ _ | .toggleInvincibility _ | .advance _ | .fire _ => true
  | _ => false

/-- The events that the road depends on, through the speed and the velocity of the ground. -/
def Event.drives : Event K → Bool
  | .toggleInvincibility _ | .advance _ | .fire _ => false
  | _ => true

namespace World

variable [LinearOrder K]

theorem closed_steers : (footprint K).Closed {.config, .speed, .lanes} Event.steers where
  dropped e he p hp := by
    cases e <;> simp [Event.steers] at he <;> rcases hp with rfl | rfl | rfl <;> simp [footprint, Event.writes]
  needs e he := by
    cases e <;> simp [Event.steers] at he <;> simp [footprint, Event.needs, Set.insert_subset_iff]
  reads e he p hp hw := by
    cases e <;> simp [Event.steers] at he <;> rcases hp with rfl | rfl | rfl <;>
      simp [footprint, Event.reads, Event.writes, Set.insert_subset_iff] at hw ⊢

theorem closed_shields : (footprint K).Closed {.config, .shield} Event.shields where
  dropped e he p hp := by
    cases e <;> simp [Event.shields] at he <;> rcases hp with rfl | rfl <;> simp [footprint, Event.writes]
  needs e he := by
    cases e <;> simp [Event.shields] at he <;> simp [footprint, Event.needs]
  reads e he p hp hw := by
    cases e <;> simp [Event.shields] at he <;> rcases hp with rfl | rfl <;>
      simp [footprint, Event.reads, Event.writes] at hw ⊢

theorem closed_drives : (footprint K).Closed {.config, .speed, .lanes, .velocity, .road} Event.drives where
  dropped e he p hp := by
    cases e <;> simp [Event.drives] at he <;> rcases hp with rfl | rfl | rfl | rfl | rfl <;>
      simp [footprint, Event.writes]
  needs e he := by
    cases e <;> simp [Event.drives] at he <;> simp [footprint, Event.needs, Set.insert_subset_iff]
  reads e he p hp hw := by
    cases e <;> simp [Event.drives] at he <;> rcases hp with rfl | rfl | rfl | rfl | rfl <;>
      simp [footprint, Event.reads, Event.writes, Set.insert_subset_iff] at hw ⊢

/-- **The game is three machines side by side.** After any run the lanes and the speed are what the steering events
alone make of them, the lives, the shield and the timers what the hits, the calls and the clock alone do, and the road
with its obstacles what is left when those of the clock are taken out. -/
theorem game_splits {w u : World K} {es : List (Event K)} (run : (game K).Run w es u) :
    (∃ v, (game K).Run w (es.filter Event.steers) v ∧ v.gameMode.speed = u.gameMode.speed ∧
      v.lanesPart = u.lanesPart) ∧
    (∃ v, (game K).Run w (es.filter Event.shields) v ∧ v.shieldPart = u.shieldPart) ∧
    ∃ v, (game K).Run w (es.filter Event.drives) v ∧ v.roadPart = u.roadPart := by
  obtain ⟨v₁, hv₁, hsame₁⟩ := Footprint.slice closed_steers run fun _ _ => rfl
  obtain ⟨v₂, hv₂, hsame₂⟩ := Footprint.slice closed_shields run fun _ _ => rfl
  obtain ⟨v₃, hv₃, hsame₃⟩ := Footprint.slice closed_drives run fun _ _ => rfl
  exact ⟨⟨v₁, hv₁, hsame₁ .speed (by simp), hsame₁ .lanes (by simp)⟩, ⟨v₂, hv₂, hsame₂ .shield (by simp)⟩,
    v₃, hv₃, hsame₃ .road (by simp)⟩

theorem game_splits_frame :
    ∃ u, (game ℚ).Run fourObstacles frameOrder u ∧
      ∃ v, (game ℚ).Run fourObstacles [.tick 2] v ∧ v.lanesPart = u.lanesPart := by
  obtain ⟨u, hu⟩ := Machine.exists_run_of_exec (M := game ℚ) fourObstacles frameOrder (by decide +kernel)
  obtain ⟨⟨v, hv, _, hlanes⟩, _⟩ := game_splits hu
  exact ⟨u, hu, v, hv, hlanes⟩

end World

end EndlessRunner
