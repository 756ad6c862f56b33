import Mathlib.Data.List.Nodup
import Mathlib.Logic.Function.Basic

/-!
# Lineups

Each member stands at one place at most, and each place has a queue: that of those who
stand there, once each.  Members join a queue at its end, leave it at its head, or are all
taken out at once.
-/

universe u v

variable {κ : Type u} {π : Type v}

/-- The queues hold everyone at the place where they stand. -/
structure Lineup (queue : κ → List π) (place : π → Option κ) : Prop where
  mem_iff : ∀ p k, p ∈ queue k ↔ place p = some k
  nodup : ∀ k, (queue k).Nodup

namespace Lineup

variable {queue : κ → List π} {place : π → Option κ} {p : π} {k : κ} {rest : List π}

theorem congr (h : Lineup queue place) {queue' : κ → List π} {place' : π → Option κ}
    (hqueue : ∀ k, queue' k = queue k) (hplace : ∀ p, place' p = place p) :
    Lineup queue' place' := by
  obtain rfl : queue' = queue := funext hqueue
  obtain rfl : place' = place := funext hplace
  exact h

theorem not_mem (h : Lineup queue place) (hp : place p = none) (k : κ) : p ∉ queue k := fun hmem ↦
  nomatch hp.symm.trans ((h.mem_iff p k).mp hmem)

theorem place_head (h : Lineup queue place) (hk : queue k = p :: rest) : place p = some k :=
  (h.mem_iff p k).mp (hk ▸ List.mem_cons_self)

theorem filter (h : Lineup queue place) (dies : π → Bool) :
    Lineup (fun k ↦ (queue k).filter fun p ↦ !dies p)
      (fun p ↦ if dies p then none else place p) where
  mem_iff p k := by
    rw [List.mem_filter, h.mem_iff]
    cases hp : dies p with
    | true => exact ⟨fun h ↦ (nomatch h.2), fun h ↦ (nomatch h)⟩
    | false => exact ⟨fun h ↦ h.1, fun h ↦ ⟨h, rfl⟩⟩
  nodup k := (h.nodup k).filter _

variable [DecidableEq κ] [DecidableEq π]

theorem join (h : Lineup queue place) (hp : place p = none) (k : κ) :
    Lineup (Function.update queue k (queue k ++ [p])) (Function.update place p (some k)) where
  mem_iff q j := by
    by_cases hj : j = k
    · subst hj
      rw [Function.update_self, List.mem_append, List.mem_singleton]
      by_cases hq : q = p
      · rw [hq, Function.update_self]
        exact iff_of_true (.inr rfl) rfl
      · rw [Function.update_of_ne hq, or_iff_left hq, h.mem_iff]
    · rw [Function.update_of_ne hj]
      by_cases hq : q = p
      · rw [hq, Function.update_self]
        exact iff_of_false (h.not_mem hp j) fun he ↦ hj (Option.some.inj he).symm
      · rw [Function.update_of_ne hq, h.mem_iff]
  nodup j := by
    by_cases hj : j = k
    · subst hj
      rw [Function.update_self]
      refine List.nodup_append.mpr ⟨h.nodup j, List.nodup_singleton p, ?_⟩
      rintro a ha b hb rfl
      exact h.not_mem hp j (List.mem_singleton.mp hb ▸ ha)
    · rw [Function.update_of_ne hj]
      exact h.nodup j

theorem leave (h : Lineup queue place) (hk : queue k = p :: rest) :
    Lineup (Function.update queue k rest) (Function.update place p none) where
  mem_iff q j := by
    have hp := h.place_head hk
    have hnodup := h.nodup k
    rw [hk] at hnodup
    obtain ⟨hrest, -⟩ := List.nodup_cons.mp hnodup
    by_cases hq : q = p
    · subst hq
      rw [Function.update_self]
      refine iff_of_false (fun hmem ↦ ?_) nofun
      by_cases hj : j = k
      · subst hj
        rw [Function.update_self] at hmem
        exact hrest hmem
      · rw [Function.update_of_ne hj, h.mem_iff, hp] at hmem
        exact hj (Option.some.inj hmem).symm
    · rw [Function.update_of_ne hq, ← h.mem_iff]
      by_cases hj : j = k
      · subst hj
        rw [Function.update_self, hk, List.mem_cons, or_iff_right hq]
      · rw [Function.update_of_ne hj]
  nodup j := by
    by_cases hj : j = k
    · subst hj
      rw [Function.update_self]
      have hnodup := h.nodup j
      rw [hk] at hnodup
      exact hnodup.of_cons
    · rw [Function.update_of_ne hj]
      exact h.nodup j

end Lineup
