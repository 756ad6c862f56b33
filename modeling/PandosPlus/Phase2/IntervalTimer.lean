import PandosPlus.Lib.NextMultiple
import PandosPlus.Phase2.Ticks

/-!
# The interval timer

`resetIntervalTimer` counts down to a multiple of `PSECOND`, so that the delay with which a
tick is handled does not add up.  The reading of the clock is kept in a signed word, and `%`
rounds towards zero: from `2^31` on the remainder is negative, and the timer is loaded with
more than `PSECOND` (`load_aligned_iff`).

The time is counted without bound here, `T k` at the reading number `k`; the nucleus sees
its low 32 bits as a signed number.
-/

namespace PandosPlus

open Lts Alignment

variable {n : Nat}

/-- A load of the interval timer: the number of the reading of the clock, and the value. -/
structure Load where
  reading : Nat
  value : Int

variable (cfg : Config n)

/-- The value is between 1 and `PSECOND`, and leads to the next multiple of `PSECOND`. -/
def Load.Right (ℓ : Load) : Prop :=
  1 ≤ ℓ.value ∧ ℓ.value ≤ PSECOND ∧
    NextMultiple PSECOND (cfg.tod ℓ.reading) (cfg.tod ℓ.reading + ℓ.value)

/-- The clock is not read as a negative number, or as a multiple of `PSECOND`. -/
def Load.Fits (ℓ : Load) : Prop := 0 ≤ cfg.tod ℓ.reading ∨ PSECOND ∣ cfg.tod ℓ.reading

/-- The load that a step makes, added to those before it. -/
def loads (s : Nucleus n) (a : Action) (t : Nucleus n) (log : List Load) : List Load :=
  match a with
  | .exception state => if IsTick state then log ++ [⟨s.tickReading, t.it⟩] else log
  | _ => log

/-- The nucleus with the loads of its interval timer. -/
abbrev LoadStep : Nucleus n × List Load → Action → Nucleus n × List Load → Prop :=
  WithHistory (NucStep cfg) loads

/-- The nucleus as `main` leaves it, which has loaded the timer. -/
def Nucleus.firstLoad (s : Nucleus n) : Nucleus n × List Load := (s, [⟨0, s.it⟩])

/-- What `resetIntervalTimer` has loaded. -/
def Load.Reset (ℓ : Load) : Prop := ℓ.value = PSECOND - (cfg.tod ℓ.reading).tmod PSECOND

variable {cfg} {s t s₀ : Nucleus n} {log : List Load} {ℓ ℓ' : Load} {as : List Action}

theorem PSECOND_pos : 0 < PSECOND := by decide

theorem Load.Reset.right_iff (h : ℓ.Reset cfg) : ℓ.Right cfg ↔ ℓ.Fits cfg := by
  have hpos : 1 ≤ PSECOND - (cfg.tod ℓ.reading).tmod PSECOND := one_le_sub_tmod PSECOND_pos
  have hle := sub_tmod_le_iff PSECOND (cfg.tod ℓ.reading)
  have hnext := nextMultiple_sub_tmod_iff (r := cfg.tod ℓ.reading) PSECOND_pos
  rw [Load.Right, Load.Fits, h]
  exact ⟨fun hright ↦ hle.mp hright.2.1, fun hfits ↦ ⟨hpos, hle.mpr hfits, hnext.mpr hfits⟩⟩

/-- Every load of a run is one of `resetIntervalTimer`. -/
theorem loads_reset (h₀ : Start cfg s₀) (hrun : Run (LoadStep cfg) s₀.firstLoad as (t, log)) :
    ∀ ℓ ∈ log, ℓ.Reset cfg := by
  suffices h : Inv cfg t ∧ ∀ ℓ ∈ log, ℓ.Reset cfg from h.2
  have hstart : ∀ ℓ ∈ s₀.firstLoad.2, ℓ.Reset cfg := by
    intro ℓ hℓ
    rw [List.mem_singleton.mp hℓ]
    exact h₀.it
  refine hrun.invariant (I := fun x ↦ Inv cfg x.1 ∧ ∀ ℓ ∈ x.2, ℓ.Reset cfg) ?_ ⟨h₀.inv, hstart⟩
  rintro ⟨s, log⟩ a ⟨t, log'⟩ ⟨hs, hlog⟩ ⟨hstep, hhist⟩
  refine ⟨hstep.inv hs, ?_⟩
  obtain rfl : log' = loads s a t log := hhist
  cases a with
  | store | support => exact hlog
  | exception state =>
      unfold loads
      dsimp only
      split
      · rename_i htick
        intro ℓ hℓ
        rcases List.mem_append.mp hℓ with hℓ | hℓ
        · exact hlog ℓ hℓ
        · rw [List.mem_singleton.mp hℓ]
          exact tick_it hs htick hstep.1
      · exact hlog

/-! ## One tick after the other -/

/-- A word that holds a number, read as a signed one. -/
theorem toInt_ofNat_wraps (x : Nat) : ∃ j : Int,
    (BitVec.ofNat 32 x).toInt = x + 4294967296 * j ∧
    -2147483648 ≤ (BitVec.ofNat 32 x).toInt ∧ (BitVec.ofNat 32 x).toInt < 2147483648 := by
  rw [BitVec.toInt_eq_toNat_cond, BitVec.toNat_ofNat]
  refine ⟨if 2 * (x % 2 ^ 32) < 2 ^ 32 then -(x / 2 ^ 32 : Nat) else -(x / 2 ^ 32 : Nat) - 1, ?_⟩
  split <;> omega

/-- `2^32` is no multiple of `PSECOND`. -/
theorem wrap_aligned {k b : Int} (h : 4294967296 * k = 100000 * b)
    (hlo : -8589934592 ≤ 4294967296 * k) (hhi : 4294967296 * k ≤ 8589934592) : k = 0 := by
  have hcases : k = -2 ∨ k = -1 ∨ k = 0 ∨ k = 1 ∨ k = 2 := by omega
  rcases hcases with rfl | rfl | rfl | rfl | rfl <;> omega

/-- Countdowns of `v` from `r`, and then of `v'` from `r'`, that lead to multiples `d * a` and
`d * a'`; the readings are those of the times `x` and `x'`, up to `2^32`. -/
theorem next_countdown_iff {r r' v v' x x' a a' j j' : Int}
    (hr : r = x + 4294967296 * j) (hlo : -2147483648 ≤ r) (hhi : r < 2147483648)
    (hr' : r' = x' + 4294967296 * j') (hlo' : -2147483648 ≤ r') (hhi' : r' < 2147483648)
    (ha : r + v = 100000 * a) (ha' : r' + v' = 100000 * a') (hv : 1 ≤ v) (hmax : v ≤ 100000)
    (hv' : 1 ≤ v') (hend : x + v ≤ x') (hdelay : x' < x + v + 100000) :
    x' + v' = x + v + 100000 ↔ v' ≤ 100000 ∧ r' - r = x' - x := by
  have hwraps : 4294967296 * (j' - j) = (r' - r) - (x' - x) := by
    rw [Int.mul_sub, hr, hr']
    omega
  constructor
  · intro htick
    have hdvd : 4294967296 * (j' - j) = 100000 * (a' - a - 1) := by
      rw [hwraps, Int.mul_sub, Int.mul_sub, ← ha, ← ha']
      omega
    clear hr hr' ha ha'
    have hwrap : j' - j = 0 := wrap_aligned hdvd (by omega) (by omega)
    rw [hwrap] at hwraps
    omega
  · rintro ⟨hle, hsame⟩
    clear hr hr' hwraps
    omega

/-- When the tick that ends a right load is handled in less than `PSECOND`, the next one comes
`PSECOND` later exactly if the clock is read as it should be and has not become negative in
between. -/
theorem next_tick_iff {T : Nat → Nat} (htod : ∀ k, cfg.tod k = (BitVec.ofNat 32 (T k)).toInt)
    (hright : ℓ.Right cfg) (hreset : ℓ'.Reset cfg)
    (hend : (T ℓ.reading : Int) + ℓ.value ≤ T ℓ'.reading)
    (hdelay : (T ℓ'.reading : Int) < T ℓ.reading + ℓ.value + PSECOND) :
    (T ℓ'.reading : Int) + ℓ'.value = T ℓ.reading + ℓ.value + PSECOND ↔
      ℓ'.Fits cfg ∧
        cfg.tod ℓ'.reading - cfg.tod ℓ.reading = (T ℓ'.reading : Int) - T ℓ.reading := by
  obtain ⟨hone, hmax, hnext⟩ := hright
  obtain ⟨j, hj, hlo, hhi⟩ := toInt_ofNat_wraps (T ℓ.reading)
  obtain ⟨j', hj', hlo', hhi'⟩ := toInt_ofNat_wraps (T ℓ'.reading)
  rw [← htod] at hj hlo hhi hj' hlo' hhi'
  obtain ⟨a, ha⟩ := ((nextMultiple_iff PSECOND_pos).mp hnext).1
  obtain ⟨a', ha'⟩ := dvd_add_sub_tmod PSECOND (cfg.tod ℓ'.reading)
  rw [← show ℓ'.value = _ from hreset] at ha'
  have hvalue : ℓ'.value ≤ PSECOND ↔ ℓ'.Fits cfg := by
    rw [show ℓ'.value = _ from hreset]
    exact sub_tmod_le_iff PSECOND _
  have hvalue' : 1 ≤ ℓ'.value := by
    rw [show ℓ'.value = _ from hreset]
    exact one_le_sub_tmod PSECOND_pos
  rw [← hvalue]
  exact next_countdown_iff hj hlo hhi hj' hlo' hhi' ha ha' hone hmax hvalue' hend hdelay

/-- A load is right exactly if the clock is not read as a negative number, or as a multiple of
`PSECOND`.  After a right load whose tick is handled in less than `PSECOND`, the next tick
comes `PSECOND` after it exactly if the next load is right and the signed clock has not
wrapped in between. -/
theorem load_aligned_iff {T : Nat → Nat} (htod : ∀ k, cfg.tod k = (BitVec.ofNat 32 (T k)).toInt)
    (h₀ : Start cfg s₀) (hrun : Run (LoadStep cfg) s₀.firstLoad as (t, log)) :
    (∀ ℓ ∈ log, ℓ.Right cfg ↔ ℓ.Fits cfg) ∧
    ∀ ℓ ℓ', [ℓ, ℓ'] <:+: log → ℓ.Right cfg → (T ℓ.reading : Int) + ℓ.value ≤ T ℓ'.reading →
      (T ℓ'.reading : Int) < T ℓ.reading + ℓ.value + PSECOND →
      ((T ℓ'.reading : Int) + ℓ'.value = T ℓ.reading + ℓ.value + PSECOND ↔
        ℓ'.Fits cfg ∧
          cfg.tod ℓ'.reading - cfg.tod ℓ.reading = (T ℓ'.reading : Int) - T ℓ.reading) := by
  have hreset := loads_reset h₀ hrun
  refine ⟨fun ℓ hℓ ↦ (hreset ℓ hℓ).right_iff, fun ℓ ℓ' hpair hright hend hdelay ↦ ?_⟩
  have hℓ' : ℓ' ∈ log := hpair.subset (by simp)
  exact next_tick_iff htod hright (hreset ℓ' hℓ') hend hdelay

/-! ## The clock passes `2^31` -/

/-- A time shortly before `2^31`; it advances by 20000 from one reading to the next. -/
def lateTime (k : Nat) : Nat := 2147400000 + 20000 * k

/-- A machine whose clock shows these times. -/
def Config.late : Config 1 :=
  { Config.sample 1 (by decide) .faults with tod := fun k ↦ (BitVec.ofNat 32 (lateTime k)).toInt }

/-- `main` loads the timer at 2147400000; the tick at 2147500000 is handled without delay, and
the clock is read as a negative number. -/
theorem late_run : ∃ (s₀ t : Nucleus 1) (as : List Action), Start .late s₀ ∧
    Run (LoadStep .late) s₀.firstLoad as (t, [⟨0, 100000⟩, ⟨5, 167296⟩]) := by
  let a : Action := .exception { State.zero with cause := TIMERINTERRUPT }
  have hcomputed : (firstState Config.late).any (fun s ↦ (step .late s a).any fun t ↦
      decide (s.it = 100000 ∧ s.tickReading = 5 ∧ t.it = 167296)) = true := by decide +kernel
  obtain ⟨s, hs, hstep⟩ := (Option.any_eq_true _ _).mp hcomputed
  obtain ⟨t, hstep, hobs⟩ := (Option.any_eq_true _ _).mp hstep
  obtain ⟨hfirst, hreading, hit⟩ := of_decide_eq_true hobs
  refine ⟨s, t, [a], firstState_start hs, .single ⟨⟨hstep, by decide⟩, ?_⟩⟩
  change _ = [Load.mk 0 s.it] ++ [Load.mk s.tickReading t.it]
  rw [hfirst, hreading, hit]
  rfl

/-- The first of these loads is right, and the second is not. -/
theorem load_aligned_iff_sample :
    Load.Right .late ⟨0, 100000⟩ ∧ ¬ Load.Right .late ⟨5, 167296⟩ ∧
      (lateTime 5 : Int) + 167296 ≠ lateTime 0 + 100000 + PSECOND := by
  obtain ⟨s₀, t, as, h₀, hrun⟩ := late_run
  obtain ⟨hright, hnext⟩ := load_aligned_iff (T := lateTime) (fun _ ↦ rfl) h₀ hrun
  have hfirst := (hright ⟨0, 100000⟩ (by simp)).mpr (.inl (by decide))
  have hsecond : ¬ Load.Fits .late ⟨5, 167296⟩ := by
    rintro (hfits | hfits)
    · exact absurd hfits (by decide)
    · exact absurd hfits (by decide)
  refine ⟨hfirst, fun h ↦ hsecond ((hright ⟨5, 167296⟩ (by simp)).mp h), fun htick ↦ ?_⟩
  exact hsecond ((hnext ⟨0, 100000⟩ ⟨5, 167296⟩ ⟨[], [], rfl⟩ hfirst (by decide)
    (by decide)).mp htick).1

/-- The timer is loaded with more than `PSECOND`, though every tick is handled at once. -/
theorem load_overlong :
    ¬ ∀ (n : Nat) (cfg : Config n) (T : Nat → Nat),
      (∀ k, cfg.tod k = (BitVec.ofNat 32 (T k)).toInt) → Monotone T →
      ∀ s₀ as t log, Start cfg s₀ → Run (LoadStep cfg) s₀.firstLoad as (t, log) →
        ∀ ℓ ∈ log, ℓ.Right cfg := by
  intro hclaim
  obtain ⟨s₀, t, as, h₀, hrun⟩ := late_run
  have hmono : Monotone lateTime := fun k k' h ↦ by
    unfold lateTime
    omega
  have hright := hclaim 1 .late lateTime (fun _ ↦ rfl) hmono s₀ as t _ h₀ hrun ⟨5, 167296⟩ (by simp)
  exact absurd hright.2.1 (by decide)

end PandosPlus
