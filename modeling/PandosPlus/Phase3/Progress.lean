import Mathlib.Data.Fintype.Order
import PandosPlus.Lib.LockOrder
import PandosPlus.Phase3.Shutdown

/-!
# No deadlock before test ends

A process that is blocked for good waits for a lock or on `master_sem`.  The lock of the swap
pool is taken last, so the holders of the locks cannot all wait for each other
(`LockOrder.nobody_waits`), and nobody dies holding one.  Then only `test` can be blocked, and
the signals it still awaits are those of U-procs that are alive.

When U-procs share a support structure one may release the lock that another holds, and
the V of the other blocks: on a semaphore that is already free.
-/

namespace PandosPlus.SupportLevel

open Lts TaggedLock

variable {u m k : Nat} {cfg : PoolConfig m} {s t : System u m k} {p q : Actor u} {x y : SemId}
variable {a : Event u k} {mode : SemId → Actor u → Mode} {i : Instr u m}
variable {code rest : List (Instr u m)} {j : Fin u}

/-- The lock of the swap pool is taken last. -/
def SemId.rank (x : SemId) : Bool := decide (x = .swapPool)

/-- The process is between a P and the V of the lock. -/
def Holds (mode : SemId → Actor u → Mode) (p : Actor u) (x : SemId) : Prop :=
  x ≠ .master ∧ mode x p ≠ .out

/-- The process sleeps on the lock. -/
def Sleeps (s : System u m k) (p : Actor u) (x : SemId) : Prop :=
  x ≠ .master ∧ (s.proc p).sleepsOn = some x

/-- The dead hold no lock. -/
def Gone (s : System u m k) (mode : SemId → Actor u → Mode) : Prop :=
  ∀ p x, x ≠ .master → (s.proc p).phase = .dead → mode x p = .out

/-- Somebody is there, and nothing can happen: no process is ready and none waits for a
device.  This is what `scheduler` takes for a deadlock. -/
def Deadlocked (s : System u m k) : Prop :=
  (∃ p, (s.proc p).phase.Alive) ∧ ∀ p, (s.proc p).phase ≠ .ready ∧ (s.proc p).phase ≠ .waiting

/-! ## The locks -/

/-- A process that holds a lock and waits for another waits for that of the swap pool. -/
theorem Locks.ascending (h : Locks s mode) (hp : Placed s) :
    LockOrder.Ascending (Holds mode) (Sleeps s) SemId.rank := by
  rintro p x y ⟨hx, hholds⟩ ⟨hy, hsleeps⟩
  obtain ⟨rest, hcode⟩ := h.sleeps hp hsleeps hy
  obtain ⟨hasleep, -⟩ := Proc.of_sleepsOn hsleeps
  have hall := h.follows p (by rw [hasleep]; rintro ⟨⟩) x hx
  rw [hcode] at hall
  obtain ⟨ξ, hshift, -⟩ := shifts_cons.mp hall
  rw [Instr.shift] at hshift
  by_cases hyx : y = x
  · rw [if_pos hyx] at hshift
    split at hshift
    · exact absurd (And.left ‹_›) hholds
    · cases hshift
  · rw [if_neg hyx] at hshift
    obtain ⟨⟨-, hout⟩, -⟩ := keep_some.mp hshift
    have hpool : y = .swapPool := by
      by_contra hne
      exact hholds (hout hne)
    rw [SemId.rank, SemId.rank, decide_eq_false fun hx ↦ hyx (hpool.trans hx.symm),
      decide_eq_true hpool]
    exact Bool.false_lt_true

/-- Somebody holds the lock that a process sleeps on. -/
theorem Locks.holder (h : Locks s mode) (hp : Placed s) (hsleeps : Sleeps s p x) :
    ∃ q, Holds mode q x := by
  obtain ⟨hx, hsleeps⟩ := hsleeps
  have hlock := h.lock x hx
  have hmem := (hp.sleeping.mem_iff p x).mpr hsleeps
  refine (hlock.taken (hlock.binary.resolve_right fun hval ↦ ?_)).imp fun q hq ↦ ⟨hx, hq⟩
  rw [(hlock.free hval).1] at hmem
  exact absurd hmem List.not_mem_nil

/-- Who holds a lock and is neither ready nor waits for a device sleeps on another. -/
theorem Running.holder_sleeps (hr : Running s mode) (htest : (s.proc .test).phase ≠ .dead)
    (hgone : Gone s mode)
    (hq : Holds mode q x) (hready : (s.proc q).phase ≠ .ready)
    (hwaiting : (s.proc q).phase ≠ .waiting) :
    ∃ y, Sleeps s q y := by
  obtain ⟨hx, hout⟩ := hq
  have hdead : (s.proc q).phase ≠ .dead := fun hdead ↦ hout (hgone q x hx hdead)
  have hall := hr.locks.follows q hdead x hx
  cases hphase : (s.proc q).phase with
  | unborn =>
      have hnil : (s.proc q).code = [] := by
        cases q with
        | test =>
            obtain ⟨n, hand, hs⟩ := hr.script.resolve_left hdead
            exact absurd hphase hs.alive.1
        | uproc j =>
            obtain ⟨n, hand, hs⟩ := hr.script.resolve_left htest
            exact hs.nil j hphase
      rw [hnil] at hall
      exact absurd (Option.some.inj hall) hout
  | ready => exact absurd hphase hready
  | waiting => exact absurd hphase hwaiting
  | dead => exact absurd hphase hdead
  | asleep =>
      obtain ⟨y, hsleeps⟩ := Option.ne_none_iff_exists'.mp (hr.placed.sleeps q hphase)
      refine ⟨y, ?_, hsleeps⟩
      rintro rfl
      obtain ⟨-, i, rest, hcode, hi⟩ := Proc.of_sleepsOn hsleeps
      rw [hcode] at hall
      obtain ⟨ξ, hshift, -⟩ := shifts_cons.mp hall
      rcases hr.on_master hdead hcode hi with ⟨-, rfl⟩ | ⟨_, -, rfl, -⟩
      · rw [Instr.shift, if_neg hx.symm] at hshift
        exact hout ((keep_some.mp hshift).1.2 (by rintro ⟨⟩))
      · rw [Instr.shift, if_neg hx.symm] at hshift
        exact hout ((keep_some.mp hshift).1 rfl).2

/-! ## Deadlock -/

/-- When `test` waits for signals all U-procs have been started. -/
theorem TestHead.started {n : Nat} {hand : Hand u} (h : TestHead n hand i rest)
    (hi : i = .passeren .master) : n = u := by
  cases h with
  | passeren n => rfl
  | read j b hread => rcases hread with ⟨w, rfl⟩ | ⟨w, rfl⟩ | rfl <;> cases hi
  | _ => cases hi

/-- Where nothing can happen, everyone but `test` is dead. -/
theorem Running.others_dead (hr : Running s mode) (hsignals : Signals s) (hgone : Gone s mode)
    (htest : (s.proc .test).phase ≠ .dead)
    (hblocked : ∀ p, (s.proc p).phase ≠ .ready ∧ (s.proc p).phase ≠ .waiting) :
    (s.sem .master).val = 0 ∧ s.awaited ≠ 0 ∧ ∀ j, (s.proc (.uproc j)).phase = .dead := by
  -- nobody sleeps on a lock
  have hnobody : ∀ p x, ¬ Sleeps s p x :=
    LockOrder.nobody_waits (hr.locks.ascending hr.placed) fun p x hp ↦ by
      obtain ⟨q, hq⟩ := hr.locks.holder hr.placed hp
      exact ⟨q, hq, hr.holder_sleeps htest hgone hq (hblocked q).1 (hblocked q).2⟩
  have hmaster : ∀ {p}, (s.proc p).phase = .asleep → p ∈ (s.sem .master).queue := fun hp ↦ by
    obtain ⟨x, hx⟩ := Option.ne_none_iff_exists'.mp (hr.placed.sleeps _ hp)
    by_cases he : x = .master
    · exact (hr.placed.sleeping.mem_iff _ _).mpr (he ▸ hx)
    · exact absurd ⟨he, hx⟩ (hnobody _ x)
  obtain ⟨n, hand, hscript⟩ := hr.script.resolve_left htest
  have hasleep : (s.proc .test).phase = .asleep := by
    cases hphase : (s.proc .test).phase with
    | asleep => rfl
    | unborn => exact absurd hphase hscript.alive.1
    | ready => exact absurd hphase (hblocked .test).1
    | waiting => exact absurd hphase (hblocked .test).2
    | dead => exact absurd hphase htest
  have hqueue := hmaster hasleep
  have hval := (hsignals.sleepers _ hqueue).mp rfl
  obtain ⟨-, i, rest, hcode, hi⟩ :=
    Proc.of_sleepsOn ((hr.placed.sleeping.mem_iff _ _).mp hqueue)
  obtain ⟨rfl, n', rfl⟩ := hr.script.awaiting htest hcode hi
  have hstarted := (hcode ▸ hscript.code).heads.started rfl
  refine ⟨hval, ?_, fun j ↦ ?_⟩
  · rw [System.awaited, hcode]
    exact (List.count_pos_iff.mpr List.mem_cons_self).ne'
  cases hphase : (s.proc (.uproc j)).phase with
  | dead => rfl
  | asleep => cases (hsignals.sleepers _ (hmaster hphase)).mpr hval
  | ready => exact absurd hphase (hblocked _).1
  | waiting => exact absurd hphase (hblocked _).2
  | unborn => exact absurd (hstarted ▸ (hscript.born j).mp hphase) (Nat.not_le.mpr j.isLt)

theorem Running.not_deadlocked (hr : Running s mode) (hsignals : Signals s) (hgone : Gone s mode)
    (htest : (s.proc .test).phase ≠ .dead) : ¬ Deadlocked s := by
  rintro ⟨-, hblocked⟩
  obtain ⟨hval, hawaited, hdead⟩ := hr.others_dead hsignals hgone htest hblocked
  have hall : s.signals = u := by
    rw [System.signals, Finset.filter_true_of_mem fun j _ ↦ .inl (hdead j), Finset.card_univ,
      Fintype.card_fin]
  have hcount := hsignals.count
  omega

/-! ## Runs -/

/-- Nobody dies holding a lock. -/
theorem Gone.step (hg : Gone s mode) (h : Orderly s) (hr : Running s mode)
    (hstep : SupStep cfg s a t) : Gone t (track s a t mode) := by
  intro p x hx hdead
  have hs : (s.proc p).phase = .dead ∨ (s.proc p).code = [.termProcess] := by
    cases p with
    | test => exact .inr (h.last hstep hdead)
    | uproc j => exact h.dies hstep hdead
  have hcode : (s.proc p).code = [] ∨ (s.proc p).code = [.termProcess] := by
    refine hs.imp_left fun hp ↦ ?_
    cases p with
    | test => exact absurd hp (h.sound.active hstep)
    | uproc j => exact (h.sound.frames (h.sound.active hstep)).idle j hp
  rw [track_of_ne fun i rest hi ↦ ?_]
  · by_cases hp : (s.proc p).phase = .dead
    · exact hg p x hx hp
    · have hall := hr.locks.follows p hp x hx
      rw [hs.resolve_left hp] at hall
      obtain ⟨ξ, hshift, -⟩ := shifts_cons.mp hall
      exact (keep_some.mp hshift).1
  · rcases hcode with hcode | hcode
    · cases hi.symm.trans hcode
    · obtain ⟨rfl, -⟩ := List.cons.inj (hi.symm.trans hcode)
      rintro ⟨⟩

theorem run_not_deadlocked {s₀ : System u m k} {as : List (Event u k)} (hu : u < 64)
    (h₀ : Orderly s₀) (hr₀ : Running s₀ fun _ _ ↦ .out) (hrun : Run (OrderlyStep cfg) s₀ as s) :
    ¬ Deadlocked s := by
  obtain ⟨h, mode, hr, hg⟩ :=
    hrun.invariant (I := fun s ↦ Orderly s ∧ ∃ mode, Running s mode ∧ Gone s mode)
      (fun s a t ⟨h, mode, hr, hg⟩ hstep ↦
        ⟨h.step hu hstep, _, hr.step hstep.1.2 hstep.1.1, hg.step h hr hstep.1.1⟩)
      ⟨h₀, _, hr₀, fun _ _ _ _ ↦ rfl⟩
  by_cases htest : (s.proc .test).phase = .dead
  · rintro ⟨⟨p, hp⟩, -⟩
    exact hp.2 (h.sound.allDead htest p)
  · exact hr.not_deadlocked (h.signals htest) hg htest

end PandosPlus.SupportLevel
