import PandosPlus.Phase2.Reach

/-!
# Ticks of the interval timer

An interrupt of the interval timer is served when the local timer has none pending.  The
handler wakes the processes that wait for the clock, and loads the timer again after a
reading of the clock: the first in the handler without a current process, and otherwise the
third, for `updateProcessCPUTime` reads the clock twice.
-/

namespace PandosPlus

open Flow

variable {n : Nat} {cfg : Config n} {s t : Nucleus n} {e : Exit} {state : State}

/-- The state saved at an interrupt that is served for the interval timer. -/
def IsTick (state : State) : Prop :=
  excCode state.cause = 0 ∧ state.cause &&& CAUSE_IP_MASK &&& LOCALTIMERINT = 0 ∧
    state.cause &&& CAUSE_IP_MASK &&& TIMERINTERRUPT ≠ 0

instance (state : State) : Decidable (IsTick state) := inferInstanceAs (Decidable (_ ∧ _ ∧ _))

theorem interrupted_asl (s : Nucleus n) : (s.interrupted cfg).asl = s.asl :=
  (Quiet.interrupted cfg s).asl

/-- At a tick `exceptionHandler` is `_ITHandler`. -/
theorem exceptionHandler_tick (htick : IsTick state) :
    exceptionHandler cfg (enter state s) =
      itHandler cfg ((enter state s).interrupted cfg) := by
  obtain ⟨hcode, hplt, hit⟩ := htick
  have hint : exceptionHandler cfg (enter state s) = interruptHandler cfg (enter state s) := by
    simp only [exceptionHandler, bind_run, get_run, ite_run]
    exact if_pos hcode
  have hplt' : ¬ (enter state s).pending &&& LOCALTIMERINT ≠ 0 := not_not.mpr hplt
  have hit' : (enter state s).pending &&& TIMERINTERRUPT ≠ 0 := hit
  rw [hint, interruptHandler_run, if_neg hplt', if_pos hit']

variable (cfg) in
/-- The nucleus when the handler of a tick leaves. -/
def Nucleus.afterTick (state : State) (s : Nucleus n) : Nucleus n :=
  ((enter state s).interrupted cfg).ticked cfg (s.asl.queue cfg.semaphore_it)

variable (cfg) in
/-- A tick comes to the end of the loop, and the handler leaves as from every interrupt. -/
theorem tick_ends (hs : Inv cfg s) (htick : IsTick state) :
    ∃ e t, exceptionHandler cfg (enter state s) = .error e t ∧
      Finished cfg ((s.afterTick cfg state).leaving cfg)
        ((s.afterTick cfg state).curr_process ≠ none) e t := by
  obtain ⟨lost, -, hsound⟩ := hs
  have hcore := (hsound.core.quiet (.enter state s)).quiet (.interrupted cfg _)
  have hword : ((enter state s).interrupted cfg).mem cfg.semaphore_it ≠ 1 := by
    rw [interrupted_mem, show (enter state s).mem cfg.semaphore_it = 0 from hsound.clock]
    decide
  rw [exceptionHandler_tick htick]
  exact itHandler_run cfg hcore.asl hword (by rw [interrupted_asl]; rfl)

theorem tick_step (hs : Inv cfg s) (htick : IsTick state)
    (hstep : step cfg s (.exception state) = some t) :
    ∃ e, e.Completed ∧ Finished cfg ((s.afterTick cfg state).leaving cfg)
      ((s.afterTick cfg state).curr_process ≠ none) e t := by
  obtain ⟨-, e, hrun, hdone⟩ := step_exception hstep
  obtain ⟨e', t', hrun', hend⟩ := tick_ends cfg hs htick
  rw [hrun] at hrun'
  cases hrun'
  exact ⟨e, hdone, hend⟩

/-! ## The timer -/

theorem Scheduled.it (h : Scheduled cfg s e t) : t.it = s.it := by
  cases h with
  | halt => rfl
  | wait => rfl
  | deadlock => rfl
  | dispatch p prio rest =>
      unfold Nucleus.load
      split <;> cases prio <;> rfl

theorem Finished.it {live : Prop} (h : Finished cfg s live e t) : t.it = s.it := by
  cases h with
  | resume => rfl
  | schedule hdead hnext => exact hnext.it

theorem wakeClocks_clock (k : Word) (l : List (Fin n)) (s : Nucleus n) :
    (l.foldl (fun s p ↦ s.wakeClock k p) s).clock = s.clock := by
  have hready : ∀ (p : Fin n) (s : Nucleus n), (s.makeReady p).clock = s.clock := fun p s ↦ by
    unfold Nucleus.makeReady
    cases s.prio p <;> rfl
  induction l generalizing s with
  | nil => rfl
  | cons p l ih =>
      rw [List.foldl_cons, ih]
      change ((s.unblock k p).wake p).clock = _
      unfold Nucleus.wake
      split
      · rfl
      · exact hready p (s.unblock k p)

/-- The number of the reading of the clock with which the handler of a tick loads the
timer. -/
def Nucleus.tickReading (s : Nucleus n) : Nat :=
  if s.curr_process = none then s.clock else s.clock + 2

variable (cfg) in
theorem interrupted_clock (s : Nucleus n) :
    (s.interrupted cfg).clock = s.tickReading := by
  unfold Nucleus.interrupted Nucleus.tickReading
  cases s.curr_process <;> rfl

/-- The value that a tick loads in the timer. -/
theorem tick_it (hs : Inv cfg s) (htick : IsTick state)
    (hstep : step cfg s (.exception state) = some t) :
    t.it = PSECOND - (cfg.tod s.tickReading).tmod PSECOND := by
  obtain ⟨e, -, hend⟩ := tick_step hs htick hstep
  have hclock := wakeClocks_clock cfg.semaphore_it (s.asl.queue cfg.semaphore_it)
    ((enter state s).interrupted cfg)
  rw [interrupted_clock] at hclock
  rw [hend.it]
  exact congrArg (fun k ↦ PSECOND - (cfg.tod k).tmod PSECOND) hclock

theorem Start.it (h : Start cfg s) : s.it = PSECOND - (cfg.tod 0).tmod PSECOND := by
  obtain ⟨mem, support, p, rest, e, -, -, -, hend⟩ := h.scheduled
  exact hend.it

end PandosPlus
