import PandosPlus.Phase2.Dispatch

/-!
# The local timer and the wait state

The nucleus has the value it last loaded in the local timer, but not what becomes of it.
The timer runs as long as `TEBITON` is set in the status register, in the kernel as well.
When it has run out a bit is set in the cause register, and it stays there until the timer
is loaded again, even if the timer is switched off meanwhile.

So the timer may run out in a system call that blocks the last ready process.  The scheduler
switches it off before it waits, and unmasks all interrupts; the one that is pending is taken
at once, and `_PLTHandler` finds no current process (`waitState_plt`).  There is no other way
(`waitState_iff`).
-/

namespace PandosPlus

open Flow Lts

variable {n : Nat}

/-- When the local timer runs out in a step. -/
inductive Expiry where
  | never
  /-- Before the kernel loads it again, if it does. -/
  | early
  /-- After the kernel has loaded it. -/
  | late
deriving DecidableEq

/-- The kernel loads the local timer: it acknowledges its interrupt, or dispatches a process of
low priority. -/
def LoadsTimer (s : Nucleus n) (state : State) (t : Nucleus n) : Prop :=
  Preempts state ∨ ∃ p, Dispatched s state t p ∧ t.prio p = .low

instance (s : Nucleus n) (state : State) (t : Nucleus n) (p : Fin n) :
    Decidable (Dispatched s state t p) := inferInstanceAs (Decidable (_ ∧ (_ → _)))

instance (s : Nucleus n) (state : State) (t : Nucleus n) : Decidable (LoadsTimer s state t) :=
  inferInstanceAs (Decidable (_ ∨ ∃ _, _ ∧ _))

/-- The bit of the local timer in the cause register after a step. -/
def timerBit (s : Nucleus n) (a : Action × Expiry) (t : Nucleus n) (pending : Bool) : Bool :=
  match a with
  | (.exception state, x) =>
      if LoadsTimer s state t then x = .late else pending || decide (x ≠ .never)
  | (_, x) => pending || decide (x ≠ .never)

/-- The timer runs at some moment at which it is to run out.  In the kernel `TEBITON` is as the
process has left it.  `interruptHandler` clears it, and sets it again when it leaves, unless
the interrupt is that of the timer. -/
def MayExpire (s : Nucleus n) : Action × Expiry → Prop
  | (_, .never) => True
  | (.exception state, x) =>
      if Preempts state then x = .early ∧ state.status &&& TEBITON ≠ 0
      else state.status &&& TEBITON ≠ 0 ∨ excCode state.cause = 0
  | (_, _) => s.curr_process ≠ none ∨ s.status &&& TEBITON ≠ 0

instance (s : Nucleus n) : DecidablePred (MayExpire s)
  | (_, .never) => .isTrue trivial
  | (.exception state, .early) | (.exception state, .late) =>
      inferInstanceAs (Decidable (if Preempts state then _ else _))
  | (.store _ _, .early) | (.store _ _, .late) | (.support _ _, .early) | (.support _ _, .late) =>
      inferInstanceAs (Decidable (_ ∨ _))

/-- The processor can raise an exception with this state: the cause shows the bit of the timer,
an interrupt is pending in a bit that is unmasked, and a processor that waits has its
interrupts enabled and saves its own status, up to the modes. -/
structure Raised (x : Nucleus n × Bool) (state : State) : Prop where
  bit : state.cause &&& CAUSE_IP_MASK &&& LOCALTIMERINT ≠ 0 ↔ x.2 = true
  unmasked : excCode state.cause = 0 → state.status &&& state.cause &&& CAUSE_IP_MASK ≠ 0
  waiting : x.1.curr_process = none → x.1.status &&& IECON ≠ 0 ∧
    state.status &&& 0xFFFFFFC0 = x.1.status &&& 0xFFFFFFC0

instance (x : Nucleus n × Bool) (state : State) : Decidable (Raised x state) :=
  decidable_of_iff ((state.cause &&& CAUSE_IP_MASK &&& LOCALTIMERINT ≠ 0 ↔ x.2 = true) ∧
    (excCode state.cause = 0 → state.status &&& state.cause &&& CAUSE_IP_MASK ≠ 0) ∧
    (x.1.curr_process = none → x.1.status &&& IECON ≠ 0 ∧
      state.status &&& 0xFFFFFFC0 = x.1.status &&& 0xFFFFFFC0))
    ⟨fun h ↦ ⟨h.1, h.2.1, h.2.2⟩, fun h ↦ ⟨h.bit, h.unmasked, h.waiting⟩⟩

variable (cfg : Config n)

/-- The steps of the nucleus and of the local timer. -/
def TimerStep (x : Nucleus n × Bool) (a : Action × Expiry) (y : Nucleus n × Bool) : Prop :=
  WithHistory (fun s (a : Action × Expiry) t ↦ NucStep cfg s a.1 t) timerBit x a y ∧
    MayExpire x.1 a ∧ ∀ state, a.1 = .exception state → Raised x state

/-- `_PLTHandler` is not run without a current process, whatever interrupt is taken. -/
def NoPltWaiting (x : Nucleus n × Bool) : Prop :=
  ∀ state, Raised x state → ¬ (Preempts state ∧ x.1.curr_process = none)

/-- The nucleus goes into the wait state. -/
def EntersWait (s : Nucleus n) (state : State) : Prop :=
  ∃ t, exceptionHandler cfg (enter state s) = .error .wait t

/-- The nucleus does not go into the wait state after the timer has run out: its bit is clear
when the exception is raised, and the timer does not run out in the kernel. -/
def WaitsInTime (x : Nucleus n × Bool) (a : Action × Expiry) : Prop :=
  ∀ state, a.1 = .exception state → ¬ Preempts state → EntersWait cfg x.1 state →
    x.2 = false ∧ a.2 = .never

/-- A processor that waits has unmasked all interrupts and switched off the local timer. -/
def Idles (s : Nucleus n) : Prop :=
  s.curr_process = none → ∃ w : Word, s.status = (w ||| IECON ||| IMON) &&& ~~~TEBITON

variable {cfg} {s t u : Nucleus n} {p : Fin n} {e : Exit} {state : State}
variable {x y : Nucleus n × Bool} {a : Action × Expiry}

/-! ## The status register of a processor that waits -/

section Status

variable (w : Word)

theorem idle_timer : (w ||| IECON ||| IMON) &&& ~~~TEBITON &&& TEBITON = 0 := by
  rw [BitVec.and_assoc, show ~~~TEBITON &&& TEBITON = 0#32 by decide, BitVec.and_zero]
  rfl

theorem idle_enabled : (w ||| IECON ||| IMON) &&& ~~~TEBITON &&& IECON ≠ 0 := by
  intro h
  have h0 := congrArg (·.getLsbD 0) h
  simp [IECON, IMON, TEBITON] at h0

theorem idle_unmasked :
    (w ||| IECON ||| IMON) &&& ~~~TEBITON &&& LOCALTIMERINT &&& CAUSE_IP_MASK ≠ 0 := by
  intro h
  have h9 := congrArg (·.getLsbD 9) h
  simp [IECON, IMON, TEBITON, LOCALTIMERINT, CAUSE_IP_MASK] at h9

end Status

/-! ## How a step ends -/

/-- The scheduler loads the timer for a process of low priority. -/
theorem Scheduled.plt (h : Scheduled cfg s e t) (he : e ≠ .halt) :
    ((∃ p, t.curr_process = some p ∧ t.prio p = .low) →
      t.plt = TIMESLICE * (t.mem TIMESCALEADDR).toInt) ∧
    ((¬ ∃ p, t.curr_process = some p ∧ t.prio p = .low) → t.plt = s.plt) := by
  cases h with
  | halt => exact absurd rfl he
  | wait => exact ⟨fun ⟨p, hp, _⟩ ↦ (nomatch hp), fun _ ↦ rfl⟩
  | deadlock => exact ⟨fun ⟨p, hp, _⟩ ↦ (nomatch hp), fun _ ↦ rfl⟩
  | dispatch p prio rest hcount hnext hqueue =>
      have hcurr := Nucleus.dispatch_curr cfg p prio rest s
      have hprio := congrFun (Quiet.load cfg p (s.pick p prio rest)).prio p
      refine ⟨fun ⟨q, hq, hlow⟩ ↦ ?_, fun hno ↦ ?_⟩
      · obtain rfl : p = q := Option.some.inj (hcurr.symm.trans hq)
        rw [hprio] at hlow
        unfold Nucleus.load
        rw [if_pos hlow]
        rfl
      · have hhigh : ¬ (s.pick p prio rest).prio p = .low := fun hlow ↦
          hno ⟨p, hcurr, hprio.trans hlow⟩
        unfold Nucleus.load
        rw [if_neg hhigh]
        exact Nucleus.setReadyQueue_plt s rest prio

theorem Scheduled.idles (h : Scheduled cfg u e t) (he : e.Completed) :
    (t.curr_process = none ↔ e = .wait) ∧ Idles t := by
  cases h with
  | halt => exact he.elim
  | wait => exact ⟨iff_of_true rfl rfl, fun _ ↦ ⟨u.status, rfl⟩⟩
  | deadlock => exact he.elim
  | dispatch p prio rest hcount hnext hqueue =>
      have hcurr := Nucleus.dispatch_curr cfg p prio rest u
      refine ⟨⟨fun hnone ↦ ?_, nofun⟩, fun hnone ↦ ?_⟩
      · cases hnone.symm.trans hcurr
      · cases hnone.symm.trans hcurr

/-- A step calls the scheduler, or lets the current process go on. -/
theorem step_ends (hs : Inv cfg s) (hstep : step cfg s (.exception state) = some t) :
    ∃ e, e.Completed ∧ exceptionHandler cfg (enter state s) = .error e t ∧
      ((∃ u, Scheduled cfg u e t ∧ (∀ p, t.curr_process = some p → Dispatched s state t p) ∧
          (¬ Preempts state → u.plt = s.plt) ∧
          (Preempts state → u.plt = TIMESLICE * (u.mem TIMESCALEADDR).toInt)) ∨
        e ≠ .wait ∧ s.curr_process ≠ none ∧ t.curr_process = s.curr_process ∧ t.plt = s.plt ∧
          ¬ Preempts state ∧ ¬ IsCall state YIELD) := by
  obtain ⟨e, hdone, hrun, hend⟩ := step_handled hs hstep
  refine ⟨e, hdone, hrun, ?_⟩
  obtain ⟨lost, -, hsound⟩ := hs
  have hcore : Core (enter state s) ((enter state s).curr_process.toList ++ lost) :=
    hsound.core.quiet (.enter state s)
  by_cases hyield : IsCall state YIELD
  · obtain ⟨c, hc, hnext⟩ := hend.yields hyield
    exact .inl ⟨_, hnext, fun p hp ↦ ⟨hp, fun _ ↦ .inl hyield⟩, fun _ ↦ Nucleus.wake_plt c _,
      fun hplt ↦ absurd hplt hyield.not_preempts⟩
  by_cases hplt : Preempts state
  · obtain ⟨c, hc, hnext⟩ := preempts_run hplt hdone.ne_nullDeref hrun
    refine .inl ⟨_, hnext, fun p hp ↦ ⟨hp, fun _ ↦ .inr hplt⟩, fun h ↦ absurd hplt h, fun _ ↦ ?_⟩
    refine (Nucleus.wake_plt c _).trans ?_
    rw [show (((enter state s).interrupted cfg).preempted cfg c).mem =
      ((enter state s).interrupted cfg).mem from Nucleus.wake_mem c _]
    rfl
  · obtain ⟨K, new, u, hready, -, hsame, hgoes⟩ := hend.passes hcore hplt hyield
    rcases hgoes with ⟨hnew, hnext⟩ | ⟨rfl, he, hcurr, hcurr'⟩
    · refine .inl ⟨u, hnext, fun p hp ↦ ⟨hp, fun hc ↦ ?_⟩, fun _ ↦ hsame, fun h ↦ absurd h hplt⟩
      -- the current process was in no queue, and none has been made ready
      obtain rfl : new = [] := hnew.resolve_right (by
        rw [show (enter state s).curr_process = some p from hc]
        nofun)
      obtain ⟨⟨pr, hmem⟩, -⟩ := hnext.dispatched hdone.ne_halt hp
      rw [hready.queue, List.filter_nil, List.append_nil] at hmem
      rw [show (enter state s).curr_process = some p from hc] at hcore
      exact absurd List.mem_cons_self (hcore.of_ready (List.mem_of_mem_filter hmem)).2.2
    · exact .inr ⟨he, hcurr, hcurr', hsame, hplt, hyield⟩

/-- The local timer has been loaded as `LoadsTimer` says. -/
theorem step_plt (hs : Inv cfg s) (hstep : step cfg s (.exception state) = some t) :
    t.plt = if LoadsTimer s state t then TIMESLICE * (t.mem TIMESCALEADDR).toInt else s.plt := by
  obtain ⟨e, hdone, -, ⟨u, hnext, hdisp, hother, hload⟩ | ⟨-, -, hcurr, hsame, hplt, hyield⟩⟩ :=
    step_ends hs hstep
  · obtain ⟨hlow, hhigh⟩ := hnext.plt hdone.ne_halt
    by_cases hp : ∃ p, t.curr_process = some p ∧ t.prio p = .low
    · obtain ⟨p, hp', hprio⟩ := id hp
      rw [if_pos (.inr ⟨p, hdisp p hp', hprio⟩), hlow hp]
    · by_cases hplt : Preempts state
      · rw [if_pos (.inl hplt), hhigh hp, hload hplt, sems_mem hnext.sems.1]
      · have hno : ¬ LoadsTimer s state t :=
          not_or.mpr ⟨hplt, fun ⟨p, hd, hprio⟩ ↦ hp ⟨p, hd.1, hprio⟩⟩
        rw [if_neg hno, hhigh hp, hother hplt]
  · have hno : ¬ LoadsTimer s state t :=
      not_or.mpr ⟨hplt, fun ⟨p, hd, _⟩ ↦ (hd.2 (hcurr.symm.trans hd.1)).elim hyield hplt⟩
    rw [if_neg hno, hsame]

theorem step_idles (hs : Inv cfg s) (hstep : step cfg s (.exception state) = some t) :
    (t.curr_process = none ↔ EntersWait cfg s state) ∧ Idles t := by
  obtain ⟨e, hdone, hrun, hend⟩ := step_ends hs hstep
  have hwait : e = .wait ↔ EntersWait cfg s state := by
    refine ⟨fun he ↦ ⟨t, he ▸ hrun⟩, fun ⟨t', h⟩ ↦ ?_⟩
    rw [hrun] at h
    cases h
    rfl
  rw [← hwait]
  rcases hend with ⟨u, hnext, -⟩ | ⟨he, hcurr, hcurr', -⟩
  · exact hnext.idles hdone
  · rw [← hcurr'] at hcurr
    exact ⟨iff_of_false hcurr he, fun hnone ↦ absurd hnone hcurr⟩

/-! ## The wait state -/

variable (cfg s) in
/-- At an interrupt of the local timer `exceptionHandler` is `_PLTHandler`. -/
theorem exceptionHandler_plt (hplt : Preempts state) :
    exceptionHandler cfg (enter state s) = pltHandler cfg ((enter state s).interrupted cfg) := by
  obtain ⟨hcode, hip⟩ := hplt
  rw [exceptionHandler_interrupt (s := enter state s) hcode, interruptHandler_run,
    if_pos (show (enter state s).pending &&& LOCALTIMERINT ≠ 0 from hip)]

/-- A processor that waits takes the interrupt of the local timer if its bit is set. -/
theorem noPltWaiting_iff (hidle : Idles x.1) :
    NoPltWaiting x ↔ (x.1.curr_process = none → x.2 = false) := by
  constructor
  · intro h hc
    rw [← Bool.not_eq_true]
    intro hbit
    obtain ⟨w, hw⟩ := hidle hc
    let state : State := { State.zero with cause := LOCALTIMERINT, status := x.1.status }
    have hip : state.cause &&& CAUSE_IP_MASK &&& LOCALTIMERINT ≠ 0 :=
      show LOCALTIMERINT &&& CAUSE_IP_MASK &&& LOCALTIMERINT ≠ 0 by decide
    have hcode : excCode state.cause = 0 := show excCode LOCALTIMERINT = 0 by decide
    have hraised : Raised x state := by
      refine ⟨iff_of_true hip hbit, fun _ ↦ ?_, fun _ ↦ ⟨?_, rfl⟩⟩
      · change x.1.status &&& LOCALTIMERINT &&& CAUSE_IP_MASK ≠ 0
        rw [hw]
        exact idle_unmasked w
      · rw [hw]
        exact idle_enabled w
    exact h state hraised ⟨⟨hcode, hip⟩, hc⟩
  · rintro h state hraised ⟨hplt, hc⟩
    have hbit := hraised.bit.mp hplt.2
    rw [h hc] at hbit
    cases hbit

theorem timerBit_waits {ex : Expiry} {pending : Bool} (hplt : ¬ Preempts state)
    (hc : t.curr_process = none) :
    timerBit s (.exception state, ex) t pending = false ↔ pending = false ∧ ex = .never := by
  have hload : ¬ LoadsTimer s state t := by
    rintro (h | ⟨p, ⟨hp, -⟩, -⟩)
    · exact hplt h
    · cases hc.symm.trans hp
  rw [show timerBit s (.exception state, ex) t pending = (pending || decide (ex ≠ .never)) from
    if_neg hload, Bool.or_eq_false_iff, decide_eq_false_iff_not, not_not]

/-- Outside the kernel the timer does not run while the processor waits. -/
theorem waits_outside (ex : Expiry) (hidle : Idles x.1) (hx : NoPltWaiting x)
    (hcurr : y.1.curr_process = x.1.curr_process) (hstatus : y.1.status = x.1.status)
    (hbit : y.2 = (x.2 || decide (ex ≠ .never)))
    (hmay : ex ≠ .never → x.1.curr_process ≠ none ∨ x.1.status &&& TEBITON ≠ 0) :
    Idles y.1 ∧ NoPltWaiting y := by
  have hidle' : Idles y.1 := fun hc ↦ by
    rw [hstatus]
    exact hidle (hcurr.symm.trans hc)
  refine ⟨hidle', (noPltWaiting_iff hidle').mpr fun hc ↦ ?_⟩
  rw [hcurr] at hc
  have hnever : ex = .never := by
    by_contra hex
    rcases hmay hex with hne | hte
    · exact hne hc
    · obtain ⟨w, hw⟩ := hidle hc
      rw [hw] at hte
      exact hte (idle_timer w)
  rw [hbit, (noPltWaiting_iff hidle).mp hx hc, hnever]
  rfl

theorem TimerStep.waits (hs : Inv cfg x.1) (hidle : Idles x.1) (hx : NoPltWaiting x)
    (h : TimerStep cfg x a y) :
    Inv cfg y.1 ∧ Idles y.1 ∧ (NoPltWaiting y ↔ WaitsInTime cfg x a) := by
  obtain ⟨⟨hstep, hbit⟩, hmay, -⟩ := h
  refine ⟨hstep.inv hs, ?_⟩
  obtain ⟨hstep, -⟩ := hstep
  obtain ⟨a, ex⟩ := a
  cases a with
  | store b v =>
      simp only [step, Option.ite_none_left_eq_some, Option.some.injEq] at hstep
      obtain ⟨-, hstep⟩ := hstep
      obtain ⟨hidle', hno⟩ := waits_outside ex hidle hx (by rw [← hstep]; rfl)
        (by rw [← hstep]; rfl) (by cases ex <;> exact hbit) fun hex ↦ by
          cases ex with
          | never => exact absurd rfl hex
          | early => exact hmay
          | late => exact hmay
      exact ⟨hidle', iff_of_true hno (by rintro _ ⟨⟩)⟩
  | support b v =>
      simp only [step, Option.some.injEq] at hstep
      obtain ⟨hidle', hno⟩ := waits_outside ex hidle hx (by rw [← hstep])
        (by rw [← hstep]) (by cases ex <;> exact hbit) fun hex ↦ by
          cases ex with
          | never => exact absurd rfl hex
          | early => exact hmay
          | late => exact hmay
      exact ⟨hidle', iff_of_true hno (by rintro _ ⟨⟩)⟩
  | exception state =>
      obtain ⟨hwait, hidle'⟩ := step_idles hs hstep
      refine ⟨hidle', ?_⟩
      rw [noPltWaiting_iff hidle', hbit]
      by_cases hplt : Preempts state
      · -- the timer is loaded when it is acknowledged, and is off from then on
        refine iff_of_true (fun _ ↦ ?_) fun state' hstate hno ↦ ?_
        · have hlate : ex ≠ .late := by
            rintro rfl
            have hearly := (if_pos hplt).mp hmay
            cases hearly.1
          exact (if_pos (.inl hplt)).trans (decide_eq_false hlate)
        · cases hstate
          exact absurd hplt hno
      · constructor
        · intro h state' hstate _ henters
          cases hstate
          have hc := hwait.mpr henters
          exact (timerBit_waits hplt hc).mp (h hc)
        · intro h hc
          exact (timerBit_waits hplt hc).mpr (h state rfl hplt (hwait.mp hc))

/-- `main` dispatches the first process. -/
theorem Start.curr (h : Start cfg s) : s.curr_process ≠ none := by
  obtain ⟨mem, support, p, rest, e, -, -, hdone, hend⟩ := h.scheduled
  intro hnone
  obtain rfl := (hend.idles hdone).1.mp hnone
  cases hend with
  | wait hcount hhigh hlow hsoft =>
      exact absurd hlow (List.append_ne_nil_of_right_ne_nil _ (by simp))

/-- In a run `_PLTHandler` never finds itself without a current process exactly if the nucleus
never goes into the wait state after the timer has run out. -/
theorem waitState_iff {s₀ : Nucleus n} (h₀ : Start cfg s₀) (pending : Bool) :
    NoPltWaiting (s₀, pending) ∧ ∀ as x,
      Run (fun x a y ↦ TimerStep cfg x a y ∧ NoPltWaiting y) (s₀, pending) as x ↔
        Run (fun x a y ↦ TimerStep cfg x a y ∧ WaitsInTime cfg x a) (s₀, pending) as x := by
  have hidle : Idles s₀ := fun hc ↦ absurd hc h₀.curr
  have hno : NoPltWaiting (s₀, pending) := (noPltWaiting_iff hidle).mpr fun hc ↦ absurd hc h₀.curr
  refine ⟨hno, fun as x ↦ Run.congr (P := fun x _ y ↦ NoPltWaiting y)
    (Q := fun x a _ ↦ WaitsInTime cfg x a)
    (I := fun x ↦ Inv cfg x.1 ∧ Idles x.1 ∧ NoPltWaiting x) ?_ ?_ ⟨h₀.inv, hidle, hno⟩⟩
  · rintro x a y ⟨hs, hidle, hx⟩ hstep hy
    obtain ⟨hs', hidle', -⟩ := hstep.waits hs hidle hx
    exact ⟨hs', hidle', hy⟩
  · rintro x a y ⟨hs, hidle, hx⟩ hstep
    exact (hstep.waits hs hidle hx).2.2

/-- The only process calls CLOCKWAIT, and the timer does not run out. -/
theorem waitState_iff_sample :
    ∃ (s₀ s : Nucleus 1) (a : Action), s.curr_process = none ∧
      Run (fun x a y ↦ TimerStep (.sample 1 (by decide) .faults) x a y ∧ NoPltWaiting y)
        (s₀, false) [(a, .never)] (s, false) := by
  let cfg := Config.sample 1 (by decide) .faults
  let state : State := .call CLOCKWAIT 0 0 0
  have hruns : ((firstState cfg).any fun s₀ ↦ (step cfg s₀ (.exception state)).any fun s ↦
      decide (s.curr_process = none ∧ Raised (s₀, false) state ∧
        timerBit s₀ (.exception state, .never) s false = false)) = true := by decide +kernel
  obtain ⟨s₀, h₀, hruns⟩ := (Option.any_eq_true _ _).mp hruns
  obtain ⟨s, hstep, hobs⟩ := (Option.any_eq_true _ _).mp hruns
  obtain ⟨hc, hraised, hbit⟩ := of_decide_eq_true hobs
  have htimer : TimerStep cfg (s₀, false) (.exception state, .never) (s, false) := by
    refine ⟨⟨⟨hstep, by decide⟩, hbit.symm⟩, trivial, fun state' hstate ↦ ?_⟩
    cases hstate
    exact hraised
  refine ⟨s₀, s, .exception state, hc, ?_⟩
  exact ((waitState_iff (firstState_start h₀) false).2 _ _).mpr
    (.single ⟨htimer, fun _ _ _ _ ↦ ⟨rfl, rfl⟩⟩)

/-- The timer runs out in the CLOCKWAIT of the only process: the processor waits with the
interrupt pending, takes it, and `_PLTHandler` follows a `NULL` pointer. -/
theorem waitState_plt :
    ∃ (s₀ s : Nucleus 1) (a : Action) (state : State), Start (.sample 1 (by decide) .faults) s₀ ∧
      Run (TimerStep (.sample 1 (by decide) .faults)) (s₀, false) [(a, .early)] (s, true) ∧
      s.curr_process = none ∧ Raised (s, true) state ∧
      exceptionHandler (.sample 1 (by decide) .faults) (enter state s) =
        pltHandler (.sample 1 (by decide) .faults)
          ((enter state s).interrupted (.sample 1 (by decide) .faults)) ∧
      ∃ u, exceptionHandler (.sample 1 (by decide) .faults) (enter state s) =
        .error .nullDeref u := by
  let cfg := Config.sample 1 (by decide) .faults
  let call : State := { State.call CLOCKWAIT 0 0 0 with status := TEBITON }
  have hruns : ((firstState cfg).any fun s₀ ↦ (step cfg s₀ (.exception call)).any fun s ↦
      decide (s.curr_process = none ∧ s.status = IECON ||| IMON ∧ Raised (s₀, false) call ∧
        timerBit s₀ (.exception call, .early) s false = true)) = true := by decide +kernel
  obtain ⟨s₀, h₀, hruns⟩ := (Option.any_eq_true _ _).mp hruns
  obtain ⟨s, hstep, hobs⟩ := (Option.any_eq_true _ _).mp hruns
  obtain ⟨hc, hstatus, hraised, hbit⟩ := of_decide_eq_true hobs
  have hno : ¬ Preempts call := by decide
  have hon : call.status &&& TEBITON ≠ 0 := by decide
  have htimer : TimerStep cfg (s₀, false) (.exception call, .early) (s, true) := by
    refine ⟨⟨⟨hstep, by decide⟩, hbit.symm⟩, (if_neg hno).mpr (.inl hon), fun state hstate ↦ ?_⟩
    cases hstate
    exact hraised
  let state : State := { State.zero with cause := LOCALTIMERINT, status := IECON ||| IMON }
  have hplt : Preempts state := by decide
  have hrun := exceptionHandler_plt cfg s hplt
  refine ⟨s₀, s, .exception call, state, firstState_start h₀, .single htimer, hc, ?_, hrun, _,
    hrun.trans (pltHandler_none ((interrupted_curr (enter state s)).trans hc))⟩
  refine ⟨iff_of_true hplt.2 rfl, fun _ ↦ by decide, fun _ ↦ ?_⟩
  change s.status &&& IECON ≠ 0 ∧ state.status &&& 0xFFFFFFC0 = s.status &&& 0xFFFFFFC0
  rw [hstatus]
  decide

end PandosPlus
