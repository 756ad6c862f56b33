import PandosPlus.Phase2.CpuTime
import PandosPlus.Phase2.Contexts

/-!
# The time of interrupts

The entry of `interruptHandler` charges the current process the time it has used and starts
the stopwatch again, and the way out, through `_interruptHandlerExit` or a dispatch, starts
it once more, so that the time in between is no one's.  But `_PLTHandler` calls
`updateProcessCPUTime` a second time: the process it preempts is charged the time since the
entry.  Interrupts are free of charge as long as the clock has not moved by then
(`interruptTime_iff`).
-/

namespace PandosPlus

open Flow Lts

variable {n : Nat} (cfg : Config n)

/-- `p_time` when the handler of an interrupt has charged the current process for its own
time. -/
def Nucleus.entryTime (state : State) (s : Nucleus n) : Fin n → Int :=
  ((enter state s).interrupted cfg).cpuTime

/-- The time of an interrupt billed to `p`: what is added to `p_time` after the entry, and what
the stopwatch shows at the last reading of the clock if `p` is given the processor. -/
def billed (s : Nucleus n) (state : State) (t : Nucleus n) (p : Fin n) : Int :=
  t.cpuTime p - s.entryTime cfg state p +
    if t.curr_process = some p then cfg.tod (t.clock - 1) - t.timer_start else 0

/-- The history variable: the time of interrupts billed to each process so far. -/
def bill (s : Nucleus n) (a : Action) (t : Nucleus n) (g : Fin n → Int) : Fin n → Int := fun p ↦
  match a with
  | .exception state => if excCode state.cause = 0 then g p + billed cfg s state t p else g p
  | _ => g p

/-- The nucleus with the bill for its interrupts. -/
abbrev BillStep : Nucleus n × (Fin n → Int) → Action → Nucleus n × (Fin n → Int) → Prop :=
  WithHistory (NucStep cfg) (bill cfg)

/-- If a process is preempted, the clock has not moved between the entry of the handler and
the second `updateProcessCPUTime`. -/
def Punctual (s : Nucleus n) : Action → Prop
  | .exception state =>
      Preempts state → s.curr_process ≠ none → cfg.tod (s.clock + 2) = cfg.tod (s.clock + 1)
  | _ => True

/-- A process that has the processor has nothing on the stopwatch. -/
def Settled (t : Nucleus n) : Prop :=
  ∀ p, t.curr_process = some p → t.timer_start = cfg.tod (t.clock - 1)

variable {cfg} {s t u : Nucleus n} {c p : Fin n} {e : Exit} {state : State} {g : Fin n → Int}

/-! ## The way out -/

theorem Settled.of_times (h : t.times = s.times) (hs : Settled cfg s) : Settled cfg t := by
  intro p hp
  rw [show t.timer_start = s.timer_start from congrArg (·.2.1) h,
    show t.clock = s.clock from congrArg (·.2.2.1) h]
  exact hs p ((congrArg (·.2.2.2) h).symm.trans hp)

variable (cfg) in
theorem flush_settled (s : Nucleus n) : Settled cfg (s.flush cfg) := fun _ _ ↦ rfl

/-- A dispatch charges no one. -/
theorem Scheduled.settled (h : Scheduled cfg s e t) (he : e ≠ .halt) :
    t.cpuTime = s.cpuTime ∧ Settled cfg t := by
  cases h with
  | halt => exact absurd rfl he
  | wait => exact ⟨rfl, fun p hp ↦ nomatch hp⟩
  | deadlock => exact ⟨rfl, fun p hp ↦ nomatch hp⟩
  | dispatch p prio rest hcount hnext hqueue =>
      have hload := load_times cfg p (s.pick p prio rest)
      refine ⟨(congrArg Prod.fst hload).trans ?_, .of_times hload (flush_settled cfg _)⟩
      cases prio <;> rfl

theorem Finished.settled {live : Prop} (h : Finished cfg s live e t) (he : e ≠ .halt)
    (hs : Settled cfg s) : t.cpuTime = s.cpuTime ∧ Settled cfg t := by
  cases h with
  | resume => exact ⟨rfl, hs⟩
  | schedule hdead hnext => exact hnext.settled he

/-- Every interrupt but that of the local timer. -/
theorem Interrupted.settled (hplt : ¬ s.pending &&& LOCALTIMERINT ≠ 0) (he : e ≠ .halt)
    (h : Interrupted cfg s e t) : t.cpuTime = s.cpuTime ∧ Settled cfg t := by
  cases h with
  | plt c hc hip hnext => exact absurd hip hplt
  | clock l hl hip hend =>
      obtain ⟨htime, hsettled⟩ := hend.settled he (flush_settled cfg _)
      exact ⟨htime.trans (congrArg Prod.fst (wakeClocks_times cfg.semaphore_it l s)), hsettled⟩
  | device i u hi hret hend =>
      obtain ⟨htime, hsettled⟩ := hend.settled he (flush_settled cfg _)
      exact ⟨htime.trans (congrArg Prod.fst hret.times), hsettled⟩
  | none hi hend => exact hend.settled he (flush_settled cfg _)

/-! ## The local timer -/

/-- A preemption charges the process for the time since the stopwatch was last started. -/
theorem preempted_cpuTime (c : Fin n) (s : Nucleus n) (p : Fin n) :
    (s.preempted cfg c).cpuTime p =
      s.cpuTime p + if p = c then cfg.tod s.clock - s.timer_start else 0 := by
  have hwake := wake_times c (((startPLT s).saveState c s.prev).charge cfg c)
  refine (congrFun (congrArg Prod.fst hwake) p).trans ?_
  change ((((startPLT s).saveState c s.prev).charge cfg c).pcbFree_table p).p_time = _
  rw [Nucleus.charge, Nucleus.modifyPcb_table]
  have hsave : (((startPLT s).saveState c s.prev).pcbFree_table p).p_time = s.cpuTime p :=
    congrFun (congrArg Prod.fst (saveState_times c s.prev (startPLT s))) p
  split
  · exact congrArg (· + _) hsave
  · exact hsave.trans (Int.add_zero _).symm

variable (cfg) in
/-- The handler is entered with the stopwatch started at the second reading of the clock. -/
theorem interrupted_times (hc : s.curr_process = some c) :
    (s.interrupted cfg).clock = s.clock + 2 ∧
      (s.interrupted cfg).timer_start = cfg.tod (s.clock + 1) := by
  unfold Nucleus.interrupted
  rw [hc]
  exact ⟨rfl, rfl⟩

theorem billed_eq (ht : Settled cfg t) (p : Fin n) :
    billed cfg s state t p = t.cpuTime p - s.entryTime cfg state p := by
  unfold billed
  split
  · rename_i hp
    rw [ht p hp, sub_self, Int.add_zero]
  · exact Int.add_zero _

/-- What an interrupt bills: nothing, but for the process that the local timer preempts. -/
theorem interrupt_billed (hs : Inv cfg s) (hcode : excCode state.cause = 0)
    (hstep : step cfg s (.exception state) = some t) (p : Fin n) :
    billed cfg s state t p =
      if Preempts state ∧ s.curr_process = some p then
        cfg.tod (s.clock + 2) - cfg.tod (s.clock + 1)
      else 0 := by
  obtain ⟨e, hdone, hrun, hend⟩ := step_handled hs hstep
  by_cases hplt : Preempts state
  · obtain ⟨c, hc, hnext⟩ := preempts_run hplt hdone.ne_nullDeref hrun
    obtain ⟨htime, hsettled⟩ := hnext.settled hdone.ne_halt
    obtain ⟨hclock, hstart⟩ := interrupted_times cfg (s := enter state s) hc
    rw [billed_eq hsettled, htime, preempted_cpuTime, hclock, hstart, Nucleus.entryTime, hc]
    by_cases hp : p = c
    · rw [if_pos hp, if_pos ⟨hplt, congrArg some hp.symm⟩, add_sub_cancel_left]
      rfl
    · rw [if_neg hp, if_neg fun h ↦ hp (Option.some.inj h.2).symm, Int.add_zero, sub_self]
  · rw [if_neg fun h ↦ hplt h.1]
    cases hend with
    | interrupt _ hend =>
        obtain ⟨htime, hsettled⟩ := hend.settled (s := (enter state s).interrupted cfg)
          (by rw [interrupted_pending]; exact fun hip ↦ hplt ⟨hcode, hip⟩) hdone.ne_halt
        rw [billed_eq hsettled, htime]
        exact sub_self _
    | call c code hc hcall => exact absurd hcode hcall.excCode_ne
    | passUp c i hc hcall hcode' => exact absurd hcode hcode'
    | trap c hc hcall hcode' => exact absurd hcode hcode'

/-! ## Every run -/

/-- A step bills no one less than before, and no more exactly if it is punctual. -/
theorem NucStep.bill {a : Action} (htod : Monotone cfg.tod) (hs : Inv cfg s)
    (h : NucStep cfg s a t) :
    (∀ p, g p ≤ bill cfg s a t g p) ∧ ((∀ p, bill cfg s a t g p = g p) ↔ Punctual cfg s a) := by
  have hstill : (∀ p, PandosPlus.bill cfg s a t g p = g p) → Punctual cfg s a →
      (∀ p, g p ≤ PandosPlus.bill cfg s a t g p) ∧
        ((∀ p, PandosPlus.bill cfg s a t g p = g p) ↔ Punctual cfg s a) :=
    fun hsame hp ↦ ⟨fun p ↦ (hsame p).ge, iff_of_true hsame hp⟩
  cases a with
  | store b v => exact hstill (fun _ ↦ rfl) trivial
  | support b x => exact hstill (fun _ ↦ rfl) trivial
  | exception state =>
      by_cases hcode : excCode state.cause = 0
      · have hbill : ∀ p, PandosPlus.bill cfg s (.exception state) t g p = g p +
            if Preempts state ∧ s.curr_process = some p then
              cfg.tod (s.clock + 2) - cfg.tod (s.clock + 1) else 0 := fun p ↦ by
          rw [← interrupt_billed hs hcode h.1 p]
          exact if_pos hcode
        have hle : cfg.tod (s.clock + 1) ≤ cfg.tod (s.clock + 2) := htod (Nat.le_succ _)
        refine ⟨fun p ↦ ?_, fun hzero hplt hcurr ↦ ?_, fun hpunctual p ↦ ?_⟩
        · rw [hbill]
          split <;> omega
        · obtain ⟨c, hc⟩ := Option.ne_none_iff_exists'.mp hcurr
          have hc' := hzero c
          rw [hbill, if_pos ⟨hplt, hc⟩] at hc'
          omega
        · rw [hbill]
          split
          · rename_i hcond
            have := hpunctual hcond.1 (by rw [hcond.2]; nofun)
            omega
          · exact Int.add_zero _
      · exact hstill (fun _ ↦ if_neg hcode) fun hplt ↦ absurd hplt.1 hcode

/-- A run bills the time of its interrupts to no process exactly if each of its steps is
punctual. -/
theorem interruptTime_iff (htod : Monotone cfg.tod) {s₀ : Nucleus n} {as : List Action}
    (h₀ : Start cfg s₀) (hrun : Run (BillStep cfg) (s₀, fun _ ↦ 0) as (s, g)) :
    (∀ p, g p = 0) ↔
      Run (fun x a y ↦ BillStep cfg x a y ∧ Punctual cfg x.1 a) (s₀, fun _ ↦ 0) as (s, g) := by
  constructor
  · -- what has been billed stays billed, so that every step has billed nothing
    suffices h : ∀ x, Run (BillStep cfg) (s₀, fun _ ↦ 0) as x →
        Inv cfg x.1 ∧ (∀ p, 0 ≤ x.2 p) ∧ ((∀ p, x.2 p = 0) →
          Run (fun x a y ↦ BillStep cfg x a y ∧ Punctual cfg x.1 a) (s₀, fun _ ↦ 0) as x) from
      (h (s, g) hrun).2.2
    clear hrun
    intro x hrun
    induction hrun with
    | nil => exact ⟨h₀.inv, fun _ ↦ le_refl _, fun _ ↦ .nil⟩
    | @snoc y z as a hrun hstep ih =>
        obtain ⟨hs, hpos, hpunctual⟩ := ih
        obtain ⟨hle, hsame⟩ := hstep.1.bill (g := y.2) htod hs
        rw [← hstep.2] at hle hsame
        refine ⟨hstep.1.inv hs, fun p ↦ (hpos p).trans (hle p), fun hzero ↦ ?_⟩
        have hy : ∀ p, y.2 p = 0 := fun p ↦ le_antisymm ((hle p).trans (hzero p).le) (hpos p)
        exact .snoc (hpunctual hy) ⟨hstep, hsame.mp fun p ↦ (hzero p).trans (hy p).symm⟩
  · intro hrun
    refine (hrun.invariant (I := fun x ↦ Inv cfg x.1 ∧ ∀ p, x.2 p = 0) ?_
      ⟨h₀.inv, fun _ ↦ rfl⟩).2
    rintro x a y ⟨hs, hzero⟩ ⟨hstep, hpunctual⟩
    obtain ⟨-, hsame⟩ := hstep.1.bill (g := x.2) htod hs
    refine ⟨hstep.1.inv hs, fun p ↦ ?_⟩
    rw [hstep.2, hsame.mpr hpunctual p, hzero p]

/-- A tick of the interval timer bills nothing. -/
theorem interruptTime_iff_sample :
    ∃ (s₀ s : Nucleus 1) (g : Fin 1 → Int), Start (.sample 1 (by decide) .faults) s₀ ∧
      Run (BillStep (.sample 1 (by decide) .faults)) (s₀, fun _ ↦ 0)
        [.exception { State.zero with cause := TIMERINTERRUPT }] (s, g) ∧ ∀ p, g p = 0 := by
  let cfg := Config.sample 1 (by decide) .faults
  let a : Action := .exception { State.zero with cause := TIMERINTERRUPT }
  have hruns : ((firstState cfg).any fun s₀ ↦ (step cfg s₀ a).isSome) = true := by decide +kernel
  obtain ⟨s₀, h₀, hruns⟩ := (Option.any_eq_true _ _).mp hruns
  obtain ⟨s, hstep⟩ := Option.isSome_iff_exists.mp hruns
  have hbill : BillStep cfg (s₀, fun _ ↦ 0) a (s, bill cfg s₀ a s fun _ ↦ 0) :=
    ⟨⟨hstep, by decide⟩, rfl⟩
  have hplt : ¬ Preempts { State.zero with cause := TIMERINTERRUPT } := by decide
  exact ⟨s₀, s, _, firstState_start h₀, .single hbill,
    (interruptTime_iff (fun _ _ h ↦ Int.ofNat_le.mpr h) (firstState_start h₀) (.single hbill)).mpr
      (.single ⟨hbill, fun h ↦ absurd h hplt⟩)⟩

/-- The local timer interrupts the only process, and the time of the handler is billed to it. -/
theorem interruptTime_billed :
    ∃ (s₀ s : Nucleus 1) (g : Fin 1 → Int), Start (.sample 1 (by decide) .faults) s₀ ∧
      Monotone (Config.sample 1 (by decide) .faults).tod ∧
      Run (BillStep (.sample 1 (by decide) .faults)) (s₀, fun _ ↦ 0)
        [.exception { State.zero with cause := LOCALTIMERINT }] (s, g) ∧ g 0 = 1 := by
  let cfg := Config.sample 1 (by decide) .faults
  let a : Action := .exception { State.zero with cause := LOCALTIMERINT }
  have hruns : ((firstState cfg).any fun s₀ ↦ (step cfg s₀ a).any fun s ↦
      decide (bill cfg s₀ a s (fun _ ↦ 0) 0 = 1)) = true := by decide +kernel
  obtain ⟨s₀, h₀, hruns⟩ := (Option.any_eq_true _ _).mp hruns
  obtain ⟨s, hstep, hbill⟩ := (Option.any_eq_true _ _).mp hruns
  exact ⟨s₀, s, _, firstState_start h₀, fun _ _ h ↦ Int.ofNat_le.mpr h,
    .single ⟨⟨hstep, by decide⟩, rfl⟩, of_decide_eq_true hbill⟩

end PandosPlus
