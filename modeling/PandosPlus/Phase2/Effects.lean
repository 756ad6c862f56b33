import PandosPlus.Phase1.AslInvariant
import PandosPlus.Phase1.Pids
import PandosPlus.Phase2.Exceptions

/-!
# What the routines of the scheduler do

Each routine of `scheduler.c` and `asl.c` that the handlers call, run on a state:
the change it makes is written as a function on states, and a routine with several
ways to end as a relation with one constructor for each.  `scheduler` never comes
back, so a semaphore operation that blocks ends where the scheduler does.
-/

namespace PandosPlus

open Flow

variable {n : Nat}

namespace Nucleus

/-- `p_prio` of every PCB. -/
def prio (s : Nucleus n) (p : Fin n) : Prio := (s.pcbFree_table p).p_prio

/-- `timerFlush`: the clock is read twice. -/
def flush (cfg : Config n) (s : Nucleus n) : Nucleus n :=
  { s with clock := s.clock + 2, timer_start := cfg.tod (s.clock + 1) }

/-- `updateProcessCPUTime`, for the current process `c`. -/
def charge (cfg : Config n) (c : Fin n) (s : Nucleus n) : Nucleus n :=
  (s.flush cfg).modifyPcb c fun x ↦
    { x with p_time := x.p_time + (cfg.tod s.clock - s.timer_start) }

/-- `p->p_s = *state` -/
def saveState (p : Fin n) (state : State) (s : Nucleus n) : Nucleus n :=
  s.modifyPcb p fun x ↦ { x with p_s := state }

/-- `p` goes to the end of its ready queue. -/
def makeReady (p : Fin n) (s : Nucleus n) : Nucleus n :=
  s.setReadyQueue (s.readyQueue (s.prio p) ++ [p]) (s.prio p)

/-- `setProcessReady`: a PCB with the reserved pid is dropped. -/
def wake (p : Fin n) (s : Nucleus n) : Nucleus n :=
  if s.pid p = FREE_PCB_PID then s else s.makeReady p

/-- `p` is taken from the head of its ready queue and becomes the current process. -/
def pick (p : Fin n) (prio : Prio) (rest : List (Fin n)) (s : Nucleus n) : Nucleus n :=
  { s.setReadyQueue rest prio with process_to_skip := none, curr_process := some p }

/-- The last lines of `scheduler`. -/
def load (cfg : Config n) (p : Fin n) (s : Nucleus n) : Nucleus n :=
  (if s.prio p = .low then
      startPLT (s.modifyPcb p fun x ↦
        { x with p_s := { x.p_s with status := x.p_s.status ||| TEBITON } })
    else s.modifyPcb p fun x ↦
      { x with p_s := { x.p_s with status := x.p_s.status &&& ~~~TEBITON } }).flush cfg

/-- No process is ready: the processor waits for an interrupt. -/
def idle (s : Nucleus n) : Nucleus n :=
  { s with
    process_to_skip := none, curr_process := none
    status := (s.status ||| IECON ||| IMON) &&& ~~~TEBITON }

end Nucleus

/-! ## A process made ready -/

namespace Nucleus

variable (p : Fin n) (s : Nucleus n)

@[simp] theorem makeReady_table : (s.makeReady p).pcbFree_table = s.pcbFree_table :=
  setReadyQueue_table _ _ _

@[simp] theorem makeReady_free : (s.makeReady p).pcbFree_h = s.pcbFree_h :=
  setReadyQueue_free _ _ _

@[simp] theorem makeReady_asl : (s.makeReady p).asl = s.asl := setReadyQueue_asl _ _ _

@[simp] theorem makeReady_soft : (s.makeReady p).softblocked_count = s.softblocked_count :=
  setReadyQueue_soft _ _ _

@[simp] theorem makeReady_mem : (s.makeReady p).mem = s.mem := setReadyQueue_mem _ _ _

@[simp] theorem makeReady_curr : (s.makeReady p).curr_process = s.curr_process :=
  setReadyQueue_curr _ _ _

@[simp] theorem makeReady_prev : (s.makeReady p).prev = s.prev := setReadyQueue_prev _ _ _

@[simp] theorem wake_table : (s.wake p).pcbFree_table = s.pcbFree_table := by
  unfold wake
  split
  · rfl
  · exact makeReady_table p s

@[simp] theorem wake_free : (s.wake p).pcbFree_h = s.pcbFree_h := by
  unfold wake
  split
  · rfl
  · exact makeReady_free p s

@[simp] theorem wake_asl : (s.wake p).asl = s.asl := by
  unfold wake
  split
  · rfl
  · exact makeReady_asl p s

@[simp] theorem wake_soft : (s.wake p).softblocked_count = s.softblocked_count := by
  unfold wake
  split
  · rfl
  · exact makeReady_soft p s

@[simp] theorem wake_mem : (s.wake p).mem = s.mem := by
  unfold wake
  split
  · rfl
  · exact makeReady_mem p s

@[simp] theorem wake_curr : (s.wake p).curr_process = s.curr_process := by
  unfold wake
  split
  · rfl
  · exact makeReady_curr p s

@[simp] theorem wake_prev : (s.wake p).prev = s.prev := by
  unfold wake
  split
  · rfl
  · exact makeReady_prev p s

@[simp] theorem makeReady_semAdd : (s.makeReady p).semAdd = s.semAdd := by
  funext q
  rw [semAdd, makeReady_table]
  rfl

@[simp] theorem makeReady_pid : (s.makeReady p).pid = s.pid := by
  funext q
  rw [pid, makeReady_table]
  rfl

@[simp] theorem wake_semAdd : (s.wake p).semAdd = s.semAdd := by
  funext q
  rw [semAdd, wake_table]
  rfl

@[simp] theorem wake_pid : (s.wake p).pid = s.pid := by
  funext q
  rw [pid, wake_table]
  rfl

@[simp] theorem wake_prio : (s.wake p).prio = s.prio := by
  funext q
  rw [prio, wake_table]
  rfl

@[simp] theorem wake_skip : (s.wake p).process_to_skip = s.process_to_skip := by
  unfold wake
  split
  · rfl
  · exact setReadyQueue_skip _ _ _

@[simp] theorem makeReady_plt : (s.makeReady p).plt = s.plt := setReadyQueue_plt _ _ _

@[simp] theorem wake_plt : (s.wake p).plt = s.plt := by
  unfold wake
  split
  · rfl
  · exact makeReady_plt p s

theorem makeReady_readyQueue (pr : Prio) :
    (s.makeReady p).readyQueue pr = s.readyQueue pr ++ [p].filter (s.prio · = pr) := by
  rw [makeReady, List.filter_singleton]
  by_cases h : s.prio p = pr
  · subst h
    rw [readyQueue_setReadyQueue, decide_eq_true rfl, cond_true]
  · rw [readyQueue_setReadyQueue_ne _ _ (Ne.symm h), decide_eq_false h, cond_false,
      List.append_nil]

theorem wake_readyQueue (pr : Prio) :
    (s.wake p).readyQueue pr =
      s.readyQueue pr ++ ([p].filter (s.pid · ≠ FREE_PCB_PID)).filter (s.prio · = pr) := by
  rw [wake, List.filter_singleton (p := fun q ↦ decide (s.pid q ≠ FREE_PCB_PID))]
  by_cases h : s.pid p = FREE_PCB_PID
  · rw [if_pos h, decide_eq_false (not_not.mpr h), cond_false, List.filter_nil, List.append_nil]
  · rw [if_neg h, decide_eq_true h, cond_true, makeReady_readyQueue]

end Nucleus

variable (cfg : Config n) {s t : Nucleus n} {c p : Fin n} {e : Exit}

/-! ## Timers and queues -/

@[simp] theorem timerFlush_run (s : Nucleus n) :
    timerFlush cfg s = .ok (cfg.tod s.clock - s.timer_start) (s.flush cfg) := rfl

theorem updateProcessCPUTime_run (hc : s.curr_process = some c) :
    updateProcessCPUTime cfg s = .ok ⟨⟩ (s.charge cfg c) := by
  simp only [updateProcessCPUTime, bind_run, get_run, hc, deref_some, timerFlush_run, modify_run]
  rfl

theorem setProcessBlocked_run (hc : s.curr_process = some c) (state : State) :
    setProcessBlocked cfg state s = .ok ⟨⟩ ((s.saveState c state).charge cfg c) := by
  simp only [setProcessBlocked, bind_run, get_run, hc, deref_some, modify_run]
  exact updateProcessCPUTime_run cfg hc

theorem isAlive_run (p : Fin n) (s : Nucleus n) :
    isAlive cfg (some p) s = .ok (decide (s.pid p ≠ FREE_PCB_PID)) s := rfl

theorem isAlive_live (h : s.pid p ≠ FREE_PCB_PID) : isAlive cfg (some p) s = .ok true s := by
  rw [isAlive_run, decide_eq_true h]

theorem isAlive_dead (h : ¬ s.pid p ≠ FREE_PCB_PID) : isAlive cfg (some p) s = .ok false s := by
  rw [isAlive_run, decide_eq_false h]

theorem setProcessReady_run (p : Fin n) (s : Nucleus n) :
    setProcessReady cfg (some p) s = .ok ⟨⟩ (s.wake p) := by
  simp only [setProcessReady, bind_run, isAlive_run, Nucleus.wake]
  by_cases h : s.pid p = FREE_PCB_PID <;> simp [h]
  rfl

/-! ## The scheduler -/

/-- How `scheduler` ends. -/
inductive Scheduled (s : Nucleus n) : Exit → Nucleus n → Prop
  /-- No process is alive. -/
  | halt (hcount : s.process_count = 0) : Scheduled s .halt s
  /-- None is ready, some are soft-blocked. -/
  | wait (hcount : s.process_count ≠ 0) (hhigh : s.high_readyqueue = [])
      (hlow : s.low_readyqueue = []) (hsoft : s.softblocked_count > 0) : Scheduled s .wait s.idle
  /-- None is ready and none soft-blocked. -/
  | deadlock (hcount : s.process_count ≠ 0) (hhigh : s.high_readyqueue = [])
      (hlow : s.low_readyqueue = []) (hsoft : ¬ s.softblocked_count > 0) :
      Scheduled s (.panic .deadlock) { s with process_to_skip := none, curr_process := none }
  /-- A process is dispatched. -/
  | dispatch (p : Fin n) (prio : Prio) (rest : List (Fin n)) (hcount : s.process_count ≠ 0)
      (hnext : (getNextProcess s).1 = some p) (hqueue : s.readyQueue prio = p :: rest) :
      Scheduled s (.ldst (((s.pick p prio rest).load cfg p).pcbFree_table p).p_s)
        ((s.pick p prio rest).load cfg p)

/-- What `_getNextProcess` chooses. -/
theorem getNextProcess_cases (s : Nucleus n) :
    s.high_readyqueue = [] ∧ s.low_readyqueue = [] ∧
        getNextProcess s = (none, { s with process_to_skip := none }) ∨
      ∃ p prio rest, s.readyQueue prio = p :: rest ∧
        getNextProcess s = (some p, { s.setReadyQueue rest prio with process_to_skip := none }) := by
  by_cases h : s.high_readyqueue ≠ [] ∧
      (headProcQ s.high_readyqueue ≠ s.process_to_skip ∨ s.low_readyqueue = [])
  · obtain ⟨p, rest, hq⟩ := List.exists_cons_of_ne_nil h.1
    refine .inr ⟨p, .high, rest, hq, ?_⟩
    simp only [getNextProcess, if_pos h]
    rw [hq]
    rfl
  · by_cases hl : s.low_readyqueue = []
    · have hh : s.high_readyqueue = [] := by
        by_contra hne
        exact h ⟨hne, .inr hl⟩
      have hrem : removeProcQ s.low_readyqueue = (none, s.low_readyqueue) := by rw [hl]; rfl
      exact .inl ⟨hh, hl, by simp only [getNextProcess, if_neg h, hrem]⟩
    · obtain ⟨p, rest, hq⟩ := List.exists_cons_of_ne_nil hl
      refine .inr ⟨p, .low, rest, hq, ?_⟩
      simp only [getNextProcess, if_neg h]
      rw [hq]
      rfl

theorem dispatch_run (p : Fin n) (s : Nucleus n) :
    dispatch cfg p s = .error (.ldst ((s.load cfg p).pcbFree_table p).p_s) (s.load cfg p) := by
  by_cases h : (s.pcbFree_table p).p_prio = .low <;>
    simp [dispatch, bind_run, h, Nucleus.load, Nucleus.prio]

/-- `scheduler` never returns to its caller. -/
theorem scheduler_run (s : Nucleus n) :
    ∃ e t, scheduler cfg s = .error e t ∧ Scheduled cfg s e t := by
  by_cases hcount : s.process_count = 0
  · exact ⟨.halt, s, by simp [scheduler, bind_run, hcount], .halt hcount⟩
  rcases getNextProcess_cases s with ⟨hhigh, hlow, hnext⟩ | ⟨p, prio, rest, hq, hnext⟩
  · by_cases hsoft : s.softblocked_count > 0
    · refine ⟨.wait, s.idle, ?_, .wait hcount hhigh hlow hsoft⟩
      simp only [scheduler, bind_run, get_run, ite_run, hcount, if_false, hnext, set_run,
        hsoft, if_true, modify_run, throw_run]
      rfl
    · refine ⟨_, _, ?_, .deadlock hcount hhigh hlow hsoft⟩
      simp only [scheduler, bind_run, get_run, ite_run, hcount, if_false, hnext, set_run,
        hsoft, throw_run]
  · refine ⟨_, _, ?_, .dispatch p prio rest hcount (by rw [hnext]) hq⟩
    simp only [scheduler, bind_run, get_run, ite_run, hcount, if_false, hnext, set_run]
    exact dispatch_run cfg p _

/-! ## The semaphore operations -/

/-- How `semP` and `semV` end when the current process `c` calls them: the first waits
for the word at `k` to differ from `full = 0`, the second from `full = 1`.  A caller
that does not block is resumed. -/
inductive SemCall (full k : Word) (c : Fin n) (s : Nucleus n) : Exit → Nucleus n → Prop
  /-- The caller blocks. -/
  | block {e : Exit} {t : Nucleus n} (hfull : s.mem k = full)
      (hnext : Scheduled cfg (((s.block k c).saveState c s.prev).charge cfg c) e t) :
      SemCall full k c s e t
  /-- The first waiter is released. -/
  | release (p : Fin n) (rest : List (Fin n)) (hfull : s.mem k ≠ full)
      (hqueue : s.asl.queue k = p :: rest) :
      SemCall full k c s (.ldst s.prev) ((s.unblock k p).wake p)
  /-- No one waits: the word is written. -/
  | write (hfull : s.mem k ≠ full) (hqueue : s.asl.queue k = []) :
      SemCall full k c s (.ldst s.prev) (s.store k full)

theorem semOp_release {full k : Word} {rest : List (Fin n)} (process : Option (Fin n))
    (state : State) (hfull : s.mem k ≠ full) (hqueue : s.asl.queue k = p :: rest) :
    semOp cfg full (some k) process state s = .ok (some p) ((s.unblock k p).wake p) := by
  have hhead : headBlocked k s = some p := by rw [headBlocked_eq, hqueue]; rfl
  simp only [semOp, bind_run, deref_some, get_run, ite_run, hfull, if_false, hhead, ne_eq,
    reduceCtorEq, not_false_eq_true, if_true, removeBlocked_run hqueue, setProcessReady_run,
    pure_run]

theorem semOp_write {full k : Word} (process : Option (Fin n)) (state : State)
    (hfull : s.mem k ≠ full) (hqueue : s.asl.queue k = []) :
    semOp cfg full (some k) process state s = .ok none (s.store k full) := by
  have hhead : headBlocked k s = none := by rw [headBlocked_eq, hqueue]; rfl
  simp only [semOp, bind_run, deref_some, get_run, ite_run, hfull, if_false, hhead, ne_eq,
    not_true_eq_false, modify_run, pure_run]

theorem semOp_block {full k : Word} (state : State) (h : s.asl.Inv s.semAdd)
    (hc : s.curr_process = some c) (hsem : s.semAdd c = none) (hfull : s.mem k = full) :
    ∃ e t, semOp cfg full (some k) (some c) state s = .error e t ∧
      Scheduled cfg (((s.block k c).saveState c state).charge cfg c) e t := by
  obtain ⟨e, t, hrun, hsched⟩ :=
    scheduler_run cfg (((s.block k c).saveState c state).charge cfg c)
  refine ⟨e, t, ?_, hsched⟩
  have hblocked : setProcessBlocked cfg state (s.block k c) = _ :=
    setProcessBlocked_run cfg (s := s.block k c) hc state
  simp only [semOp, bind_run, deref_some, get_run, ite_run, hfull, if_true,
    insertBlocked_run h hsem k, Bool.false_eq_true, if_false, pure_run, hblocked, hrun]

/-- The operations on a semaphore, called by the current process. -/
theorem semOp_run (full k : Word) (h : s.asl.Inv s.semAdd)
    (hc : s.curr_process = some c) (hsem : s.semAdd c = none) :
    ∃ e t, (semOp cfg full (some k) (some c) s.prev >>= fun _ ↦ resume) s = .error e t ∧
      SemCall cfg full k c s e t := by
  by_cases hfull : s.mem k = full
  · obtain ⟨e, t, hrun, hsched⟩ := semOp_block cfg s.prev h hc hsem hfull
    exact ⟨e, t, by rw [bind_run, hrun], .block hfull hsched⟩
  · cases hq : s.asl.queue k with
    | nil =>
        refine ⟨_, _, ?_, .write hfull hq⟩
        rw [bind_run, semOp_write cfg _ _ hfull hq]
        rfl
    | cons p rest =>
        refine ⟨_, _, ?_, .release p rest hfull hq⟩
        rw [bind_run, semOp_release cfg _ _ hfull hq]
        exact congrArg (fun x ↦ EStateM.Result.error (Exit.ldst x) _) (Nucleus.wake_prev p _)

end PandosPlus
