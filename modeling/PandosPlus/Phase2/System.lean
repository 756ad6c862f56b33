import PandosPlus.Lib.Run
import PandosPlus.Phase2.Exceptions

/-!
# The nucleus as a system

`main` builds the first state.  After that the kernel runs when an exception is
raised, and in between the processes and the devices change the memory that does not
belong to the nucleus.  A step of the system is one such change, or one whole run of
`exceptionHandler`, from the saved state to the state it loads; it completes if the
kernel hands over the processor or waits.

The processor can raise any exception, except that without a current process it
waits, so only interrupts are possible.
-/

namespace PandosPlus

variable {n : Nat} (cfg : Config n)

/-! ## The first state -/

/-- `_initDeviceSemaphores` -/
def initDeviceSemaphores (s : Nucleus n) : Nucleus n :=
  (List.finRange TOTAL_IO_DEVICES).foldl (fun s i ↦ s.store (cfg.devSem i) 0)
    (s.store cfg.semaphore_it 0)

/-- `_createFirstProcess` -/
def createFirstProcess : NucM n (Fin n) := do
  let s ← get
  match allocPcb s with
  | none => throw .nullDeref
  | some (first_proc, s) =>
      set s
      modify fun s ↦ s.modifyPcb first_proc fun x ↦
        { x with
          p_prio := .low
          p_s := { x.p_s with
            reg_sp := cfg.ramTop
            status := IMON ||| IEPON ||| TEBITON
            pc_epc := cfg.test
            reg_t9 := cfg.test } }
      return first_proc

/-- `main`, without the pass up vector. -/
def main : NucM n Unit := do
  modify initPcbs
  modify fun s ↦ { s with asl := initASL s.asl }
  modify fun s ↦
    { s with
      process_count := 0, softblocked_count := 0, high_readyqueue := [], low_readyqueue := []
      curr_process := none }
  modify (initDeviceSemaphores cfg)
  resetIntervalTimer cfg
  let first_proc ← createFirstProcess cfg
  modify fun s ↦ { s with low_readyqueue := insertProcQ s.low_readyqueue first_proc }
  modify fun s ↦ { s with process_count := s.process_count + 1 }
  scheduler cfg
  throw (.panic .main)

/-- The states `main` leaves behind, from any contents of the memory. -/
def Start (s : Nucleus n) : Prop :=
  ∃ mem support e, main cfg (.boot mem support) = .error e s ∧ e.Completed

/-! ## Steps -/

/-- What happens to the system. -/
inductive Action where
  /-- A process or a device writes a word. -/
  | store (a v : Word)
  /-- A process writes a support structure. -/
  | support (a : Word) (x : Support)
  /-- An exception is raised, and the BIOS saves the state of the processor. -/
  | exception (state : State)

/-- Entry into the kernel: interrupts are masked and the modes pushed. -/
def enter (state : State) (s : Nucleus n) : Nucleus n :=
  { s with
    prev := state
    status := (state.status &&& 0xFFFFFFC0) ||| ((state.status &&& 0xF) <<< 2) }

/-- The words of the semaphores of the nucleus. -/
def Owned (a : Word) : Prop :=
  a = cfg.semaphore_it ∨
    (cfg.devSem 0 ≤ a ∧ a ≤ cfg.devSem (Fin.last (TOTAL_IO_DEVICES - 1)))

instance (a : Word) : Decidable (Owned cfg a) := inferInstanceAs (Decidable (_ ∨ _))

/-- The state after an action, if it can happen and the kernel completes. -/
def step (s : Nucleus n) : Action → Option (Nucleus n)
  | .store a v => if Owned cfg a then none else some (s.store a v)
  | .support a x => some { s with support := fun b ↦ if b = a then x else s.support b }
  | .exception state =>
      if excCode state.cause = 0 ∨ s.curr_process ≠ none then
        match exceptionHandler cfg (enter state s) with
        | .error e t => if e.Completed then some t else none
        | .ok _ _ => none
      else none

/-- The saved state is that of a system call the nucleus serves: the code is given and
the process was in kernel mode. -/
def IsCall (state : State) (code : Int) : Prop :=
  excCode state.cause = 8 ∧ state.status &&& USERPON = 0 ∧ state.reg_a0.toInt = code

instance (state : State) (code : Int) : Decidable (IsCall state code) :=
  inferInstanceAs (Decidable (_ ∧ _))

/-- PASSEREN and VERHOGEN are not called on the semaphores of the nucleus. -/
def Action.Lawful : Action → Prop
  | .exception state =>
      IsCall state PASSEREN ∨ IsCall state VERHOGEN → ¬ Owned cfg state.reg_a1
  | _ => True

instance : DecidablePred (Action.Lawful cfg)
  | .exception _ => inferInstanceAs (Decidable (_ → _))
  | .store _ _ | .support _ _ => .isTrue trivial

/-- The steps of the nucleus. -/
def NucStep (s : Nucleus n) (a : Action) (t : Nucleus n) : Prop :=
  step cfg s a = some t ∧ a.Lawful cfg

/-- No PCB has been given the reserved pid. -/
def NoReservedPid (s : Nucleus n) : Prop :=
  ∀ p ∉ s.pcbFree_h, (s.pcbFree_table p).p_pid ≠ FREE_PCB_PID

instance (s : Nucleus n) : Decidable (NoReservedPid s) :=
  inferInstanceAs (Decidable (∀ p ∉ s.pcbFree_h, _))

variable {cfg} {s t : Nucleus n}

theorem step_exception {state : State} (h : step cfg s (.exception state) = some t) :
    (excCode state.cause = 0 ∨ s.curr_process ≠ none) ∧
      ∃ e, exceptionHandler cfg (enter state s) = .error e t ∧ e.Completed := by
  simp only [step] at h
  split at h
  · rename_i hguard
    refine ⟨hguard, ?_⟩
    cases hrun : exceptionHandler cfg (enter state s) with
    | ok a u => rw [hrun] at h; cases h
    | error e u =>
        simp only [hrun, Option.ite_none_right_eq_some, Option.some.injEq] at h
        exact ⟨e, h.2 ▸ rfl, h.1⟩
  · cases h

/-! ## Computing a run -/

/-- A machine to compute runs on; its clock advances by one with each reading. -/
def Config.sample (n : Nat) (h : n < 2 ^ 32) (nullRead : NullRead) : Config n where
  NULL := 0
  semaphore_it := 0x20001000
  semaphore_devices := 0x20001004
  test := 0x20002000
  ramTop := 0x20100000
  readState := fun _ _ ↦ .zero
  tod := fun k ↦ k
  nullRead := nullRead
  maxproc_lt := h
  it_ram := by decide
  devices_ram := by decide
  devices_end := by decide
  it_notMem := by decide

/-- The state saved at a system call. -/
def State.call (code : Int) (a1 a2 a3 : Word) : State :=
  { State.zero with
    cause := 0x20, reg_a0 := BitVec.ofInt 32 code, reg_a1 := a1, reg_a2 := a2, reg_a3 := a3 }

/-- The exception raised by a system call. -/
def Action.call (code : Int) (a1 a2 a3 : Word) : Action := .exception (.call code a1 a2 a3)

variable (cfg) in
/-- The state `main` leaves behind on a machine whose memory holds zeros. -/
def firstState : Option (Nucleus n) :=
  match main cfg .zero with
  | .error e s => if e.Completed then some s else none
  | .ok _ _ => none

variable (cfg) in
/-- The state after a list of actions, if each is lawful and completes. -/
def execute : List Action → Nucleus n → Option (Nucleus n)
  | [], s => some s
  | a :: as, s => if a.Lawful cfg then (step cfg s a).bind (execute as) else none

theorem execute_run {as : List Action} (h : execute cfg as s = some t) :
    Lts.Run (NucStep cfg) s as t := by
  induction as generalizing s with
  | nil => cases h; exact .nil
  | cons a as ih =>
      simp only [execute, Option.ite_none_right_eq_some, Option.bind_eq_some_iff] at h
      obtain ⟨hlaw, u, hstep, h⟩ := h
      exact Lts.Run.cons ⟨hstep, hlaw⟩ (ih h)

theorem firstState_start (h : firstState cfg = some s) : Start cfg s := by
  unfold firstState at h
  cases hrun : main cfg .zero with
  | ok a u => rw [hrun] at h; cases h
  | error e u =>
      simp only [hrun, Option.ite_none_right_eq_some, Option.some.injEq] at h
      obtain ⟨hdone, rfl⟩ := h
      exact ⟨_, _, e, hrun, hdone⟩

variable (cfg) in
/-- The states computed are reachable. -/
theorem execute_reachable {P : Nucleus n → Prop} [DecidablePred P] (as : List Action)
    (h : ((firstState cfg).bind (execute cfg as)).any (fun s ↦ decide (P s)) = true) :
    ∃ s, Lts.Reachable (Start cfg) (NucStep cfg) s ∧ P s := by
  obtain ⟨s, hs, hobs⟩ := (Option.any_eq_true _ _).mp h
  obtain ⟨s₀, hstart, hrun⟩ := Option.bind_eq_some_iff.mp hs
  exact ⟨s, ⟨s₀, as, firstState_start hstart, execute_run hrun⟩, of_decide_eq_true hobs⟩

end PandosPlus
