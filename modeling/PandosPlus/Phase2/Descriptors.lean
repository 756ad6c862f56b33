import PandosPlus.Phase2.Devices

/-!
# Semaphore descriptors

There are as many semaphore descriptors as PCBs.  An active one has a process in its queue,
a process is in one queue only, and the one that is about to block is in none: so a
descriptor is free for it (`noSemaphore_unreachable`).

The V of a completion has no process to block.  It would have to, and could then find no
descriptor, if the semaphore of the device were up already; but that takes two completions
without a command between them.
-/

namespace PandosPlus

open Flow Lts

variable {n : Nat} (cfg : Config n)

/-- The registers that have been given a command since they were last served. -/
abbrev Commands := Fin TOTAL_IO_DEVICES → Bool

/-- The commands outstanding after an action. -/
def outstanding (s : Nucleus n) (a : Action) (_ : Nucleus n) (g : Commands) : Commands :=
  match a with
  | .exception state => fun i ↦
      if IsCall state DOIO ∧ state.reg_a1 = commandAddr i then true
      else if excCode state.cause = 0 ∧ (enter state s).served = some i then false
      else g i
  | _ => g

/-- A register interrupts only when it has been given a command. -/
def Answers (s : Nucleus n) (state : State) (g : Commands) : Prop :=
  ∀ i, excCode state.cause = 0 → (enter state s).served = some i → g i = true

/-- The nucleus with the commands outstanding. -/
abbrev CommandStep : Nucleus n × Commands → Action → Nucleus n × Commands → Prop :=
  WithHistory (NucStep cfg) outstanding

/-- The semaphore of a register is up only with no one waiting, and no command outstanding. -/
def Lowered (s : Nucleus n) (g : Commands) (i : Fin TOTAL_IO_DEVICES) : Prop :=
  s.mem (cfg.devSem i) = 0 ∨
    cfg.nullRead = .dead ∧ s.asl.queue (cfg.devSem i) = [] ∧ g i = false

variable {cfg} {s t : Nucleus n} {c : Fin n} {e : Exit} {state : State} {held : List (Fin n)}
variable {g : Commands} {i : Fin TOTAL_IO_DEVICES} {a : Action}

/-! ## Where the kernel gives up -/

theorem Scheduled.ne_noSemaphore (h : Scheduled cfg s e t) : e ≠ .panic .noSemaphore := by
  rintro rfl
  cases h

theorem Finished.ne_noSemaphore {live : Prop} (h : Finished cfg s live e t) :
    e ≠ .panic .noSemaphore := by
  cases h with
  | resume => exact nofun
  | schedule hdead hnext => exact hnext.ne_noSemaphore

theorem PassedUp.ne_noSemaphore {j : Fin 2} (h : PassedUp cfg j c s e t) :
    e ≠ .panic .noSemaphore := by
  cases h with
  | up => exact nofun
  | die K u ha hkill hnext => exact hnext.ne_noSemaphore

theorem SemCall.ne_noSemaphore {full k : Word} (h : SemCall cfg full k c s e t) :
    e ≠ .panic .noSemaphore := by
  cases h with
  | block hfull hnext => exact hnext.ne_noSemaphore
  | release | write => exact nofun

theorem Called.ne_noSemaphore {code : Int} (h : Called cfg c s code e t) :
    e ≠ .panic .noSemaphore := by
  cases h with
  | kill p K u htarget hkill hend => exact hend.ne_noSemaphore
  | killNone htarget hend => exact hend.ne_noSemaphore
  | passeren k hk hsem => exact hsem.ne_noSemaphore
  | verhogen k hk hsem => exact hsem.ne_noSemaphore
  | doIo j hi hsem => exact hsem.ne_noSemaphore
  | clockWait hsem => exact hsem.ne_noSemaphore
  | yield hnext => exact hnext.ne_noSemaphore
  | invalid hcode hend => exact hend.ne_noSemaphore
  | createFails | create | getTime | getSupportPtr | getProcessId => exact nofun

theorem Interrupted.ne_noSemaphore (h : Interrupted cfg s e t) : e ≠ .panic .noSemaphore := by
  cases h with
  | plt c hc hip hnext => exact hnext.ne_noSemaphore
  | clock l hl hip hend => exact hend.ne_noSemaphore
  | device j u hj hret hend => exact hend.ne_noSemaphore
  | none hi hend => exact hend.ne_noSemaphore

theorem Handled.ne_noSemaphore (h : Handled cfg s e t) : e ≠ .panic .noSemaphore := by
  cases h with
  | interrupt hcode hend => exact hend.ne_noSemaphore
  | call c code hc hcall hend => exact hend.ne_noSemaphore
  | passUp c j hc hcall hcode hend => exact hend.ne_noSemaphore
  | trap c hc hcall hcode hend => exact hend.ne_noSemaphore

/-- Only a completion can find no descriptor, when the semaphore of the device is up. -/
theorem exceptionHandler_noSemaphore (hs : Core s (s.curr_process.toList ++ held))
    (hv : s.mem cfg.semaphore_it ≠ 1) (hcurr : excCode s.prev.cause = 0 ∨ s.curr_process ≠ none)
    (hrun : exceptionHandler cfg s = .error (.panic .noSemaphore) t) :
    excCode s.prev.cause = 0 ∧ ∃ i, s.served = some i ∧ s.mem (cfg.devSem i) = 1 := by
  by_cases h0 : excCode s.prev.cause = 0
  · rw [exceptionHandler_interrupt h0] at hrun
    rcases interruptHandler_ends hs hv hrun with hend | he | ⟨-, hup⟩ | he
    · exact absurd rfl hend.ne_noSemaphore
    · cases he
    · exact ⟨h0, hup⟩
    · cases he
  · exfalso
    obtain ⟨c, hc⟩ := Option.ne_none_iff_exists'.mp (hcurr.resolve_left h0)
    rw [hc] at hs
    have hup : ∀ j, passUpOrDieHandler cfg j s ≠ .error (.panic .noSemaphore) t := by
      intro j hrun
      obtain ⟨e', t', hrun', hend⟩ := passUpOrDieHandler_ends cfg hs.linked hc j
      rw [hrun] at hrun'
      cases hrun'
      exact hend.ne_noSemaphore rfl
    simp only [exceptionHandler, bind_run, get_run, ite_run, if_neg h0] at hrun
    split at hrun
    · exact hup _ hrun
    split at hrun
    · rename_i h8
      rcases systemcallHandler_ends hs hc h8 hrun with hend | he | he
      · exact hend.ne_noSemaphore rfl
      · cases he
      · cases he
    split at hrun
    · exact hup _ hrun
    · cases hrun

/-! ## The semaphores of the devices -/

theorem SemStep.doIo_of_call (hcall : IsCall s.prev DOIO) (h : SemStep cfg s t) :
    ∃ c i, s.curr_process = some c ∧ s.prev.reg_a1 = commandAddr i ∧
      SemMove 0 (cfg.devSem i) c (s.issue i) t := by
  have hsem : DOIO ∈ semCodes := by decide
  cases h with
  | still hno h => exact absurd hcall (hno.call _ hsem)
  | passeren c hc hcall' hmove => exact absurd (hcall.code hcall') (by decide)
  | verhogen c hc hcall' hmove => exact absurd (hcall.code hcall') (by decide)
  | doIo c i hc hcall' hi hmove => exact ⟨c, i, hc, hi, hmove⟩
  | clockWait c hc hcall' hmove => exact absurd (hcall.code hcall') (by decide)
  | kill K hno h => exact absurd hcall (hno.call _ hsem)
  | tick l hno h => exact absurd hcall (hno.call _ hsem)
  | device i hcode hi h => exact absurd hcode hcall.excCode_ne

theorem SemStep.completion_of_served (hcode : excCode s.prev.cause = 0) (hi : s.served = some i)
    (h : SemStep cfg s t) : Completion cfg i s t := by
  have hno : ¬ NoSemCall s := fun hno ↦ by
    rw [hno.served hcode] at hi
    cases hi
  cases h with
  | still hcall h => exact absurd hcall hno
  | passeren c hc hcall hmove => exact absurd hcode hcall.excCode_ne
  | verhogen c hc hcall hmove => exact absurd hcode hcall.excCode_ne
  | doIo c j hc hcall hj hmove => exact absurd hcode hcall.excCode_ne
  | clockWait c hc hcall hmove => exact absurd hcode hcall.excCode_ne
  | kill K hcall h => exact absurd hcall hno
  | tick l hcall h => exact absurd hcall hno
  | device j hcode' hj h =>
      cases hi.symm.trans hj
      exact h

/-- No process waits at a semaphore that is not zero. -/
def AtZero (k : Word) (s : Nucleus n) : Prop := s.asl.queue k ≠ [] → s.mem k = 0

theorem AtZero.of_cons {k : Word} {p : Fin n} {rest : List (Fin n)} (h : AtZero k s)
    (hqueue : s.asl.queue k = p :: rest) : s.mem k = 0 :=
  h (by rw [hqueue]; exact List.cons_ne_nil _ _)

/-- The P of a DOIO leaves the semaphore at zero. -/
theorem SemMove.doIo_zero (h : AtZero (cfg.devSem i) s)
    (hmove : SemMove 0 (cfg.devSem i) c (s.issue i) t) : t.mem (cfg.devSem i) = 0 := by
  have hbus : (s.issue i).mem (cfg.devSem i) = s.mem (cfg.devSem i) :=
    Nucleus.store_ne _ _ (devSem_ne_bus i (commandAddr_bus i))
  cases hmove with
  | block hfull h => exact (congrFun (sems_mem h) _).trans hfull
  | release p rest hfull hqueue => exact absurd (hbus.trans (h.of_cons hqueue)) hfull
  | write hfull hqueue h => exact (congrFun (sems_mem h) _).trans (Nucleus.store_same _ _ 0)

/-- The V of a completion leaves the semaphore at zero, if a process waits there. -/
theorem Completion.zero (hzero : AtZero (cfg.devSem i) s) (h : Completion cfg i s t) :
    t.mem (cfg.devSem i) = 0 ∨ cfg.nullRead = .dead ∧ t.asl.queue (cfg.devSem i) = [] := by
  have hbus : (s.store (commandAddr i) ACK).mem (cfg.devSem i) = s.mem (cfg.devSem i) :=
    Nucleus.store_ne s ACK (devSem_ne_bus i (commandAddr_bus i))
  cases h with
  | wake p rest hv hqueue hp h =>
      exact .inl ((congrFun (sems_mem h) _).trans (hbus.trans (hzero.of_cons hqueue)))
  | drop p rest hv hqueue hp h =>
      exact .inl ((congrFun (sems_mem h) _).trans (hbus.trans (hzero.of_cons hqueue)))
  | late hv hqueue hnull h =>
      refine .inr ⟨hnull, ?_⟩
      rw [sems_asl h]
      exact hqueue

theorem Lowered.exception (h : Lowered cfg s g i) (hs : Inv cfg s)
    (hlaw : (Action.exception state).Lawful cfg) (hend : Handled cfg (enter state s) e t) :
    Lowered cfg t (outstanding s (.exception state) t g) i := by
  obtain ⟨lost, -, hsound⟩ := hs
  have hcore : Core (enter state s) ((enter state s).curr_process.toList ++ lost) :=
    hsound.core.quiet (.enter state s)
  have hstep := hend.semStep hcore
  have hzero : AtZero (cfg.devSem i) (enter state s) :=
    fun hqueue ↦ h.resolve_right fun hup ↦ hqueue hup.2.1
  by_cases hio : IsCall state DOIO ∧ state.reg_a1 = commandAddr i
  · have hcall : IsCall (enter state s).prev DOIO := hio.1
    obtain ⟨c, j, hc, hj, hmove⟩ := hstep.doIo_of_call hcall
    obtain rfl : i = j := commandAddr_injective (hio.2.symm.trans hj)
    exact .inl (hmove.doIo_zero hzero)
  by_cases hserved : excCode state.cause = 0 ∧ (enter state s).served = some i
  · have hcode : excCode (enter state s).prev.cause = 0 := hserved.1
    have hcompletion := hstep.completion_of_served hcode hserved.2
    have hends := hcompletion.zero hzero
    refine hends.imp_right ?_
    refine fun ⟨hnull, hqueue⟩ ↦ ⟨hnull, hqueue, ?_⟩
    simp only [outstanding, if_neg hio, if_pos hserved]
  · obtain ⟨hqueue, hmem⟩ := hstep.device_other hcore hlaw hio hserved
    have hg : outstanding s (.exception state) t g i = g i := by
      simp only [outstanding, if_neg hio, if_neg hserved]
    unfold Lowered
    rw [hg, hmem]
    refine h.imp_right fun ⟨hdead, hnone, hidle⟩ ↦ ⟨hdead, ?_, hidle⟩
    rcases hqueue with hqueue | ⟨K, hrem⟩
    · exact hqueue.trans hnone
    · rw [hrem.queue]
      exact (congrArg (List.filter _) hnone).trans rfl

theorem run_lowered {s₀ : Nucleus n} {as : List Action} (h₀ : Start cfg s₀)
    (hrun : Run (CommandStep cfg) (s₀, fun _ ↦ false) as (s, g)) :
    Inv cfg s ∧ ∀ i, Lowered cfg s g i := by
  refine hrun.invariant (I := fun x ↦ Inv cfg x.1 ∧ ∀ i, Lowered cfg x.1 x.2 i) ?_
    ⟨h₀.inv, fun i ↦ .inl ?_⟩
  · rintro ⟨s, g⟩ a ⟨t, g'⟩ ⟨hs, hlow⟩ ⟨hstep, hhist⟩
    obtain rfl : g' = outstanding s a t g := hhist
    refine ⟨hstep.inv hs, fun i ↦ ?_⟩
    obtain ⟨hstep, hlaw⟩ := hstep
    cases a with
    | store b v =>
        simp only [step, Option.ite_none_left_eq_some, Option.some.injEq] at hstep
        obtain ⟨hown, rfl⟩ := hstep
        have hmem : (s.store b v).mem (cfg.devSem i) = s.mem (cfg.devSem i) :=
          Nucleus.store_ne s v fun h ↦ hown (h ▸ owned_devSem i)
        exact (hlow i).imp_left hmem.trans
    | support b x =>
        simp only [step, Option.some.injEq] at hstep
        subst hstep
        exact hlow i
    | exception state =>
        obtain ⟨e, -, -, hend⟩ := step_handled hs hstep
        exact (hlow i).exception hs hlaw hend
  · obtain ⟨mem, support, p, rest, e, hmem, -, -, hend⟩ := h₀.scheduled
    exact (congrFun (sems_mem hend.sems.1) _).trans (hmem _ (.inr ⟨i, rfl⟩))

/-! ## A descriptor for everyone -/

/-- In every run, the semaphore at which the current process is to block is active or a
descriptor is free, and the kernel never gives up for want of one: in no system call, nor at
an interrupt of a register that has been given a command. -/
theorem noSemaphore_unreachable {s₀ : Nucleus n} {as : List Action} (h₀ : Start cfg s₀)
    (hrun : Run (CommandStep cfg) (s₀, fun _ ↦ false) as (s, g)) :
    (∀ k c, s.curr_process = some c →
      (peekActiveSemaphore k s.asl ≠ none ∨ s.asl.semdFree_h ≠ []) ∧
        ∃ t, insertBlocked k (some c) s = .ok false t) ∧
    ∀ state e t, (excCode state.cause = 0 ∨ s.curr_process ≠ none) →
      (cfg.nullRead = .dead → Answers s state g) →
      exceptionHandler cfg (enter state s) = .error e t → e ≠ .panic .noSemaphore := by
  obtain ⟨⟨lost, hlost, hsound⟩, hlow⟩ := run_lowered h₀ hrun
  constructor
  · intro k c hc
    rw [hc] at hsound
    have hsem : s.semAdd c = none := (hsound.core.of_held List.mem_cons_self).2.2.1
    exact ⟨.inr (hsound.core.asl.exists_free hsem), _, insertBlocked_run hsound.core.asl hsem k⟩
  · rintro state e t hguard hans hends rfl
    have hsound' : Sound cfg ((enter state s).curr_process.toList ++ lost) (enter state s) :=
      hsound.quiet (.enter state s) rfl
    have hclock : (enter state s).mem cfg.semaphore_it ≠ 1 := by
      rw [hsound'.clock]
      decide
    obtain ⟨hcode, i, hi, hup⟩ := exceptionHandler_noSemaphore hsound'.core hclock hguard hends
    rcases hlow i with hzero | ⟨hdead, -, hidle⟩
    · rw [show (enter state s).mem (cfg.devSem i) = 0 from hzero] at hup
      exact absurd hup (by decide)
    · rw [hans hdead i hcode hi] at hidle
      cases hidle

/-- One of two processes is blocked, and the other is about to block elsewhere. -/
theorem noSemaphore_unreachable_sample :
    ∃ s t : Nucleus 2, s.asl.semdFree_h.length = 1 ∧
      insertBlocked 0x20005000 (some 1) s = .ok false t := by
  let cfg := Config.sample 2 (by decide) .faults
  obtain ⟨s, hs, hfree, hcurr⟩ := execute_reachable cfg
    (P := fun s ↦ s.asl.semdFree_h.length = 1 ∧ s.curr_process = some 1)
    [.call CREATEPROCESS 0x20003000 0 0, .call PASSEREN 0x20004000 0 0] (by decide +kernel)
  obtain ⟨s₀, as, h₀, hrun⟩ := hs
  obtain ⟨g, hrun⟩ := hrun.decorate outstanding fun _ ↦ false
  obtain ⟨-, t, ht⟩ := (noSemaphore_unreachable h₀ hrun).1 0x20005000 1 hcurr
  exact ⟨s, t, hfree, ht⟩

end PandosPlus
