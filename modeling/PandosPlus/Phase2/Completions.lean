import PandosPlus.Phase2.SemSteps

/-!
# Completions

A device interrupt is handed to the process that waits for it.  If that process has been
killed, `semV` finds no one and returns `NULL`, which `IS_ALIVE` reads through; and had
the handler gone on, the semaphore would be up and the next completion would block
`NULL`.  So the handler comes to its end exactly when the register served is one whose
completion it recognises, and someone waits at the semaphore of the register.

As long as reading through `NULL` faults, the words of the device semaphores stay zero.
-/

namespace PandosPlus

open Flow Lts

variable {n : Nat} {cfg : Config n} {s t : Nucleus n} {e : Exit}

/-- Neither timer has an interrupt pending, and a device has. -/
def Nucleus.DevicePending (s : Nucleus n) : Prop :=
  s.pending &&& LOCALTIMERINT = 0 ∧ s.pending &&& TIMERINTERRUPT = 0 ∧
    ∃ line ∈ deviceLine s.pending, (lowestDevice (getDeviceBitmap line s)).isSome

instance (s : Nucleus n) : Decidable s.DevicePending :=
  inferInstanceAs (Decidable (_ ∧ _ ∧ _))

/-! ## One completion -/

/-- The kernel goes no further than it would by itself. -/
theorem Finished.not_stops {live : Prop} (h : Finished cfg s live e t) : ¬ e.Stops := by
  cases h with
  | resume => rintro (h | h | h | h) <;> cases h
  | schedule hdead hnext =>
      cases hnext <;> rintro (h | h | h | h) <;> cases h

theorem exceptionHandler_interrupt (hcode : excCode s.prev.cause = 0) :
    exceptionHandler cfg s = interruptHandler cfg s := by
  simp only [exceptionHandler, bind_run, get_run, ite_run, if_pos hcode]

/-- A device interrupt serves a register or stops the kernel. -/
theorem devicePending_run (h : s.DevicePending) :
    interruptHandler cfg s = match s.served with
      | some i => complete cfg i (s.interrupted cfg) (s.interrupted cfg)
      | none => .error (.panic .terminal) (s.interrupted cfg) := by
  obtain ⟨hplt, hit, line, hline, hdev⟩ := h
  obtain ⟨dev, hdev⟩ := Option.isSome_iff_exists.mp hdev
  cases hs : s.served with
  | some i => exact interruptHandler_served hs
  | none =>
      have hof : s.servedOf line dev = none := by
        rw [Nucleus.served, if_neg (by simp [hplt, hit]), Option.mem_def.mp hline, Option.bind_some,
          hdev, Option.bind_some] at hs
        exact hs
      have hbitmap : getDeviceBitmap line (s.interrupted cfg) = getDeviceBitmap line s :=
        congrFun (interrupted_mem s) _
      have hof' : (s.interrupted cfg).servedOf line dev = none := by
        rw [Nucleus.servedOf, interrupted_mem]
        exact hof
      rw [interruptHandler_run, if_neg (not_not.mpr hplt), if_neg (not_not.mpr hit),
        Option.mem_def.mp hline, Option.elim, deviceHandler_run (deviceLine_mem hline), hbitmap, hdev]
      simp only [hof']

/-- Serving a register comes to its end exactly when someone waits at its semaphore, and
the semaphore is not up. -/
theorem complete_ends_iff (hnull : cfg.nullRead = .faults) (i : Fin TOTAL_IO_DEVICES) :
    (∃ e t, complete cfg i s s = .error e t ∧ ¬ e.Stops) ↔
      s.asl.queue (cfg.devSem i) ≠ [] ∧ s.mem (cfg.devSem i) ≠ 1 := by
  constructor
  · rintro ⟨e, t, hrun, hstop⟩
    refine ⟨fun hqueue ↦ ?_, fun hv ↦ ?_⟩
    · by_cases hv : s.mem (cfg.devSem i) = 1
      · obtain ⟨e', u, hret, he⟩ := deviceInterruptReturn_full hv (s.mem (statusAddr i))
        simp only [complete, bind_run, hret] at hrun
        cases hrun
        rcases he with rfl | rfl
        · exact hstop (.inl rfl)
        · exact hstop (.inr (.inr (.inl rfl)))
      · obtain ⟨u, hret⟩ := deviceInterruptReturn_null hv hqueue hnull (s.mem (statusAddr i))
        simp only [complete, bind_run, hret] at hrun
        cases hrun
        exact hstop (.inl rfl)
    · obtain ⟨e', u, hret, he⟩ := deviceInterruptReturn_full hv (s.mem (statusAddr i))
      simp only [complete, bind_run, hret] at hrun
      cases hrun
      rcases he with rfl | rfl
      · exact hstop (.inl rfl)
      · exact hstop (.inr (.inr (.inl rfl)))
  · rintro ⟨hqueue, hv⟩
    obtain ⟨u, hret, -⟩ := deviceInterruptReturn_run ⟨hv, fun h ↦ absurd h hqueue⟩
    obtain ⟨e, t, hexit, hend⟩ := interruptHandlerExit_run cfg u
    exact ⟨e, t, by simp only [complete, bind_run, hret, hexit], hend.not_stops⟩

/-! ## The words of the device semaphores -/

/-- What a step can make of the word of a device semaphore. -/
theorem SemStep.device_word (hlaw : (Action.exception s.prev).Lawful cfg) (h : SemStep cfg s t)
    (i : Fin TOTAL_IO_DEVICES) :
    t.mem (cfg.devSem i) = s.mem (cfg.devSem i) ∨ t.mem (cfg.devSem i) = 0 ∨
      cfg.nullRead = .dead := by
  have hbus : ∀ j (s : Nucleus n), (s.store (commandAddr j) ACK).mem (cfg.devSem i) =
      s.mem (cfg.devSem i) :=
    fun j s ↦ Nucleus.store_ne s _ (devSem_ne_bus i (commandAddr_bus j))
  by_contra hne
  rw [not_or, not_or] at hne
  obtain ⟨hsame, hzero, hnull⟩ := hne
  cases h with
  | still hcall h => exact hsame (congrFun (sems_mem h) _)
  | passeren c hc hcall hmove => exact hzero (hmove.mem hsame).2
  | verhogen c hc hcall hmove =>
      have hown := hlaw (.inr hcall)
      rw [← (hmove.mem hsame).1] at hown
      exact hown (owned_devSem i)
  | doIo c j hc hcall hj hmove =>
      refine hzero (hmove.mem fun h ↦ hsame (h.trans ?_)).2
      exact Nucleus.store_ne s _ (devSem_ne_bus i (commandAddr_bus j))
  | clockWait c hc hcall hmove => exact hzero (hmove.mem hsame).2
  | kill K hcall h => exact hsame (congrFun h.mem _)
  | tick l hcall h => exact hsame ((h.mem _).trans (if_neg (devSem_ne_it i)))
  | device j hcode hj h =>
      cases h with
      | wake p rest hv hqueue hp h => exact hsame ((congrFun (sems_mem h) _).trans (hbus j s))
      | drop p rest hv hqueue hp h => exact hsame ((congrFun (sems_mem h) _).trans (hbus j s))
      | late hv hqueue hdead h => exact hnull hdead

theorem NucStep.device_word {a : Action} (hs : Inv cfg s) (h : NucStep cfg s a t)
    (i : Fin TOTAL_IO_DEVICES) :
    t.mem (cfg.devSem i) = s.mem (cfg.devSem i) ∨ t.mem (cfg.devSem i) = 0 ∨
      cfg.nullRead = .dead := by
  obtain ⟨hstep, hlaw⟩ := h
  cases a with
  | store b v =>
      simp only [step, Option.ite_none_left_eq_some, Option.some.injEq] at hstep
      obtain ⟨hown, rfl⟩ := hstep
      exact .inl (Nucleus.store_ne s v fun h ↦ hown (h ▸ owned_devSem i))
  | support b x =>
      simp only [step, Option.some.injEq] at hstep
      subst hstep
      exact .inl rfl
  | exception state =>
      obtain ⟨e, -, -, hend⟩ := step_handled hs hstep
      obtain ⟨lost, -, hsound⟩ := hs
      have hcore : Core (enter state s) ((enter state s).curr_process.toList ++ lost) :=
        hsound.core.quiet (.enter state s)
      exact (hend.semStep hcore).device_word hlaw i

theorem reachable_devSem_zero (hnull : cfg.nullRead = .faults)
    (h : Reachable (Start cfg) (NucStep cfg) s) (i : Fin TOTAL_IO_DEVICES) :
    s.mem (cfg.devSem i) = 0 := by
  have hinv : Inv cfg s ∧ s.mem (cfg.devSem i) = 0 := by
    refine h.invariant (I := fun s ↦ Inv cfg s ∧ s.mem (cfg.devSem i) = 0)
      (fun s hs ↦ ⟨hs.inv, ?_⟩) fun s a t hs hstep ↦ ⟨hstep.inv hs.1, ?_⟩
    · obtain ⟨mem, support, p, rest, e, hmem, -, -, hend⟩ := hs.scheduled
      rw [sems_mem hend.sems.1]
      exact hmem _ (.inr ⟨i, rfl⟩)
    · rcases hstep.device_word hs.1 i with hsame | hzero | hdead
      · exact hsame.trans hs.2
      · exact hzero
      · rw [hnull] at hdead
        cases hdead
  exact hinv.2

/-! ## Every completion -/

/-- A device interrupt is handled to the end exactly when it serves a register at whose
semaphore someone waits, and the semaphore is not up; which it never is in a reachable
state. -/
theorem completion_ends_iff (hnull : cfg.nullRead = .faults) :
    (∀ (s : Nucleus n) (state : State), excCode state.cause = 0 → (enter state s).DevicePending →
      ((∃ e t, exceptionHandler cfg (enter state s) = .error e t ∧ ¬ e.Stops) ↔
        ∃ i, (enter state s).served = some i ∧ s.asl.queue (cfg.devSem i) ≠ [] ∧
          s.mem (cfg.devSem i) ≠ 1)) ∧
    ∀ s, Reachable (Start cfg) (NucStep cfg) s → ∀ i, s.mem (cfg.devSem i) = 0 := by
  refine ⟨fun s state hcode hdev ↦ ?_, fun s hs i ↦ reachable_devSem_zero hnull hs i⟩
  rw [exceptionHandler_interrupt (s := enter state s) hcode, devicePending_run hdev]
  cases hi : (enter state s).served with
  | none =>
      refine iff_of_false ?_ fun ⟨i, hi, _⟩ ↦ by cases hi
      rintro ⟨e, t, hstop, hgo⟩
      cases hstop
      exact hgo (.inr (.inr (.inr rfl)))
  | some i =>
      have hasl : ((enter state s).interrupted cfg).asl = s.asl :=
        sems_asl (interrupted_sems cfg (enter state s))
      have hmem : ((enter state s).interrupted cfg).mem = s.mem := interrupted_mem (enter state s)
      refine (complete_ends_iff hnull i).trans ?_
      rw [hasl, hmem]
      exact ⟨fun h ↦ ⟨i, rfl, h⟩, fun ⟨j, hj, h⟩ ↦ Option.some.inj hj ▸ h⟩

/-- A first operation of a disk, completed. -/
theorem completion_ends_iff_sample :
    ∃ (s : Nucleus 2) (state : State) (e : Exit) (t : Nucleus 2),
      exceptionHandler (.sample 2 (by decide) .faults) (enter state s) = .error e t ∧ ¬ e.Stops := by
  let cfg := Config.sample 2 (by decide) .faults
  let state := { State.zero with cause := DISKINTERRUPT }
  obtain ⟨s, hs, hdev, hserved, hqueue⟩ := execute_reachable cfg
    (P := fun s ↦ (enter state s).DevicePending ∧ (enter state s).served = some 0 ∧
      s.asl.queue (cfg.devSem 0) = [0])
    [.call DOIO (commandAddr 0) 7 0, .store (bitmapAddr IL_DISK) 1] (by decide +kernel)
  have hends := @completion_ends_iff _ cfg rfl
  obtain ⟨e, t, hrun, hgo⟩ := (hends.1 s state (by decide) hdev).mpr
    ⟨0, hserved, by rw [hqueue]; decide, by rw [hends.2 s hs]; decide⟩
  exact ⟨s, state, e, t, hrun, hgo⟩

/-- The requester of a disk operation is killed before the completion. -/
theorem completion_reads_null :
    ¬ ∀ (n : Nat) (cfg : Config n) (s : Nucleus n) (state : State), cfg.nullRead = .faults →
      Reachable (Start cfg) (NucStep cfg) s → excCode state.cause = 0 →
      (enter state s).DevicePending →
      ∃ e t, exceptionHandler cfg (enter state s) = .error e t ∧ e ≠ .nullDeref := by
  intro hclaim
  let cfg := Config.sample 2 (by decide) .faults
  let state := { State.zero with cause := DISKINTERRUPT }
  obtain ⟨s, hs, hdev, hrun⟩ := execute_reachable cfg
    (P := fun s ↦ (enter state s).DevicePending ∧
      (match exceptionHandler cfg (enter state s) with
        | .error .nullDeref _ => true
        | _ => false) = true)
    [.call CREATEPROCESS 0x20003000 1 0, .call YIELD 0 0 0, .call DOIO (commandAddr 0) 7 0,
      .call TERMPROCESS 2 0 0, .store (bitmapAddr IL_DISK) 1] (by decide +kernel)
  obtain ⟨e, t, hends, hne⟩ := hclaim 2 cfg s state rfl hs (by decide) hdev
  rw [hends] at hrun
  cases e with
  | nullDeref => exact hne rfl
  | ldst | ldcxt | wait | halt | panic | busError | diverges => cases hrun

end PandosPlus
