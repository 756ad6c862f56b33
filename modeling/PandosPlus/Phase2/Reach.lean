import PandosPlus.Phase2.Sound

/-!
# The reachable states of the nucleus

What `main` builds satisfies the invariant, and every step keeps it, so that every
reachable state satisfies it (`reachable_inv`).
-/

namespace PandosPlus

open Flow Lts

variable {n : Nat} {cfg : Config n} {s t : Nucleus n} {a : Action} {p : Fin n} {e : Exit}

/-! ## One step -/

theorem Exit.Completed.ne_halt (h : e.Completed) : e ≠ .halt := by
  rintro rfl
  exact h

theorem Exit.Completed.ne_nullDeref (h : e.Completed) : e ≠ .nullDeref := by
  rintro rfl
  exact h

theorem Quiet.enter (state : State) (s : Nucleus n) : Quiet s (enter state s) := ⟨fun _ ↦ rfl, rfl⟩

/-- The step at an exception is one of the ways `exceptionHandler` can end. -/
theorem step_handled {state : State} (hs : Inv cfg s)
    (hstep : step cfg s (.exception state) = some t) :
    ∃ e, e.Completed ∧ exceptionHandler cfg (enter state s) = .error e t ∧
      Handled cfg (enter state s) e t := by
  obtain ⟨lost, -, hsound⟩ := hs
  obtain ⟨hcurr, e, hrun, hdone⟩ := step_exception hstep
  have hcore : Core (enter state s) ((enter state s).curr_process.toList ++ lost) :=
    hsound.core.quiet (.enter state s)
  have hclock : (enter state s).mem cfg.semaphore_it ≠ 1 := by
    rw [show (enter state s).mem cfg.semaphore_it = 0 from hsound.clock]
    decide
  rcases exceptionHandler_ends hcore hclock hcurr hrun with
    hend | hstop
  · exact ⟨e, hdone, hrun, hend⟩
  · exact absurd hstop hdone.not_stops

theorem NucStep.inv (hs : Inv cfg s) (h : NucStep cfg s a t) : Inv cfg t := by
  obtain ⟨hstep, hlaw⟩ := h
  cases a with
  | store b v =>
      obtain ⟨lost, hlost, hsound⟩ := hs
      simp only [step, Option.ite_none_left_eq_some, Option.some.injEq] at hstep
      obtain ⟨hown, rfl⟩ := hstep
      exact ⟨lost, hlost, hsound.store fun e ↦ absurd (.inl e) hown⟩
  | support b x =>
      obtain ⟨lost, hlost, hsound⟩ := hs
      simp only [step, Option.some.injEq] at hstep
      subst hstep
      exact ⟨lost, hlost, hsound.quiet ⟨fun _ ↦ rfl, rfl⟩ rfl⟩
  | exception state =>
      obtain ⟨e, hdone, -, hend⟩ := step_handled hs hstep
      obtain ⟨lost, hlost, hsound⟩ := hs
      have hquiet := Quiet.enter state s
      have hsound' : Sound cfg ((enter state s).curr_process.toList ++ lost) (enter state s) :=
        hsound.quiet hquiet rfl
      exact hend.inv hsound' (hlost.quiet hquiet.pid) hlaw hdone.ne_halt

/-! ## The first state -/

/-- Memory at a list of addresses is set to zero. -/
theorem foldl_store (f : Fin TOTAL_IO_DEVICES → Word) (l : List (Fin TOTAL_IO_DEVICES))
    (s : Nucleus n) : ∃ mem, l.foldl (fun s i ↦ s.store (f i) 0) s = { s with mem := mem } ∧
      (∀ i ∈ l, mem (f i) = 0) ∧ ∀ b, s.mem b = 0 → mem b = 0 := by
  induction l generalizing s with
  | nil => exact ⟨s.mem, rfl, by simp, fun b hb ↦ hb⟩
  | cons i l ih =>
      obtain ⟨mem, heq, hmem, hkeep⟩ := ih (s.store (f i) 0)
      refine ⟨mem, heq, fun j hj ↦ ?_, fun b hb ↦ hkeep b ?_⟩
      · rcases List.mem_cons.mp hj with rfl | hj
        · exact hkeep _ (Nucleus.store_same s _ 0)
        · exact hmem j hj
      · by_cases e : b = f i
        · rw [e, Nucleus.store_same]
        · rwa [Nucleus.store_ne _ _ e]

variable (cfg) in
theorem initDeviceSemaphores_eq (s : Nucleus n) :
    ∃ mem, initDeviceSemaphores cfg s = { s with mem := mem } ∧
      ∀ k, IsNucleusSem cfg k → mem k = 0 := by
  obtain ⟨mem, heq, hdev, hkeep⟩ := foldl_store cfg.devSem (List.finRange TOTAL_IO_DEVICES)
    (s.store cfg.semaphore_it 0)
  refine ⟨mem, heq, ?_⟩
  rintro k (rfl | ⟨i, rfl⟩)
  · exact hkeep _ (Nucleus.store_same s _ 0)
  · exact hdev i (List.mem_finRange i)

/-- The nucleus once its tables are set up. -/
def Nucleus.cleared (mem : Word → Word) (support : Word → Support) : Nucleus n :=
  { boot mem support with
    pcbFree_table := fun _ ↦ { Pcb.zero n with p_pid := FREE_PCB_PID }
    pcbFree_h := List.finRange n
    curr_pid := 1
    asl := ⟨fun _ ↦ ⟨0, []⟩, List.finRange n, []⟩ }

/-- The nucleus before the first process is created. -/
def Nucleus.initial (cfg : Config n) (mem : Word → Word) (support : Word → Support) : Nucleus n :=
  { cleared mem support with it := PSECOND - (cfg.tod 0).tmod PSECOND, clock := 1 }

variable (cfg) in
theorem initial_core (mem : Word → Word) (support : Word → Support) :
    Core (Nucleus.initial cfg mem support) [] where
  pids := by
    refine ⟨SortedList.ascending_nil, fun p ↦ ?_, fun p _ ↦ rfl⟩
    exact (Nat.zero_add _).trans
      (List.count_eq_one_of_mem (List.nodup_finRange n) (List.mem_finRange p))
  asl := by
    refine ⟨SortedList.ascending_nil, by simp [Nucleus.initial, Nucleus.cleared], fun d ↦ ?_,
      by simp [Nucleus.initial, Nucleus.cleared], fun p k ↦ ?_⟩
    · exact (Nat.zero_add _).trans
        (List.count_eq_one_of_mem (List.nodup_finRange n) (List.mem_finRange d))
    · simp [Nucleus.initial, Nucleus.cleared, Nucleus.semAdd, Pcb.zero]
  place := fun p ↦ List.count_eq_one_of_mem (List.nodup_finRange n) (List.mem_finRange p)
  prio := by rintro (_ | _) p hp <;> cases hp
  forest := ⟨fun p q ↦ by simp [Nucleus.initial, Nucleus.cleared, Nucleus.children, Nucleus.parent, Pcb.zero],
    fun p ↦ List.nodup_nil⟩
  free_leaf := fun p _ ↦ ⟨rfl, rfl⟩
  count := by simp [Nucleus.initial, Nucleus.cleared, Nucleus.boot]

/-- The PCB `_createFirstProcess` hands to `main`. -/
def firstPcb (cfg : Config n) (x : Pcb n) : Pcb n :=
  { x with
    p_prio := .low
    p_s := { x.p_s with
      reg_sp := cfg.ramTop
      status := IMON ||| IEPON ||| TEBITON
      pc_epc := cfg.test
      reg_t9 := cfg.test } }

/-- The nucleus when `main` calls the scheduler. -/
def Nucleus.first (cfg : Config n) (p : Fin n) (rest : List (Fin n)) (s : Nucleus n) : Nucleus n :=
  let t := (s.alloc p rest).modifyPcb p (firstPcb cfg)
  { t with
    low_readyqueue := insertProcQ t.low_readyqueue p, process_count := t.process_count + 1 }

/-- `main` hands the nucleus with one process, ready at low priority, to the scheduler. -/
theorem main_ends {mem : Word → Word} {support : Word → Support}
    (hrun : main cfg (.boot mem support) = .error e s) :
    e = .nullDeref ∨ ∃ mem' p rest, (∀ k, IsNucleusSem cfg k → mem' k = 0) ∧
      List.finRange n = p :: rest ∧
      Scheduled cfg ((Nucleus.initial cfg mem' support).first cfg p rest) e s := by
  have hclear : { initPcbs (.boot mem support) with
      asl := initASL (initPcbs (.boot mem support) : Nucleus n).asl
      process_count := 0, softblocked_count := 0, high_readyqueue := [], low_readyqueue := []
      curr_process := none } = Nucleus.cleared (n := n) mem support := by
    rw [initPcbs_eq, initASL_eq]
    rfl
  obtain ⟨mem', hinit, hmem⟩ := initDeviceSemaphores_eq cfg (.cleared mem support)
  have hmain : main cfg (.boot mem support) = (do
      let first_proc ← createFirstProcess cfg
      modify fun s ↦ { s with low_readyqueue := insertProcQ s.low_readyqueue first_proc }
      modify fun s ↦ { s with process_count := s.process_count + 1 }
      scheduler cfg
      throw (.panic .main) : NucM n Unit) (.initial cfg mem' support) := by
    simp only [main, bind_run, modify_run, hclear, hinit]
    rfl
  rw [hmain] at hrun
  cases hfree : List.finRange n with
  | nil =>
      have hnone : allocPcb (.initial cfg mem' support) = none := allocPcb_nil hfree
      simp only [createFirstProcess, bind_run, get_run, hnone, throw_run] at hrun
      cases hrun
      exact .inl rfl
  | cons p rest =>
      have hsome : allocPcb (.initial cfg mem' support) = some (p, _) := allocPcb_cons hfree
      have hcreate : createFirstProcess cfg (.initial cfg mem' support) =
          .ok p (((Nucleus.initial cfg mem' support).alloc p rest).modifyPcb p (firstPcb cfg)) := by
        simp only [createFirstProcess, bind_run, get_run, hsome, set_run, modify_run, pure_run]
        rfl
      obtain ⟨e', t', hsched, hend⟩ :=
        scheduler_run cfg ((Nucleus.initial cfg mem' support).first cfg p rest)
      refine .inr ⟨mem', p, rest, hmem, rfl, ?_⟩
      have hfirst : main cfg (.boot mem support) = .error e' t' := by
        rw [hmain]
        simp only [Nucleus.first] at hsched
        simp only [bind_run, hcreate, modify_run, hsched]
      rw [hmain, hrun] at hfirst
      cases hfirst
      exact hend

theorem first_sound {mem : Word → Word} {support : Word → Support} {rest : List (Fin n)}
    (hmem : ∀ k, IsNucleusSem cfg k → mem k = 0) (hfree : List.finRange n = p :: rest) :
    Sound cfg [] ((Nucleus.initial cfg mem support).first cfg p rest) ∧
      ∀ q, ((Nucleus.initial cfg mem support).first cfg p rest).semAdd q = none := by
  have hinit := initial_core cfg mem support
  have hp : p ∈ (Nucleus.initial cfg mem support).pcbFree_h := by
    rw [show (Nucleus.initial cfg mem support).pcbFree_h = p :: rest from hfree]
    exact List.mem_cons_self
  have henroll := hinit.enroll cfg.maxproc_lt (p := p) hfree
  have hlinks := hinit.enroll_links hp rest
  have hquiet : Quiet ((Nucleus.initial cfg mem support).enroll p rest)
      (((Nucleus.initial cfg mem support).enroll p rest).modifyPcb p (firstPcb cfg)) := by
    refine ⟨fun q ↦ ?_, rfl⟩
    rw [Nucleus.modifyPcb_table, Nucleus.enroll_table]
    split <;> rfl
  have hready := (henroll.quiet hquiet).makeReady
  have hlow : (((Nucleus.initial cfg mem support).enroll p rest).modifyPcb p (firstPcb cfg)).prio p =
      .low := by
    rw [Nucleus.prio, Nucleus.modifyPcb_table, if_pos rfl]
    rfl
  rw [Nucleus.makeReady, hlow] at hready
  have hsem : ∀ q, ((Nucleus.initial cfg mem support).first cfg p rest).semAdd q = none := by
    intro q
    refine (congrFun hquiet.semAdd q).trans ?_
    rw [hlinks.1]
    rfl
  refine ⟨⟨hready, hmem _ (.inl rfl), fun q k hq ↦ ?_⟩, hsem⟩
  rw [hsem] at hq
  cases hq

theorem Start.scheduled (h : Start cfg s) :
    ∃ mem support p rest e, (∀ k, IsNucleusSem cfg k → mem k = 0) ∧ List.finRange n = p :: rest ∧
      e.Completed ∧ Scheduled cfg ((Nucleus.initial cfg mem support).first cfg p rest) e s := by
  obtain ⟨mem, support, e, hrun, hdone⟩ := h
  rcases main_ends hrun with rfl | ⟨mem', p, rest, hmem, hfree, hend⟩
  · exact hdone.elim
  · exact ⟨mem', support, p, rest, e, hmem, hfree, hdone, hend⟩

theorem Start.inv (h : Start cfg s) : Inv cfg s := by
  obtain ⟨mem, support, p, rest, e, hmem, hfree, hdone, hend⟩ := h.scheduled
  exact hend.inv (first_sound hmem hfree).1 (by intro q hq; cases hq) hdone.ne_halt

theorem reachable_inv (h : Reachable (Start cfg) (NucStep cfg) s) : Inv cfg s :=
  h.invariant (fun _ ↦ Start.inv) fun _ _ _ ↦ NucStep.inv

end PandosPlus
