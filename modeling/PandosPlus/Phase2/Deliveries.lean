import PandosPlus.Phase2.Devices

/-!
# Completed operations reach their requesters

At a device interrupt the handler picks the lowest device of the first line.  If that is
no terminal, or one that has transferred a character, the operation is acknowledged and
its status is delivered to the process that requested it, whatever that status is.  A
terminal that reports only errors stops the kernel.
-/

namespace PandosPlus

open Flow Lts

variable {n : Nat}

/-- A device interrupt for `dev`, the lowest pending device of the first pending line. -/
structure DeviceInterrupt (state : State) (line dev : Nat) (s : Nucleus n) (d : Devices n) :
    Prop where
  code : excCode state.cause = 0
  plt : (enter state s).pending &&& LOCALTIMERINT = 0
  it : (enter state s).pending &&& TIMERINTERRUPT = 0
  first : deviceLine (enter state s).pending = some line
  lowest : lowestDevice (getDeviceBitmap line s) = some dev
  shows : Shows s d

instance (s : Nucleus n) (d : Devices n) : Decidable (Shows s d) :=
  -- the statuses are looked up: there are too many words to try
  decidable_of_iff ((∀ i, (d i).status.all fun v ↦ s.mem (statusAddr i) = v) ∧ _ ∧ _)
    ⟨fun ⟨h, h₁, h₂⟩ ↦ Shows.mk (fun i v hv ↦ by simpa using (Option.all_eq_true _ _).mp (h i) v hv)
      h₁ h₂, fun ⟨h, h₁, h₂⟩ ↦ ⟨fun i ↦ (Option.all_eq_true _ _).mpr fun v hv ↦ by simpa using h i v hv,
      h₁, h₂⟩⟩

instance (state : State) (line dev : Nat) (s : Nucleus n) (d : Devices n) :
    Decidable (DeviceInterrupt state line dev s d) :=
  decidable_of_iff (_ ∧ _ ∧ _ ∧ _ ∧ _ ∧ _)
    ⟨fun ⟨h, h₁, h₂, h₃, h₄, h₅⟩ ↦ DeviceInterrupt.mk h h₁ h₂ h₃ h₄ h₅,
      fun ⟨h, h₁, h₂, h₃, h₄, h₅⟩ ↦ ⟨h, h₁, h₂, h₃, h₄, h₅⟩⟩

/-- The register whose operation the handler takes to be completed: of a terminal the
first that has transferred a character. -/
def Devices.recognised (d : Devices n) (line dev : Nat) : Option (Fin TOTAL_IO_DEVICES) :=
  (halves line dev).find? fun i ↦
    line ≠ IL_TERMINAL ∨ ∃ v ∈ (d i).status, TERMINAL_STATUS v = CHAR_RECEIVED

/-- The registers whose operations have completed. -/
def Devices.completed (d : Devices n) : Finset (Fin TOTAL_IO_DEVICES) :=
  Finset.univ.filter fun i ↦ (d i).status.isSome

/-- The operation of register `i`, requested by `p` in the state `x`, has been acknowledged
and its status `v` handed over: `p` alone is woken, and is ready or has been dispatched. -/
structure Delivered (i : Fin TOTAL_IO_DEVICES) (p : Fin n) (x : State) (v : Word)
    (s t : Nucleus n) : Prop where
  acknowledged : t.mem (commandAddr i) = ACK
  blocked : s.semAdd p ≠ none
  woken : ∀ q, t.semAdd q = if q = p then none else s.semAdd q
  counted : t.softblocked_count = s.softblocked_count - 1
  resumable :
    p ∈ t.readyQueue (s.prio p) ∧ t.saved p = { x with reg_v0 := v } ∨
      t.curr_process = some p ∧ t.saved p = State.loaded (s.prio p) { x with reg_v0 := v }

variable {cfg : Config n} {s t : Nucleus n} {d : Devices n} {p : Fin n}
variable {i : Fin TOTAL_IO_DEVICES} {e : Exit} {held : List (Fin n)} {state : State} {x : State}
variable {line dev : Nat} {v : Word} {prio : Prio}

/-! ## The register served -/

theorem Shows.transferred_iff (h : Shows s d) (hi : 32 ≤ i.val) :
    TERMINAL_STATUS (s.mem (statusAddr i)) = CHAR_RECEIVED ↔
      ∃ v ∈ (d i).status, TERMINAL_STATUS v = CHAR_RECEIVED := by
  constructor
  · intro hcode
    obtain ⟨v, hv⟩ := Option.isSome_iff_exists.mp (h.transfer i hi hcode)
    exact ⟨v, hv, h.status i v hv ▸ hcode⟩
  · rintro ⟨v, hv, hcode⟩
    rw [h.status i v hv]
    exact hcode

theorem Shows.servedOf_eq (h : Shows s d) (hdev : dev ∈ List.range N_DEV_PER_IL) :
    s.servedOf line dev = d.recognised line dev := by
  unfold Nucleus.servedOf Devices.recognised halves
  by_cases hline : line = IL_TERMINAL
  · subst hline
    obtain ⟨hrecv, htransm⟩ := halves_terminal dev hdev
    rw [if_neg (not_not.mpr rfl), if_pos rfl, List.find?_cons, List.find?_cons, List.find?_nil]
    simp only [h.transferred_iff hrecv, ne_eq, not_true_eq_false, false_or]
    rw [show CHAR_TRANSMITTED = CHAR_RECEIVED from rfl]
    simp only [h.transferred_iff htransm]
    split
    · rename_i hcode
      rw [decide_eq_true hcode]
    · rename_i hcode
      rw [decide_eq_false hcode]
      split
      · rename_i hcode
        rw [decide_eq_true hcode]
      · rename_i hcode
        rw [decide_eq_false hcode]
  · rw [if_pos hline, if_neg hline, List.find?_cons, decide_eq_true (.inl hline)]

namespace DeviceInterrupt

theorem served (h : DeviceInterrupt state line dev s d) :
    (enter state s).served = d.recognised line dev := by
  have hdev : lowestDevice (getDeviceBitmap line (enter state s)) = some dev := h.lowest
  have hof : (enter state s).servedOf line dev = s.servedOf line dev := rfl
  rw [Nucleus.served, h.first, Option.bind_some, hdev, Option.bind_some,
    if_neg (by simp [h.plt, h.it]), hof]
  exact h.shows.servedOf_eq (lowestDevice_mem h.lowest).1

/-- The handler serves the register it recognises, or stops the kernel. -/
theorem run (h : DeviceInterrupt state line dev s d) :
    exceptionHandler cfg (enter state s) = match d.recognised line dev with
      | some i => complete cfg i ((enter state s).interrupted cfg) ((enter state s).interrupted cfg)
      | none => .error (.panic .terminal) ((enter state s).interrupted cfg) := by
  have hpending : (enter state s).DevicePending :=
    ⟨h.plt, h.it, line, h.first, Option.isSome_iff_exists.mpr ⟨dev, h.lowest⟩⟩
  have hrun : exceptionHandler cfg (enter state s) = interruptHandler cfg (enter state s) :=
    exceptionHandler_interrupt h.code
  rw [devicePending_run hpending, h.served] at hrun
  exact hrun

end DeviceInterrupt

/-! ## Back to the processes -/

/-- A ready process stays ready or is dispatched. -/
theorem Scheduled.reaches (h : Scheduled cfg s e t) (hs : Core s held)
    (hp : p ∈ s.readyQueue (s.prio p)) :
    e.Completed ∧ (p ∈ t.readyQueue (s.prio p) ∧ t.saved p = s.saved p ∨
      t.curr_process = some p ∧ t.saved p = State.loaded (s.prio p) (s.saved p)) := by
  have hempty : s.high_readyqueue = [] → s.low_readyqueue = [] → False := by
    intro hhigh hlow
    cases hprio : s.prio p <;> rw [hprio] at hp
    · rw [show s.readyQueue .low = [] from hlow] at hp
      cases hp
    · rw [show s.readyQueue .high = [] from hhigh] at hp
      cases hp
  cases h with
  | halt hcount =>
      have hfree := (hs.of_ready hp).1
      have hlen := (List.nodup_cons.mpr ⟨hfree, hs.pids.free_nodup⟩).length_le_card
      have hn := hs.count
      rw [Fintype.card_fin, List.length_cons] at hlen
      rw [hcount, show (0 : Word).toNat = 0 from rfl] at hn
      omega
  | wait hcount hhigh hlow hsoft => exact (hempty hhigh hlow).elim
  | deadlock hcount hhigh hlow hsoft => exact (hempty hhigh hlow).elim
  | dispatch q prio rest hcount hnext hqueue =>
      refine ⟨trivial, ?_⟩
      have hload := Quiet.load cfg q (s.pick q prio rest)
      have hprio : (s.pick q prio rest).prio = s.prio := by
        funext r
        change ((s.setReadyQueue rest prio).pcbFree_table r).p_prio = _
        rw [Nucleus.setReadyQueue_table]
        rfl
      have hsaved : (s.pick q prio rest).saved = s.saved := by
        funext r
        exact congrArg (fun f ↦ (f r).p_s) (Nucleus.setReadyQueue_table s rest prio)
      by_cases hpq : p = q
      · subst hpq
        refine .inr ⟨?_, ?_⟩
        · unfold Nucleus.load
          split <;> rfl
        · rw [← hsaved, ← hprio]
          unfold Nucleus.load State.loaded
          split <;> simp [Nucleus.saved, Nucleus.flush, startPLT, Nucleus.modifyPcb]
      · refine .inl ⟨?_, ?_⟩
        · rw [hload.readyQueue]
          change p ∈ (s.setReadyQueue rest prio).readyQueue (s.prio p)
          by_cases hpr : s.prio p = prio
          · rw [hpr] at hp ⊢
            rw [hqueue] at hp
            rw [Nucleus.readyQueue_setReadyQueue]
            exact (List.mem_cons.mp hp).resolve_left hpq
          · rwa [Nucleus.readyQueue_setReadyQueue_ne s rest hpr]
        · rw [Nucleus.load_saved cfg q _ hpq, hsaved]

/-- The process a completion wakes is ready. -/
theorem answered_ready (hprio : s.prio p = prio) :
    p ∈ (s.answered cfg i p).readyQueue prio ∧ (s.answered cfg i p).prio p = prio := by
  have hunblock : ((s.store (commandAddr i) ACK).unblock (cfg.devSem i) p).prio p = prio := by
    rw [((s.store (commandAddr i) ACK).unblock_links (cfg.devSem i) p).2.1]
    exact hprio
  have hquiet : Quiet (((s.store (commandAddr i) ACK).unblock (cfg.devSem i) p).makeReady p)
      (s.answered cfg i p) := by
    refine ⟨fun q ↦ ?_, rfl⟩
    exact Nucleus.modifyPcb_field Pcb.links
      (f := fun x ↦ { x with p_s := { x.p_s with reg_v0 := s.mem (statusAddr i) } })
      (by intro; rfl) _ p q
  rw [hquiet.readyQueue, hquiet.prio]
  refine ⟨?_, ?_⟩
  · rw [Nucleus.makeReady, hunblock, Nucleus.readyQueue_setReadyQueue]
    exact List.mem_append_right _ (List.mem_singleton_self p)
  · rw [Nucleus.prio, Nucleus.makeReady_table]
    exact hunblock

/-- Serving a register delivers its operation, unless the requester carries the reserved
pid. -/
theorem Agrees.delivered (h : Agrees cfg s i (.done p x v)) (hs : Inv cfg s)
    (hv : s.mem (statusAddr i) = v) (hp : s.pid p ≠ FREE_PCB_PID) :
    ∃ e t, complete cfg i (s.interrupted cfg) (s.interrupted cfg) = .error e t ∧ e.Completed ∧
      Delivered i p x v s t := by
  have hquiet := Quiet.interrupted cfg s
  have hsems := interrupted_sems cfg s
  have hmem : (s.interrupted cfg).mem = s.mem := sems_mem hsems
  have hqueue : (s.interrupted cfg).asl.queue (cfg.devSem i) = [p] := by
    rw [hquiet.asl, h.queue]
    rfl
  have hword : (s.interrupted cfg).mem (cfg.devSem i) ≠ 1 := by
    rw [hmem, h.word]
    decide
  have hblocked : s.semAdd p = some (cfg.devSem i) := h.blocked hs.asl rfl
  obtain ⟨lost, hlost, hsound⟩ := hs
  have hsound' : Sound cfg ((s.interrupted cfg).curr_process.toList ++ lost) (s.interrupted cfg) := by
    rw [interrupted_curr]
    exact hsound.quiet hquiet (by rw [interrupted_mem])
  obtain ⟨u, hrun, hret⟩ := deviceInterruptReturn_run (s := s.interrupted cfg) (i := i)
    ⟨hword, fun hnil ↦ by rw [hqueue] at hnil; cases hnil⟩
  obtain ⟨e, t, hexit, hend⟩ := interruptHandlerExit_run cfg u
  refine ⟨e, t, by simp only [complete, bind_run, hrun, hexit], ?_⟩
  obtain ⟨hcurr, lost', -, hu⟩ := deviceReturn_sound hsound' (hlost.quiet hquiet.pid) hret
  cases hret with
  | drop q rest hv' hq hpid =>
      cases hqueue.symm.trans hq
      exact absurd ((congrFun hquiet.pid p).symm.trans hpid) hp
  | late hv' hq hnull => cases hqueue.symm.trans hq
  | wake q rest hv' hq hpid =>
      cases hqueue.symm.trans hq
      obtain ⟨hready, hprio⟩ :
          p ∈ ((s.interrupted cfg).answered cfg i p).readyQueue (s.prio p) ∧
            ((s.interrupted cfg).answered cfg i p).prio p = s.prio p :=
        answered_ready (congrFun hquiet.prio p)
      have hsaved : ((s.interrupted cfg).answered cfg i p).saved p = { x with reg_v0 := v } := by
        rw [Nucleus.answered_saved, if_pos rfl, Nucleus.interrupted_saved, hmem, hv, h.saved p x rfl]
      have hsem := answered_sems cfg i p (s.interrupted cfg)
      have hends := hend.sems.1
      have hwake : ∀ q, ((s.interrupted cfg).answered cfg i p).semAdd q =
          if q = p then none else s.semAdd q := fun q ↦ by
        rw [sems_semAdd hsem]
        refine (congrFun (Nucleus.unblock_semAdd _ _) q).trans ?_
        change (if q = p then none else (s.interrupted cfg).semAdd q) = _
        rw [hquiet.semAdd]
      have hdone : e.Completed ∧ (p ∈ t.readyQueue (s.prio p) ∧ t.saved p = { x with reg_v0 := v } ∨
          t.curr_process = some p ∧ t.saved p = State.loaded (s.prio p) { x with reg_v0 := v }) := by
        cases hend with
        | resume hlive => exact ⟨trivial, .inl ⟨hready, hsaved⟩⟩
        | schedule hdead hnext =>
            have hleaving : Quiet ((s.interrupted cfg).answered cfg i p)
                (((s.interrupted cfg).answered cfg i p).leaving cfg) := ⟨fun _ ↦ rfl, rfl⟩
            have hprio' : (((s.interrupted cfg).answered cfg i p).leaving cfg).prio p = s.prio p :=
              hprio
            have hready' : p ∈ (((s.interrupted cfg).answered cfg i p).leaving cfg).readyQueue
                (s.prio p) := by
              rw [hleaving.readyQueue]
              exact hready
            obtain ⟨hdone, hreach⟩ := hnext.reaches (hu.core.quiet hleaving) (hprio'.symm ▸ hready')
            rw [hprio', show (((s.interrupted cfg).answered cfg i p).leaving cfg).saved p = _ from
              hsaved] at hreach
            exact ⟨hdone, hreach⟩
      refine ⟨hdone.1, ?_, ?_, fun q ↦ ?_, ?_, hdone.2⟩
      · rw [sems_mem hends]
        refine (congrFun (sems_mem hsem) _).trans ?_
        exact Nucleus.store_same _ _ _
      · rw [hblocked]
        exact Option.some_ne_none _
      · rw [sems_semAdd hends]
        exact hwake q
      · rw [sems_soft hends]
        refine (sems_soft hsem).trans ?_
        rw [← sems_soft hsems]

/-- A requester with the reserved pid is not counted. -/
theorem Agrees.dropped (h : Agrees cfg s i (.done p x v)) (hp : s.pid p = FREE_PCB_PID)
    (hrun : complete cfg i (s.interrupted cfg) (s.interrupted cfg) = .error e t)
    (hdone : e.Completed) : t.softblocked_count = s.softblocked_count := by
  have hquiet := Quiet.interrupted cfg s
  have hqueue : (s.interrupted cfg).asl.queue (cfg.devSem i) = [p] := by
    rw [hquiet.asl, h.queue]
    rfl
  obtain ⟨e', t', hrun', hend⟩ := complete_leaves cfg i (s.interrupted cfg)
  cases hrun.symm.trans hrun'
  rcases hend with ⟨u, hret, hend⟩ | rfl | ⟨rfl, -⟩
  · rw [sems_soft hend.sems.1]
    cases hret with
    | wake q rest hv hq hpid =>
        cases hqueue.symm.trans hq
        exact absurd ((congrFun hquiet.pid p).trans hp) hpid
    | drop q rest hv hq hpid => exact (sems_soft (interrupted_sems cfg s) :)
    | late hv hq hnull => cases hqueue.symm.trans hq
  · exact hdone.elim
  · exact hdone.elim

/-! ## Every interrupt -/

/-- The register served is acknowledged, and no other. -/
theorem DeviceInterrupt.track_eq (h : DeviceInterrupt state line dev s d)
    (hi : d.recognised line dev = some i) :
    track s (.exception state) d = Function.update d i .idle := by
  funext j
  have hcall : ¬ (IsCall state DOIO ∧ state.reg_a1 = commandAddr j) :=
    fun hcall ↦ hcall.1.excCode_ne h.code
  simp only [track, if_neg hcall, h.served, hi, h.code, true_and, Option.some.injEq,
    Function.update_apply, eq_comm (a := i)]

/-- The register served has a completed operation. -/
theorem DeviceInterrupt.done (h : DeviceInterrupt state line dev s d)
    (hi : d.recognised line dev = some i) : ∃ p x v, d i = .done p x v := by
  have hshows : Shows (enter state s) d := ⟨h.shows.status, h.shows.transfer, h.shows.bitmap⟩
  have hdone := hshows.completed (h.served.trans hi)
  cases hd : d i with
  | idle =>
      rw [hd] at hdone
      cases hdone
  | busy p x =>
      rw [hd] at hdone
      cases hdone
  | done p x v => exact ⟨p, x, v, rfl⟩

theorem Devices.mem_completed : i ∈ d.completed ↔ (d i).status.isSome := by
  simp [Devices.completed]

theorem Devices.completed_update :
    Devices.completed (Function.update d i .idle) = d.completed.erase i := by
  ext j
  rw [Finset.mem_erase, mem_completed, mem_completed]
  by_cases hj : j = i
  · subst hj
    simp [Operation.status]
  · simp [hj]

variable (cfg) in
/-- The steps that handle a device interrupt. -/
def InterruptStep (x : Nucleus n × Devices n) (a : DeviceAction) (y : Nucleus n × Devices n) :
    Prop :=
  DeviceStep cfg x a y ∧ ∃ state line dev, a = .nucleus (.exception state) ∧
    DeviceInterrupt state line dev x.1 x.2

/-- An interrupt that is handled to the end acknowledges one completed operation. -/
theorem InterruptStep.card {a : DeviceAction} {d' : Devices n}
    (h : InterruptStep cfg (s, d) a (t, d')) : d'.completed.card + 1 = d.completed.card := by
  obtain ⟨hstep, state, line, dev, rfl, hint⟩ := h
  cases hstep with
  | nucleus hstep hlaw =>
      obtain ⟨-, e, hrun, hdone⟩ := step_exception hstep.1
      rw [hint.run] at hrun
      cases hi : d.recognised line dev with
      | none =>
          rw [hi] at hrun
          cases hrun
          exact hdone.elim
      | some i =>
          obtain ⟨p, x, v, hd⟩ := hint.done hi
          rw [hint.track_eq hi, Devices.completed_update, Finset.card_erase_add_one]
          rw [Devices.mem_completed, hd]
          rfl

theorem InterruptStep.run_card {x y : Nucleus n × Devices n} {as : List DeviceAction}
    (h : Run (InterruptStep cfg) x as y) : y.2.completed.card + as.length = x.2.completed.card := by
  induction h with
  | nil => rfl
  | snoc hrun hstep ih =>
      rw [List.length_append, ← ih, ← hstep.card]
      simp only [List.length_cons, List.length_nil]
      omega

/-- In every state that can be reached while no requester is killed, whatever operations
have completed and with whatever status: a device interrupt delivers a completed operation
to its requester exactly when the device is no terminal, or a terminal that has transferred
a character, and the requester does not carry the reserved pid.  And each interrupt
handled to the end acknowledges one completed operation, until none is left. -/
theorem delivered_iff (h : Reachable (DeviceStart cfg) (DeviceStep cfg) (s, d)) :
    (∀ state line dev, DeviceInterrupt state line dev s d →
      ((∃ i p x v e t, d i = .done p x v ∧
          exceptionHandler cfg (enter state s) = .error e t ∧ e.Completed ∧
          Delivered i p x v (enter state s) t ∧
          track s (.exception state) d = Function.update d i .idle) ↔
        ∃ i ∈ d.recognised line dev, ∃ w ∈ (d i).waiter, s.pid w.1 ≠ FREE_PCB_PID)) ∧
    ∀ as t d', Run (InterruptStep cfg) (s, d) as (t, d') →
      d'.completed.card + as.length = d.completed.card := by
  have htracked := reachable_tracked h
  refine ⟨fun state line dev hint ↦ ?_, fun as t d' hrun ↦ ?_⟩
  · have hinv : Inv cfg (enter state s) := by
      obtain ⟨lost, hlost, hsound⟩ := htracked.inv
      have hquiet := Quiet.enter state s
      exact ⟨lost, hlost.quiet hquiet.pid, hsound.quiet hquiet rfl⟩
    have hagrees : ∀ {i o}, d i = o → Agrees cfg (enter state s) i o := by
      rintro i o rfl
      exact ⟨(htracked.agrees i).word, (htracked.agrees i).queue, (htracked.agrees i).saved⟩
    constructor
    · rintro ⟨i, p, x, v, e, t, hd, hrun, hdone, hdel, -⟩
      rw [hint.run] at hrun
      cases hj : d.recognised line dev with
      | none =>
          rw [hj] at hrun
          cases hrun
          exact hdone.elim
      | some j =>
          rw [hj] at hrun
          obtain ⟨q, y, w, hdj⟩ := hint.done hj
          refine ⟨j, rfl, (q, y), by rw [hdj]; rfl, fun hpid ↦ ?_⟩
          have hsoft := (hagrees hdj).dropped hpid hrun hdone
          rw [hdel.counted] at hsoft
          bv_omega
    · rintro ⟨i, hi, w, hw, hpid⟩
      rw [Option.mem_def] at hi
      obtain ⟨p, x, v, hd⟩ := hint.done hi
      rw [hd] at hw
      cases hw
      have hv : (enter state s).mem (statusAddr i) = v := hint.shows.status i v (by rw [hd]; rfl)
      obtain ⟨e, t, hrun, hdone, hdel⟩ := (hagrees hd).delivered hinv hv hpid
      refine ⟨i, p, x, v, e, t, hd, ?_, hdone, hdel, hint.track_eq hi⟩
      rw [hint.run, hi]
      exact hrun
  · exact InterruptStep.run_card hrun

/-- A disk operation fails, and its requester learns of it. -/
theorem delivered_iff_sample :
    ∃ (s : Nucleus 2) (d : Devices 2) (state : State) (i : Fin TOTAL_IO_DEVICES) (p : Fin 2)
      (x : State) (v : Word) (e : Exit) (t : Nucleus 2), d i = .done p x v ∧ v ≠ DEV_READY ∧
      exceptionHandler (.sample 2 (by decide) .faults) (enter state s) = .error e t ∧
      e.Completed ∧ Delivered i p x v (enter state s) t := by
  let cfg := Config.sample 2 (by decide) .faults
  let state := { State.zero with cause := DISKINTERRUPT }
  obtain ⟨s, d, hs, hint, hfail, hreq⟩ := operation_reachable cfg
    (P := fun x ↦ DeviceInterrupt state IL_DISK 0 x.1 x.2 ∧
      (∀ i, (x.2 i).status.all (· ≠ DEV_READY)) ∧
      ∃ i ∈ x.2.recognised IL_DISK 0, ∃ w ∈ (x.2 i).waiter, x.1.pid w.1 ≠ FREE_PCB_PID)
    0 0 3 [(statusAddr 0, 3), (bitmapAddr IL_DISK, 1)] (by decide) (by decide +kernel)
  obtain ⟨i, p, x, v, e, t, hd, hrun, hdone, hdel, -⟩ :=
    ((delivered_iff hs).1 state IL_DISK 0 hint).mpr hreq
  refine ⟨s, d, state, i, p, x, v, e, t, hd, ?_, hrun, hdone, hdel⟩
  have hv : (d i).status.all (· ≠ DEV_READY) := hfail i
  rw [hd] at hv
  exact of_decide_eq_true hv

/-- A terminal that could not transmit a character stops the kernel. -/
theorem failed_transmission_stops :
    ¬ ∀ (n : Nat) (cfg : Config n) (s : Nucleus n) (d : Devices n) (state : State) (line dev : Nat),
      Reachable (DeviceStart cfg) (DeviceStep cfg) (s, d) → NoReservedPid s →
      DeviceInterrupt state line dev s d →
      ∃ i p x v e t, d i = .done p x v ∧ exceptionHandler cfg (enter state s) = .error e t ∧
        e.Completed ∧ Delivered i p x v (enter state s) t := by
  intro hclaim
  let cfg := Config.sample 2 (by decide) .faults
  let state := { State.zero with cause := TERMINTERRUPT }
  obtain ⟨s, d, hs, hpid, hint, hrun⟩ := operation_reachable cfg
    (P := fun x ↦ NoReservedPid x.1 ∧ DeviceInterrupt state IL_TERMINAL 0 x.1 x.2 ∧
      (match exceptionHandler cfg (enter state x.1) with
        | .error (.panic .terminal) _ => true
        | _ => false) = true)
    0 40 4 [(statusAddr 40, 4), (bitmapAddr IL_TERMINAL, 1)]
    (by decide) (by decide +kernel)
  obtain ⟨i, p, x, v, e, t, -, hends, hdone, -⟩ := hclaim 2 cfg s d state _ _ hs hpid hint
  rw [hends] at hrun
  cases e with
  | ldst | ldcxt | wait => cases hrun
  | halt | panic | busError | diverges | nullDeref => exact hdone

end PandosPlus
