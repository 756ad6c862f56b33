import PandosPlus.Phase2.Completions
import PandosPlus.Phase2.Saved

/-!
# The nucleus and its devices

Each device register carries out one operation at a time, the two halves of a terminal
counted apart: it is given by a DOIO, completes with a status, and is acknowledged when
the kernel serves the register.  At a device interrupt the registers show which
operations have completed and how.  In a system where no requester is killed, the first
process waiting for a register is then the one that requested its operation, and it
still has the state it was saved with.

So every completion reaches its requester, except that of a terminal whose status is not
the one of a character transferred: there the kernel stops.
-/

namespace PandosPlus

open Flow Lts

variable {n : Nat}

/-- What a device register is doing; an operation carries the process that requested it
and the state this process was saved with. -/
inductive Operation (n : Nat) where
  | idle
  | busy (p : Fin n) (x : State)
  | done (p : Fin n) (x : State) (status : Word)

/-- The process that waits for a register. -/
def Operation.waiter : Operation n → Option (Fin n × State)
  | .idle => none
  | .busy p x => some (p, x)
  | .done p x _ => some (p, x)

/-- The status of an operation that has completed. -/
def Operation.status : Operation n → Option Word
  | .done _ _ status => some status
  | _ => none

/-- The device registers. -/
abbrev Devices (n : Nat) := Fin TOTAL_IO_DEVICES → Operation n

/-- The state of a process that has made a system call. -/
def State.returned (x : State) : State := { x with pc_epc := x.pc_epc + WORDLEN }

/-- The state of a process that is dispatched. -/
def State.loaded (prio : Prio) (x : State) : State :=
  { x with status := if prio = .low then x.status ||| TEBITON else x.status &&& ~~~TEBITON }

/-- The registers of a device. -/
def halves (line dev : Nat) : List (Fin TOTAL_IO_DEVICES) :=
  if line = IL_TERMINAL then [regIndex line dev, transmIndex dev] else [regIndex line dev]

/-- The registers show the operations: the status of each one that has completed, a
character transferred only where one has completed, and an interrupt pending where a
register of the device has one to be acknowledged. -/
structure Shows (s : Nucleus n) (d : Devices n) : Prop where
  status : ∀ i, ∀ v ∈ (d i).status, s.mem (statusAddr i) = v
  transfer : ∀ i, 32 ≤ i.val → TERMINAL_STATUS (s.mem (statusAddr i)) = CHAR_RECEIVED →
    (d i).status.isSome
  bitmap : ∀ line ∈ [3, 4, 5, 6, 7], ∀ dev ∈ List.range N_DEV_PER_IL,
    (getDeviceBitmap line s &&& ((1 : Word) <<< dev) ≠ 0 ↔ ∃ i ∈ halves line dev, (d i).status.isSome)

/-- What happens to the nucleus and its devices. -/
inductive DeviceAction where
  | nucleus (a : Action)
  /-- An operation completes, with any status. -/
  | complete (i : Fin TOTAL_IO_DEVICES) (status : Word)

/-- The operations after an action of the nucleus: a DOIO gives one, and serving a register
acknowledges it. -/
def track (s : Nucleus n) (a : Action) (d : Devices n) : Devices n :=
  match a with
  | .exception state => fun i ↦
      if IsCall state DOIO ∧ state.reg_a1 = commandAddr i then
        match s.curr_process with
        | some c => .busy c state.returned
        | none => d i
      else if excCode state.cause = 0 ∧ (enter state s).served = some i then .idle
      else d i
  | _ => d

/-- One operation at a time for each register, no requester is killed, and at an interrupt
the registers show the operations. -/
structure DeviceLaw (s : Nucleus n) (a : Action) (t : Nucleus n) (d : Devices n) : Prop where
  single : ∀ state i, a = .exception state → IsCall state DOIO → state.reg_a1 = commandAddr i →
    d i = .idle
  spared : ∀ i p x, (d i).waiter = some (p, x) → p ∉ t.pcbFree_h
  shows : ∀ state, a = .exception state → excCode state.cause = 0 → Shows s d

variable (cfg : Config n)

/-- The steps of the nucleus with its devices. -/
inductive DeviceStep : Nucleus n × Devices n → DeviceAction → Nucleus n × Devices n → Prop
  | nucleus {s t : Nucleus n} {d : Devices n} {a : Action} (hstep : NucStep cfg s a t)
      (hlaw : DeviceLaw s a t d) : DeviceStep (s, d) (.nucleus a) (t, track s a d)
  | complete {s : Nucleus n} {d : Devices n} {i : Fin TOTAL_IO_DEVICES} {p : Fin n} {x : State}
      (status : Word) (hbusy : d i = .busy p x) :
      DeviceStep (s, d) (.complete i status)
        (s, Function.update d i (.done p x status))

/-- At the start every register is idle. -/
def DeviceStart (x : Nucleus n × Devices n) : Prop := Start cfg x.1 ∧ x.2 = fun _ ↦ .idle

/-! ## The invariant -/

/-- The nucleus agrees with the operation of a register. -/
structure Agrees (s : Nucleus n) (i : Fin TOTAL_IO_DEVICES) (o : Operation n) : Prop where
  word : s.mem (cfg.devSem i) = 0
  queue : s.asl.queue (cfg.devSem i) = (o.waiter.map Prod.fst).toList
  saved : ∀ p x, o.waiter = some (p, x) → s.saved p = x

/-- The nucleus agrees with all operations. -/
structure Tracked (s : Nucleus n) (d : Devices n) : Prop where
  inv : Inv cfg s
  agrees : ∀ i, Agrees cfg s i (d i)

variable {cfg} {s t : Nucleus n} {d : Devices n} {p c : Fin n} {i : Fin TOTAL_IO_DEVICES} {e : Exit}
variable {held : List (Fin n)} {state : State} {x : State}

/-! ## One register -/

/-- A step that neither gives the register an operation nor serves it leaves its semaphore
alone, or kills some of its waiters. -/
theorem SemStep.device_other {s t : Nucleus n} (hs : Core s (s.curr_process.toList ++ held))
    (hlaw : (Action.exception s.prev).Lawful cfg)
    (hio : ¬ (IsCall s.prev DOIO ∧ s.prev.reg_a1 = commandAddr i))
    (hserved : ¬ (excCode s.prev.cause = 0 ∧ s.served = some i)) (h : SemStep cfg s t) :
    (t.asl.queue (cfg.devSem i) = s.asl.queue (cfg.devSem i) ∨ ∃ K, Removed cfg K s t) ∧
      t.mem (cfg.devSem i) = s.mem (cfg.devSem i) := by
  have hsem : ∀ {c}, s.curr_process = some c → s.semAdd c = none := by
    intro c hc
    rw [hc] at hs
    exact (hs.of_held List.mem_cons_self).2.2.1
  have hmove : ∀ {full k c} {s' : Nucleus n}, SemMove full k c s' t → s'.asl = s.asl →
      s'.semAdd = s.semAdd → s'.mem (cfg.devSem i) = s.mem (cfg.devSem i) →
      s.curr_process = some c → cfg.devSem i ≠ k →
      (t.asl.queue (cfg.devSem i) = s.asl.queue (cfg.devSem i) ∨ ∃ K, Removed cfg K s t) ∧
        t.mem (cfg.devSem i) = s.mem (cfg.devSem i) := by
    intro full k c s' hmove hasl hsemAdd hmem hc hk
    refine ⟨.inl ?_, ?_⟩
    · rw [SemMove.queue_ne (by rw [hasl, hsemAdd]; exact hs.asl) (by rw [hsemAdd]; exact hsem hc) hk
        hmove, hasl]
    · by_contra hne
      exact hk (hmove.mem fun h ↦ hne (h.trans hmem)).1
  have hbus : ∀ j (v : Word) (s : Nucleus n), (s.store (commandAddr j) v).mem (cfg.devSem i) =
      s.mem (cfg.devSem i) :=
    fun j v s ↦ Nucleus.store_ne s v (devSem_ne_bus i (commandAddr_bus j))
  cases h with
  | still hcall h => exact ⟨.inl (by rw [sems_asl h]), by rw [sems_mem h]⟩
  | passeren c hc hcall h =>
      exact hmove h rfl rfl rfl hc fun hk ↦ hlaw (.inl hcall) (hk ▸ owned_devSem i)
  | verhogen c hc hcall h =>
      exact hmove h rfl rfl rfl hc fun hk ↦ hlaw (.inr hcall) (hk ▸ owned_devSem i)
  | doIo c j hc hcall hj h =>
      refine hmove h rfl rfl (hbus j _ s) hc fun hk ↦ hio ⟨hcall, ?_⟩
      rw [devSem_injective hk]
      exact hj
  | clockWait c hc hcall h => exact hmove h rfl rfl rfl hc (devSem_ne_it i)
  | kill K hcall h => exact ⟨.inr ⟨K, h⟩, congrFun h.mem _⟩
  | tick l hcall h =>
      exact ⟨.inl ((h.queue _).trans (if_neg (devSem_ne_it i))),
        (h.mem _).trans (if_neg (devSem_ne_it i))⟩
  | device j hcode hj h =>
      have hne : cfg.devSem i ≠ cfg.devSem j := fun hk ↦
        hserved ⟨hcode, devSem_injective hk ▸ hj⟩
      refine ⟨.inl (h.queue_ne hs.asl hne), ?_⟩
      cases h with
      | wake p rest hv hqueue hp h => exact (congrFun (sems_mem h) _).trans (hbus j _ s)
      | drop p rest hv hqueue hp h => exact (congrFun (sems_mem h) _).trans (hbus j _ s)
      | late hv hqueue hnull h =>
          refine (congrFun (sems_mem h) _).trans ?_
          exact (Nucleus.store_ne _ _ hne).trans (hbus j _ s)

/-- Its waiters are not killed either. -/
theorem SemStep.device_elsewhere {s t : Nucleus n} (hs : Core s (s.curr_process.toList ++ held))
    (hlaw : (Action.exception s.prev).Lawful cfg)
    (hio : ¬ (IsCall s.prev DOIO ∧ s.prev.reg_a1 = commandAddr i))
    (hserved : ¬ (excCode s.prev.cause = 0 ∧ s.served = some i))
    (hspared : ∀ p ∈ s.asl.queue (cfg.devSem i), p ∉ t.pcbFree_h) (h : SemStep cfg s t) :
    t.asl.queue (cfg.devSem i) = s.asl.queue (cfg.devSem i) ∧
      t.mem (cfg.devSem i) = s.mem (cfg.devSem i) := by
  obtain ⟨hqueue | ⟨K, hrem⟩, hmem⟩ := h.device_other hs hlaw hio hserved
  · exact ⟨hqueue, hmem⟩
  · refine ⟨(hrem.queue _).trans (List.filter_eq_self.mpr fun p hp ↦ ?_), hmem⟩
    exact decide_eq_true fun hK ↦ hspared p hp ((hrem.free p).mpr (.inl hK))

theorem Inv.asl (h : Inv cfg s) : s.asl.Inv s.semAdd := by
  obtain ⟨lost, -, hsound⟩ := h
  exact hsound.core.asl

/-- The current process is not blocked. -/
theorem Inv.curr_ne (h : Inv cfg s) {k : Word} (hp : s.semAdd p = some k) :
    s.curr_process ≠ some p := by
  obtain ⟨lost, -, hsound⟩ := h
  intro hc
  rw [hc] at hsound
  have hnone := (hsound.core.of_held List.mem_cons_self).2.2.1
  rw [hp] at hnone
  cases hnone

variable {o : Operation n}

/-- The process waiting for a register is blocked at its semaphore. -/
theorem Agrees.blocked (h : Agrees cfg s i o) (hs : s.asl.Inv s.semAdd)
    (ho : o.waiter = some (p, x)) : s.semAdd p = some (cfg.devSem i) := by
  refine hs.mem_queue.mp ?_
  rw [h.queue, ho]
  exact List.mem_singleton_self p

/-- Nothing happens to the register. -/
theorem Agrees.elsewhere (h : Agrees cfg s i o) (hs : Core s (s.curr_process.toList ++ held))
    (ht : Inv cfg t) (hlaw : (Action.exception s.prev).Lawful cfg)
    (hio : ¬ (IsCall s.prev DOIO ∧ s.prev.reg_a1 = commandAddr i))
    (hserved : ¬ (excCode s.prev.cause = 0 ∧ s.served = some i))
    (hspared : ∀ p x, o.waiter = some (p, x) → p ∉ t.pcbFree_h) (hend : Handled cfg s e t) :
    Agrees cfg t i o := by
  have hkeep := (hend.semStep hs).device_elsewhere hs hlaw hio hserved fun p hp ↦ by
    rw [h.queue, Option.mem_toList, Option.map_eq_some_iff] at hp
    obtain ⟨⟨q, x⟩, ho, rfl⟩ := hp
    exact hspared q x ho
  have hqueue := hkeep.1.trans h.queue
  refine ⟨hkeep.2.trans h.word, hqueue, fun p x ho ↦ ?_⟩
  have hblocked : t.semAdd p = some (cfg.devSem i) := by
    refine ht.asl.mem_queue.mp ?_
    rw [hqueue, ho]
    exact List.mem_singleton_self p
  rw [hend.saved hs (by rw [h.blocked hs.asl ho]; exact Option.some_ne_none _)
    (by rw [hblocked]; exact Option.some_ne_none _) (ht.curr_ne hblocked)]
  exact h.saved p x ho

/-- A DOIO gives an idle register an operation: the caller waits, with its state saved. -/
theorem Agrees.doIo (h : Agrees cfg s i .idle) (hs : Core s (s.curr_process.toList ++ held))
    (ht : Inv cfg t) (hc : s.curr_process = some c) (hcall : IsCall s.prev DOIO)
    (hi : s.prev.reg_a1 = commandAddr i) (hend : Handled cfg s e t) :
    Agrees cfg t i (.busy c s.prev.returned) := by
  have hsem : s.semAdd c = none := by
    rw [hc] at hs
    exact (hs.of_held List.mem_cons_self).2.2.1
  have hword : (s.advanced.issue i).mem (cfg.devSem i) = 0 :=
    (Nucleus.store_ne s _ (devSem_ne_bus i (commandAddr_bus i))).trans h.word
  obtain ⟨j, hj, hsemcall⟩ : ∃ j, s.prev.reg_a1 = commandAddr j ∧
      SemCall cfg 0 (cfg.devSem j) c (s.advanced.issue j) e t := by
    cases hend with
    | interrupt hcode hend => exact absurd hcode hcall.excCode_ne
    | call c' code hc' hcall' hend =>
        rw [hc] at hc'
        cases hc'
        cases hcall.code hcall'
        cases hend with
        | doIo j hj hsem => exact ⟨j, hj, hsem⟩
        | invalid hcode hend => exact absurd (by decide) hcode
    | passUp c' i' hc' hno hcode hend => exact absurd hcall (hno _ (by decide))
    | trap c' hc' hno hcode hend => exact absurd hcall (hno _ (by decide))
  cases commandAddr_injective (hi.symm.trans hj)
  have hblock := hsemcall.moves
  have hwait : t.semAdd c = some (cfg.devSem i) ∧ t.asl.queue (cfg.devSem i) = [c] ∧
      t.mem (cfg.devSem i) = 0 := by
    cases hblock with
    | block hfull hmove =>
        refine ⟨?_, ?_, ?_⟩
        · rw [sems_semAdd hmove, Nucleus.block_semAdd]
          exact if_pos rfl
        · rw [sems_asl hmove]
          have hqueue := Nucleus.block_queue (s := s.advanced.issue i) (k := cfg.devSem i) hs.asl hsem
            (cfg.devSem i)
          rw [if_pos rfl] at hqueue
          exact hqueue.trans (congrArg (· ++ [c]) h.queue)
        · exact (congrFun (sems_mem hmove) _).trans hword
    | release p rest hfull hqueue hmove hfree => exact absurd hword hfull
    | write hfull hqueue hmove => exact absurd hword hfull
  refine ⟨hwait.2.2, hwait.2.1, ?_⟩
  rintro p x ⟨⟩
  rw [hsemcall.saved (ht.curr_ne hwait.1), if_pos ⟨rfl, hword⟩]
  rfl

theorem halves_terminal : ∀ dev ∈ List.range N_DEV_PER_IL,
    32 ≤ (regIndex IL_TERMINAL dev).val ∧ 32 ≤ (transmIndex dev).val := by decide

/-- A register served is one whose operation has completed. -/
theorem Shows.completed (h : Shows s d) (hi : s.served = some i) : (d i).status.isSome := by
  obtain ⟨-, -, line, dev, hline, hdev, hof⟩ := Nucleus.served_eq_some hi
  obtain ⟨hmem, hbit⟩ := lowestDevice_mem hdev
  unfold Nucleus.servedOf at hof
  split at hof
  · rename_i hterm
    obtain ⟨j, hj, hdone⟩ := (h.bitmap line (deviceLine_mem hline) dev hmem).mp hbit
    rw [halves, if_neg hterm, List.mem_singleton] at hj
    cases hof
    exact hj ▸ hdone
  · rename_i hterm
    rw [not_not.mp hterm] at hof
    split at hof
    · rename_i hcode
      cases hof
      exact h.transfer _ (halves_terminal dev hmem).1 hcode
    split at hof
    · rename_i hcode
      cases hof
      exact h.transfer _ (halves_terminal dev hmem).2 hcode
    · cases hof

theorem Operation.waiter_of_status (ho : o.status.isSome) : ∃ p x, o.waiter = some (p, x) := by
  cases o with
  | idle => cases ho
  | busy p x => cases ho
  | done p x status => exact ⟨p, x, rfl⟩

/-- The register is served: no one waits for it any more. -/
theorem Agrees.served (h : Agrees cfg s i o) (hs : Core s held) (ho : o.status.isSome)
    (hcode : excCode s.prev.cause = 0) (hi : s.served = some i) (hstep : SemStep cfg s t) :
    Agrees cfg t i .idle := by
  obtain ⟨p, x, ho⟩ := Operation.waiter_of_status ho
  have hp : s.semAdd p = some (cfg.devSem i) := h.blocked hs.asl ho
  have hqueue : s.asl.queue (cfg.devSem i) = [p] := by
    rw [h.queue, ho]
    rfl
  have hempty : ((s.store (commandAddr i) ACK).unblock (cfg.devSem i) p).asl.queue (cfg.devSem i) =
      [] := by
    have hleave := Nucleus.unblock_queue (s := s.store (commandAddr i) ACK) hs.asl hp (cfg.devSem i)
    rw [if_pos rfl] at hleave
    exact hleave.trans ((congrArg (·.erase p) hqueue).trans (List.erase_cons_head p []))
  have hword : (s.store (commandAddr i) ACK).mem (cfg.devSem i) = 0 :=
    (Nucleus.store_ne s _ (devSem_ne_bus i (commandAddr_bus i))).trans h.word
  have hmove : t.mem = (s.store (commandAddr i) ACK).mem ∧
      t.asl = ((s.store (commandAddr i) ACK).unblock (cfg.devSem i) p).asl := by
    cases hstep with
    | still hno hsame => exact absurd (hno.served hcode) (hi ▸ Option.some_ne_none i)
    | passeren c hc hcall hmove => exact absurd hcode hcall.excCode_ne
    | verhogen c hc hcall hmove => exact absurd hcode hcall.excCode_ne
    | doIo c j hc hcall hj hmove => exact absurd hcode hcall.excCode_ne
    | clockWait c hc hcall hmove => exact absurd hcode hcall.excCode_ne
    | kill K hno hrem => exact absurd (hno.served hcode) (hi ▸ Option.some_ne_none i)
    | tick l hno htick => exact absurd (hno.served hcode) (hi ▸ Option.some_ne_none i)
    | device j hcode' hj hret =>
        cases Option.some.inj (hi.symm.trans hj)
        cases hret with
        | wake q rest hv hq hpid hsems =>
            cases hqueue.symm.trans hq
            exact ⟨(sems_mem hsems).trans rfl, (sems_asl hsems).trans rfl⟩
        | drop q rest hv hq hpid hsems =>
            cases hqueue.symm.trans hq
            exact ⟨(sems_mem hsems).trans rfl, (sems_asl hsems).trans rfl⟩
        | late hv hq hnull hsems => cases hqueue.symm.trans hq
  refine ⟨by rw [hmove.1]; exact hword, by rw [hmove.2]; exact hempty, ?_⟩
  rintro p x ⟨⟩

/-! ## One step -/

/-- An exception leaves the nucleus and its devices in agreement. -/
theorem Tracked.exception (h : Tracked cfg s d) (hstep : NucStep cfg s (.exception state) t)
    (hlaw : DeviceLaw s (.exception state) t d) :
    Tracked cfg t (track s (.exception state) d) := by
  have ht : Inv cfg t := hstep.inv h.inv
  obtain ⟨e, -, -, hend⟩ := step_handled h.inv hstep.1
  obtain ⟨lost, -, hsound⟩ := h.inv
  have hcore : Core (enter state s) ((enter state s).curr_process.toList ++ lost) :=
    hsound.core.quiet (.enter state s)
  refine ⟨ht, fun i ↦ ?_⟩
  have hi : Agrees cfg (enter state s) i (d i) := ⟨(h.agrees i).1, (h.agrees i).2, (h.agrees i).3⟩
  unfold track
  by_cases hio : IsCall state DOIO ∧ state.reg_a1 = commandAddr i
  · simp only [if_pos hio]
    have hcurr : s.curr_process ≠ none := by
      rcases (step_exception hstep.1).1 with hcode | hcurr
      · exact absurd hcode hio.1.excCode_ne
      · exact hcurr
    obtain ⟨c, hc⟩ := Option.ne_none_iff_exists'.mp hcurr
    rw [hlaw.single state i rfl hio.1 hio.2] at hi
    simp only [hc]
    exact hi.doIo hcore ht hc hio.1 hio.2 hend
  · simp only [if_neg hio]
    split
    · rename_i hserved
      have hshows : Shows (enter state s) d := by
        obtain ⟨hstatus, htransfer, hbitmap⟩ := hlaw.shows state rfl hserved.1
        exact ⟨hstatus, htransfer, hbitmap⟩
      exact hi.served hcore (hshows.completed hserved.2) hserved.1 hserved.2 (hend.semStep hcore)
    · rename_i hserved
      exact hi.elsewhere hcore ht hstep.2 hio hserved (fun p x ho ↦ hlaw.spared i p x ho) hend

theorem DeviceStep.tracked {a : DeviceAction} {d' : Devices n} (h : Tracked cfg s d)
    (hstep : DeviceStep cfg (s, d) a (t, d')) : Tracked cfg t d' := by
  cases hstep with
  | @nucleus _ _ _ a hstep hlaw =>
      cases a with
      | store b v =>
          refine ⟨hstep.inv h.inv, fun i ↦ ?_⟩
          obtain ⟨hword, hqueue, hsaved⟩ := h.agrees i
          obtain ⟨hstep, -⟩ := hstep
          simp only [step, Option.ite_none_left_eq_some, Option.some.injEq] at hstep
          obtain ⟨hown, rfl⟩ := hstep
          refine ⟨?_, hqueue, hsaved⟩
          refine (Nucleus.store_ne s v fun e ↦ hown ?_).trans hword
          exact e ▸ owned_devSem i
      | support b x =>
          refine ⟨hstep.inv h.inv, fun i ↦ ?_⟩
          obtain ⟨hword, hqueue, hsaved⟩ := h.agrees i
          obtain ⟨hstep, -⟩ := hstep
          simp only [step, Option.some.injEq] at hstep
          subst hstep
          exact ⟨hword, hqueue, hsaved⟩
      | exception state => exact h.exception hstep hlaw
  | @complete _ _ i p x status hbusy =>
      refine ⟨h.inv, fun j ↦ ?_⟩
      obtain ⟨hword, hqueue, hsaved⟩ := h.agrees j
      by_cases hj : j = i
      · subst hj
        rw [hbusy] at hqueue hsaved
        rw [Function.update_self]
        exact ⟨hword, hqueue, hsaved⟩
      · rw [Function.update_of_ne hj]
        exact ⟨hword, hqueue, hsaved⟩

/-! ## Runs -/

theorem DeviceStart.tracked (h : DeviceStart cfg (s, d)) : Tracked cfg s d := by
  obtain ⟨hs, rfl⟩ := h
  refine ⟨hs.inv, fun i ↦ ⟨?_, ?_, ?_⟩⟩
  all_goals obtain ⟨mem, support, p, rest, e, hmem, hfree, -, hend⟩ := hs.scheduled
  · rw [sems_mem hend.sems.1]
    exact hmem _ (.inr ⟨i, rfl⟩)
  · obtain ⟨hfirst, hnone⟩ := first_sound hmem hfree
    rw [sems_asl hend.sems.1]
    refine List.eq_nil_iff_forall_not_mem.mpr fun q hq ↦ ?_
    have hblocked := hfirst.core.asl.mem_queue.mp hq
    rw [hnone] at hblocked
    cases hblocked
  · rintro q x ⟨⟩

/-- In every run, the nucleus agrees with the operations of the devices. -/
theorem reachable_tracked (h : Reachable (DeviceStart cfg) (DeviceStep cfg) (s, d)) :
    Tracked cfg s d :=
  h.invariant (I := fun x ↦ Tracked cfg x.1 x.2) (fun _ h ↦ h.tracked) fun _ _ _ h hstep ↦
    hstep.tracked h

/-! ## Computing a run -/

/-- A DOIO on the register gives it an operation, and changes no other. -/
theorem track_doIo (hc : s.curr_process = some c) (hcall : IsCall state DOIO)
    (hi : state.reg_a1 = commandAddr i) :
    track s (.exception state) d = Function.update d i (.busy c state.returned) := by
  funext j
  have hcode : ¬ excCode state.cause = 0 := hcall.excCode_ne
  have hj : state.reg_a1 = commandAddr j ↔ j = i := by
    rw [hi]
    exact ⟨fun h ↦ (commandAddr_injective h).symm, fun h ↦ congrArg commandAddr h.symm⟩
  simp only [track, hcall, hj, true_and, hc, hcode, false_and, if_false, Function.update_apply]

/-- What changes the memory leaves the operations alone. -/
theorem Reachable.stores (h : Reachable (DeviceStart cfg) (DeviceStep cfg) (s, d))
    (hspared : ∀ i p x, (d i).waiter = some (p, x) → p ∉ s.pcbFree_h) {l : List (Word × Word)}
    (hl : ∀ x ∈ l, ¬ Owned cfg x.1) :
    Reachable (DeviceStart cfg) (DeviceStep cfg) (l.foldl (fun s x ↦ s.store x.1 x.2) s, d) := by
  induction l generalizing s with
  | nil => exact h
  | cons x l ih =>
      obtain ⟨hx, hl⟩ := List.forall_mem_cons.mp hl
      have hstep : NucStep cfg s (.store x.1 x.2) (s.store x.1 x.2) := ⟨if_neg hx, trivial⟩
      refine ih (Lts.Reachable.snoc h (.nucleus hstep ⟨?_, hspared, ?_⟩)) hspared hl
      · rintro state i ⟨⟩
      · rintro state ⟨⟩

variable (cfg) in
/-- The first process requests an operation, which completes and changes the memory: the
states computed are reachable. -/
theorem operation_reachable {P : Nucleus n × Devices n → Prop} [DecidablePred P] (c : Fin n)
    (i : Fin TOTAL_IO_DEVICES) (v : Word) (l : List (Word × Word))
    (hl : (l.all fun x ↦ IsBusAddr x.1) = true)
    (h : ((firstState cfg).bind fun s ↦
        (step cfg s (.call DOIO (commandAddr i) 0 0)).map fun t ↦ (s, t)).any (fun x ↦
      decide (x.1.curr_process = some c ∧ c ∉ x.2.pcbFree_h ∧
        P (l.foldl (fun s x ↦ s.store x.1 x.2) x.2, Function.update (fun _ ↦ .idle) i
          (.done c (State.call DOIO (commandAddr i) 0 0).returned v)))) = true) :
    ∃ s d, Reachable (DeviceStart cfg) (DeviceStep cfg) (s, d) ∧ P (s, d) := by
  obtain ⟨⟨s, t⟩, hx, hobs⟩ := (Option.any_eq_true _ _).mp h
  obtain ⟨hc, hfree, hP⟩ := of_decide_eq_true hobs
  obtain ⟨s', hstart, hx⟩ := Option.bind_eq_some_iff.mp hx
  obtain ⟨t', hstep, hx⟩ := Option.map_eq_some_iff.mp hx
  cases hx
  refine ⟨_, _, ?_, hP⟩
  have hcall : IsCall (State.call DOIO (commandAddr i) 0 0) DOIO :=
    ⟨(by decide : excCode 0x20 = 8), (by decide : (0 : Word) &&& USERPON = 0),
      (by decide : (BitVec.ofInt 32 DOIO).toInt = DOIO)⟩
  have hlaw : (Action.call DOIO (commandAddr i) 0 0).Lawful cfg := by
    rintro (h | h)
    · exact absurd (hcall.code h) (by decide)
    · exact absurd (hcall.code h) (by decide)
  have hfirst := DeviceStep.nucleus (d := fun _ ↦ .idle) ⟨hstep, hlaw⟩ ⟨fun _ _ _ _ _ ↦ rfl, by
    rintro j p x ⟨⟩, by
    rintro state ⟨⟩ hcode
    exact absurd hcode hcall.excCode_ne⟩
  rw [Action.call, track_doIo hc hcall rfl] at hfirst
  have hidle : DeviceStart cfg (s, fun _ ↦ .idle) := ⟨firstState_start hstart, rfl⟩
  have hreq := Lts.Reachable.snoc (.start hidle) hfirst
  have hdone : DeviceStep cfg (t, _) (.complete i v) _ := .complete v (Function.update_self i
    (Operation.busy c (State.call DOIO (commandAddr i) 0 0).returned) (fun _ ↦ .idle : Devices n))
  rw [Function.update_idem] at hdone
  refine Reachable.stores (Lts.Reachable.snoc hreq hdone) (fun j p x ho ↦ ?_)
    fun x hx ↦ not_owned_bus (of_decide_eq_true (List.all_eq_true.mp hl x hx))
  by_cases hj : j = i
  · subst hj
    rw [Function.update_self] at ho
    cases ho
    exact hfree
  · rw [Function.update_of_ne hj] at ho
    cases ho

end PandosPlus
