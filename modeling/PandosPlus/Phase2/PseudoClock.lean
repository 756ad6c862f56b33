import PandosPlus.Phase2.Ticks
import PandosPlus.Phase2.SemSteps
import PandosPlus.Phase2.Devices
import PandosPlus.Phase2.Places

/-!
# The pseudo-clock

The word of `semaphore_it` is always zero, so a CLOCKWAIT always blocks, and the V of the
handler of a tick always finds a process to release as long as one waits: the loop of
`_ITHandler` takes one turn for each (`pseudoClock`).

That the waiters are released in the order they blocked is stated over a history variable:
when each process last called CLOCKWAIT.
-/

namespace PandosPlus

open Flow Lts

variable {n : Nat}

/-- How many steps have been made, and before which of them each process last called
CLOCKWAIT. -/
structure Clocked (n : Nat) where
  now : Nat
  since : Fin n → Nat

/-- The step is a CLOCKWAIT of the current process. -/
def Action.ClockWait : Action → Prop
  | .exception state => IsCall state CLOCKWAIT
  | _ => False

instance : DecidablePred Action.ClockWait
  | .exception _ => inferInstanceAs (Decidable (IsCall _ _))
  | .store _ _ | .support _ _ => .isFalse id

/-- The history variable after a step. -/
def noteWait (s : Nucleus n) (a : Action) (_ : Nucleus n) (g : Clocked n) : Clocked n where
  now := g.now + 1
  since p := if a.ClockWait ∧ s.curr_process = some p then g.now else g.since p

/-- The nucleus with the history of its CLOCKWAITs. -/
abbrev ClockStep (cfg : Config n) : Nucleus n × Clocked n → Action → Nucleus n × Clocked n → Prop :=
  WithHistory (NucStep cfg) noteWait

/-- The processes in the list, waiting at the semaphore at `k`, have been made ready, and
nothing else has happened. -/
structure ReleasedAll (k : Word) (l : List (Fin n)) (s t : Nucleus n) : Prop where
  ready : ∀ prio, t.readyQueue prio = s.readyQueue prio ++ l.filter (s.prio · = prio)
  queue : ∀ k', t.asl.queue k' = if k' = k then [] else s.asl.queue k'
  pcb : ∀ p, t.pcbFree_table p = { s.pcbFree_table p with
    p_semAdd := if p ∈ l then none else (s.pcbFree_table p).p_semAdd }
  soft : t.softblocked_count = s.softblocked_count - BitVec.ofNat 32 l.length
  mem : t.mem = s.mem
  curr : t.curr_process = s.curr_process
  free : t.pcbFree_h = s.pcbFree_h

variable {cfg : Config n} {s t : Nucleus n} {c p q : Fin n} {k : Word} {e : Exit} {state : State}
variable {l : List (Fin n)} {held : List (Fin n)}

/-! ## The loop -/

theorem wakeClocks_table (k : Word) (l : List (Fin n)) (s : Nucleus n) :
    let t := l.foldl (fun s p ↦ s.wakeClock k p) s
    (∀ p, t.pcbFree_table p = { s.pcbFree_table p with
      p_semAdd := if p ∈ l then none else (s.pcbFree_table p).p_semAdd }) ∧
      t.pcbFree_h = s.pcbFree_h := by
  induction l generalizing s with
  | nil => exact ⟨fun p ↦ rfl, rfl⟩
  | cons p l ih =>
      have hturn : ∀ q, (s.wakeClock k p).pcbFree_table q = { s.pcbFree_table q with
          p_semAdd := if q = p then none else (s.pcbFree_table q).p_semAdd } := fun q ↦ by
        change ((s.unblock k p).wake p).pcbFree_table q = _
        rw [Nucleus.wake_table, Nucleus.unblock, Nucleus.modifyPcb_table]
        split <;> rfl
      obtain ⟨hpcb, hfree⟩ := ih (s.wakeClock k p)
      refine ⟨fun q ↦ ?_, hfree.trans (Nucleus.wake_free p (s.unblock k p))⟩
      rw [List.foldl_cons, hpcb, hturn]
      by_cases hq : q = p
      · simp [hq]
      · simp [hq]

/-- The loop over the waiters of the clock releases all of them. -/
theorem wakeClocks_released (hs : s.asl.Inv s.semAdd) (hl : s.asl.queue k = l)
    (hpid : ∀ p ∈ l, s.pid p ≠ FREE_PCB_PID) :
    ReleasedAll k l s (l.foldl (fun s p ↦ s.wakeClock k p) s) := by
  obtain ⟨hmem, hqueue, -, hsoft⟩ := wakeClocks_sems hs hl
  obtain ⟨hready, -, -, hcurr, -⟩ := Nucleus.wakeClocks_ready k l s
  obtain ⟨hpcb, hfree⟩ := wakeClocks_table k l s
  have halive : l.filter (s.pid · ≠ FREE_PCB_PID) = l :=
    List.filter_eq_self.mpr fun p hp ↦ decide_eq_true (hpid p hp)
  rw [halive] at hready
  exact ⟨hready, hqueue, hpcb, hsoft, hmem, hcurr, hfree⟩

/-! ## CLOCKWAIT -/

/-- A CLOCKWAIT blocks its caller. -/
theorem clockWait_blocks (hs : Inv cfg s) (hc : s.curr_process = some c)
    (hcall : IsCall state CLOCKWAIT) :
    ∃ e t, exceptionHandler cfg (enter state s) = .error e t ∧
      t.asl.queue cfg.semaphore_it = s.asl.queue cfg.semaphore_it ++ [c] ∧
      t.semAdd c = some cfg.semaphore_it := by
  obtain ⟨lost, -, hsound⟩ := hs
  rw [hc] at hsound
  -- the call is made, and it is counted as waiting
  let u : Nucleus n := { (enter state s).advanced with
    softblocked_count := s.softblocked_count + 1 }
  have hcore : Core u (c :: lost) := hsound.core.quiet ⟨fun _ ↦ rfl, rfl⟩
  have hfree : u.semAdd c = none := (hcore.of_held List.mem_cons_self).2.2.1
  obtain ⟨e, t, hrun, hsched⟩ := semOp_block cfg (s := u) u.prev hcore.asl hc hfree
    (show u.mem cfg.semaphore_it = 0 from hsound.clock)
  have hsems := hsched.sems.1.trans ((Quiet.charge cfg c _).sems (t := ((u.block
    cfg.semaphore_it c).saveState c u.prev).charge cfg c) rfl rfl)
  have hsems' := hsems.trans ((Quiet.saveState c u.prev (u.block cfg.semaphore_it c)).sems rfl rfl)
  refine ⟨e, t, ?_, ?_, ?_⟩
  · have hwait : clockWait cfg (enter state s).advanced =
        (semOp cfg 0 (some cfg.semaphore_it) u.curr_process u.prev >>= fun _ ↦ pure ⟨⟩) u := rfl
    have hrun' : clockWait cfg (enter state s).advanced = .error e t := by
      rw [hwait, bind_run, show u.curr_process = some c from hc, hrun]
    rw [exceptionHandler_call (s := enter state s) hcall (by decide), bind_run,
      show systemcall cfg CLOCKWAIT = clockWait cfg from rfl, hrun']
  · rw [sems_asl hsems', Nucleus.block_queue hcore.asl hfree, if_pos rfl]
    rfl
  · rw [sems_semAdd hsems', Nucleus.block_semAdd]
    exact if_pos rfl

/-! ## Who waits for the clock -/

/-- A step adds the caller of a CLOCKWAIT at the end of the queue of the clock, or leaves a
part of the queue in the same order. -/
theorem SemStep.clock_queue (hs : Core s (s.curr_process.toList ++ held))
    (hlaw : (Action.exception s.prev).Lawful cfg) (h : SemStep cfg s t) :
    (∃ c, s.curr_process = some c ∧ IsCall s.prev CLOCKWAIT ∧
      t.asl.queue cfg.semaphore_it = s.asl.queue cfg.semaphore_it ++ [c]) ∨
    (t.asl.queue cfg.semaphore_it).Sublist (s.asl.queue cfg.semaphore_it) := by
  have hsem : ∀ {c}, s.curr_process = some c → s.semAdd c = none := by
    intro c hc
    rw [hc] at hs
    exact (hs.of_held List.mem_cons_self).2.2.1
  have hsame : ∀ {l : List (Fin n)}, l = s.asl.queue cfg.semaphore_it →
      l.Sublist (s.asl.queue cfg.semaphore_it) := by
    rintro l rfl
    exact .refl _
  have howned : Owned cfg cfg.semaphore_it := .inl rfl
  cases h with
  | still hno h => exact .inr (hsame (by rw [sems_asl h]))
  | passeren c hc hp hmove =>
      refine .inr (hsame (hmove.queue_ne hs.asl (hsem hc) fun h ↦ ?_))
      exact hlaw (.inl hp) (h ▸ howned)
  | verhogen c hc hv hmove =>
      refine .inr (hsame (hmove.queue_ne hs.asl (hsem hc) fun h ↦ ?_))
      exact hlaw (.inr hv) (h ▸ howned)
  | doIo c i hc hcall hi hmove =>
      exact .inr (hsame (SemMove.queue_ne (s := s.issue i) hs.asl (hsem hc) (devSem_ne_it i).symm
        hmove))
  | clockWait c hc hcall hmove =>
      cases hmove with
      | block hfull h =>
          refine .inl ⟨c, hc, hcall, ?_⟩
          rw [sems_asl h]
          exact (Nucleus.block_queue (s := { s with softblocked_count := s.softblocked_count + 1 })
            hs.asl (hsem hc) _ _).trans (if_pos rfl)
      | release p rest hfull hqueue h hfree =>
          right
          have hp : s.semAdd p = some cfg.semaphore_it :=
            hs.asl.mem_queue.mp (hqueue ▸ List.mem_cons_self)
          rw [sems_asl h]
          refine ((Nucleus.unblock_queue
            (s := { s with softblocked_count := s.softblocked_count + 1 }) hs.asl hp _).trans
            (if_pos rfl)).symm ▸ List.erase_sublist
      | write hfull hqueue h => exact .inr (hsame (by rw [sems_asl h]; rfl))
  | kill K hno h =>
      rw [h.queue]
      exact .inr List.filter_sublist
  | tick l hno h =>
      rw [h.queue, if_pos rfl]
      exact .inr (List.nil_sublist _)
  | device i hcode hi h => exact .inr (hsame (h.queue_ne hs.asl (devSem_ne_it i).symm))

/-- The queue of the clock is in the order of the CLOCKWAITs. -/
structure InOrder (cfg : Config n) (s : Nucleus n) (g : Clocked n) : Prop where
  order : (s.asl.queue cfg.semaphore_it).Pairwise (fun p q ↦ g.since p < g.since q)
  past : ∀ p ∈ s.asl.queue cfg.semaphore_it, g.since p < g.now

theorem InOrder.note {a : Action} {g : Clocked n} (h : InOrder cfg s g) (hs : Inv cfg s)
    (hqueue : (∃ c, s.curr_process = some c ∧ a.ClockWait ∧
      t.asl.queue cfg.semaphore_it = s.asl.queue cfg.semaphore_it ++ [c]) ∨
      (t.asl.queue cfg.semaphore_it).Sublist (s.asl.queue cfg.semaphore_it)) :
    InOrder cfg t (noteWait s a t g) := by
  -- the caller of a CLOCKWAIT is in no queue yet
  have hsame : ∀ p ∈ s.asl.queue cfg.semaphore_it, (noteWait s a t g).since p = g.since p := by
    intro p hp
    have hcurr := hs.curr_ne (hs.asl.mem_queue.mp hp)
    exact if_neg fun hcall ↦ hcurr hcall.2
  have horder : (s.asl.queue cfg.semaphore_it).Pairwise
      (fun p q ↦ (noteWait s a t g).since p < (noteWait s a t g).since q) := by
    refine h.order.imp_of_mem fun {p q} hp hq hlt ↦ ?_
    rw [hsame p hp, hsame q hq]
    exact hlt
  have hpast : ∀ p ∈ s.asl.queue cfg.semaphore_it, (noteWait s a t g).since p < g.now := by
    intro p hp
    rw [hsame p hp]
    exact h.past p hp
  rcases hqueue with ⟨c, hc, hcall, hqueue⟩ | hsub
  · have hnew : (noteWait s a t g).since c = g.now := if_pos ⟨hcall, hc⟩
    rw [← hnew] at hpast
    constructor
    · rw [hqueue, List.pairwise_append]
      refine ⟨horder, List.pairwise_singleton _ c, fun p hp q hq ↦ ?_⟩
      rw [List.mem_singleton.mp hq]
      exact hpast p hp
    · intro p hp
      rw [hqueue] at hp
      rcases List.mem_append.mp hp with hp | hp
      · exact (hpast p hp).trans (hnew ▸ Nat.lt_succ_self g.now)
      · rw [List.mem_singleton.mp hp, hnew]
        exact Nat.lt_succ_self g.now
  · exact ⟨horder.sublist hsub, fun p hp ↦ (hpast p (hsub.subset hp)).trans (Nat.lt_succ_self _)⟩

theorem run_inOrder {s₀ : Nucleus n} {as : List Action} {g : Clocked n} (h₀ : Start cfg s₀)
    (hrun : Run (ClockStep cfg) (s₀, ⟨0, fun _ ↦ 0⟩) as (s, g)) :
    Inv cfg s ∧ InOrder cfg s g := by
  have hempty : s₀.asl.queue cfg.semaphore_it = [] := by
    obtain ⟨mem, support, p, rest, e, hmem, hfree, -, hend⟩ := h₀.scheduled
    obtain ⟨hfirst, hnone⟩ := first_sound hmem hfree
    rw [sems_asl hend.sems.1]
    refine List.eq_nil_iff_forall_not_mem.mpr fun q hq ↦ ?_
    have hblocked := hfirst.core.asl.mem_queue.mp hq
    rw [hnone] at hblocked
    cases hblocked
  refine hrun.invariant (I := fun x ↦ Inv cfg x.1 ∧ InOrder cfg x.1 x.2) ?_ ⟨h₀.inv, ?_⟩
  · rintro ⟨s, g⟩ a ⟨t, g'⟩ ⟨hs, hin⟩ ⟨hstep, hhist⟩
    obtain rfl : g' = noteWait s a t g := hhist
    refine ⟨hstep.inv hs, hin.note hs ?_⟩
    obtain ⟨hstep, hlaw⟩ := hstep
    cases a with
    | store b v =>
        simp only [step, Option.ite_none_left_eq_some, Option.some.injEq] at hstep
        obtain ⟨-, rfl⟩ := hstep
        exact .inr (.refl _)
    | support b x =>
        simp only [step, Option.some.injEq] at hstep
        subst hstep
        exact .inr (.refl _)
    | exception state =>
        obtain ⟨e, -, -, hend⟩ := step_handled hs hstep
        obtain ⟨lost, -, hsound⟩ := hs
        have hcore : Core (enter state s) ((enter state s).curr_process.toList ++ lost) :=
          hsound.core.quiet (.enter state s)
        exact (hend.semStep hcore).clock_queue hcore hlaw
  · constructor
    · rw [hempty]
      exact List.Pairwise.nil
    · rw [hempty]
      exact fun p hp ↦ absurd hp List.not_mem_nil

/-! ## The law of the pseudo-clock -/

/-- In every reachable state the word of `semaphore_it` is zero, and a CLOCKWAIT blocks its
caller.  At a tick the loop of `_ITHandler` comes to its end: it appends the processes that
wait for the clock to the ready queues of their priorities, in the order they blocked, lowers
`softblocked_count` by their number, and leaves everything else as it was. -/
theorem pseudoClock {s₀ : Nucleus n} {as : List Action} {g : Clocked n} (h₀ : Start cfg s₀)
    (hrun : Run (ClockStep cfg) (s₀, ⟨0, fun _ ↦ 0⟩) as (s, g)) :
    s.mem cfg.semaphore_it = 0 ∧
    (∀ c state, s.curr_process = some c → IsCall state CLOCKWAIT →
      ∃ e t, exceptionHandler cfg (enter state s) = .error e t ∧
        t.asl.queue cfg.semaphore_it = s.asl.queue cfg.semaphore_it ++ [c] ∧
        t.semAdd c = some cfg.semaphore_it ∧ (e.Completed → t.curr_process ≠ some c)) ∧
    (s.asl.queue cfg.semaphore_it).Pairwise (fun p q ↦ g.since p < g.since q) ∧
    ∀ state, IsTick state → NoReservedPid s → ∃ t,
      wakeClockWaiters cfg (n + 1) ((enter state s).interrupted cfg) = .ok ⟨⟩ t ∧
        ReleasedAll cfg.semaphore_it (s.asl.queue cfg.semaphore_it)
          ((enter state s).interrupted cfg) t := by
  obtain ⟨hs, hin⟩ := run_inOrder h₀ hrun
  refine ⟨?_, ?_, hin.order, ?_⟩
  · obtain ⟨lost, -, hsound⟩ := hs
    exact hsound.clock
  · intro c state hc hcall
    obtain ⟨e, t, hend, hqueue, hsem⟩ := clockWait_blocks hs hc hcall
    refine ⟨e, t, hend, hqueue, hsem, fun hdone ↦ ?_⟩
    have hstep : NucStep cfg s (.exception state) t := by
      refine ⟨?_, fun hcall' ↦ ?_⟩
      · have hguard : excCode state.cause = 0 ∨ s.curr_process ≠ none := .inr (by rw [hc]; nofun)
        simp only [step, if_pos hguard, hend, if_pos hdone]
      · rcases hcall' with hcall' | hcall'
        · exact absurd (hcall.code hcall') (by decide)
        · exact absurd (hcall.code hcall') (by decide)
    exact (hstep.inv hs).curr_ne hsem
  · intro state htick hpid
    have hsound := Inv.sound hs hpid
    have hcore := (hsound.core.quiet (.enter state s)).quiet (.interrupted cfg _)
    have hword : ((enter state s).interrupted cfg).mem cfg.semaphore_it ≠ 1 := by
      rw [interrupted_mem, show (enter state s).mem cfg.semaphore_it = 0 from hsound.clock]
      decide
    have hqueue : ((enter state s).interrupted cfg).asl.queue cfg.semaphore_it =
        s.asl.queue cfg.semaphore_it := by rw [interrupted_asl]; rfl
    have hlen : (s.asl.queue cfg.semaphore_it).length < n + 1 := by
      have := (hs.asl.queue_nodup (k := cfg.semaphore_it)).length_le_card
      rw [Fintype.card_fin] at this
      omega
    refine ⟨_, wakeClockWaiters_run hcore.asl hword hqueue hlen,
      wakeClocks_released hcore.asl hqueue fun p hp ↦ ?_⟩
    rw [(Quiet.interrupted cfg _).pid]
    exact hpid p (hsound.core.of_blocked (hs.asl.mem_queue.mp hp)).1

/-- Two processes wait for the clock, and a tick wakes them in turn. -/
theorem pseudoClock_sample :
    ∃ s t : Nucleus 2, s.low_readyqueue = [] ∧ t.low_readyqueue = [0, 1] := by
  let cfg := Config.sample 2 (by decide) .faults
  let tick : State := { State.zero with cause := TIMERINTERRUPT }
  obtain ⟨s, hs, hqueue, hlow, hprio, hpid⟩ := execute_reachable cfg
    (P := fun s ↦ s.asl.queue cfg.semaphore_it = [0, 1] ∧ s.low_readyqueue = [] ∧
      (s.prio 0 = .low ∧ s.prio 1 = .low) ∧ NoReservedPid s)
    [.call CREATEPROCESS 0x20003000 0 0, .call CLOCKWAIT 0 0 0, .call CLOCKWAIT 0 0 0]
    (by decide +kernel)
  obtain ⟨s₀, as, h₀, hrun⟩ := hs
  obtain ⟨g, hrun⟩ := hrun.decorate noteWait ⟨0, fun _ ↦ 0⟩
  obtain ⟨-, -, -, hloop⟩ := pseudoClock h₀ hrun
  obtain ⟨t, -, hreleased⟩ := hloop tick (by decide) hpid
  have hready := hreleased.ready .low
  rw [hqueue, (Quiet.interrupted cfg _).readyQueue, (Quiet.interrupted cfg _).prio] at hready
  refine ⟨s, t, hlow, hready.trans ?_⟩
  change s.low_readyqueue ++ [0, 1].filter (fun p ↦ s.prio p = .low) = [0, 1]
  simp [hlow, hprio]

end PandosPlus
