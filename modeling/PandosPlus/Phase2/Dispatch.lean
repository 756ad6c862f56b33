import Mathlib.Data.Prod.Lex
import PandosPlus.Phase2.Contexts

/-!
# The order of dispatching

The scheduler takes the head of the high-priority queue, or of the low-priority queue when
the high one is empty or begins with the process that yields (`scheduler_law`).

What an exception does to the ready queues before the scheduler is called is the same in
all cases: some processes are taken out, and others, that were in neither queue, are put at
the end of the queue of their priority (`Readied`).  So the queues stay in the order in
which the processes became ready, which is stated over a history variable.
-/

namespace PandosPlus

open Flow Lts

variable {n : Nat}

/-- The process `_getNextProcess` is to choose. -/
def Nucleus.choice (s : Nucleus n) : Option (Fin n) :=
  if s.high_readyqueue = [] ∨
      (s.low_readyqueue ≠ [] ∧ s.high_readyqueue.head? = s.process_to_skip) then
    s.low_readyqueue.head?
  else s.high_readyqueue.head?

/-- The process that a YIELD designates. -/
def Nucleus.skips (s : Nucleus n) : Option (Fin n) :=
  if IsCall s.prev YIELD then s.curr_process else none

/-- `K` have left the ready queues, and `new` have been put at the end of the queues of
their priorities. -/
structure Readied (K new : List (Fin n)) (s u : Nucleus n) : Prop where
  queue : ∀ pr, u.readyQueue pr = (s.readyQueue pr).filter (· ∉ K) ++ new.filter (u.prio · = pr)
  prio : ∀ pr, ∀ p ∈ s.readyQueue pr, u.prio p = s.prio p
  fresh : ∀ p ∈ new, ∀ pr, p ∉ s.readyQueue pr
  skip : u.process_to_skip = s.process_to_skip

variable (cfg : Config n)

/-- The place of a process in the queue of the clock: in this order a tick makes the waiters
ready. -/
def Nucleus.clockRank (s : Nucleus n) (p : Fin n) : Nat :=
  (s.asl.queue cfg.semaphore_it).idxOf p

/-- How many steps have been made, and when each ready process became ready: in which step,
and at which place if it was one of several. -/
structure Queued (n : Nat) where
  now : Nat
  since : Fin n → Nat ×ₗ Nat

/-- The history variable after a step. -/
def noteReady (s : Nucleus n) (_ : Action) (_ : Nucleus n) (g : Queued n) : Queued n where
  now := g.now + 1
  since p :=
    if p ∈ s.low_readyqueue ∨ p ∈ s.high_readyqueue then g.since p
    else toLex (g.now, s.clockRank cfg p)

/-- The nucleus with the history of its ready queues. -/
abbrev ReadyStep : Nucleus n × Queued n → Action → Nucleus n × Queued n → Prop :=
  WithHistory (NucStep cfg) (noteReady cfg)

/-- A call of the scheduler in the state `u` leads to `t` as it should. -/
structure Dispatches (since : Fin n → Nat ×ₗ Nat) (u t : Nucleus n) : Prop where
  choice : t.curr_process = u.choice
  /-- The designation made by a YIELD has ended. -/
  ended : t.process_to_skip = none
  /-- The process that yields is taken only if no other is ready. -/
  last : t.curr_process ≠ none → t.curr_process = u.process_to_skip →
    ∀ pr, ∀ q ∈ u.readyQueue pr, some q = u.process_to_skip
  /-- It is the only one passed over for a process of low priority. -/
  high : ∀ p, t.curr_process = some p → t.prio p = .low →
    ∀ q ∈ u.high_readyqueue, some q = u.process_to_skip
  /-- The others of the same priority became ready later. -/
  order : ∀ p, t.curr_process = some p → ∀ q ∈ t.readyQueue (t.prio p), since p < since q

variable {cfg} {s t u v : Nucleus n} {c p q : Fin n} {k : Word} {e : Exit}
variable {K new held : List (Fin n)} {state : State} {g : Queued n}

/-! ## The choice -/

theorem getNextProcess_choice (s : Nucleus n) : (getNextProcess s).1 = s.choice := by
  unfold getNextProcess Nucleus.choice
  by_cases h : s.high_readyqueue ≠ [] ∧
      (headProcQ s.high_readyqueue ≠ s.process_to_skip ∨ s.low_readyqueue = [])
  · have h' : ¬ (s.high_readyqueue = [] ∨
        (s.low_readyqueue ≠ [] ∧ s.high_readyqueue.head? = s.process_to_skip)) := by
      rintro (hhigh | ⟨hlow, hhead⟩)
      · exact h.1 hhigh
      · exact h.2.elim (fun hne ↦ hne hhead) hlow
    rw [if_pos h, if_neg h']
    obtain ⟨p, rest, hq⟩ := List.exists_cons_of_ne_nil h.1
    rw [hq]
    rfl
  · have h' : s.high_readyqueue = [] ∨
        (s.low_readyqueue ≠ [] ∧ s.high_readyqueue.head? = s.process_to_skip) := by
      by_cases hhigh : s.high_readyqueue = []
      · exact .inl hhigh
      · rw [not_and, not_or, not_not] at h
        exact .inr ⟨(h hhigh).2, (h hhigh).1⟩
    rw [if_neg h, if_pos h']
    cases s.low_readyqueue <;> rfl

/-- Every call of the scheduler dispatches the process that is chosen, if there is one, and
the designation made by a YIELD ends. -/
theorem Scheduled.choice (h : Scheduled cfg s e t) (he : e ≠ .halt) :
    t.curr_process = s.choice ∧ t.process_to_skip = none := by
  have hnone : s.high_readyqueue = [] → s.low_readyqueue = [] → none = s.choice := by
    intro hhigh hlow
    rw [Nucleus.choice, if_pos (.inl hhigh), hlow]
    rfl
  cases h with
  | halt => exact absurd rfl he
  | wait hcount hhigh hlow hsoft => exact ⟨hnone hhigh hlow, rfl⟩
  | deadlock hcount hhigh hlow hsoft => exact ⟨hnone hhigh hlow, rfl⟩
  | dispatch p prio rest hcount hnext hqueue =>
      refine ⟨?_, ?_⟩
      · rw [← getNextProcess_choice, hnext]
        exact Nucleus.dispatch_curr cfg p prio rest s
      · unfold Nucleus.load
        split <;> rfl

/-- The process dispatched is taken from the head of a ready queue. -/
theorem Scheduled.taken (h : Scheduled cfg s e t) (he : e ≠ .halt) :
    (t.curr_process = none ∧ ∀ pr, t.readyQueue pr = s.readyQueue pr) ∨
      ∃ p pr, t.curr_process = some p ∧ s.readyQueue pr = p :: t.readyQueue pr ∧
        ∀ pr' ≠ pr, t.readyQueue pr' = s.readyQueue pr' := by
  cases h with
  | halt => exact absurd rfl he
  | wait => exact .inl ⟨rfl, fun pr ↦ by cases pr <;> rfl⟩
  | deadlock => exact .inl ⟨rfl, fun pr ↦ by cases pr <;> rfl⟩
  | dispatch p prio rest hcount hnext hqueue =>
      have hset : ∀ pr, ((s.pick p prio rest).load cfg p).readyQueue pr =
          (s.setReadyQueue rest prio).readyQueue pr := fun pr ↦
        (Quiet.load cfg p (s.pick p prio rest)).readyQueue pr
      refine .inr ⟨p, prio, Nucleus.dispatch_curr cfg p prio rest s, ?_, fun pr' hne ↦ ?_⟩
      · rw [hset, Nucleus.readyQueue_setReadyQueue, hqueue]
      · rw [hset, Nucleus.readyQueue_setReadyQueue_ne s rest hne]

theorem Scheduled.prio (h : Scheduled cfg s e t) : t.prio = s.prio := by
  cases h with
  | halt => rfl
  | wait => rfl
  | deadlock => rfl
  | dispatch p prio rest =>
      rw [(Quiet.load cfg p (s.pick p prio rest)).prio]
      exact congrArg (fun f q ↦ (f q).p_prio) (Nucleus.setReadyQueue_table s rest prio)

/-! ## The ready queues before the call -/

/-- The ready queues, the priorities and the designation of YIELD are the same. -/
structure SameReady (s t : Nucleus n) : Prop where
  queue : ∀ pr, t.readyQueue pr = s.readyQueue pr
  prio : t.prio = s.prio
  skip : t.process_to_skip = s.process_to_skip

theorem SameReady.refl (s : Nucleus n) : SameReady s s := ⟨fun _ ↦ rfl, rfl, rfl⟩

theorem SameReady.trans (h : SameReady s t) (h' : SameReady t u) : SameReady s u :=
  ⟨fun pr ↦ (h'.queue pr).trans (h.queue pr), h'.prio.trans h.prio, h'.skip.trans h.skip⟩

theorem Quiet.sameReady (h : Quiet s t) (hskip : t.process_to_skip = s.process_to_skip) :
    SameReady s t := ⟨h.readyQueue, h.prio, hskip⟩

theorem SameReady.unblock (k : Word) (p : Fin n) (s : Nucleus n) : SameReady s (s.unblock k p) :=
  ⟨fun pr ↦ by cases pr <;> rfl, (s.unblock_links k p).2.1, rfl⟩

theorem SameReady.leaving (s : Nucleus n) : SameReady s (s.leaving cfg) :=
  ⟨fun pr ↦ by cases pr <;> rfl, rfl, rfl⟩

namespace Readied

theorem of_same (h : SameReady s u) : Readied [] [] s u := by
  refine ⟨fun pr ↦ ?_, fun pr p _ ↦ congrFun h.prio p, by simp, h.skip⟩
  rw [h.queue]
  simp

theorem before (h : SameReady s t) (h' : Readied K new t u) : Readied K new s u := by
  refine ⟨fun pr ↦ ?_, fun pr p hp ↦ ?_, fun p hp pr ↦ ?_, h'.skip.trans h.skip⟩
  · rw [h'.queue, h.queue]
  · rw [h'.prio pr p (by rwa [h.queue]), h.prio]
  · rw [← h.queue]
    exact h'.fresh p hp pr

theorem after (h : Readied K new s t) (h' : SameReady t u) : Readied K new s u := by
  refine ⟨fun pr ↦ ?_, fun pr p hp ↦ ?_, h.fresh, h'.skip.trans h.skip⟩
  · rw [h'.queue, h.queue, h'.prio]
  · rw [h'.prio]
    exact h.prio pr p hp

/-- A process that is in neither queue is made ready. -/
theorem makeReady (hp : ∀ pr, p ∉ s.readyQueue pr) : Readied [] [p] s (s.makeReady p) := by
  have hprio : (s.makeReady p).prio = s.prio :=
    congrArg (fun f q ↦ (f q).p_prio) (Nucleus.makeReady_table p s)
  refine ⟨fun pr ↦ ?_, fun pr q _ ↦ congrFun hprio q, fun q hq ↦ ?_, ?_⟩
  · rw [Nucleus.makeReady_readyQueue, hprio]
    simp
  · rw [List.mem_singleton.mp hq]
    exact hp
  · unfold Nucleus.makeReady
    cases s.prio p <;> rfl

/-- A process that is in neither queue is made ready, unless it carries the reserved pid. -/
theorem wake (hp : ∀ pr, p ∉ s.readyQueue pr) :
    ∃ new, new.Sublist [p] ∧ Readied [] new s (s.wake p) := by
  refine ⟨[p].filter (s.pid · ≠ FREE_PCB_PID), List.filter_sublist, fun pr ↦ ?_, fun pr q _ ↦ ?_,
    fun q hq ↦ ?_, ?_⟩
  · rw [Nucleus.wake_readyQueue, Nucleus.wake_prio]
    simp
  · rw [Nucleus.wake_prio]
  · rw [List.mem_singleton.mp (List.mem_of_mem_filter hq)]
    exact hp
  · exact Nucleus.wake_skip p s

theorem killed (h : Killed cfg p K s t) : Readied K [] s t := by
  refine ⟨fun pr ↦ ?_, fun pr q _ ↦ congrFun h.torn.prio q, by simp,
    congrArg (·.1.2.2.2.1) h.torn.kept⟩
  rw [h.torn.ready, List.filter_nil, List.append_nil]

end Readied

variable (cfg) in
/-- The ready queues are changed, the local timer is not, and then the scheduler is called or
the current process goes on.  A call that takes the processor from a process has made none
ready. -/
def Passes (s : Nucleus n) (e : Exit) (t : Nucleus n) : Prop :=
  ∃ K new u, Readied K new s u ∧ new.Pairwise (s.clockRank cfg · < s.clockRank cfg ·) ∧
    u.plt = s.plt ∧
    ((new = [] ∨ s.curr_process = none) ∧ Scheduled cfg u e t ∨
      u = t ∧ e ≠ .wait ∧ s.curr_process ≠ none ∧ t.curr_process = s.curr_process)

namespace Passes

theorem of_scheduled (h : Readied K [] s u) (hnext : Scheduled cfg u e t) (hplt : u.plt = s.plt) :
    Passes cfg s e t := ⟨K, [], u, h, .nil, hplt, .inl ⟨.inl rfl, hnext⟩⟩

theorem of_resume (h : Readied K new s t) (hnew : new.Sublist [p]) (hplt : t.plt = s.plt)
    (he : e ≠ .wait) (hc : s.curr_process = some c) (hcurr : t.curr_process = s.curr_process) :
    Passes cfg s e t :=
  ⟨K, new, t, h, (List.pairwise_singleton _ p).sublist hnew, hplt,
    .inr ⟨rfl, he, by rw [hc]; nofun, hcurr⟩⟩

theorem of_finished {live : Prop} (h : Readied K new s u)
    (hnew : new.Pairwise (s.clockRank cfg · < s.clockRank cfg ·)) (hplt : u.plt = s.plt)
    (hcurr : u.curr_process = s.curr_process) (hlive : live → s.curr_process ≠ none)
    (hdead : ¬ live → new = [] ∨ s.curr_process = none) (hend : Finished cfg u live e t) :
    Passes cfg s e t := by
  cases hend with
  | resume hl => exact ⟨K, new, t, h, hnew, hplt, .inr ⟨rfl, nofun, hlive hl, hcurr⟩⟩
  | schedule hl hnext => exact ⟨K, new, u, h, hnew, hplt, .inl ⟨hdead hl, hnext⟩⟩

/-- The same from a state with the same ready queues. -/
theorem before (hsame : SameReady s u) (hasl : u.asl = s.asl) (hplt : u.plt = s.plt)
    (hcurr : u.curr_process = s.curr_process) (h : Passes cfg u e t) : Passes cfg s e t := by
  obtain ⟨K, new, v, hready, hnew, hplt', hend⟩ := h
  refine ⟨K, new, v, hready.before hsame, ?_, hplt'.trans hplt, hcurr ▸ hend⟩
  unfold Nucleus.clockRank at hnew ⊢
  rwa [hasl] at hnew

end Passes

/-! ## The system calls -/

/-- A waiter is released. -/
theorem released_ready (hs : Core s held) (hp : s.semAdd p = some k) :
    ∃ new, new.Sublist [p] ∧ Readied [] new s ((s.unblock k p).wake p) := by
  have hsame := SameReady.unblock k p s
  obtain ⟨new, hnew, hready⟩ := Readied.wake (p := p) (s := s.unblock k p) fun pr hmem ↦ by
    rw [hsame.queue] at hmem
    have hsem := (hs.of_ready hmem).2.1
    rw [hp] at hsem
    cases hsem
  exact ⟨new, hnew, hready.before hsame⟩

theorem SemCall.passes {full : Word} (hs : Core s (c :: held)) (hc : s.curr_process = some c)
    (h : SemCall cfg full k c s e t) : Passes cfg s e t := by
  cases h with
  | block hfull hnext =>
      refine .of_scheduled (.of_same ?_) hnext rfl
      have hquiet := (Quiet.saveState c s.prev (s.block k c)).trans (.charge cfg c _)
      have hblock : SameReady s (s.block k c) :=
        ⟨fun pr ↦ by cases pr <;> rfl, (s.block_links k c).2.1, rfl⟩
      exact hblock.trans (hquiet.sameReady rfl)
  | release p rest hfull hqueue =>
      obtain ⟨new, hnew, hready⟩ := released_ready hs
        (hs.asl.mem_queue.mp (by rw [hqueue]; exact List.mem_cons_self))
      exact .of_resume hready hnew (Nucleus.wake_plt p _) nofun hc (Nucleus.wake_curr p _)
  | write hfull hqueue =>
      refine .of_resume (p := c) (.of_same ?_) (List.nil_sublist _) rfl nofun hc rfl
      exact (Quiet.store s k full).sameReady rfl

theorem PassedUp.passes {i : Fin 2} (hc : s.curr_process = some c)
    (h : PassedUp cfg i c s e t) : Passes cfg s e t := by
  cases h with
  | up a ha =>
      refine .of_resume (p := c) (.of_same ?_) (List.nil_sublist _) rfl nofun hc rfl
      exact Quiet.sameReady ⟨fun _ ↦ rfl, rfl⟩ rfl
  | die K u ha hkill hnext =>
      exact .of_scheduled (.killed hkill) hnext (congrArg (·.2.2.2.1) hkill.torn.kept)

theorem created_ready {rest : List (Fin n)} {statep : Word} (hs : Core s held)
    (hf : s.pcbFree_h = p :: rest) : Readied [] [p] s (s.created cfg c p rest statep) := by
  have hp : p ∈ s.pcbFree_h := by rw [hf]; exact List.mem_cons_self
  have hfresh : ∀ pr, p ∉ s.readyQueue pr := fun pr hmem ↦ (hs.of_ready hmem).1 hp
  set u := fillPcb p (cfg.readState s.mem statep) (if s.prev.reg_a2 = 0 then Prio.low else .high)
    (cfg.ptr s.prev.reg_a3) (s.enroll p rest) with hu
  have hqueue : ∀ pr, u.readyQueue pr = s.readyQueue pr := fun pr ↦ by cases pr <;> rfl
  have hready := Readied.makeReady (p := p) (s := u) fun pr hmem ↦ hfresh pr (hqueue pr ▸ hmem)
  have hafter : SameReady (u.makeReady p) (s.created cfg c p rest statep) :=
    ⟨fun pr ↦ by cases pr <;> rfl, (insertChild_links _ c p).2.1, rfl⟩
  have hready' := hready.after hafter
  refine ⟨fun pr ↦ ?_, fun pr q hq ↦ ?_, fun q hq ↦ ?_, hready'.skip⟩
  · rw [hready'.queue, hqueue]
  · have hne : q ≠ p := by
      rintro rfl
      exact hfresh pr hq
    rw [hready'.prio pr q (by rwa [hqueue]), Nucleus.prio, hu, fillPcb, Nucleus.modifyPcb_table,
      if_neg hne, Nucleus.enroll_table, if_neg hne]
    rfl
  · rw [List.mem_singleton.mp hq]
    exact hfresh

theorem Called.passes {code : Int} (hs : Core s (c :: held)) (hc : s.curr_process = some c)
    (hcode : code ≠ YIELD) (h : Called cfg c s code e t) : Passes cfg s e t := by
  have hstill : ∀ {x : State} {u : Nucleus n}, Quiet s u →
      u.process_to_skip = s.process_to_skip → u.plt = s.plt → u.curr_process = s.curr_process →
      Passes cfg s (.ldst x) u := fun hq hskip hplt hcurr ↦
    .of_resume (p := c) (.of_same (hq.sameReady hskip)) (List.nil_sublist _) hplt nofun hc hcurr
  have hcounted : SameReady s { s with softblocked_count := s.softblocked_count + 1 } :=
    Quiet.sameReady ⟨fun _ ↦ rfl, rfl⟩ rfl
  cases h with
  | createFails hfree => exact hstill ⟨fun _ ↦ rfl, rfl⟩ rfl rfl rfl
  | create p rest statep hfree hstate =>
      exact .of_resume (created_ready hs hfree) (.refl _) (Nucleus.makeReady_plt p _) nofun hc
        (Nucleus.makeReady_curr p _)
  | kill p K u htarget hkill hend =>
      exact .of_finished (.killed hkill) .nil (congrArg (·.2.2.2.1) hkill.torn.kept)
        (congrArg (·.1.2.1) hkill.torn.kept) (fun _ ↦ by rw [hc]; nofun) (fun _ ↦ .inl rfl) hend
  | killNone htarget hend =>
      exact .of_finished (.of_same (.refl s)) .nil rfl rfl (fun _ ↦ by rw [hc]; nofun)
        (fun _ ↦ .inl rfl) hend
  | passeren k hk hsem => exact hsem.passes hs hc
  | verhogen k hk hsem => exact hsem.passes hs hc
  | doIo i hi hsem =>
      refine .before (Quiet.sameReady (t := s.issue i) ⟨fun _ ↦ rfl, rfl⟩ rfl) rfl rfl rfl
        (hsem.passes (hs.quiet ⟨fun _ ↦ rfl, rfl⟩) hc)
  | getTime => exact hstill ((Quiet.charge cfg c s).trans ⟨fun _ ↦ rfl, rfl⟩) rfl rfl rfl
  | clockWait hsem =>
      exact .before hcounted rfl rfl rfl (hsem.passes (hs.quiet ⟨fun _ ↦ rfl, rfl⟩) hc)
  | getSupportPtr => exact hstill ⟨fun _ ↦ rfl, rfl⟩ rfl rfl rfl
  | getProcessId => exact hstill ⟨fun _ ↦ rfl, rfl⟩ rfl rfl rfl
  | yield hnext => exact absurd rfl hcode
  | invalid hcode' hend =>
      exact .before (Quiet.sameReady (t := s.invalidated) ⟨fun _ ↦ rfl, rfl⟩ rfl) rfl rfl rfl
        (hend.passes hc)

/-! ## The interrupts -/

theorem pairwise_idxOf {l : List (Fin n)} (h : l.Nodup) :
    l.Pairwise (l.idxOf · < l.idxOf ·) := by
  refine List.pairwise_iff_getElem.mpr fun i j hi hj hlt ↦ ?_
  rwa [h.idxOf_getElem i hi, h.idxOf_getElem j hj]

theorem interrupted_same (s : Nucleus n) : SameReady s (s.interrupted cfg) := by
  refine (Quiet.interrupted cfg s).sameReady ?_
  unfold Nucleus.interrupted
  cases s.curr_process <;> rfl

theorem ticked_ready {l : List (Fin n)} (hs : Core s held)
    (hl : s.asl.queue cfg.semaphore_it = l) :
    Readied [] (l.filter (s.pid · ≠ FREE_PCB_PID)) s (s.ticked cfg l) := by
  obtain ⟨hready, hprio, hskip, -, -⟩ := Nucleus.wakeClocks_ready cfg.semaphore_it l s
  refine ⟨fun pr ↦ ?_, fun pr q _ ↦ congrFun hprio q, fun q hq pr hmem ↦ ?_, hskip⟩
  · refine (show (s.ticked cfg l).readyQueue pr = _ by cases pr <;> rfl).trans (hready pr) |>.trans ?_
    rw [show (s.ticked cfg l).prio = s.prio from hprio]
    simp
  · have hsem : s.semAdd q = some cfg.semaphore_it :=
      hs.asl.mem_queue.mp (by rw [hl]; exact List.mem_of_mem_filter hq)
    rw [(hs.of_ready hmem).2.1] at hsem
    cases hsem

theorem DeviceReturn.ready {i : Fin TOTAL_IO_DEVICES} (hs : Core s held)
    (h : DeviceReturn cfg i s u) :
    ∃ new, new.Pairwise (s.clockRank cfg · < s.clockRank cfg ·) ∧ Readied [] new s u ∧
      u.plt = s.plt := by
  have hfresh : ∀ {p rest}, s.asl.queue (cfg.devSem i) = p :: rest → ∀ pr, p ∉ s.readyQueue pr := by
    intro p rest hqueue pr hmem
    have hsem : s.semAdd p = some (cfg.devSem i) :=
      hs.asl.mem_queue.mp (by rw [hqueue]; exact List.mem_cons_self)
    rw [(hs.of_ready hmem).2.1] at hsem
    cases hsem
  have hunblock : ∀ p, SameReady s ((s.store (commandAddr i) ACK).unblock (cfg.devSem i) p) :=
    fun p ↦ ((Quiet.store s (commandAddr i) ACK).sameReady rfl).trans (.unblock _ p _)
  cases h with
  | wake p rest hv hqueue hp =>
      refine ⟨[p], List.pairwise_singleton _ p, ?_, Nucleus.makeReady_plt p _⟩
      refine ((Readied.makeReady fun pr hmem ↦ ?_).before (hunblock p)).after (t :=
        ((s.store (commandAddr i) ACK).unblock (cfg.devSem i) p).makeReady p) ?_
      · rw [(hunblock p).queue] at hmem
        exact hfresh hqueue pr hmem
      · refine ⟨fun pr ↦ by cases pr <;> rfl, ?_, rfl⟩
        exact funext fun q ↦ Nucleus.modifyPcb_field Pcb.p_prio (f := fun x ↦
          { x with p_s := { x.p_s with reg_v0 := s.mem (statusAddr i) } }) (by intro; rfl) _ p q
  | drop p rest hv hqueue hp => exact ⟨[], .nil, .of_same (hunblock p), rfl⟩
  | late hv hqueue hnull =>
      exact ⟨[], .nil, .of_same (Quiet.sameReady ⟨fun _ ↦ rfl, rfl⟩ rfl), rfl⟩

theorem Interrupted.passes (hs : Core s held) (hplt : ¬ s.pending &&& LOCALTIMERINT ≠ 0)
    (h : Interrupted cfg s e t) : Passes cfg s e t := by
  cases h with
  | plt c hc hip hnext => exact absurd hip hplt
  | clock l hl hip hend =>
      have hcurr := ticked_curr cfg l s
      have hplt := (Nucleus.wakeClocks_ready cfg.semaphore_it l s).2.2.2.2
      refine .of_finished ((ticked_ready hs hl).after (.leaving _)) ?_ hplt hcurr
        (fun hlive ↦ hcurr ▸ hlive) (fun hdead ↦ .inr (hcurr ▸ not_not.mp hdead)) hend
      unfold Nucleus.clockRank
      rw [hl]
      exact (pairwise_idxOf (hl ▸ hs.asl.queue_nodup)).sublist List.filter_sublist
  | device i u hi hret hend =>
      have hcurr := hret.curr
      obtain ⟨new, hnew, hready, hplt⟩ := hret.ready hs
      exact .of_finished (hready.after (.leaving _)) hnew hplt hcurr
        (fun hlive ↦ hcurr ▸ hlive) (fun hdead ↦ .inr (hcurr ▸ not_not.mp hdead)) hend
  | none hi hend =>
      exact .of_finished (.of_same (.leaving s)) .nil rfl rfl id (fun _ ↦ .inl rfl) hend

/-- Every exception but a YIELD and an interrupt of the local timer. -/
theorem Handled.passes (hs : Core s (s.curr_process.toList ++ held)) (hplt : ¬ Preempts s.prev)
    (hyield : ¬ IsCall s.prev YIELD) (h : Handled cfg s e t) : Passes cfg s e t := by
  cases h with
  | interrupt hcode hend =>
      refine .before (interrupted_same s) (Quiet.interrupted cfg s).asl ?_ (interrupted_curr s)
        (hend.passes (hs.quiet (.interrupted cfg s)) ?_)
      · unfold Nucleus.interrupted
        cases s.curr_process <;> rfl
      · rw [interrupted_pending]
        exact fun hip ↦ hplt ⟨hcode, hip⟩
  | call c code hc hcall hend =>
      rw [hc] at hs
      have hsame : SameReady s s.advanced := Quiet.sameReady ⟨fun _ ↦ rfl, rfl⟩ rfl
      refine .before hsame rfl rfl rfl (hend.passes (hs.quiet ⟨fun _ ↦ rfl, rfl⟩) hc ?_)
      rintro rfl
      exact hyield hcall
  | passUp c i hc hcall hcode hend => exact hend.passes hc
  | trap c hc hcall hcode hend =>
      exact .before (Quiet.sameReady (t := s.invalidated) ⟨fun _ ↦ rfl, rfl⟩ rfl) rfl rfl rfl
        (hend.passes hc)

/-! ## YIELD and the local timer -/

variable (cfg) in
/-- The process that yields is put at the end of its queue, and is the one to skip. -/
theorem yielded_ready (hs : Core s (c :: held)) :
    ∃ new, new.Sublist [c] ∧
      Readied [] new { s with process_to_skip := some c } (s.yielded cfg c) := by
  set w : Nucleus n := { s.saveState c s.prev with process_to_skip := some c } with hw
  have hsave : SameReady { s with process_to_skip := some c } w :=
    ⟨fun pr ↦ by cases pr <;> rfl, (Quiet.saveState c s.prev s).prio, rfl⟩
  have hfresh : ∀ pr, c ∉ w.readyQueue pr := fun pr hmem ↦
    (hs.of_ready (show c ∈ s.readyQueue pr by cases pr <;> exact hmem)).2.2 List.mem_cons_self
  obtain ⟨new, hnew, hready⟩ := Readied.wake hfresh
  refine ⟨new, hnew, (hready.before hsave).after ?_⟩
  have hcharge : SameReady (w.wake c) ((w.wake c).charge cfg c) :=
    (Quiet.charge cfg c _).sameReady rfl
  exact hcharge.trans ⟨fun pr ↦ by cases pr <;> rfl, rfl, rfl⟩

variable (cfg) in
theorem preempted_ready (hs : Core s (c :: held)) :
    ∃ new, new.Sublist [c] ∧ Readied [] new s (s.preempted cfg c) := by
  have hstart : Quiet s (startPLT s) := ⟨fun _ ↦ rfl, rfl⟩
  have hquiet : Quiet s (((startPLT s).saveState c s.prev).charge cfg c) :=
    (hstart.trans (.saveState c s.prev _)).trans (.charge cfg c _)
  have hfresh : ∀ pr, c ∉ (((startPLT s).saveState c s.prev).charge cfg c).readyQueue pr := by
    intro pr hmem
    rw [hquiet.readyQueue] at hmem
    exact (hs.of_ready hmem).2.2 List.mem_cons_self
  obtain ⟨new, hnew, hready⟩ := Readied.wake hfresh
  exact ⟨new, hnew, (hready.before (hquiet.sameReady rfl)).after
    ⟨fun pr ↦ by cases pr <;> rfl, rfl, rfl⟩⟩

/-- A YIELD ends in the scheduler. -/
theorem Handled.yields (hyield : IsCall s.prev YIELD) (h : Handled cfg s e t) :
    ∃ c, s.curr_process = some c ∧ Scheduled cfg (s.advanced.yielded cfg c) e t := by
  have hmem : YIELD ∈ syscallCodes := by decide
  cases h with
  | interrupt hcode hend => exact absurd hcode hyield.excCode_ne
  | call c code hc hcall hend =>
      obtain rfl : code = YIELD := hcall.code hyield
      cases hend with
      | yield hnext => exact ⟨c, hc, hnext⟩
      | invalid hcode hend => exact absurd hmem hcode
  | passUp c i hc hcall hcode hend => exact absurd hyield (hcall _ hmem)
  | trap c hc hcall hcode hend => exact absurd hyield (hcall _ hmem)

/-! ## One call of the scheduler -/

/-- In each queue only the last process, if any, is the one to skip. -/
def SkipsLast (u : Nucleus n) : Prop :=
  ∀ pr, ∃ l m, u.readyQueue pr = l ++ m ∧ (∀ q ∈ l, some q ≠ u.process_to_skip) ∧
    ∀ q ∈ m, some q = u.process_to_skip

theorem SkipsLast.of_none (h : u.process_to_skip = none) : SkipsLast u := fun pr ↦
  ⟨u.readyQueue pr, [], (List.append_nil _).symm, fun q _ ↦ by rw [h]; nofun, by simp⟩

/-- If the process to skip comes first, no other is in the queue. -/
theorem SkipsLast.only (h : SkipsLast u) (pr : Prio) (hp : u.process_to_skip = some p)
    (hhead : (u.readyQueue pr).head? = some p) : ∀ q ∈ u.readyQueue pr, q = p := by
  obtain ⟨l, m, hq, hl, hm⟩ := h pr
  rw [hp] at hl hm
  rw [hq] at hhead ⊢
  cases l with
  | nil => exact fun q hmem ↦ Option.some.inj (hm q hmem)
  | cons r l =>
      have hr : r = p := Option.some.inj hhead
      exact absurd (congrArg some hr) (hl r List.mem_cons_self)

theorem Scheduled.dispatches {since : Fin n → Nat ×ₗ Nat} (h : Scheduled cfg u e t)
    (he : e ≠ .halt) (hprio : ∀ pr, ∀ p ∈ u.readyQueue pr, u.prio p = pr) (hlast : SkipsLast u)
    (horder : ∀ pr, (u.readyQueue pr).Pairwise (since · < since ·)) : Dispatches since u t := by
  obtain ⟨hchoice, hended⟩ := h.choice he
  have hmem : ∀ pr {p}, (u.readyQueue pr).head? = some p → u.prio p = pr :=
    fun pr p hhead ↦ hprio _ _ (List.mem_of_mem_head? hhead)
  refine ⟨hchoice, hended, fun hne hskip ↦ ?_, fun p hp hlow ↦ ?_, fun p hp q hq ↦ ?_⟩
  · -- the process that yields is chosen: it is the head of its queue, the other is empty
    obtain ⟨p, hp⟩ := Option.ne_none_iff_exists'.mp hne
    rw [hp] at hskip hchoice
    unfold Nucleus.choice at hchoice
    split at hchoice
    · rename_i hcond
      have hhigh : u.high_readyqueue = [] := by
        refine hcond.resolve_right fun ⟨_, hhead⟩ ↦ ?_
        have h₁ := hmem .high (hhead.trans hskip.symm)
        rw [hmem .low hchoice.symm] at h₁
        cases h₁
      rintro (_ | _) q hq
      · rw [hlast.only .low hskip.symm hchoice.symm q hq, hskip]
      · change q ∈ u.high_readyqueue at hq
        rw [hhigh] at hq
        cases hq
    · rename_i hcond
      have hlow : u.low_readyqueue = [] := by
        by_contra hlow
        exact hcond (.inr ⟨hlow, hchoice.symm.trans hskip⟩)
      rintro (_ | _) q hq
      · change q ∈ u.low_readyqueue at hq
        rw [hlow] at hq
        cases hq
      · rw [hlast.only .high hskip.symm hchoice.symm q hq, hskip]
  · rw [h.prio] at hlow
    rw [hp] at hchoice
    unfold Nucleus.choice at hchoice
    split at hchoice
    · rename_i hcond
      rcases hcond with hhigh | ⟨-, hhead⟩
      · intro q hq
        rw [hhigh] at hq
        cases hq
      · intro q hq
        obtain ⟨r, hr⟩ := Option.isSome_iff_exists.mp (List.isSome_head?.mpr (List.ne_nil_of_mem hq))
        have hskip := hhead.symm.trans hr
        rw [hlast.only .high hskip hr q hq, hskip]
    · rw [hmem .high hchoice.symm] at hlow
      cases hlow
  · rcases h.taken he with ⟨hnone, -⟩ | ⟨r, pr, hr, hqueue, -⟩
    · cases hnone.symm.trans hp
    · obtain rfl : r = p := Option.some.inj (hr.symm.trans hp)
      have hpr : t.prio r = pr := by
        rw [h.prio]
        exact hprio pr r (by rw [hqueue]; exact List.mem_cons_self)
      rw [hpr] at hq
      have hpair := horder pr
      rw [hqueue] at hpair
      exact List.rel_of_pairwise_cons hpair hq

/-! ## The queues over a run -/

/-- The ready queues are in the order in which the processes became ready. -/
structure InTurn (s : Nucleus n) (g : Queued n) : Prop where
  order : ∀ pr, (s.readyQueue pr).Pairwise (g.since · < g.since ·)
  past : ∀ pr, ∀ p ∈ s.readyQueue pr, g.since p < toLex (g.now, 0)

theorem mem_readyQueues {pr : Prio} (h : p ∈ s.readyQueue pr) :
    p ∈ s.low_readyqueue ∨ p ∈ s.high_readyqueue := by
  cases pr with
  | low => exact .inl h
  | high => exact .inr h

variable (cfg) in
theorem InTurn.readied {a : Action} (h : InTurn s g) (hr : Readied K new s u)
    (hnew : new.Pairwise (s.clockRank cfg · < s.clockRank cfg ·)) :
    InTurn u (noteReady cfg s a t g) := by
  have hold : ∀ {pr p}, p ∈ s.readyQueue pr → (noteReady cfg s a t g).since p = g.since p :=
    fun hp ↦ if_pos (mem_readyQueues hp)
  have hfresh : ∀ {p}, p ∈ new →
      (noteReady cfg s a t g).since p = toLex (g.now, s.clockRank cfg p) := fun hp ↦
    if_neg (not_or.mpr ⟨hr.fresh _ hp .low, hr.fresh _ hp .high⟩)
  constructor
  · intro pr
    rw [hr.queue, List.pairwise_append]
    refine ⟨?_, ?_, fun p hp q hq ↦ ?_⟩
    · refine ((h.order pr).imp_of_mem fun {p q} hp hq hlt ↦ ?_).sublist List.filter_sublist
      rw [hold hp, hold hq]
      exact hlt
    · refine (hnew.imp_of_mem fun {p q} hp hq hlt ↦ ?_).sublist List.filter_sublist
      rw [hfresh hp, hfresh hq, Prod.Lex.toLex_lt_toLex]
      exact .inr ⟨rfl, hlt⟩
    · have hp := List.mem_of_mem_filter hp
      rw [hold hp, hfresh (List.mem_of_mem_filter hq)]
      refine (h.past pr p hp).trans_le ?_
      rw [Prod.Lex.toLex_le_toLex]
      exact .inr ⟨rfl, Nat.zero_le _⟩
  · intro pr p hp
    rw [hr.queue] at hp
    rcases List.mem_append.mp hp with hp | hp
    · have hp := List.mem_of_mem_filter hp
      rw [hold hp]
      refine (h.past pr p hp).trans ?_
      rw [Prod.Lex.toLex_lt_toLex]
      exact .inl (Nat.lt_succ_self g.now)
    · rw [hfresh (List.mem_of_mem_filter hp), Prod.Lex.toLex_lt_toLex]
      exact .inl (Nat.lt_succ_self g.now)

theorem InTurn.scheduled (h : InTurn u g) (hnext : Scheduled cfg u e t) (he : e ≠ .halt) :
    InTurn t g := by
  have hsub : ∀ pr, (t.readyQueue pr).Sublist (u.readyQueue pr) := by
    intro pr
    rcases hnext.taken he with ⟨-, hsame⟩ | ⟨p, pr', -, hqueue, hother⟩
    · rw [hsame]
    · by_cases hpr : pr = pr'
      · rw [hpr, hqueue]
        exact List.sublist_cons_self p _
      · rw [hother pr hpr]
  exact ⟨fun pr ↦ (h.order pr).sublist (hsub pr), fun pr p hp ↦ h.past pr p ((hsub pr).subset hp)⟩

/-- Every process in the queues is in that of its priority. -/
theorem Readied.prioritized (h : Readied K new s u) (hs : Core s held) :
    ∀ pr, ∀ p ∈ u.readyQueue pr, u.prio p = pr := by
  intro pr p hp
  rw [h.queue] at hp
  rcases List.mem_append.mp hp with hp | hp
  · have hp := List.mem_of_mem_filter hp
    rw [h.prio pr p hp]
    exact hs.prio pr p hp
  · exact of_decide_eq_true (List.mem_filter.mp hp).2

/-- The scheduler does what `Scheduled` says. -/
theorem Scheduled.run (h : Scheduled cfg u e t)
    (hprio : ∀ pr, ∀ p ∈ u.readyQueue pr, u.prio p = pr) : scheduler cfg u = .error e t := by
  obtain ⟨e', t', hrun, h'⟩ := scheduler_run cfg u
  rw [hrun]
  have hsome : ∀ {p : Fin n} {pr rest}, u.readyQueue pr = p :: rest → u.high_readyqueue = [] →
      u.low_readyqueue = [] → False := fun {p pr rest} hq hhigh hlow ↦ by
    cases pr with
    | low => cases hlow.symm.trans hq
    | high => cases hhigh.symm.trans hq
  cases h with
  | halt hcount =>
      cases h' with
      | halt => rfl
      | wait hne => exact absurd hcount hne
      | deadlock hne => exact absurd hcount hne
      | dispatch p pr rest hne => exact absurd hcount hne
  | wait hne hhigh hlow hsoft =>
      cases h' with
      | halt hcount => exact absurd hcount hne
      | wait => rfl
      | deadlock _ _ _ hsoft' => exact absurd hsoft hsoft'
      | dispatch p pr rest _ _ hqueue => exact (hsome hqueue hhigh hlow).elim
  | deadlock hne hhigh hlow hsoft =>
      cases h' with
      | halt hcount => exact absurd hcount hne
      | wait _ _ _ hsoft' => exact absurd hsoft' hsoft
      | deadlock => rfl
      | dispatch p pr rest _ _ hqueue => exact (hsome hqueue hhigh hlow).elim
  | dispatch p pr rest hne hnext hqueue =>
      cases h' with
      | halt hcount => exact absurd hcount hne
      | wait _ hhigh hlow => exact (hsome hqueue hhigh hlow).elim
      | deadlock _ hhigh hlow => exact (hsome hqueue hhigh hlow).elim
      | dispatch p' pr' rest' _ hnext' hqueue' =>
          obtain rfl : p = p' := Option.some.inj (hnext.symm.trans hnext')
          obtain rfl : pr = pr' := (hprio pr p (by rw [hqueue]; exact List.mem_cons_self)).symm.trans
            (hprio pr' p (by rw [hqueue']; exact List.mem_cons_self))
          obtain rfl : rest = rest' := (List.cons.inj (hqueue.symm.trans hqueue')).2
          rfl

/-- A call of the scheduler, once the ready queues have been changed. -/
theorem Scheduled.turn {a : Action} (h : Scheduled cfg u e t) (hs : Core s held)
    (hturn : InTurn s g) (hr : Readied K new s u)
    (hnew : new.Pairwise (s.clockRank cfg · < s.clockRank cfg ·)) (hlast : SkipsLast u) :
    scheduler cfg u = .error e t ∧
      (e ≠ .halt → Dispatches (noteReady cfg s a t g).since u t ∧
        InTurn t (noteReady cfg s a t g)) := by
  have hprio := hr.prioritized hs
  have hturn' : InTurn u (noteReady cfg s a t g) := hturn.readied cfg hr hnew
  exact ⟨h.run hprio, fun he ↦ ⟨h.dispatches he hprio hlast hturn'.order, hturn'.scheduled h he⟩⟩

variable (cfg) in
/-- How an exception ends, as far as the ready queues are concerned. -/
inductive Turn (s : Nucleus n) (state : State) (g : Queued n) (e : Exit) (t : Nucleus n) : Prop
  /-- The current process goes on: it has neither yielded nor been preempted. -/
  | goesOn (hcurr : s.curr_process ≠ none) (hsame : t.curr_process = s.curr_process)
      (hyield : ¬ IsCall state YIELD) (hplt : ¬ Preempts state)
      (hready : ∃ K new, Readied K new s t) (hskip : t.process_to_skip = none)
      (hturn : InTurn t g) : Turn s state g e t
  /-- The ready queues are changed, and the scheduler is called in the state `u`. -/
  | scheduler (u : Nucleus n)
      (hready : ∃ K new, Readied K new { s with process_to_skip := (enter state s).skips } u)
      (hskip : u.process_to_skip = (enter state s).skips)
      (hrun : scheduler cfg u = .error e t)
      (hlaw : e ≠ .halt → Dispatches g.since u t ∧ InTurn t g) : Turn s state g e t

theorem exceptionHandler_turn (hs : Inv cfg s) (hskip : s.process_to_skip = none)
    (hturn : InTurn s g) (hguard : excCode state.cause = 0 ∨ s.curr_process ≠ none)
    (hrun : exceptionHandler cfg (enter state s) = .error e t) (hstop : ¬ e.Stops) :
    Turn cfg s state (noteReady cfg s (.exception state) t g) e t := by
  obtain ⟨lost, -, hsound⟩ := hs
  have hcore : Core (enter state s) ((enter state s).curr_process.toList ++ lost) :=
    hsound.core.quiet (.enter state s)
  have hclock : (enter state s).mem cfg.semaphore_it ≠ 1 := by
    rw [show (enter state s).mem cfg.semaphore_it = 0 from hsound.clock]
    decide
  have hend := (exceptionHandler_ends hcore hclock hguard hrun).resolve_right hstop
  have hturn' : InTurn (enter state s) g := ⟨hturn.order, hturn.past⟩
  by_cases hyield : IsCall state YIELD
  · obtain ⟨c, hc, hnext⟩ := hend.yields hyield
    have hskips : (enter state s).skips = some c := (if_pos hyield).trans hc
    rw [hc] at hcore
    -- the queues of the state in which the process to skip has been designated
    let v : Nucleus n := { (enter state s).advanced with process_to_skip := some c }
    have hcore' : Core v (c :: lost) := hcore.quiet ⟨fun _ ↦ rfl, rfl⟩
    obtain ⟨new, hnew, hready⟩ := yielded_ready cfg (s := (enter state s).advanced)
      (hcore.quiet ⟨fun _ ↦ rfl, rfl⟩)
    have hlast : SkipsLast ((enter state s).advanced.yielded cfg c) := by
      intro pr
      refine ⟨_, _, hready.queue pr, fun q hq ↦ ?_, fun q hq ↦ ?_⟩
      · rw [hready.skip]
        intro e
        obtain rfl : q = c := Option.some.inj e
        exact (hcore'.of_ready (List.mem_of_mem_filter hq)).2.2 List.mem_cons_self
      · rw [hready.skip, List.mem_singleton.mp (hnew.subset (List.mem_of_mem_filter hq))]
    obtain ⟨hrun', hlaw⟩ := hnext.turn (a := .exception state) hcore' ⟨hturn.order, hturn.past⟩
      hready ((List.pairwise_singleton _ c).sublist hnew) hlast
    have hsame : SameReady { s with process_to_skip := (enter state s).skips } v :=
      ⟨fun pr ↦ by cases pr <;> rfl, rfl, hskips.symm⟩
    exact .scheduler _ ⟨_, _, hready.before hsame⟩ (hready.skip.trans hskips.symm) hrun' hlaw
  have hskips : (enter state s).skips = none := if_neg hyield
  have hsame : SameReady { s with process_to_skip := (enter state s).skips } (enter state s) :=
    ⟨fun pr ↦ by cases pr <;> rfl, rfl, hskip.trans hskips.symm⟩
  by_cases hplt : Preempts state
  · have hnull : e ≠ .nullDeref := fun h ↦ hstop (.inl h)
    obtain ⟨c, hc, hnext⟩ := preempts_run hplt hnull hrun
    have hcore' := hcore.quiet (.interrupted cfg (enter state s))
    rw [show (enter state s).curr_process = some c from hc] at hcore hcore'
    obtain ⟨new, hnew, hready⟩ := preempted_ready cfg hcore'
    have hready' := hready.before (interrupted_same (enter state s))
    have hnone := hready'.skip.trans hskip
    obtain ⟨hrun', hlaw⟩ := hnext.turn (a := .exception state) hcore hturn' hready'
      ((List.pairwise_singleton _ c).sublist hnew) (.of_none hnone)
    exact .scheduler _ ⟨_, _, hready'.before hsame⟩ (hnone.trans hskips.symm) hrun' hlaw
  · obtain ⟨K, new, u, hready, hnew, -, hgoes⟩ := hend.passes hcore hplt hyield
    have hnone : u.process_to_skip = none := hready.skip.trans hskip
    rcases hgoes with ⟨-, hnext⟩ | ⟨rfl, -, hcurr, hcurr'⟩
    · obtain ⟨hrun', hlaw⟩ := hnext.turn (a := .exception state) hcore hturn' hready hnew
        (.of_none hnone)
      exact .scheduler u ⟨K, new, hready.before hsame⟩ (hnone.trans hskips.symm) hrun' hlaw
    · have henter : SameReady s (enter state s) := ⟨fun pr ↦ by cases pr <;> rfl, rfl, rfl⟩
      exact .goesOn hcurr hcurr' hyield hplt ⟨K, new, hready.before henter⟩ hnone
        (hturn'.readied cfg (a := .exception state) (t := u) hready hnew)

/-- `main` calls the scheduler with no process to skip. -/
theorem Start.dispatches (h : Start cfg s) (since : Fin n → Nat ×ₗ Nat) :
    ∃ u e, scheduler cfg u = .error e s ∧ u.process_to_skip = none ∧ Dispatches since u s ∧
      ∀ pr, s.readyQueue pr = [] := by
  obtain ⟨mem, support, p, rest, e, hmem, hfree, hdone, hend⟩ := h.scheduled
  have hfirst : Sound cfg [] ((Nucleus.initial cfg mem support).first cfg p rest) :=
    (first_sound hmem hfree).1
  have hprio := hfirst.core.prio
  set u := (Nucleus.initial cfg mem support).first cfg p rest with hu
  have hlow : u.readyQueue .low = [p] := rfl
  have hhigh : u.readyQueue .high = [] := rfl
  have horder : ∀ pr, (u.readyQueue pr).Pairwise (since · < since ·) := by
    rintro (_ | _)
    · rw [hlow]
      exact List.pairwise_singleton _ p
    · rw [hhigh]
      exact .nil
  have hlaw := hend.dispatches hdone.ne_halt hprio (.of_none rfl) horder
  refine ⟨u, e, hend.run hprio, rfl, hlaw, ?_⟩
  rcases hend.taken hdone.ne_halt with ⟨hnone, -⟩ | ⟨q, pr, -, hqueue, hother⟩
  · cases hnone.symm.trans hlaw.choice
  · cases pr with
    | high => cases hhigh.symm.trans hqueue
    | low =>
        rintro (_ | _)
        · exact (List.cons.inj (hlow.symm.trans hqueue)).2.symm
        · exact (hother .high (by decide)).trans hhigh

theorem NucStep.inTurn {a : Action} (hs : Inv cfg s) (hskip : s.process_to_skip = none)
    (hturn : InTurn s g) (h : NucStep cfg s a t) :
    t.process_to_skip = none ∧ InTurn t (noteReady cfg s a t g) := by
  have hsame : Readied [] [] s s := .of_same (.refl s)
  obtain ⟨hstep, -⟩ := h
  cases a with
  | store b v =>
      simp only [step, Option.ite_none_left_eq_some, Option.some.injEq] at hstep
      obtain ⟨-, rfl⟩ := hstep
      have hturn' := hturn.readied cfg (a := .store b v) (t := s.store b v) hsame .nil
      exact ⟨hskip, hturn'.order, hturn'.past⟩
  | support b x =>
      simp only [step, Option.some.injEq] at hstep
      subst hstep
      have hturn' := hturn.readied cfg (a := .support b x) (t := s) hsame .nil
      exact ⟨hskip, hturn'.order, hturn'.past⟩
  | exception state =>
      obtain ⟨hguard, e, hrun, hdone⟩ := step_exception hstep
      cases exceptionHandler_turn hs hskip hturn hguard hrun hdone.not_stops with
      | goesOn hcurr hsame hyield hplt hready hskip hturn => exact ⟨hskip, hturn⟩
      | scheduler u hready hskip hrun hlaw =>
          obtain ⟨hdispatch, hturn⟩ := hlaw hdone.ne_halt
          exact ⟨hdispatch.ended, hturn⟩

theorem run_inTurn {s₀ : Nucleus n} {as : List Action} {since : Fin n → Nat ×ₗ Nat}
    (h₀ : Start cfg s₀) (hrun : Run (ReadyStep cfg) (s₀, ⟨0, since⟩) as (s, g)) :
    Inv cfg s ∧ s.process_to_skip = none ∧ InTurn s g := by
  obtain ⟨u, e, -, -, hlaw, hempty⟩ := h₀.dispatches since
  refine hrun.invariant
    (I := fun x ↦ Inv cfg x.1 ∧ x.1.process_to_skip = none ∧ InTurn x.1 x.2) ?_
    ⟨h₀.inv, hlaw.ended, fun pr ↦ ?_, fun pr p hp ↦ ?_⟩
  · rintro ⟨s, g⟩ a ⟨t, g'⟩ ⟨hs, hskip, hturn⟩ ⟨hstep, hhist⟩
    obtain rfl : g' = noteReady cfg s a t g := hhist
    exact ⟨hstep.inv hs, hstep.inTurn hs hskip hturn⟩
  · rw [hempty]
    exact .nil
  · rw [hempty] at hp
    cases hp

/-- In `main` and at every exception of a run, a call of the scheduler dispatches the process
that is chosen; a YIELD counts for one call; and each queue is served in the order in which
the processes became ready. -/
theorem scheduler_law {s₀ : Nucleus n} {as : List Action} {since : Fin n → Nat ×ₗ Nat}
    (h₀ : Start cfg s₀) (hrun : Run (ReadyStep cfg) (s₀, ⟨0, since⟩) as (s, g)) :
    (∃ u e, scheduler cfg u = .error e s₀ ∧ u.process_to_skip = none ∧ Dispatches since u s₀) ∧
      s.process_to_skip = none ∧
      ∀ state e t, excCode state.cause = 0 ∨ s.curr_process ≠ none →
        exceptionHandler cfg (enter state s) = .error e t → ¬ e.Stops →
        Turn cfg s state (noteReady cfg s (.exception state) t g) e t := by
  obtain ⟨hs, hskip, hturn⟩ := run_inTurn h₀ hrun
  obtain ⟨u, e, hfirst, hnone, hlaw, -⟩ := h₀.dispatches since
  exact ⟨⟨u, e, hfirst, hnone, hlaw⟩, hskip, fun state e t hguard hend hstop ↦
    exceptionHandler_turn hs hskip hturn hguard hend hstop⟩

/-- Two processes of low priority: when the first yields, the second is dispatched. -/
theorem scheduler_law_sample :
    ∃ u t : Nucleus 2, u.process_to_skip = some 0 ∧ u.choice = some 1 ∧
      t.curr_process = some 1 ∧ t.process_to_skip = none := by
  let cfg := Config.sample 2 (by decide) .faults
  let state : State := .call YIELD 0 0 0
  obtain ⟨s, ⟨s₀, as, h₀, hrun⟩, hc, hnext⟩ := execute_reachable cfg
    (P := fun s ↦ s.curr_process = some 0 ∧
      (step cfg s (.exception state)).any (fun t ↦ t.curr_process = some 1) = true)
    [.call CREATEPROCESS 0x20003000 0 0] (by decide +kernel)
  obtain ⟨t, hstep, ht⟩ := (Option.any_eq_true _ _).mp hnext
  have ht : t.curr_process = some 1 := of_decide_eq_true ht
  obtain ⟨hguard, e, hend, hdone⟩ := step_exception hstep
  obtain ⟨g, hrun⟩ := hrun.decorate (noteReady cfg) ⟨0, fun _ ↦ toLex (0, 0)⟩
  obtain ⟨-, -, hlaw⟩ := scheduler_law h₀ hrun
  have hyield : IsCall state YIELD := by decide
  cases hlaw state e t hguard hend hdone.not_stops with
  | goesOn _ _ hno => exact absurd hyield hno
  | scheduler u _ hskip _ hlaw =>
      obtain ⟨hdispatch, -⟩ := hlaw hdone.ne_halt
      refine ⟨u, t, ?_, hdispatch.choice.symm.trans ht, ht, hdispatch.ended⟩
      rw [hskip, Nucleus.skips, if_pos (show IsCall (enter state s).prev YIELD from hyield)]
      exact hc

end PandosPlus
