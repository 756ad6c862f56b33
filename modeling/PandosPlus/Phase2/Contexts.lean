import PandosPlus.Phase2.Devices
import PandosPlus.Phase2.Family

/-!
# Context switches

A process goes on where it left the processor.  Its departure is recorded from outside, by
looking at the exception it raised and at whether it is blocked afterwards; the record
gives the state it has to be dispatched with.  Between the two the state lies in `p_s`, in
a ready queue or in the queue of a semaphore, and only the completion of its own operation
changes it.
-/

namespace PandosPlus

open Flow Lts

variable {n : Nat}

/-- How a process last left the processor, with the state it had then, or how it came to
be. -/
inductive Departure where
  /-- Made by CREATEPROCESS. -/
  | created (x : State)
  /-- Preempted by the local timer. -/
  | preempted (x : State)
  /-- In YIELD, or blocked in PASSEREN, VERHOGEN or CLOCKWAIT. -/
  | called (x : State)
  /-- Blocked in a DOIO. -/
  | waiting (x : State)
  /-- Blocked in a DOIO that has been answered with the status of the device. -/
  | answered (x : State) (status : Word)

/-- The state to go on with: past the system call if it was one, and with the status of
the device if it was a DOIO. -/
def Departure.context : Departure → State
  | .created x => x
  | .preempted x => x
  | .called x => x.returned
  | .waiting x => x.returned
  | .answered x status => { x.returned with reg_v0 := status }

/-- The process has not been answered yet. -/
def Departure.Waiting (d : Departure) : Prop := ∃ x, d = .waiting x

/-- A completion with a status. -/
def Departure.answer (status : Word) : Departure → Departure
  | .waiting x => .answered x status
  | d => d

/-- The exception is an interrupt of the local timer. -/
def Preempts (state : State) : Prop :=
  excCode state.cause = 0 ∧ state.cause &&& CAUSE_IP_MASK &&& LOCALTIMERINT ≠ 0

instance : DecidablePred Preempts := fun _ ↦ inferInstanceAs (Decidable (_ ∧ _))

/-- The record of the current process `c` after its exception. -/
def leave (state : State) (t : Nucleus n) (c : Fin n) (d : Departure) : Departure :=
  if Preempts state then .preempted state
  else if IsCall state YIELD then .called state
  else if IsCall state DOIO ∧ (t.semAdd c).isSome then .waiting state
  else if (IsCall state PASSEREN ∨ IsCall state VERHOGEN ∨ IsCall state CLOCKWAIT) ∧
      (t.semAdd c).isSome then .called state
  else d

variable (cfg : Config n)

/-- The completion that an interrupt hands to `p`. -/
def answers (s : Nucleus n) (p : Fin n) (d : Departure) : Departure :=
  match s.served with
  | none => d
  | some i =>
      if excCode s.prev.cause = 0 ∧ (s.asl.queue (cfg.devSem i)).head? = some p ∧
          s.pid p ≠ FREE_PCB_PID then
        d.answer (s.mem (statusAddr i))
      else d

/-- The records after an action. -/
def depart (s : Nucleus n) (a : Action) (t : Nucleus n) (g : Fin n → Departure) :
    Fin n → Departure := fun p ↦
  match a with
  | .exception state =>
      if s.curr_process = some p then leave state t p (g p)
      else if IsCall state CREATEPROCESS ∧ p ∈ s.pcbFree_h ∧ p ∉ t.pcbFree_h then
        .created (cfg.readState s.mem state.reg_a1)
      else answers cfg (enter state s) p (g p)
  | _ => g p

/-- A process that is ready or blocked is saved with the state to go on with; it waits for
an answer as long as it is blocked on a device. -/
structure Kept (s : Nucleus n) (q : Fin n) (d : Departure) : Prop where
  ready : ∀ pr, q ∈ s.readyQueue pr → s.saved q = d.context ∧ ¬ d.Waiting
  blocked : ∀ k, s.semAdd q = some k → s.saved q = d.context ∧ (d.Waiting ↔ ∃ i, k = cfg.devSem i)

/-- Those who wait at the semaphore of a device have found it down. -/
def DevicesDown (s : Nucleus n) : Prop :=
  ∀ i, s.asl.queue (cfg.devSem i) ≠ [] → s.mem (cfg.devSem i) = 0

variable {cfg} {s t u : Nucleus n} {c p q : Fin n} {k full : Word} {held : List (Fin n)} {e : Exit}
variable {d : Departure}

/-! ## Changes elsewhere -/

theorem Kept.nowhere (hready : ∀ pr, q ∉ s.readyQueue pr) (hsem : s.semAdd q = none) :
    Kept cfg s q d :=
  ⟨fun pr hq ↦ absurd hq (hready pr), fun k hk ↦ by cases hsem.symm.trans hk⟩

/-- The current process is in no queue. -/
theorem Kept.current (hs : Core s (s.curr_process.toList ++ held))
    (hc : s.curr_process = some q) : Kept cfg s q d := by
  rw [hc] at hs
  exact .nowhere (fun pr hq ↦ (hs.of_ready hq).2.2 List.mem_cons_self)
    (hs.of_held List.mem_cons_self).2.2.1

theorem Kept.frame (h : Kept cfg s q d) (hready : ∀ pr, q ∈ t.readyQueue pr → q ∈ s.readyQueue pr)
    (hsem : ∀ k, t.semAdd q = some k → s.semAdd q = some k) (hsaved : t.saved q = s.saved q) :
    Kept cfg t q d := by
  refine ⟨fun pr hq ↦ ?_, fun k hk ↦ ?_⟩
  · rw [hsaved]
    exact h.ready pr (hready pr hq)
  · rw [hsaved]
    exact h.blocked k (hsem k hk)

theorem Kept.still (h : Kept cfg s q d) (hready : t.readyQueue = s.readyQueue)
    (hsem : t.semAdd = s.semAdd) (hsaved : t.saved = s.saved) : Kept cfg t q d :=
  h.frame (fun pr ↦ by rw [hready]; exact id) (fun k ↦ by rw [hsem]; exact id)
    (congrFun hsaved q)

theorem Scheduled.readyQueue (h : Scheduled cfg s e t) (pr : Prio) (hq : q ∈ t.readyQueue pr) :
    q ∈ s.readyQueue pr := by
  cases h with
  | halt => exact hq
  | wait => cases pr <;> exact hq
  | deadlock => cases pr <;> exact hq
  | dispatch p prio rest hcount hnext hqueue =>
      rw [(Quiet.load cfg p (s.pick p prio rest)).readyQueue] at hq
      change q ∈ (s.setReadyQueue rest prio).readyQueue pr at hq
      by_cases e : pr = prio
      · rw [e, Nucleus.readyQueue_setReadyQueue] at hq
        rw [e, hqueue]
        exact List.mem_cons_of_mem p hq
      · rwa [Nucleus.readyQueue_setReadyQueue_ne s rest e] at hq

theorem Nucleus.dispatch_curr (cfg : Config n) (q : Fin n) (prio : Prio) (rest : List (Fin n))
    (s : Nucleus n) : ((s.pick q prio rest).load cfg q).curr_process = some q := by
  unfold Nucleus.load
  split <;> rfl

/-- The process dispatched was ready, and is loaded with its saved state. -/
theorem Scheduled.dispatched (h : Scheduled cfg s e t) (he : e ≠ .halt)
    (hc : t.curr_process = some p) :
    (∃ pr, p ∈ s.readyQueue pr) ∧ e = .ldst (State.loaded (t.prio p) (s.saved p)) := by
  cases h with
  | halt => exact absurd rfl he
  | wait => cases hc
  | deadlock => cases hc
  | dispatch q prio rest hcount hnext hqueue =>
      obtain rfl : q = p := Option.some.inj ((Nucleus.dispatch_curr cfg q prio rest s).symm.trans hc)
      refine ⟨⟨prio, by rw [hqueue]; exact List.mem_cons_self⟩, ?_⟩
      have hsaved : s.saved q = (s.pick q prio rest).saved q :=
        congrArg (fun f ↦ (f q).p_s) (Nucleus.setReadyQueue_table s rest prio).symm
      rw [hsaved, (Quiet.load cfg q _).prio]
      unfold Nucleus.load State.loaded
      split <;> simp [Nucleus.saved, Nucleus.flush, startPLT, Nucleus.modifyPcb]

/-- A process that is not current is recorded; one that has become current, from `c`, has
been loaded with the state to go on with. -/
structure Goes (cfg : Config n) (c : Option (Fin n)) (e : Exit) (t : Nucleus n) (q : Fin n)
    (d : Departure) : Prop where
  kept : t.curr_process ≠ some q → Kept cfg t q d
  loaded : t.curr_process = some q → c ≠ some q →
    e = .ldst (State.loaded (t.prio q) d.context) ∧ ¬ d.Waiting

theorem Goes.resumed {c : Option (Fin n)} (hcurr : t.curr_process = c)
    (hk : c ≠ some q → Kept cfg t q d) : Goes cfg c e t q d :=
  ⟨fun hq ↦ hk (hcurr ▸ hq), fun hq hc ↦ absurd (hcurr.symm.trans hq) hc⟩

theorem Scheduled.goes (h : Scheduled cfg s e t) (he : e ≠ .halt) (hk : Kept cfg s q d)
    (c : Option (Fin n)) : Goes cfg c e t q d := by
  refine ⟨fun hq ↦ ?_, fun hq _ ↦ ?_⟩
  · exact hk.frame (fun pr ↦ h.readyQueue pr) (fun k ↦ by rw [sems_semAdd h.sems.1]; exact id)
      (h.saved hq)
  · obtain ⟨⟨pr, hmem⟩, hload⟩ := h.dispatched he hq
    obtain ⟨hsaved, hwaiting⟩ := hk.ready pr hmem
    rw [hsaved] at hload
    exact ⟨hload, hwaiting⟩

theorem Finished.goes {live : Prop} {c : Option (Fin n)} (h : Finished cfg s live e t)
    (he : e ≠ .halt) (hcurr : s.curr_process = c) (hk : Kept cfg s q d) : Goes cfg c e t q d := by
  cases h with
  | resume => exact .resumed hcurr fun _ ↦ hk
  | schedule hdead hnext => exact hnext.goes he hk c

/-! ## Queues -/

theorem makeReady_queue {pr : Prio} (h : q ∈ (s.makeReady p).readyQueue pr) :
    q = p ∨ q ∈ s.readyQueue pr := by
  unfold Nucleus.makeReady at h
  by_cases e : pr = s.prio p
  · rw [e, Nucleus.readyQueue_setReadyQueue, List.mem_append, List.mem_singleton] at h
    rw [e]
    exact h.symm
  · rw [Nucleus.readyQueue_setReadyQueue_ne s _ e] at h
    exact .inr h

theorem wake_queue {pr : Prio} (h : q ∈ (s.wake p).readyQueue pr) :
    q = p ∨ q ∈ s.readyQueue pr := by
  unfold Nucleus.wake at h
  split at h
  · exact .inr h
  · exact makeReady_queue h

/-- A process is made ready, with the state to go on with. -/
theorem Kept.wake (hsem : (s.wake p).semAdd p = none) (hsaved : s.saved p = d.context)
    (hd : ¬ d.Waiting) : Kept cfg (s.wake p) p d := by
  refine ⟨fun pr hq ↦ ?_, fun k hk ↦ by cases hsem.symm.trans hk⟩
  rw [Nucleus.wake_saved]
  exact ⟨hsaved, hd⟩

/-- Another process is made ready. -/
theorem Kept.wake_ne (h : Kept cfg s q d) (hne : q ≠ p) : Kept cfg (s.wake p) q d :=
  h.frame (fun pr hq ↦ (wake_queue hq).resolve_left hne) (fun k ↦ by rw [Nucleus.wake_semAdd]; exact id)
    (congrFun (Nucleus.wake_saved p s) q)

/-- Another process leaves the queue of a semaphore. -/
theorem Kept.unblock_ne (h : Kept cfg s q d) (hne : q ≠ p) : Kept cfg (s.unblock k p) q d := by
  refine h.frame (fun pr hq ↦ by cases pr <;> exact hq) (fun k' hk ↦ ?_)
    (congrFun (Nucleus.unblock_saved k p s) q)
  have hsem := congrFun (Nucleus.unblock_semAdd k p (s := s)) q
  simp only [if_neg hne] at hsem
  rwa [hsem] at hk

/-! ## The system calls -/

theorem SemCall.goes (hs : Core s (c :: held)) (hc : s.curr_process = some c)
    (h : SemCall cfg full k c s e t) (he : e ≠ .halt)
    (hdown : (∃ i, k = cfg.devSem i) → s.asl.queue k ≠ [] → s.mem k = full)
    (hother : q ≠ c → Kept cfg s q d)
    (hself : q = c → t.semAdd c = some k →
      d.context = s.prev ∧ (d.Waiting ↔ ∃ i, k = cfg.devSem i)) :
    Goes cfg (some c) e t q d := by
  cases h with
  | block hfull hnext =>
      have hsem : t.semAdd = (s.block k c).semAdd := by
        have hquiet := (Quiet.saveState c s.prev (s.block k c)).trans (Quiet.charge cfg c _)
        rw [sems_semAdd hnext.sems.1, hquiet.semAdd]
      have hsaved : ∀ q, (((s.block k c).saveState c s.prev).charge cfg c).saved q =
          if q = c then s.prev else s.saved q := fun q ↦ by
        rw [Nucleus.charge_saved, Nucleus.saveState_saved, Nucleus.block_saved]
      have hsem' : (((s.block k c).saveState c s.prev).charge cfg c).semAdd =
          (s.block k c).semAdd :=
        ((Quiet.saveState c s.prev (s.block k c)).trans (Quiet.charge cfg c _)).semAdd
      by_cases hqc : q = c
      · subst hqc
        have hblocked : (s.block k q).semAdd q = some k := by
          rw [Nucleus.block_semAdd]
          exact if_pos rfl
        obtain ⟨hcontext, hwaiting⟩ := hself rfl (by rw [hsem]; exact hblocked)
        refine hnext.goes he ⟨fun pr hmem ↦ ?_, fun k' hk ↦ ?_⟩ _
        · have hmem' : q ∈ s.readyQueue pr := by cases pr <;> exact hmem
          exact absurd List.mem_cons_self (hs.of_ready hmem').2.2
        · rw [hsem', hblocked] at hk
          cases hk
          rw [hsaved, if_pos rfl]
          exact ⟨hcontext.symm, hwaiting⟩
      · refine hnext.goes he ((hother hqc).frame (fun pr hmem ↦ by cases pr <;> exact hmem)
          (fun k' hk ↦ ?_) ((hsaved q).trans (if_neg hqc))) _
        rw [hsem', Nucleus.block_semAdd] at hk
        simpa only [if_neg hqc] using hk
  | release p rest hfull hqueue =>
      have hp : s.semAdd p = some k :=
        hs.asl.mem_queue.mp (by rw [hqueue]; exact List.mem_cons_self)
      refine .resumed ((Nucleus.wake_curr p _).trans hc) fun hqc ↦ ?_
      replace hqc : q ≠ c := fun h ↦ hqc (h ▸ rfl)
      have hqueued : s.asl.queue k ≠ [] := by rw [hqueue]; exact List.cons_ne_nil p rest
      by_cases hqp : q = p
      · subst hqp
        obtain ⟨hsaved, hwaiting⟩ := (hother hqc).blocked k hp
        refine .wake ?_ ?_ fun hd ↦ hfull (hdown (hwaiting.mp hd) hqueued)
        · rw [Nucleus.wake_semAdd, Nucleus.unblock_semAdd]
          exact if_pos rfl
        · rw [Nucleus.unblock_saved]
          exact hsaved
      · exact ((hother hqc).unblock_ne hqp).wake_ne hqp
  | write hfull hqueue =>
      refine .resumed hc fun hqc ↦ ?_
      exact (hother fun h ↦ hqc (h ▸ rfl)).still rfl rfl rfl

theorem Torn.kept_frame {K F : List (Fin n)} (h : Torn cfg K F s t) (hk : Kept cfg s q d) :
    Kept cfg t q d := by
  refine hk.frame (fun pr hmem ↦ ?_) (fun k hsem ↦ ?_) (h.saved q)
  · rw [h.ready] at hmem
    exact List.mem_of_mem_filter hmem
  · rw [h.semAdd] at hsem
    split at hsem
    · cases hsem
    · exact hsem

theorem PassedUp.goes {i : Fin 2} (h : PassedUp cfg i c s e t) (hc : s.curr_process = some c)
    (he : e ≠ .halt) (hk : Kept cfg s q d) : Goes cfg (some c) e t q d := by
  cases h with
  | up a ha => exact .resumed hc fun _ ↦ hk.still rfl rfl rfl
  | die K u ha hkill hnext => exact hnext.goes he (hkill.torn.kept_frame hk) _

section Created

variable {rest : List (Fin n)} {statep : Word}

theorem created_queue {pr : Prio}
    (h : q ∈ (s.created cfg c p rest statep).readyQueue pr) : q = p ∨ q ∈ s.readyQueue pr := by
  have hmem : q ∈ ((fillPcb p (cfg.readState s.mem statep)
      (if s.prev.reg_a2 = 0 then .low else .high) (cfg.ptr s.prev.reg_a3)
      (s.enroll p rest)).makeReady p).readyQueue pr := by cases pr <;> exact h
  rcases makeReady_queue hmem with hp | hmem
  · exact .inl hp
  · exact .inr (by cases pr <;> exact hmem)

/-- The new process. -/
theorem created_self (hs : Core s (c :: held)) (hf : s.pcbFree_h = p :: rest) :
    Kept cfg (s.created cfg c p rest statep) p (.created (cfg.readState s.mem statep)) := by
  have hp : p ∈ s.pcbFree_h := by rw [hf]; exact List.mem_cons_self
  refine ⟨fun pr hmem ↦ ⟨?_, fun ⟨x, hx⟩ ↦ nomatch hx⟩, fun k hk ↦ ?_⟩
  · refine (insertChild_saved _ c p p).trans ?_
    refine (congrFun (Nucleus.makeReady_saved p _) p).trans ?_
    rw [Nucleus.saved, fillPcb, Nucleus.modifyPcb_table, if_pos rfl]
    rfl
  · rw [created_semAdd hs hf, hs.semAdd_free hp] at hk
    cases hk

/-- The others. -/
theorem created_kept (hs : Core s (c :: held)) (hf : s.pcbFree_h = p :: rest) (hne : q ≠ p)
    (hk : Kept cfg s q d) : Kept cfg (s.created cfg c p rest statep) q d := by
  refine hk.frame (fun pr hmem ↦ (created_queue hmem).resolve_left hne) (fun k hsem ↦ ?_) ?_
  · rwa [created_semAdd hs hf] at hsem
  · refine (insertChild_saved _ c p q).trans ?_
    refine (congrFun (Nucleus.makeReady_saved p _) q).trans ?_
    rw [Nucleus.saved, fillPcb, Nucleus.modifyPcb_table, if_neg hne, Nucleus.enroll_table,
      if_neg hne]
    rfl

end Created

/-- YIELD before the scheduler. -/
theorem yielded_kept (hs : Core s (c :: held)) (hother : q ≠ c → Kept cfg s q d)
    (hself : q = c → d.context = s.prev ∧ ¬ d.Waiting) : Kept cfg (s.yielded cfg c) q d := by
  have hwake : Kept cfg (({ s.saveState c s.prev with process_to_skip := some c } :
      Nucleus n).wake c) q d := by
    by_cases hqc : q = c
    · subst hqc
      obtain ⟨hcontext, hwaiting⟩ := hself rfl
      refine .wake ?_ ?_ hwaiting
      · rw [Nucleus.wake_semAdd]
        refine (congrFun (Quiet.saveState q s.prev s).semAdd q).trans ?_
        exact (hs.of_held List.mem_cons_self).2.2.1
      · exact (Nucleus.saveState_saved q s.prev s q).trans ((if_pos rfl).trans hcontext.symm)
    · refine Kept.wake_ne ?_ hqc
      refine (hother hqc).frame (fun pr hmem ↦ by cases pr <;> exact hmem) (fun k hsem ↦ ?_) ?_
      · exact (congrFun (Quiet.saveState c s.prev s).semAdd q).symm.trans hsem
      · exact (Nucleus.saveState_saved c s.prev s q).trans (if_neg hqc)
  exact hwake.still rfl (Quiet.charge cfg c _).semAdd (Nucleus.charge_saved cfg c _)

/-- The caller of a system call is in no queue. -/
theorem Kept.caller (hs : Core s (c :: held)) : Kept cfg s c d :=
  .nowhere (fun _ hmem ↦ (hs.of_ready hmem).2.2 List.mem_cons_self)
    (hs.of_held List.mem_cons_self).2.2.1

/-- The record of a process other than the caller stays; that of the caller matters where
it blocks, and that of a new process is made. -/
theorem Called.goes {code : Int} (hs : Core s (c :: held)) (hc : s.curr_process = some c)
    (h : Called cfg c s code e t) (he : e ≠ .halt) (hcall : IsCall s.prev code)
    (hcode : code ≠ YIELD) (hdown : DevicesDown cfg s) (hlaw : (Action.exception s.prev).Lawful cfg)
    (hother : q ≠ c → Kept cfg s q d)
    (hsem : q = c → ∀ k, code ∈ semCodes → t.semAdd c = some k →
      d.context = s.prev ∧ (d.Waiting ↔ code = DOIO))
    (hnew : code = CREATEPROCESS → q ∈ s.pcbFree_h → q ∉ t.pcbFree_h →
      d = .created (cfg.readState s.mem s.prev.reg_a1)) :
    Goes cfg (some c) e t q d := by
  have hk : Kept cfg s q d := by
    by_cases hqc : q = c
    · rw [hqc]
      exact .caller hs
    · exact hother hqc
  have hptr : ∀ {k}, cfg.ptr s.prev.reg_a1 = some k → s.prev.reg_a1 = k := by
    intro k hk
    unfold Config.ptr at hk
    split at hk
    · cases hk
    · exact Option.some.inj hk
  -- a semaphore of the processes is no semaphore of a device
  have hpv : ∀ {k full}, cfg.ptr s.prev.reg_a1 = some k → code ∈ semCodes → code ≠ DOIO →
      (code = PASSEREN ∨ code = VERHOGEN) → SemCall cfg full k c s e t →
      Goes cfg (some c) e t q d := by
    intro k full hk hmem hne hcode hcall'
    have hown : ¬ Owned cfg k := by
      rw [← hptr hk]
      refine hlaw ?_
      rcases hcode with rfl | rfl
      · exact .inl hcall
      · exact .inr hcall
    have hdev : ¬ ∃ i, k = cfg.devSem i := fun ⟨i, hi⟩ ↦ hown (hi ▸ owned_devSem i)
    refine hcall'.goes hs hc he (fun h ↦ absurd h hdev) hother fun hqc ht ↦ ?_
    obtain ⟨hcontext, hwaiting⟩ := hsem hqc k hmem ht
    exact ⟨hcontext, hwaiting.trans (iff_of_false hne hdev)⟩
  cases h with
  | createFails hfree => exact .resumed hc fun _ ↦ hk.still rfl rfl rfl
  | create p rest statep hfree hstate =>
      refine .resumed ((Nucleus.makeReady_curr p _).trans hc) fun _ ↦ ?_
      by_cases hqp : q = p
      · subst hqp
        have hfree' : (s.created cfg c q rest statep).pcbFree_h = rest := Nucleus.makeReady_free q _
        have hnodup := hs.pids.free_nodup
        rw [hfree, List.nodup_cons] at hnodup
        have hd := hnew rfl (by rw [hfree]; exact List.mem_cons_self) (by rw [hfree']; exact hnodup.1)
        rw [hd, hptr hstate]
        exact created_self hs hfree
      · exact created_kept hs hfree hqp hk
  | kill p K u htarget hkill hend =>
      have hcurr : u.curr_process = some c := (congrArg (·.1.2.1) hkill.torn.kept).trans hc
      exact hend.goes he hcurr (hkill.torn.kept_frame hk)
  | killNone htarget hend => exact hend.goes he hc hk
  | passeren k hk hcall' => exact hpv hk (by decide) (by decide) (.inl rfl) hcall'
  | verhogen k hk hcall' => exact hpv hk (by decide) (by decide) (.inr rfl) hcall'
  | doIo i hi hcall' =>
      have hissue : Core (s.issue i) (c :: held) := hs.quiet ⟨fun _ ↦ rfl, rfl⟩
      refine SemCall.goes hissue hc hcall' he (fun _ hqueue ↦ ?_) (fun hqc ↦ ?_) fun hqc ht ↦ ?_
      · refine (Nucleus.store_ne s _ (devSem_ne_bus i (commandAddr_bus i))).trans ?_
        exact hdown i hqueue
      · exact (hother hqc).still rfl rfl rfl
      · obtain ⟨hcontext, hwaiting⟩ := hsem hqc _ (by decide) ht
        exact ⟨hcontext, hwaiting.trans (iff_of_true rfl ⟨i, rfl⟩)⟩
  | getTime =>
      refine .resumed hc fun _ ↦ hk.still rfl ?_ ?_
      · exact (Quiet.charge cfg c s).semAdd
      · exact Nucleus.charge_saved cfg c s
  | clockWait hcall' =>
      have hno : ¬ ∃ i, cfg.semaphore_it = cfg.devSem i := fun ⟨i, hi⟩ ↦ devSem_ne_it i hi.symm
      have hcount : Core { s with softblocked_count := s.softblocked_count + 1 } (c :: held) :=
        hs.quiet ⟨fun _ ↦ rfl, rfl⟩
      refine SemCall.goes hcount hc hcall' he (fun hdev ↦ absurd hdev hno) (fun hqc ↦ ?_)
        fun hqc ht ↦ ?_
      · exact (hother hqc).still rfl rfl rfl
      · obtain ⟨hcontext, hwaiting⟩ := hsem hqc _ (by decide) ht
        exact ⟨hcontext, hwaiting.trans (iff_of_false (by decide) hno)⟩
  | getSupportPtr => exact .resumed hc fun _ ↦ hk.still rfl rfl rfl
  | getProcessId => exact .resumed hc fun _ ↦ hk.still rfl rfl rfl
  | yield hnext => exact absurd rfl hcode
  | invalid hcode hend =>
      have hk' : Kept cfg s.invalidated q d := hk.still rfl rfl rfl
      exact hend.goes hc he hk'

/-! ## The interrupts -/

theorem preempted_kept (hs : Core s (c :: held)) (hother : q ≠ c → Kept cfg s q d)
    (hself : q = c → d.context = s.prev ∧ ¬ d.Waiting) : Kept cfg (s.preempted cfg c) q d := by
  set u := ((startPLT s).saveState c s.prev).charge cfg c with hu
  have hsaved : ∀ q, u.saved q = if q = c then s.prev else s.saved q := fun q ↦ by
    rw [hu, Nucleus.charge_saved, Nucleus.saveState_saved]
    rfl
  have hstart : Quiet s (startPLT s) := ⟨fun _ ↦ rfl, rfl⟩
  have hquiet : Quiet s u := (hstart.trans (.saveState c s.prev _)).trans (.charge cfg c _)
  have hwake : Kept cfg (u.wake c) q d := by
    by_cases hqc : q = c
    · subst hqc
      obtain ⟨hcontext, hwaiting⟩ := hself rfl
      refine .wake ?_ ((hsaved q).trans ((if_pos rfl).trans hcontext.symm)) hwaiting
      rw [Nucleus.wake_semAdd, hquiet.semAdd]
      exact (hs.of_held List.mem_cons_self).2.2.1
    · refine Kept.wake_ne ((hother hqc).frame (fun pr ↦ ?_) (fun k ↦ ?_) ?_) hqc
      · rw [hquiet.readyQueue]
        exact id
      · rw [hquiet.semAdd]
        exact id
      · exact (hsaved q).trans (if_neg hqc)
  exact hwake.still rfl rfl rfl

/-- The loop over the waiters of the clock. -/
theorem wakeClocks_queue {l : List (Fin n)} {pr : Prio}
    (h : q ∈ (l.foldl (fun s p ↦ s.wakeClock k p) s).readyQueue pr) :
    q ∈ l ∨ q ∈ s.readyQueue pr := by
  rw [(Nucleus.wakeClocks_ready k l s).1] at h
  rcases List.mem_append.mp h with hmem | hl
  · exact .inr hmem
  · exact .inl (List.mem_of_mem_filter (List.mem_of_mem_filter hl))

variable (cfg) in
theorem ticked_curr (l : List (Fin n)) (s : Nucleus n) :
    (s.ticked cfg l).curr_process = s.curr_process :=
  (Nucleus.wakeClocks_ready cfg.semaphore_it l s).2.2.2.1

theorem ticked_kept {l : List (Fin n)} (hs : s.asl.Inv s.semAdd)
    (hl : s.asl.queue cfg.semaphore_it = l) (hk : Kept cfg s q d) :
    Kept cfg (s.ticked cfg l) q d := by
  have hsem := (ticked_sems hs hl).semAdd
  have hsaved := congrFun (Nucleus.ticked_saved cfg l s) q
  have hqueue : ∀ {pr}, q ∈ (s.ticked cfg l).readyQueue pr → q ∈ l ∨ q ∈ s.readyQueue pr :=
    fun {pr} hmem ↦ wakeClocks_queue (k := cfg.semaphore_it) (by cases pr <;> exact hmem)
  by_cases hql : q ∈ l
  · -- it was blocked on the clock, which is no device
    have hblocked : s.semAdd q = some cfg.semaphore_it := hs.mem_queue.mp (by rw [hl]; exact hql)
    obtain ⟨hcontext, hwaiting⟩ := hk.blocked _ hblocked
    refine ⟨fun pr _ ↦ ?_, fun k hk' ↦ ?_⟩
    · rw [hsaved]
      refine ⟨hcontext, fun hd ↦ ?_⟩
      obtain ⟨i, hi⟩ := hwaiting.mp hd
      exact devSem_ne_it i hi.symm
    · rw [hsem, if_pos hql] at hk'
      cases hk'
  · refine hk.frame (fun pr hmem ↦ (hqueue hmem).resolve_left hql) (fun k hk' ↦ ?_) hsaved
    rwa [hsem, if_neg hql] at hk'

theorem DeviceReturn.curr {i : Fin TOTAL_IO_DEVICES} (h : DeviceReturn cfg i s u) :
    u.curr_process = s.curr_process := by
  cases h with
  | wake p rest hv hqueue hp => exact Nucleus.makeReady_curr p _
  | drop p rest hv hqueue hp => rfl
  | late hv hqueue hnull => rfl

theorem DeviceReturn.kept {i : Fin TOTAL_IO_DEVICES} (hs : s.asl.Inv s.semAdd)
    (h : DeviceReturn cfg i s u) (hk : Kept cfg s q d) :
    Kept cfg u q (if (s.asl.queue (cfg.devSem i)).head? = some q ∧ s.pid q ≠ FREE_PCB_PID then
      d.answer (s.mem (statusAddr i)) else d) := by
  have hblocked : ∀ {p rest}, s.asl.queue (cfg.devSem i) = p :: rest →
      s.semAdd p = some (cfg.devSem i) := fun hqueue ↦
    hs.mem_queue.mp (by rw [hqueue]; exact List.mem_cons_self)
  cases h with
  | wake p rest hv hqueue hp =>
      have hsem : ∀ q, (s.answered cfg i p).semAdd q = if q = p then none else s.semAdd q :=
        fun q ↦ (congrFun (sems_semAdd (answered_sems cfg i p s)) q).trans
          (congrFun (Nucleus.unblock_semAdd (cfg.devSem i) p
            (s := s.store (commandAddr i) ACK)) q)
      by_cases hqp : q = p
      · subst hqp
        obtain ⟨hcontext, hwaiting⟩ := hk.blocked _ (hblocked hqueue)
        obtain ⟨x, rfl⟩ := hwaiting.mpr ⟨i, rfl⟩
        rw [hqueue, List.head?_cons, if_pos ⟨rfl, hp⟩]
        refine ⟨fun pr _ ↦ ⟨?_, fun ⟨y, hy⟩ ↦ nomatch hy⟩, fun k hk' ↦ ?_⟩
        · rw [Nucleus.answered_saved, if_pos rfl, hcontext]
          rfl
        · rw [hsem, if_pos rfl] at hk'
          cases hk'
      · have hne : ¬ ((s.asl.queue (cfg.devSem i)).head? = some q ∧ s.pid q ≠ FREE_PCB_PID) := by
          rw [hqueue, List.head?_cons]
          exact fun h ↦ hqp (Option.some.inj h.1).symm
        rw [if_neg hne]
        refine hk.frame (fun pr hmem ↦ ?_) (fun k hk' ↦ ?_) ?_
        · have hready : q ∈ (((s.store (commandAddr i) ACK).unblock (cfg.devSem i) p).makeReady
              p).readyQueue pr := by cases pr <;> exact hmem
          have := (makeReady_queue hready).resolve_left hqp
          cases pr <;> exact this
        · rwa [hsem, if_neg hqp] at hk'
        · rw [Nucleus.answered_saved, if_neg hqp]
  | drop p rest hv hqueue hp =>
      have hne : ¬ ((s.asl.queue (cfg.devSem i)).head? = some q ∧ s.pid q ≠ FREE_PCB_PID) := by
        rintro ⟨hhead, hq⟩
        rw [hqueue, List.head?_cons] at hhead
        exact hq (Option.some.inj hhead ▸ hp)
      rw [if_neg hne]
      have hack : Kept cfg (s.store (commandAddr i) ACK) q d := hk.still rfl rfl rfl
      by_cases hqp : q = p
      · subst hqp
        refine hack.frame (fun pr hmem ↦ by cases pr <;> exact hmem) (fun k hk' ↦ ?_)
          (congrFun (Nucleus.unblock_saved _ q _) q)
        rw [Nucleus.unblock_semAdd] at hk'
        simp only [if_pos] at hk'
        cases hk'
      · exact hack.unblock_ne hqp
  | late hv hqueue hnull =>
      have hne : ¬ ((s.asl.queue (cfg.devSem i)).head? = some q ∧ s.pid q ≠ FREE_PCB_PID) := by
        rw [hqueue]
        exact fun h ↦ nomatch h.1
      rw [if_neg hne]
      exact hk.still rfl rfl rfl

theorem interrupted_kept (h : Kept cfg s q d) : Kept cfg (s.interrupted cfg) q d := by
  have hquiet := Quiet.interrupted cfg s
  exact h.still (funext hquiet.readyQueue) hquiet.semAdd (Nucleus.interrupted_saved cfg s)

/-- An interrupt of the local timer takes the processor from the current process. -/
theorem preempts_run {state : State} (h : Preempts state) (he : e ≠ .nullDeref)
    (hrun : exceptionHandler cfg (enter state s) = .error e t) :
    ∃ c, s.curr_process = some c ∧
      Scheduled cfg (((enter state s).interrupted cfg).preempted cfg c) e t := by
  obtain ⟨hcode, hplt⟩ := h
  have hcurr : ((enter state s).interrupted cfg).curr_process = s.curr_process :=
    interrupted_curr (enter state s)
  rw [exceptionHandler_interrupt (s := enter state s) hcode, interruptHandler_run,
    if_pos (show (enter state s).pending &&& LOCALTIMERINT ≠ 0 from hplt)] at hrun
  cases hc : s.curr_process with
  | none =>
      rw [pltHandler_none (hcurr.trans hc)] at hrun
      cases hrun
      exact absurd rfl he
  | some c =>
      obtain ⟨e', t', hrun', hnext⟩ := pltHandler_run cfg (hcurr.trans hc)
      rw [hrun'] at hrun
      cases hrun
      exact ⟨c, rfl, hnext⟩

/-! ## Those who wait for a device -/

/-- A DOIO blocks or raises a semaphore nobody waits at, and a completion raises it only
when nobody is left. -/
theorem SemStep.devicesDown (hs : Core s (s.curr_process.toList ++ held))
    (hlaw : (Action.exception s.prev).Lawful cfg) (hdown : DevicesDown cfg s)
    (h : SemStep cfg s t) : DevicesDown cfg t := by
  intro i hqueue
  have hbus : ∀ j (s : Nucleus n), (s.store (commandAddr j) ACK).mem (cfg.devSem i) =
      s.mem (cfg.devSem i) :=
    fun j s ↦ Nucleus.store_ne s _ (devSem_ne_bus i (commandAddr_bus j))
  have hidle : ∀ {c}, s.curr_process = some c → s.semAdd c = none := fun hc ↦ by
    rw [hc] at hs
    exact (hs.of_held List.mem_cons_self).2.2.1
  -- an operation on another semaphore
  have hmove : ∀ {full k c} {u : Nucleus n}, SemMove full k c u t → u.asl = s.asl →
      u.semAdd = s.semAdd → u.mem (cfg.devSem i) = s.mem (cfg.devSem i) →
      s.curr_process = some c → k ≠ cfg.devSem i → t.mem (cfg.devSem i) = 0 := by
    intro full k c u h hasl hsem hmem hc hk
    have hinv : u.asl.Inv u.semAdd := by rw [hasl, hsem]; exact hs.asl
    have hsame := h.queue_ne hinv (by rw [hsem]; exact hidle hc) hk.symm
    by_cases hword : t.mem (cfg.devSem i) = u.mem (cfg.devSem i)
    · rw [hword, hmem]
      refine hdown i ?_
      rwa [hsame, hasl] at hqueue
    · exact absurd (h.mem hword).1.symm hk
  cases h with
  | still hcall h =>
      rw [sems_asl h] at hqueue
      rw [sems_mem h]
      exact hdown i hqueue
  | passeren c hc hcall h =>
      exact hmove h rfl rfl rfl hc fun hk ↦ hlaw (.inl hcall) (hk ▸ owned_devSem i)
  | verhogen c hc hcall h =>
      exact hmove h rfl rfl rfl hc fun hk ↦ hlaw (.inr hcall) (hk ▸ owned_devSem i)
  | doIo c j hc hcall hj h =>
      have hissue : (s.issue j).mem (cfg.devSem i) = s.mem (cfg.devSem i) :=
        Nucleus.store_ne s _ (devSem_ne_bus i (commandAddr_bus j))
      by_cases hij : j = i
      · subst hij
        by_cases hword : t.mem (cfg.devSem j) = (s.issue j).mem (cfg.devSem j)
        · cases h with
          | block hfull h => exact hword.trans hfull
          | release p rest hfull hqueue' h hfree =>
              refine absurd (hdown j ?_) (by rwa [← hissue])
              rw [show s.asl.queue (cfg.devSem j) = p :: rest from hqueue']
              exact List.cons_ne_nil p rest
          | write hfull hqueue' h =>
              rw [sems_asl h] at hqueue
              exact absurd hqueue' hqueue
        · exact (h.mem hword).2
      · exact hmove h rfl rfl hissue hc fun hk ↦ hij (devSem_injective hk)
  | clockWait c hc hcall h => exact hmove h rfl rfl rfl hc (devSem_ne_it i).symm
  | kill K hcall h =>
      rw [h.queue] at hqueue
      rw [h.mem]
      refine hdown i fun hnil ↦ hqueue ?_
      rw [hnil]
      rfl
  | tick l hcall h =>
      rw [h.queue, if_neg (devSem_ne_it i)] at hqueue
      rw [h.mem, if_neg (devSem_ne_it i)]
      exact hdown i hqueue
  | device j hcode hj h =>
      by_cases hij : i = j
      · subst hij
        cases h with
        | wake p rest hv hqueue' hp h =>
            rw [congrFun (sems_mem h) _]
            refine (hbus i s).trans (hdown i ?_)
            rw [hqueue']
            exact List.cons_ne_nil p rest
        | drop p rest hv hqueue' hp h =>
            rw [congrFun (sems_mem h) _]
            refine (hbus i s).trans (hdown i ?_)
            rw [hqueue']
            exact List.cons_ne_nil p rest
        | late hv hqueue' hnull h =>
            rw [sems_asl h] at hqueue
            exact absurd hqueue' hqueue
      · have hne : cfg.devSem i ≠ cfg.devSem j := fun hk ↦ hij (devSem_injective hk)
        rw [h.queue_ne hs.asl hne] at hqueue
        have hword : t.mem (cfg.devSem i) = s.mem (cfg.devSem i) := by
          cases h with
          | wake p rest hv hqueue' hp h => exact (congrFun (sems_mem h) _).trans (hbus j s)
          | drop p rest hv hqueue' hp h => exact (congrFun (sems_mem h) _).trans (hbus j s)
          | late hv hqueue' hnull h =>
              refine (congrFun (sems_mem h) _).trans ?_
              exact (Nucleus.store_ne _ _ hne).trans (hbus j s)
        rw [hword]
        exact hdown i hqueue

theorem NucStep.devicesDown {a : Action} (hs : Inv cfg s) (hdown : DevicesDown cfg s)
    (h : NucStep cfg s a t) : DevicesDown cfg t := by
  obtain ⟨hstep, hlaw⟩ := h
  cases a with
  | store b v =>
      simp only [step, Option.ite_none_left_eq_some, Option.some.injEq] at hstep
      obtain ⟨hown, rfl⟩ := hstep
      intro i hqueue
      have hne : cfg.devSem i ≠ b := fun hb ↦ hown (hb ▸ owned_devSem i)
      exact (Nucleus.store_ne s v hne).trans (hdown i hqueue)
  | support b x =>
      simp only [step, Option.some.injEq] at hstep
      subst hstep
      exact hdown
  | exception state =>
      obtain ⟨e, -, -, hend⟩ := step_handled hs hstep
      obtain ⟨lost, -, hsound⟩ := hs
      have hcore : Core (enter state s) ((enter state s).curr_process.toList ++ lost) :=
        hsound.core.quiet (.enter state s)
      exact (hend.semStep hcore).devicesDown hcore hlaw hdown

/-! ## The records -/

theorem leave_called {state : State} (hp : ¬ Preempts state) (hcall : ¬ IsCall state YIELD)
    (hcode : ∀ code ∈ semCodes, ¬ IsCall state code) (t : Nucleus n) (c : Fin n) (d : Departure) :
    leave state t c d = d := by
  have hpv : ¬ (IsCall state PASSEREN ∨ IsCall state VERHOGEN ∨ IsCall state CLOCKWAIT) := by
    rintro (h | h | h)
    · exact hcode _ (by decide) h
    · exact hcode _ (by decide) h
    · exact hcode _ (by decide) h
  rw [leave, if_neg hp, if_neg hcall, if_neg fun h ↦ hcode DOIO (by decide) h.1,
    if_neg fun h ↦ hpv h.1]

/-- The record of a process other than the caller of a system call, unless it is made by
it. -/
theorem depart_ne {state : State} (hcode : excCode state.cause ≠ 0)
    (hq : s.curr_process ≠ some q)
    (hold : ¬ (IsCall state CREATEPROCESS ∧ q ∈ s.pcbFree_h ∧ q ∉ t.pcbFree_h))
    (g : Fin n → Departure) : depart cfg s (.exception state) t g q = g q := by
  rw [depart, if_neg hq, if_neg hold, answers]
  cases (enter state s).served with
  | none => rfl
  | some i => exact if_neg fun h ↦ hcode h.1

theorem IsCall.not_preempts {state : State} {code : Int} (h : IsCall state code) :
    ¬ Preempts state := fun hp ↦ h.excCode_ne hp.1

/-- The state of the caller of a system call is recorded past the call. -/
theorem leave_sem {state : State} {code : Int} (hcall : IsCall state code)
    (hcode : code ∈ semCodes) (ht : t.semAdd c = some k) (d : Departure) :
    (leave state t c d).context = state.returned ∧ ((leave state t c d).Waiting ↔ code = DOIO) := by
  have hyield : ¬ IsCall state YIELD := fun h ↦ by
    rw [hcall.code h] at hcode
    revert hcode
    decide
  have hblocked : (t.semAdd c).isSome := by rw [ht]; rfl
  rw [leave, if_neg hcall.not_preempts, if_neg hyield]
  by_cases hio : code = DOIO
  · subst hio
    rw [if_pos ⟨hcall, hblocked⟩]
    exact ⟨rfl, iff_of_true ⟨state, rfl⟩ rfl⟩
  · have hpv : IsCall state PASSEREN ∨ IsCall state VERHOGEN ∨ IsCall state CLOCKWAIT := by
      simp only [semCodes, List.mem_cons, List.not_mem_nil, or_false] at hcode
      rcases hcode with rfl | rfl | rfl | rfl
      · exact .inl hcall
      · exact .inr (.inl hcall)
      · exact absurd rfl hio
      · exact .inr (.inr hcall)
    rw [if_neg fun h ↦ hio (hcall.code h.1), if_pos ⟨hpv, hblocked⟩]
    exact ⟨rfl, iff_of_false (fun ⟨x, hx⟩ ↦ nomatch hx) hio⟩

/-- The records are right about the processes that are ready or blocked. -/
structure Recorded (cfg : Config n) (s : Nucleus n) (g : Fin n → Departure) : Prop where
  inv : Inv cfg s
  down : DevicesDown cfg s
  kept : ∀ q, Kept cfg s q (g q)

variable {g : Fin n → Departure} {state : State}

/-- The local timer preempts the current process. -/
theorem Recorded.preempted (h : Recorded cfg s g) (hp : Preempts state) (he : e.Completed)
    (hrun : exceptionHandler cfg (enter state s) = .error e t) :
    ∃ u, Scheduled cfg u e t ∧ ∀ q, Kept cfg u q (depart cfg s (.exception state) t g q) := by
  obtain ⟨c, hc, hnext⟩ := preempts_run hp he.ne_nullDeref hrun
  refine ⟨_, hnext, fun q ↦ ?_⟩
  have hcurr : ((enter state s).interrupted cfg).curr_process = some c :=
    (interrupted_curr (enter state s)).trans hc
  obtain ⟨lost, -, hsound⟩ := h.inv
  have hcore : Core ((enter state s).interrupted cfg) (c :: lost) := by
    rw [hc] at hsound
    exact (hsound.core.quiet (.enter state s)).quiet (.interrupted cfg _)
  have hserved : (enter state s).served = none := if_pos (.inl hp.2)
  have hprev : ((enter state s).interrupted cfg).prev = state := by
    unfold Nucleus.interrupted
    cases (enter state s).curr_process <;> rfl
  refine preempted_kept hcore (fun hqc ↦ ?_) fun hqc ↦ ?_
  · have hq : s.curr_process ≠ some q := fun hq ↦ hqc (Option.some.inj (hq.symm.trans hc))
    have hsame : depart cfg s (.exception state) t g q = g q := by
      rw [depart, if_neg hq, if_neg fun h ↦ h.1.excCode_ne hp.1, answers, hserved]
    rw [hsame]
    exact interrupted_kept ((h.kept q).still rfl rfl rfl)
  · subst hqc
    rw [depart, if_pos hc, leave, if_pos hp, hprev]
    exact ⟨rfl, fun ⟨x, hx⟩ ↦ nomatch hx⟩

/-- The other interrupts. -/
theorem Recorded.interrupted (h : Recorded cfg s g) (hp : ¬ Preempts state)
    (hcode : excCode state.cause = 0) (he : e ≠ .halt)
    (hend : Interrupted cfg ((enter state s).interrupted cfg) e t) :
    Goes cfg s.curr_process e t q (depart cfg s (.exception state) t g q) := by
  have hk : Kept cfg ((enter state s).interrupted cfg) q (g q) :=
    interrupted_kept ((h.kept q).still rfl rfl rfl)
  have hcurr : ((enter state s).interrupted cfg).curr_process = s.curr_process :=
    interrupted_curr (enter state s)
  have hasl : ((enter state s).interrupted cfg).asl.Inv
      ((enter state s).interrupted cfg).semAdd := by
    obtain ⟨lost, -, hsound⟩ := h.inv
    exact ((hsound.core.quiet (.enter state s)).quiet (.interrupted cfg _)).asl
  -- the current process is resumed; nothing else is asked of its record
  have hgoes : ∀ {u : Nucleus n} {live : Prop}, Finished cfg u live e t →
      u.curr_process = s.curr_process → (live ↔ u.curr_process ≠ none) →
      Kept cfg u q (answers cfg (enter state s) q (g q)) →
      Goes cfg s.curr_process e t q (depart cfg s (.exception state) t g q) := by
    intro u live hend hu hlive hku
    by_cases hc : s.curr_process = some q
    · cases hend with
      | resume => exact .resumed hu fun hne ↦ absurd hc hne
      | schedule hdead hnext =>
          refine absurd (hlive.mpr ?_) hdead
          rw [hu, hc]
          exact Option.some_ne_none q
    · rw [depart, if_neg hc, if_neg fun h ↦ h.1.excCode_ne hcode]
      exact hend.goes he hu hku
  cases hend with
  | plt c hc hip hnext =>
      rw [interrupted_pending] at hip
      exact absurd ⟨hcode, hip⟩ hp
  | clock l hl hip hend =>
      rw [interrupted_pending] at hip
      have hserved : (enter state s).served = .none := if_pos (.inr hip)
      refine hgoes hend ((ticked_curr cfg l _).trans hcurr) Iff.rfl ?_
      rw [answers, hserved]
      exact (ticked_kept hasl hl hk).still rfl rfl rfl
  | device i u hi hret hend =>
      rw [interrupted_served] at hi
      have hmem : ((enter state s).interrupted cfg).mem = (enter state s).mem := interrupted_mem _
      have hqueue : ((enter state s).interrupted cfg).asl = (enter state s).asl :=
        (Quiet.interrupted cfg (enter state s)).asl
      have hpid : ((enter state s).interrupted cfg).pid = (enter state s).pid :=
        (Quiet.interrupted cfg (enter state s)).pid
      have hkept := hret.kept hasl hk
      rw [hmem, hqueue, hpid] at hkept
      refine hgoes hend (hret.curr.trans hcurr) Iff.rfl (Kept.still (s := u) ?_ rfl rfl rfl)
      have hcode' : excCode (enter state s).prev.cause = 0 := hcode
      rw [answers, hi]
      simpa only [hcode', true_and] using hkept
  | none hi hend =>
      rw [interrupted_served] at hi
      refine hgoes hend hcurr Iff.rfl ?_
      rw [answers, hi]
      exact hk.still rfl rfl rfl

/-- The exceptions of the current process. -/
theorem Recorded.called (h : Recorded cfg s g) (hlaw : (Action.exception state).Lawful cfg)
    (hyield : ¬ IsCall state YIELD) (he : e ≠ .halt) (hcode : excCode state.cause ≠ 0)
    (hend : Handled cfg (enter state s) e t) :
    Goes cfg s.curr_process e t q (depart cfg s (.exception state) t g q) := by
  have hk : Kept cfg (enter state s) q (g q) := (h.kept q).still rfl rfl rfl
  obtain ⟨lost, -, hsound⟩ := h.inv
  -- what is neither a call nor an interrupt leaves the records alone
  have hup : ∀ {c i u}, s.curr_process = some c → (∀ code ∈ syscallCodes, ¬ IsCall state code) →
      u.readyQueue = s.readyQueue → u.semAdd = s.semAdd → u.saved = s.saved →
      u.curr_process = s.curr_process → PassedUp cfg i c u e t →
      Goes cfg s.curr_process e t q (depart cfg s (.exception state) t g q) := by
    intro c i u hc hcall hready hsem hsaved hcurr hend
    have hsame : depart cfg s (.exception state) t g q = g q := by
      by_cases hq : s.curr_process = some q
      · rw [depart, if_pos hq]
        exact leave_called (fun h ↦ hcode h.1) hyield
          (fun code hmem ↦ hcall code (semCodes_subset hmem)) t q (g q)
      · exact depart_ne hcode hq (fun h ↦ hcall CREATEPROCESS (by decide) h.1) g
    rw [hsame, hc]
    exact hend.goes (hcurr.trans hc) he ((h.kept q).still hready hsem hsaved)
  cases hend with
  | interrupt hcode' hend => exact absurd hcode' hcode
  | call c code hc hcall hend =>
      have hc' : s.curr_process = some c := hc
      rw [hc'] at hsound ⊢
      have hcore : Core (enter state s).advanced (c :: lost) := hsound.core.quiet ⟨fun _ ↦ rfl, rfl⟩
      have hfree : c ∉ s.pcbFree_h := (hcore.of_held List.mem_cons_self).1
      have hcall' : IsCall state code := hcall
      refine Called.goes hcore hc' hend he hcall ?_ (fun i ↦ h.down i) hlaw (fun hqc ↦ ?_) ?_ ?_
      · rintro rfl
        exact hyield hcall'
      · have hq : s.curr_process ≠ some q := fun hq ↦ hqc (Option.some.inj (hq.symm.trans hc'))
        by_cases hnew : IsCall state CREATEPROCESS ∧ q ∈ s.pcbFree_h ∧ q ∉ t.pcbFree_h
        · -- a free PCB is in no queue
          refine .nowhere (fun pr hmem ↦ ?_) (hcore.semAdd_free hnew.2.1)
          exact (hcore.of_ready hmem).1 hnew.2.1
        · rw [depart_ne hcode hq hnew]
          exact (h.kept q).still rfl rfl rfl
      · rintro rfl k hmem ht
        rw [depart, if_pos hc']
        exact leave_sem hcall' hmem ht (g q)
      · rintro rfl hq ht
        have hqc : s.curr_process ≠ some q := by
          rw [hc']
          rintro hqc
          exact hfree (Option.some.inj hqc ▸ hq)
        rw [depart, if_neg hqc, if_pos ⟨hcall', hq, ht⟩]
        rfl
  | passUp c i hc hcall hcode' hend =>
      exact hup (u := enter state s) hc hcall rfl rfl rfl rfl hend
  | trap c hc hcall hcode' hend =>
      exact hup (u := (enter state s).invalidated) hc hcall rfl rfl rfl rfl hend

/-- YIELD. -/
theorem Recorded.yielded (h : Recorded cfg s g) (hcall : IsCall state YIELD)
    (hend : Handled cfg (enter state s) e t) :
    ∃ u, Scheduled cfg u e t ∧ Kept cfg u q (depart cfg s (.exception state) t g q) := by
  have hmem : YIELD ∈ syscallCodes := by decide
  cases hend with
  | interrupt hcode hend => exact absurd hcode hcall.excCode_ne
  | call c code hc hcall' hend =>
      obtain rfl : code = YIELD := hcall'.code hcall
      obtain ⟨lost, -, hsound⟩ := h.inv
      have hc' : s.curr_process = some c := hc
      rw [hc'] at hsound
      have hcore : Core (enter state s).advanced (c :: lost) := hsound.core.quiet ⟨fun _ ↦ rfl, rfl⟩
      cases hend with
      | yield hnext =>
          refine ⟨_, hnext, yielded_kept hcore (fun hqc ↦ ?_) fun hqc ↦ ?_⟩
          · have hq : s.curr_process ≠ some q := fun hq ↦ hqc (Option.some.inj (hq.symm.trans hc'))
            have hne : ¬ IsCall state CREATEPROCESS := fun h ↦ by cases hcall.code h
            rw [depart_ne hcall.excCode_ne hq fun h ↦ hne h.1]
            exact (h.kept q).still rfl rfl rfl
          · rw [hqc, depart, if_pos hc', leave, if_neg hcall.not_preempts, if_pos hcall]
            exact ⟨rfl, fun ⟨x, hx⟩ ↦ nomatch hx⟩
      | invalid hcode hend => exact absurd hmem hcode
  | passUp c i hc hcall' hcode hend => exact absurd hcall (hcall' _ hmem)
  | trap c hc hcall' hcode hend => exact absurd hcall (hcall' _ hmem)

/-- The process is dispatched by the kernel run for this exception: it has become current,
or had given up the processor. -/
def Dispatched (s : Nucleus n) (state : State) (t : Nucleus n) (p : Fin n) : Prop :=
  t.curr_process = some p ∧ (s.curr_process = some p → IsCall state YIELD ∨ Preempts state)

/-- A process is dispatched with the state to go on with. -/
theorem Recorded.goes (h : Recorded cfg s g) (hstep : NucStep cfg s (.exception state) t)
    (he : e.Completed) (hrun : exceptionHandler cfg (enter state s) = .error e t)
    (hend : Handled cfg (enter state s) e t) (q : Fin n) :
    Goes cfg (if IsCall state YIELD ∨ Preempts state then none else s.curr_process) e t q
      (depart cfg s (.exception state) t g q) := by
  by_cases hp : Preempts state
  · obtain ⟨u, hnext, hkept⟩ := h.preempted (t := t) hp he hrun
    exact hnext.goes he.ne_halt (hkept q) _
  by_cases hy : IsCall state YIELD
  · obtain ⟨u, hnext, hkept⟩ := h.yielded (q := q) hy hend
    exact hnext.goes he.ne_halt hkept _
  rw [if_neg (not_or.mpr ⟨hy, hp⟩)]
  by_cases hcode : excCode state.cause = 0
  · cases hend with
    | interrupt hcode' hend => exact h.interrupted hp hcode he.ne_halt hend
    | call c code hc hcall hend => exact absurd hcode hcall.excCode_ne
    | passUp c i hc hcall hcode' hend => exact absurd hcode hcode'
    | trap c hc hcall hcode' hend => exact absurd hcode hcode'
  · exact h.called hstep.2 hy he.ne_halt hcode hend

/-! ## Every run -/

theorem NucStep.recorded {a : Action} (h : Recorded cfg s g) (hstep : NucStep cfg s a t) :
    Recorded cfg t (depart cfg s a t g) := by
  have hinv := hstep.inv h.inv
  refine ⟨hinv, hstep.devicesDown h.inv h.down, fun q ↦ ?_⟩
  cases a with
  | store b v =>
      have hstep' := hstep.1
      simp only [step, Option.ite_none_left_eq_some, Option.some.injEq] at hstep'
      obtain ⟨-, rfl⟩ := hstep'
      exact (h.kept q).still rfl rfl rfl
  | support b x =>
      have hstep' := hstep.1
      simp only [step, Option.some.injEq] at hstep'
      subst hstep'
      exact (h.kept q).still rfl rfl rfl
  | exception state =>
      obtain ⟨lost, -, hsound⟩ := hinv
      obtain ⟨e, hdone, hrun, hend⟩ := step_handled h.inv hstep.1
      by_cases hq : t.curr_process = some q
      · exact .current hsound.core hq
      · exact (h.goes hstep hdone hrun hend q).kept hq

/-- After `main` no process but the current one is there. -/
theorem Start.recorded (h : Start cfg s) (g : Fin n → Departure) : Recorded cfg s g := by
  obtain ⟨mem, support, p, rest, e, hmem, hfree, hdone, hend⟩ := h.scheduled
  have hsem : ∀ q, s.semAdd q = none := fun q ↦ by
    rw [sems_semAdd hend.sems.1]
    exact (first_sound hmem hfree).2 q
  have hinv := h.inv
  refine ⟨hinv, fun i hqueue ↦ ?_, fun q ↦ ?_⟩
  · obtain ⟨q, hq⟩ := List.exists_mem_of_ne_nil _ hqueue
    cases (hsem q).symm.trans (hinv.asl.mem_queue.mp hq)
  · obtain ⟨lost, -, hsound⟩ := hinv
    by_cases hq : s.curr_process = some q
    · exact .current hsound.core hq
    refine .nowhere (fun pr hmem' ↦ ?_) (hsem q)
    have hready : ∀ pr r, r ∈ ((Nucleus.initial cfg mem support).first cfg p rest).readyQueue pr →
        r = p := by
      rintro (_ | _) r hr
      · exact List.mem_singleton.mp hr
      · cases hr
    obtain rfl : q = p := hready pr q (hend.readyQueue pr hmem')
    -- the only process is dispatched
    cases hend with
    | halt => exact hdone.ne_halt rfl
    | wait hcount hhigh hlow => exact absurd hlow (List.append_ne_nil_of_right_ne_nil _ (by simp))
    | deadlock hcount hhigh hlow =>
        exact absurd hlow (List.append_ne_nil_of_right_ne_nil _ (by simp))
    | dispatch r prio rest' hcount hnext hqueue =>
        obtain rfl : r = q := hready prio r (by rw [hqueue]; exact List.mem_cons_self)
        exact hq (Nucleus.dispatch_curr cfg r prio rest' _)

theorem run_recorded {g₀ : Fin n → Departure} {as : List Action} (hs : Start cfg s)
    (hrun : Run (WithHistory (NucStep cfg) (depart cfg)) (s, g₀) as (t, g)) : Recorded cfg t g :=
  hrun.invariant (I := fun x ↦ Recorded cfg x.1 x.2) (fun x a y hx hstep ↦ by
    obtain ⟨hstep, hg⟩ := hstep
    rw [hg]
    exact hstep.recorded hx) (hs.recorded g₀)

variable (cfg) in
/-- In every run of the nucleus, a process that the scheduler dispatches is loaded with the
state it left the processor with, or was created with: past its system call, with the
status of the device if the call was a DOIO, which has been answered by then, and with the
local timer enabled or not after its priority. -/
theorem dispatch_context {s₀ : Nucleus n} {g₀ : Fin n → Departure} {as : List Action}
    (hs : Start cfg s₀) (hrun : Run (WithHistory (NucStep cfg) (depart cfg)) (s₀, g₀) as (s, g))
    (hstep : NucStep cfg s (.exception state) t) (hp : Dispatched s state t p) :
    exceptionHandler cfg (enter state s) =
        .error (.ldst (State.loaded (t.prio p) (depart cfg s (.exception state) t g p).context)) t ∧
      ¬ (depart cfg s (.exception state) t g p).Waiting := by
  have hrec := run_recorded hs hrun
  obtain ⟨e, hdone, hnext, hend⟩ := step_handled hrec.inv hstep.1
  obtain ⟨he, hwaiting⟩ := (hrec.goes hstep hdone hnext hend p).loaded hp.1 <| by
    split
    · exact fun h ↦ nomatch h
    · next hstay => exact fun hc ↦ hstay (hp.2 hc)
  rw [hnext, he]
  exact ⟨rfl, hwaiting⟩

/-- The first process creates a child and yields to it: the child is loaded with the state
it was created with. -/
theorem dispatch_context_sample :
    ∃ s t : Nucleus 2, exceptionHandler (.sample 2 (by decide) .faults)
      (enter (.call YIELD 0 0 0) s) =
        .error (.ldst (State.loaded (t.prio 1)
          ((Config.sample 2 (by decide) .faults).readState s.mem 0x20003000))) t := by
  let cfg := Config.sample 2 (by decide) .faults
  let a := Action.call CREATEPROCESS 0x20003000 1 0
  let state := State.call YIELD 0 0 0
  have hruns : ((firstState cfg).any fun s ↦ (step cfg s a).any fun t ↦
      (step cfg t (.exception state)).any fun u ↦ decide (s.curr_process = some 0 ∧
        1 ∈ s.pcbFree_h ∧ 1 ∉ t.pcbFree_h ∧ t.curr_process = some 0 ∧ u.curr_process = some 1)) =
      true := by decide +kernel
  obtain ⟨s, hs, hruns⟩ := (Option.any_eq_true _ _).mp hruns
  obtain ⟨t, ht, hruns⟩ := (Option.any_eq_true _ _).mp hruns
  obtain ⟨u, hu, hruns⟩ := (Option.any_eq_true _ _).mp hruns
  obtain ⟨hc, hfree, hnew, hc', hnext⟩ := of_decide_eq_true hruns
  have hlaw : a.Lawful cfg := by decide
  have hlaw' : (Action.exception state).Lawful cfg := by decide
  have hrun : Run (WithHistory (NucStep cfg) (depart cfg)) (s, fun _ ↦ .created state) [a]
      (t, depart cfg s a t fun _ ↦ .created state) := .snoc .nil ⟨⟨ht, hlaw⟩, rfl⟩
  have hne : ∀ {c : Option (Fin 2)}, c = some 0 → c ≠ some 1 := by
    rintro c rfl
    decide
  obtain ⟨hres, -⟩ := dispatch_context cfg (p := 1) (firstState_start hs) hrun ⟨hu, hlaw'⟩
    ⟨hnext, fun h ↦ absurd h (hne hc')⟩
  rw [depart_ne (by decide) (hne hc') (fun h ↦ absurd h.1 (by decide))] at hres
  have hmade : depart cfg s a t (fun _ ↦ .created state) 1 =
      .created (cfg.readState s.mem 0x20003000) := by
    change depart cfg s (.exception (State.call CREATEPROCESS 0x20003000 1 0)) t _ 1 = _
    rw [depart, if_neg (hne hc), if_pos ⟨by decide, hfree, hnew⟩]
    rfl
  rw [hmade] at hres
  exact ⟨t, u, hres⟩

end PandosPlus
