import PandosPlus.Phase2.Reach

/-!
# What a step does to the semaphores

Seen from the semaphores, the state of the nucleus is their words, the processes
blocked on them, and the number of soft-blocked processes.  Of all that a step does,
`SemStep` keeps what happens to these: one constructor for each way a step can change
them, and one for the steps that do not.
-/

namespace PandosPlus

variable {n : Nat}

/-- The part of the state the semaphores are made of. -/
def Nucleus.sems (s : Nucleus n) : (Word → Word) × Asl n × (Fin n → Option Word) × Word :=
  (s.mem, s.asl, s.semAdd, s.softblocked_count)

variable (cfg : Config n)

/-- What an operation on the semaphore at `k` does, called by `c`. -/
inductive SemMove (full k : Word) (c : Fin n) (s t : Nucleus n) : Prop
  | block (hfull : s.mem k = full) (h : t.sems = (s.block k c).sems)
  | release (p : Fin n) (rest : List (Fin n)) (hfull : s.mem k ≠ full)
      (hqueue : s.asl.queue k = p :: rest) (h : t.sems = (s.unblock k p).sems)
      (hfree : t.pcbFree_h = s.pcbFree_h)
  | write (hfull : s.mem k ≠ full) (hqueue : s.asl.queue k = [])
      (h : t.sems = (s.store k full).sems)

/-- The PCBs in `K` are taken out of the semaphores and freed. -/
structure Removed (K : List (Fin n)) (s t : Nucleus n) : Prop where
  nodup : K.Nodup
  alive : ∀ p ∈ K, p ∉ s.pcbFree_h
  free : ∀ p, p ∈ t.pcbFree_h ↔ p ∈ K ∨ p ∈ s.pcbFree_h
  mem : t.mem = s.mem
  queue : ∀ k, t.asl.queue k = (s.asl.queue k).filter (· ∉ K)
  semAdd : ∀ p, t.semAdd p = if p ∈ K then none else s.semAdd p
  soft : t.softblocked_count =
    s.softblocked_count - BitVec.ofNat 32 (K.countP fun p ↦ isSoftBlocked cfg p s)

/-- The processes in `l`, waiting for the clock, are released. -/
structure Ticked (l : List (Fin n)) (s t : Nucleus n) : Prop where
  waiters : s.asl.queue cfg.semaphore_it = l
  mem : ∀ k, t.mem k = if k = cfg.semaphore_it then 0 else s.mem k
  queue : ∀ k, t.asl.queue k = if k = cfg.semaphore_it then [] else s.asl.queue k
  semAdd : ∀ p, t.semAdd p = if p ∈ l then none else s.semAdd p
  soft : t.softblocked_count = s.softblocked_count - BitVec.ofNat 32 l.length

/-- What a step that serves the register `i` does. -/
inductive Completion (i : Fin TOTAL_IO_DEVICES) (s t : Nucleus n) : Prop
  | wake (p : Fin n) (rest : List (Fin n)) (hv : s.mem (cfg.devSem i) ≠ 1)
      (hqueue : s.asl.queue (cfg.devSem i) = p :: rest) (hp : s.pid p ≠ FREE_PCB_PID)
      (h : t.sems = { (s.store (commandAddr i) ACK).unblock (cfg.devSem i) p with
        softblocked_count := s.softblocked_count - 1 }.sems)
  | drop (p : Fin n) (rest : List (Fin n)) (hv : s.mem (cfg.devSem i) ≠ 1)
      (hqueue : s.asl.queue (cfg.devSem i) = p :: rest) (hp : s.pid p = FREE_PCB_PID)
      (h : t.sems = ((s.store (commandAddr i) ACK).unblock (cfg.devSem i) p).sems)
  | late (hv : s.mem (cfg.devSem i) ≠ 1) (hqueue : s.asl.queue (cfg.devSem i) = [])
      (hnull : cfg.nullRead = .dead)
      (h : t.sems = ((s.store (commandAddr i) ACK).store (cfg.devSem i) 1).sems)

/-- The codes of the calls that are operations on semaphores. -/
def semCodes : List Int := [PASSEREN, VERHOGEN, DOIO, CLOCKWAIT]

/-- The exception is no operation on a semaphore. -/
structure NoSemCall (s : Nucleus n) : Prop where
  call : ∀ code ∈ semCodes, ¬ IsCall s.prev code
  served : excCode s.prev.cause = 0 → s.served = none

/-- What a step does to the semaphores, from the state with the exception raised. -/
inductive SemStep (s t : Nucleus n) : Prop
  | still (hcall : NoSemCall s) (h : t.sems = s.sems)
  | passeren (c : Fin n) (hc : s.curr_process = some c) (hcall : IsCall s.prev PASSEREN)
      (hmove : SemMove 0 s.prev.reg_a1 c s t)
  | verhogen (c : Fin n) (hc : s.curr_process = some c) (hcall : IsCall s.prev VERHOGEN)
      (hmove : SemMove 1 s.prev.reg_a1 c s t)
  | doIo (c : Fin n) (i : Fin TOTAL_IO_DEVICES) (hc : s.curr_process = some c)
      (hcall : IsCall s.prev DOIO) (hi : s.prev.reg_a1 = commandAddr i)
      (hmove : SemMove 0 (cfg.devSem i) c (s.issue i) t)
  | clockWait (c : Fin n) (hc : s.curr_process = some c) (hcall : IsCall s.prev CLOCKWAIT)
      (hmove : SemMove 0 cfg.semaphore_it c
        { s with softblocked_count := s.softblocked_count + 1 } t)
  | kill (K : List (Fin n)) (hcall : NoSemCall s) (h : Removed cfg K s t)
  | tick (l : List (Fin n)) (hcall : NoSemCall s) (h : Ticked cfg l s t)
  | device (i : Fin TOTAL_IO_DEVICES) (hcode : excCode s.prev.cause = 0) (hi : s.served = some i)
      (h : Completion cfg i s t)

variable {cfg} {s t u : Nucleus n} {c p : Fin n} {k full : Word} {e : Exit} {held : List (Fin n)}

/-! ## Reading `sems` -/

section Reading

variable (h : t.sems = s.sems)
include h

theorem sems_mem : t.mem = s.mem := congrArg Prod.fst h

theorem sems_asl : t.asl = s.asl := congrArg (·.2.1) h

theorem sems_semAdd : t.semAdd = s.semAdd := congrArg (·.2.2.1) h

theorem sems_soft : t.softblocked_count = s.softblocked_count := congrArg (·.2.2.2) h

end Reading

theorem sems_eq (hmem : t.mem = s.mem) (hasl : t.asl = s.asl) (hsem : t.semAdd = s.semAdd)
    (hsoft : t.softblocked_count = s.softblocked_count) : t.sems = s.sems := by
  rw [Nucleus.sems, hmem, hasl, hsem, hsoft]
  rfl

theorem Quiet.sems (h : Quiet s t) (hmem : t.mem = s.mem)
    (hsoft : t.softblocked_count = s.softblocked_count) : t.sems = s.sems :=
  sems_eq hmem h.asl h.semAdd hsoft

/-! ## Changes elsewhere -/

theorem makeReady_sems (p : Fin n) (s : Nucleus n) : (s.makeReady p).sems = s.sems :=
  sems_eq (Nucleus.makeReady_mem p s) (Nucleus.makeReady_asl p s) (Nucleus.makeReady_semAdd p s)
    (Nucleus.makeReady_soft p s)

theorem wake_sems (p : Fin n) (s : Nucleus n) : (s.wake p).sems = s.sems :=
  sems_eq (Nucleus.wake_mem p s) (Nucleus.wake_asl p s) (Nucleus.wake_semAdd p s)
    (Nucleus.wake_soft p s)

/-- The scheduler leaves the semaphores alone, and the free list. -/
theorem Scheduled.sems (h : Scheduled cfg s e t) :
    t.sems = s.sems ∧ t.pcbFree_h = s.pcbFree_h := by
  cases h with
  | halt => exact ⟨rfl, rfl⟩
  | wait => exact ⟨rfl, rfl⟩
  | deadlock => exact ⟨rfl, rfl⟩
  | dispatch p prio rest hcount hnext hqueue =>
      have hpick : (s.pick p prio rest).sems = s.sems := by
        refine sems_eq (Nucleus.setReadyQueue_mem s rest prio) (Nucleus.setReadyQueue_asl s rest prio)
          ?_ (Nucleus.setReadyQueue_soft s rest prio)
        funext q
        change ((s.setReadyQueue rest prio).pcbFree_table q).p_semAdd = _
        rw [Nucleus.setReadyQueue_table]
        rfl
      have hload := Quiet.load cfg p (s.pick p prio rest)
      refine ⟨(hload.sems ?_ ?_).trans hpick, ?_⟩
      · unfold Nucleus.load
        split <;> rfl
      · unfold Nucleus.load
        split <;> rfl
      · exact hload.free.trans (Nucleus.setReadyQueue_free s rest prio)

theorem Finished.sems {live : Prop} (h : Finished cfg s live e t) :
    t.sems = s.sems ∧ t.pcbFree_h = s.pcbFree_h := by
  cases h with
  | resume => exact ⟨rfl, rfl⟩
  | schedule hdead hnext => exact hnext.sems

/-! ## The system calls -/

theorem SemCall.moves (h : SemCall cfg full k c s e t) : SemMove full k c s t := by
  cases h with
  | block hfull hnext =>
      have hquiet := (Quiet.saveState c s.prev (s.block k c)).trans (Quiet.charge cfg c _)
      exact .block hfull (hnext.sems.1.trans (hquiet.sems rfl rfl))
  | release p rest hfull hqueue =>
      exact .release p rest hfull hqueue (wake_sems p _) (Nucleus.wake_free p _)
  | write hfull hqueue => exact .write hfull hqueue rfl

theorem Killed.removed {K : List (Fin n)} (h : Killed cfg p K s t) (hs : Core s held)
    (hp : p ∉ s.pcbFree_h) : Removed cfg K s t where
  nodup := h.subtree.nodup
  alive := h.alive hs hp
  free q := by rw [h.torn.free, List.mem_append, List.mem_reverse]
  mem := congrArg (·.1.2.2.2.2.1) h.torn.kept
  queue := h.torn.queue
  semAdd := h.torn.semAdd
  soft := h.torn.soft

theorem Removed.sems {K : List (Fin n)} (h : Removed cfg K s t) (hu : u.sems = t.sems)
    (hfree : u.pcbFree_h = t.pcbFree_h) : Removed cfg K s u where
  nodup := h.nodup
  alive := h.alive
  free := by rw [hfree]; exact h.free
  mem := (sems_mem hu).trans h.mem
  queue := by rw [sems_asl hu]; exact h.queue
  semAdd := by rw [sems_semAdd hu]; exact h.semAdd
  soft := (sems_soft hu).trans h.soft

/-- A move of the semaphores only depends on these. -/
theorem SemMove.of_sems (h : SemMove full k c u t) (hu : u.sems = s.sems)
    (hfree : u.pcbFree_h = s.pcbFree_h) : SemMove full k c s t := by
  have hmem := sems_mem hu
  have hasl := sems_asl hu
  have hsem := sems_semAdd hu
  have hsoft := sems_soft hu
  cases h with
  | block hfull h =>
      refine .block (by rwa [← hmem]) (h.trans (sems_eq hmem ?_ ?_ hsoft))
      · exact congrArg (Asl.join · k c) hasl
      · funext q
        rw [Nucleus.block_semAdd, Nucleus.block_semAdd, hsem]
  | release p rest hfull hqueue h hfree' =>
      refine .release p rest (by rwa [← hmem]) (by rwa [← hasl]) (h.trans (sems_eq hmem ?_ ?_ hsoft))
        (hfree'.trans hfree)
      · exact congrArg (Asl.leave · k p) hasl
      · funext q
        rw [Nucleus.unblock_semAdd, Nucleus.unblock_semAdd, hsem]
  | write hfull hqueue h =>
      refine .write (by rwa [← hmem]) (by rwa [← hasl]) (h.trans (sems_eq ?_ hasl hsem hsoft))
      exact congrArg (fun (m : Word → Word) b ↦ if b = k then full else m b) hmem

/-- An operation writes its own word if any. -/
theorem SemMove.mem (h : SemMove full k c s t) {k' : Word} (hk : t.mem k' ≠ s.mem k') :
    k' = k ∧ t.mem k' = full := by
  cases h with
  | block hfull h => exact absurd (congrFun (sems_mem h) k') hk
  | release p rest hfull hqueue h hfree => exact absurd (congrFun (sems_mem h) k') hk
  | write hfull hqueue h =>
      have hmem := congrFun (sems_mem h) k'
      by_cases hkk : k' = k
      · subst hkk
        exact ⟨rfl, hmem.trans (Nucleus.store_same s k' full)⟩
      · exact absurd (hmem.trans (Nucleus.store_ne s full hkk)) hk

/-- An operation on another semaphore leaves the queue alone. -/
theorem SemMove.queue_ne {k' : Word} (hs : s.asl.Inv s.semAdd) (hc : s.semAdd c = none)
    (hk : k ≠ k') (h : SemMove full k' c s t) : t.asl.queue k = s.asl.queue k := by
  cases h with
  | block hfull h => rw [sems_asl h, Nucleus.block_queue hs hc, if_neg hk]
  | release p rest hfull hqueue h hfree =>
      have hp : s.semAdd p = some k' := hs.mem_queue.mp (by rw [hqueue]; exact List.mem_cons_self)
      rw [sems_asl h, Nucleus.unblock_queue hs hp, if_neg hk]
  | write hfull hqueue h =>
      rw [sems_asl h]
      rfl

theorem Finished.removed {K : List (Fin n)} {live : Prop} (h : Removed cfg K s u)
    (hend : Finished cfg u live e t) : Removed cfg K s t := h.sems hend.sems.1 hend.sems.2

theorem IsCall.code {state : State} {code code' : Int} (h : IsCall state code)
    (h' : IsCall state code') : code = code' := h.2.2.symm.trans h'.2.2

theorem IsCall.excCode_ne {state : State} {code : Int} (h : IsCall state code) :
    excCode state.cause ≠ 0 := by
  rw [h.1]
  decide

theorem semCodes_subset : semCodes ⊆ syscallCodes := by decide

theorem PassedUp.removed {i : Fin 2} (hs : Core s (c :: held)) (h : PassedUp cfg i c s e t) :
    t.sems = s.sems ∨ ∃ K, Removed cfg K s t := by
  cases h with
  | up a ha => exact .inl rfl
  | die K u ha hkill hnext =>
      have hfree := (hs.of_held List.mem_cons_self).1
      exact .inr ⟨K, (hkill.removed hs hfree).sems hnext.sems.1 hnext.sems.2⟩

theorem Called.semStep {code : Int} (hs : Core s (c :: held)) (hc : s.curr_process = some c)
    (hcall : IsCall s.prev code) (h : Called cfg c s code e t) : SemStep cfg s t := by
  have hne : ∀ {code'}, code = code' → code' ∉ semCodes → NoSemCall s := by
    rintro _ rfl hout
    exact ⟨fun code' hmem h ↦ hout (hcall.code h ▸ hmem), fun h ↦ absurd h hcall.excCode_ne⟩
  have hptr : ∀ {k}, cfg.ptr s.prev.reg_a1 = some k → k = s.prev.reg_a1 := by
    intro k hk
    unfold Config.ptr at hk
    split at hk
    · cases hk
    · exact (Option.some.inj hk).symm
  cases h with
  | createFails hfree => exact .still (hne rfl (by decide)) rfl
  | create p rest statep hfree hstate =>
      refine .still (hne rfl (by decide)) (sems_eq ?_ ?_ (created_semAdd hs hfree) ?_)
      · exact Nucleus.makeReady_mem p _
      · exact Nucleus.makeReady_asl p _
      · exact Nucleus.makeReady_soft p _
  | kill p K u htarget hkill hend =>
      exact .kill K (hne rfl (by decide)) (hend.removed (hkill.removed hs (target_alive hs htarget)))
  | killNone htarget hend => exact .still (hne rfl (by decide)) hend.sems.1
  | passeren k hk hsem => exact .passeren c hc hcall (hptr hk ▸ hsem.moves)
  | verhogen k hk hsem => exact .verhogen c hc hcall (hptr hk ▸ hsem.moves)
  | doIo i hi hsem => exact .doIo c i hc hcall hi hsem.moves
  | getTime =>
      exact .still (hne rfl (by decide)) ((Quiet.charge cfg c s).sems rfl rfl)
  | clockWait hsem => exact .clockWait c hc hcall hsem.moves
  | getSupportPtr => exact .still (hne rfl (by decide)) rfl
  | getProcessId => exact .still (hne rfl (by decide)) rfl
  | yield hnext =>
      have hsave : ({ s.saveState c s.prev with process_to_skip := some c } : Nucleus n).sems = s.sems :=
        ((Quiet.saveState c s.prev s).trans (t := s.saveState c s.prev) (.refl _)).sems rfl rfl
      have hquiet := Quiet.charge cfg c
        (({ s.saveState c s.prev with process_to_skip := some c } : Nucleus n).wake c)
      refine .still (hne rfl (by decide)) (hnext.sems.1.trans ?_)
      exact (hquiet.sems rfl rfl).trans ((wake_sems c _).trans hsave)
  | invalid hcode hend =>
      have hout : NoSemCall s := hne rfl fun hmem ↦ hcode (semCodes_subset hmem)
      have hs' : Core s.invalidated (c :: held) := hs.quiet ⟨fun _ ↦ rfl, rfl⟩
      rcases hend.removed hs' with h | ⟨K, h⟩
      · exact .still hout h
      · exact .kill K hout ⟨h.nodup, h.alive, h.free, h.mem, h.queue, h.semAdd, h.soft⟩

theorem noSemCall (h : ∀ code ∈ syscallCodes, ¬ IsCall s.prev code)
    (hcode : excCode s.prev.cause ≠ 0) : NoSemCall s :=
  ⟨fun code hmem ↦ h code (semCodes_subset hmem), fun h ↦ absurd h hcode⟩

/-- Only the program counter is moved. -/
theorem SemStep.of_advanced (hcode : excCode s.prev.cause ≠ 0) (h : SemStep cfg s.advanced t) :
    SemStep cfg s t := by
  cases h with
  | still hcall h => exact .still ⟨hcall.call, fun h ↦ absurd h hcode⟩ h
  | passeren c hc hcall hmove => exact .passeren c hc hcall (hmove.of_sems rfl rfl)
  | verhogen c hc hcall hmove => exact .verhogen c hc hcall (hmove.of_sems rfl rfl)
  | doIo c i hc hcall hi hmove => exact .doIo c i hc hcall hi (hmove.of_sems rfl rfl)
  | clockWait c hc hcall hmove => exact .clockWait c hc hcall (hmove.of_sems rfl rfl)
  | kill K hcall h =>
      exact .kill K ⟨hcall.call, fun h ↦ absurd h hcode⟩
        ⟨h.nodup, h.alive, h.free, h.mem, h.queue, h.semAdd, h.soft⟩
  | tick l hcall h =>
      exact .tick l ⟨hcall.call, fun h ↦ absurd h hcode⟩
        ⟨h.waiters, h.mem, h.queue, h.semAdd, h.soft⟩
  | device i hcode' hi h => exact absurd hcode' hcode

/-! ## The interrupts -/

/-- The loop over the waiters of the clock. -/
theorem wakeClocks_sems {l : List (Fin n)} (hs : s.asl.Inv s.semAdd) (hl : s.asl.queue k = l) :
    let t := l.foldl (fun s p ↦ s.wakeClock k p) s
    t.mem = s.mem ∧ (∀ k', t.asl.queue k' = if k' = k then [] else s.asl.queue k') ∧
      (∀ p, t.semAdd p = if p ∈ l then none else s.semAdd p) ∧
      t.softblocked_count = s.softblocked_count - BitVec.ofNat 32 l.length := by
  induction l generalizing s with
  | nil =>
      refine ⟨rfl, fun k' ↦ ?_, fun p ↦ by simp, by simp⟩
      split
      · rename_i hk
        rw [hk]
        exact hl
      · rfl
  | cons p l ih =>
      have hp : s.semAdd p = some k := hs.mem_queue.mp (by rw [hl]; exact List.mem_cons_self)
      have hasl : (s.wakeClock k p).asl.Inv (s.wakeClock k p).semAdd := by
        rw [Nucleus.wakeClock_asl, Nucleus.wakeClock_semAdd]
        exact Nucleus.unblock_asl hs hp
      have hqueue : ∀ k', (s.wakeClock k p).asl.queue k' =
          if k' = k then l else s.asl.queue k' := by
        intro k'
        rw [Nucleus.wakeClock_asl, Nucleus.unblock_queue hs hp]
        split
        · rw [hl, List.erase_cons_head]
        · rfl
      obtain ⟨hmem, hqueues, hsem, hsoft⟩ := ih hasl ((hqueue k).trans (if_pos rfl))
      refine ⟨hmem.trans (Nucleus.wakeClock_mem k p s), fun k' ↦ ?_, fun q ↦ ?_, ?_⟩
      · rw [List.foldl_cons, hqueues, hqueue]
        split <;> rfl
      · rw [List.foldl_cons, hsem, Nucleus.wakeClock_semAdd, Nucleus.unblock_semAdd]
        by_cases hq : q ∈ l
        · simp [hq]
        · simp [hq]
      · rw [List.foldl_cons, hsoft, List.length_cons]
        change s.softblocked_count - 1 - BitVec.ofNat 32 l.length = _
        rw [BitVec.ofNat_add]
        bv_omega

theorem ticked_sems {l : List (Fin n)} (hs : s.asl.Inv s.semAdd)
    (hl : s.asl.queue cfg.semaphore_it = l) : Ticked cfg l s (s.ticked cfg l) := by
  obtain ⟨hmem, hqueue, hsem, hsoft⟩ := wakeClocks_sems hs hl
  refine ⟨hl, fun k ↦ ?_, hqueue, hsem, hsoft⟩
  change (if k = cfg.semaphore_it then (0 : Word) else (l.foldl _ s).mem k) = _
  rw [hmem]

variable (cfg) in
theorem interrupted_sems (s : Nucleus n) : (s.interrupted cfg).sems = s.sems := by
  refine (Quiet.interrupted cfg s).sems (interrupted_mem s) ?_
  unfold Nucleus.interrupted
  cases s.curr_process <;> rfl

theorem Ticked.of_sems {l : List (Fin n)} (h : Ticked cfg l u t) (hu : u.sems = s.sems) :
    Ticked cfg l s t where
  waiters := by rw [← sems_asl hu]; exact h.waiters
  mem := by rw [← sems_mem hu]; exact h.mem
  queue := by rw [← sems_asl hu]; exact h.queue
  semAdd := by rw [← sems_semAdd hu]; exact h.semAdd
  soft := by rw [← sems_soft hu]; exact h.soft

theorem Completion.of_sems {i : Fin TOTAL_IO_DEVICES} (h : Completion cfg i u t)
    (hu : u.sems = s.sems) (hpid : u.pid = s.pid) : Completion cfg i s t := by
  have hmem := sems_mem hu
  have hasl := sems_asl hu
  have hsem := sems_semAdd hu
  have hsoft := sems_soft hu
  have hstore : (u.store (commandAddr i) ACK).mem = (s.store (commandAddr i) ACK).mem :=
    congrArg (fun (m : Word → Word) b ↦ if b = commandAddr i then ACK else m b) hmem
  have hleave : ∀ p, ((u.store (commandAddr i) ACK).unblock (cfg.devSem i) p).asl =
      ((s.store (commandAddr i) ACK).unblock (cfg.devSem i) p).asl :=
    fun p ↦ congrArg (Asl.leave · (cfg.devSem i) p) hasl
  have hunblock : ∀ p, ((u.store (commandAddr i) ACK).unblock (cfg.devSem i) p).semAdd =
      ((s.store (commandAddr i) ACK).unblock (cfg.devSem i) p).semAdd := by
    intro p
    funext q
    rw [Nucleus.unblock_semAdd, Nucleus.unblock_semAdd]
    change (if q = p then none else u.semAdd q) = if q = p then none else s.semAdd q
    rw [hsem]
  cases h with
  | wake p rest hv hqueue hp h =>
      refine .wake p rest (by rwa [← hmem]) (by rwa [← hasl]) (by rwa [← hpid])
        (h.trans (sems_eq hstore (hleave p) (hunblock p) ?_))
      exact congrArg (· - 1) hsoft
  | drop p rest hv hqueue hp h =>
      exact .drop p rest (by rwa [← hmem]) (by rwa [← hasl]) (by rwa [← hpid])
        (h.trans (sems_eq hstore (hleave p) (hunblock p) hsoft))
  | late hv hqueue hnull h =>
      refine .late (by rwa [← hmem]) (by rwa [← hasl]) hnull (h.trans (sems_eq ?_ hasl hsem hsoft))
      exact congrArg (fun (m : Word → Word) b ↦ if b = cfg.devSem i then 1 else m b) hstore

/-- A completion leaves the queues of the other semaphores alone. -/
theorem Completion.queue_ne {i : Fin TOTAL_IO_DEVICES} (hs : s.asl.Inv s.semAdd)
    (hk : k ≠ cfg.devSem i) (h : Completion cfg i s t) : t.asl.queue k = s.asl.queue k := by
  have hunblock : ∀ {p rest}, s.asl.queue (cfg.devSem i) = p :: rest →
      ((s.store (commandAddr i) ACK).unblock (cfg.devSem i) p).asl.queue k = s.asl.queue k := by
    intro p rest hqueue
    have hp : s.semAdd p = some (cfg.devSem i) :=
      hs.mem_queue.mp (by rw [hqueue]; exact List.mem_cons_self)
    exact (Nucleus.unblock_queue (s := s.store (commandAddr i) ACK) hs hp k).trans (if_neg hk)
  cases h with
  | wake p rest hv hqueue hp h =>
      rw [sems_asl h]
      exact hunblock hqueue
  | drop p rest hv hqueue hp h =>
      rw [sems_asl h]
      exact hunblock hqueue
  | late hv hqueue hnull h =>
      rw [sems_asl h]
      rfl

variable (cfg) in
theorem answered_sems (i : Fin TOTAL_IO_DEVICES) (p : Fin n) (s : Nucleus n) :
    (s.answered cfg i p).sems = { (s.store (commandAddr i) ACK).unblock (cfg.devSem i) p with
      softblocked_count := s.softblocked_count - 1 }.sems := by
  refine sems_eq (Nucleus.makeReady_mem p _) (Nucleus.makeReady_asl p _) ?_
    (congrArg (· - 1) (Nucleus.makeReady_soft p _))
  funext q
  refine (Nucleus.modifyPcb_field Pcb.p_semAdd (f := fun x ↦
    { x with p_s := { x.p_s with reg_v0 := s.mem (statusAddr i) } }) (by intro; rfl) _ p q).trans ?_
  exact congrFun (Nucleus.makeReady_semAdd p _) q

theorem DeviceReturn.completion {i : Fin TOTAL_IO_DEVICES} (h : DeviceReturn cfg i s u)
    (hu : t.sems = u.sems) : Completion cfg i s t := by
  cases h with
  | wake p rest hv hqueue hp => exact .wake p rest hv hqueue hp (hu.trans (answered_sems cfg i p s))
  | drop p rest hv hqueue hp => exact .drop p rest hv hqueue hp hu
  | late hv hqueue hnull => exact .late hv hqueue hnull hu

theorem Interrupted.semStep (hs : Core s held) (hcode : excCode s.prev.cause = 0)
    (h : Interrupted cfg (s.interrupted cfg) e t) : SemStep cfg s t := by
  have hcall : s.served = Option.none → NoSemCall s := fun hi ↦
    ⟨fun code _ h ↦ h.excCode_ne hcode, fun _ ↦ hi⟩
  have hsems := interrupted_sems cfg s
  have hquiet := Quiet.interrupted cfg s
  cases h with
  | plt c hc hip hnext =>
      have hsave : (((startPLT (s.interrupted cfg)).saveState c (s.interrupted cfg).prev).charge
          cfg c).sems = (s.interrupted cfg).sems := by
        refine Quiet.sems (.trans (t := startPLT (s.interrupted cfg)) ⟨fun _ ↦ rfl, rfl⟩
          (.trans (.saveState c _ _) (.charge cfg c _))) rfl rfl
      rw [interrupted_pending] at hip
      refine .still (hcall (if_pos (Or.inl hip))) (hnext.sems.1.trans ?_)
      exact (wake_sems c _).trans (hsave.trans hsems)
  | clock l hl hip hend =>
      have htick := ticked_sems (hs.quiet hquiet).asl hl
      rw [interrupted_pending] at hip
      refine .tick l (hcall (if_pos (Or.inr hip))) (Ticked.of_sems ?_ hsems)
      have hend := hend.sems.1
      exact ⟨htick.waiters, by rw [sems_mem hend]; exact htick.mem,
        by rw [sems_asl hend]; exact htick.queue, by rw [sems_semAdd hend]; exact htick.semAdd,
        by rw [sems_soft hend]; exact htick.soft⟩
  | device i u hi hret hend =>
      rw [interrupted_served] at hi
      exact .device i hcode hi ((hret.completion hend.sems.1).of_sems hsems hquiet.pid)
  | none hi hend =>
      rw [interrupted_served] at hi
      exact .still (hcall hi) (hend.sems.1.trans hsems)

/-- Every way an exception is handled does one of these to the semaphores. -/
theorem Handled.semStep (hs : Core s (s.curr_process.toList ++ held)) (h : Handled cfg s e t) :
    SemStep cfg s t := by
  cases h with
  | interrupt hcode hend => exact hend.semStep hs hcode
  | call c code hc hcall hend =>
      rw [hc] at hs
      have hs' : Core s.advanced (c :: held) := hs.quiet ⟨fun _ ↦ rfl, rfl⟩
      have hne : excCode s.prev.cause ≠ 0 := by
        rw [hcall.1]
        decide
      exact SemStep.of_advanced hne (hend.semStep hs' hc hcall)
  | passUp c i hc hcall hcode hend =>
      rw [hc] at hs
      have hout := noSemCall hcall hcode
      rcases hend.removed hs with h | ⟨K, h⟩
      · exact .still hout h
      · exact .kill K hout h
  | trap c hc hcall hcode hend =>
      rw [hc] at hs
      have hs' : Core s.invalidated (c :: held) := hs.quiet ⟨fun _ ↦ rfl, rfl⟩
      have hout := noSemCall hcall hcode
      rcases hend.removed hs' with h | ⟨K, h⟩
      · exact .still hout h
      · exact .kill K hout ⟨h.nodup, h.alive, h.free, h.mem, h.queue, h.semAdd, h.soft⟩

end PandosPlus
