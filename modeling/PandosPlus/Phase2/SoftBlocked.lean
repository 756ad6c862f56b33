import PandosPlus.Phase2.Completions

/-!
# The count of the soft-blocked processes

`softblocked_count` is raised by DOIO and CLOCKWAIT before their P, which is taken for
granted to block, and lowered where a process is found to have been waiting.  It stays
the number of the processes that wait for a device or for the clock exactly as long as
the P of every DOIO does block, and no completion finds a waiter with the reserved pid.

A completion that finds no one waiting leaves its semaphore up, and the P of the next
DOIO on that register does not block.
-/

namespace PandosPlus

open Lts

variable {n : Nat} (cfg : Config n)

instance (k : Word) : Decidable (IsNucleusSem cfg k) := inferInstanceAs (Decidable (_ ∨ _))

/-- The process waits for a device or for the clock. -/
def SoftBlocked (s : Nucleus n) (p : Fin n) : Prop := ∃ k ∈ s.semAdd p, IsNucleusSem cfg k

instance (s : Nucleus n) : DecidablePred (SoftBlocked cfg s) :=
  fun p ↦ inferInstanceAs (Decidable (∃ k ∈ s.semAdd p, _))

/-- The processes that wait for a device or for the clock. -/
def softWaiters (s : Nucleus n) : Finset (Fin n) := Finset.univ.filter (SoftBlocked cfg s)

/-- The count is right. -/
def SoftExact (s : Nucleus n) : Prop := s.softblocked_count.toNat = (softWaiters cfg s).card

instance (s : Nucleus n) : Decidable (SoftExact cfg s) := inferInstanceAs (Decidable (_ = _))

/-- What the count takes for granted about an exception: the semaphore of the register a
DOIO uses is down, and the waiter a completion finds does not carry the reserved pid. -/
structure SoftFits (s : Nucleus n) : Prop where
  down : ∀ i, IsCall s.prev DOIO → s.prev.reg_a1 = commandAddr i → s.mem (cfg.devSem i) = 0
  live : ∀ i p, excCode s.prev.cause = 0 → s.served = some i →
    (s.asl.queue (cfg.devSem i)).head? = some p → s.pid p ≠ FREE_PCB_PID

variable {cfg} {s t : Nucleus n} {c p : Fin n} {k : Word} {held : List (Fin n)}

/-! ## Counting the waiters -/

theorem mem_softWaiters : p ∈ softWaiters cfg s ↔ ∃ k, s.semAdd p = some k ∧ IsNucleusSem cfg k := by
  simp [softWaiters, SoftBlocked, Option.mem_def]

theorem softWaiters_lt (s : Nucleus n) : (softWaiters cfg s).card < 2 ^ 32 := by
  have hle := Finset.card_le_univ (softWaiters cfg s)
  rw [Fintype.card_fin] at hle
  exact Nat.lt_of_le_of_lt hle cfg.maxproc_lt

theorem softWaiters_congr (h : t.semAdd = s.semAdd) : softWaiters cfg t = softWaiters cfg s := by
  ext p
  rw [mem_softWaiters, mem_softWaiters, h]

theorem softWaiters_remove {R : Finset (Fin n)}
    (h : ∀ p, t.semAdd p = if p ∈ R then none else s.semAdd p) :
    softWaiters cfg t = softWaiters cfg s \ R := by
  ext p
  rw [Finset.mem_sdiff, mem_softWaiters, mem_softWaiters, h]
  by_cases hp : p ∈ R <;> simp [hp]

theorem softWaiters_block (h : ∀ p, t.semAdd p = if p = c then some k else s.semAdd p)
    (hk : IsNucleusSem cfg k) : softWaiters cfg t = insert c (softWaiters cfg s) := by
  ext p
  rw [Finset.mem_insert, mem_softWaiters, mem_softWaiters, h]
  by_cases hp : p = c <;> simp [hp, hk]

theorem softWaiters_block_other (h : ∀ p, t.semAdd p = if p = c then some k else s.semAdd p)
    (hk : ¬ IsNucleusSem cfg k) (hc : s.semAdd c = none) :
    softWaiters cfg t = softWaiters cfg s := by
  ext p
  rw [mem_softWaiters, mem_softWaiters, h]
  by_cases hp : p = c <;> simp [hp, hk, hc]

theorem SoftExact.of_sems (hs : SoftExact cfg s) (h : t.sems = s.sems) : SoftExact cfg t := by
  rw [SoftExact, sems_soft h, softWaiters_congr (sems_semAdd h)]
  exact hs

/-- The count with some waiters taken away. -/
theorem SoftExact.remove_iff (hs : SoftExact cfg s) {R : Finset (Fin n)} {m : Nat}
    (hsem : ∀ p, t.semAdd p = if p ∈ R then none else s.semAdd p)
    (hm : m ≤ (softWaiters cfg s).card)
    (hsoft : t.softblocked_count = s.softblocked_count - BitVec.ofNat 32 m) :
    SoftExact cfg t ↔ m = (softWaiters cfg s ∩ R).card := by
  have hlt : (softWaiters cfg s).card < 2 ^ 32 := softWaiters_lt s
  have hcard := Finset.card_sdiff_add_card_inter (softWaiters cfg s) R
  unfold SoftExact at hs ⊢
  rw [softWaiters_remove hsem, hsoft]
  have hsub : (s.softblocked_count - BitVec.ofNat 32 m).toNat = (softWaiters cfg s).card - m := by
    bv_omega
  rw [hsub]
  omega

/-- A process more waits, and is counted. -/
theorem SoftExact.add (hs : SoftExact cfg s) (hc : s.semAdd c = none)
    (hk : IsNucleusSem cfg k) (hsem : ∀ p, t.semAdd p = if p = c then some k else s.semAdd p)
    (hsoft : t.softblocked_count = s.softblocked_count + 1) : SoftExact cfg t := by
  have hlt : (softWaiters cfg t).card < 2 ^ 32 := softWaiters_lt t
  have hnot : c ∉ softWaiters cfg s := by
    rw [mem_softWaiters, hc]
    simp
  unfold SoftExact at hs ⊢
  rw [softWaiters_block hsem hk, Finset.card_insert_of_notMem hnot] at hlt ⊢
  rw [hsoft]
  bv_omega

/-- A process more is counted, but none waits. -/
theorem SoftExact.overcount (hs : SoftExact cfg s) (hc : s.semAdd c = none)
    (hsub : softWaiters cfg t ⊆ softWaiters cfg s)
    (hsoft : t.softblocked_count = s.softblocked_count + 1) : ¬ SoftExact cfg t := by
  have hle := Finset.card_le_card hsub
  have hnot : c ∉ softWaiters cfg s := by
    rw [mem_softWaiters, hc]
    simp
  have hlt := Finset.card_le_univ (insert c (softWaiters cfg s))
  rw [Finset.card_insert_of_notMem hnot, Fintype.card_fin] at hlt
  have hn := cfg.maxproc_lt
  unfold SoftExact at hs ⊢
  rw [hsoft]
  bv_omega

/-! ## One step -/

theorem IsNucleusSem.owned (hk : IsNucleusSem cfg k) : Owned cfg k := by
  rcases hk with rfl | ⟨i, rfl⟩
  · exact .inl rfl
  · exact owned_devSem i

theorem Sound.isSoftBlocked_iff (hs : Sound cfg held s) (p : Fin n) :
    isSoftBlocked cfg p s = true ↔ p ∈ softWaiters cfg s := by
  rw [PandosPlus.isSoftBlocked_iff, mem_softWaiters]
  exact exists_congr fun k ↦ and_congr_right fun hk ↦ ⟨hs.key p k hk, IsNucleusSem.owned⟩

/-- A killed process that was waiting is no longer counted. -/
theorem SoftExact.removed {K : List (Fin n)} (hs : SoftExact cfg s) (hsound : Sound cfg held s)
    (h : Removed cfg K s t) : SoftExact cfg t := by
  have hcount : (K.countP fun p ↦ isSoftBlocked cfg p s) =
      (softWaiters cfg s ∩ K.toFinset).card := by
    rw [List.countP_eq_length_filter, ← List.toFinset_card_of_nodup (h.nodup.filter _)]
    refine congrArg Finset.card (Finset.ext fun p ↦ ?_)
    rw [List.mem_toFinset, List.mem_filter, hsound.isSoftBlocked_iff, Finset.mem_inter,
      List.mem_toFinset, and_comm]
  refine (hs.remove_iff (R := K.toFinset) (fun p ↦ ?_) ?_ h.soft).mpr hcount
  · rw [h.semAdd]
    simp
  · rw [hcount]
    exact Finset.card_le_card Finset.inter_subset_left

/-- The waiters of the clock are no longer counted. -/
theorem SoftExact.ticked {l : List (Fin n)} (hs : SoftExact cfg s) (hasl : s.asl.Inv s.semAdd)
    (h : Ticked cfg l s t) : SoftExact cfg t := by
  have hsub : softWaiters cfg s ∩ l.toFinset = l.toFinset := by
    refine Finset.inter_eq_right.mpr fun p hp ↦ mem_softWaiters.mpr ?_
    rw [List.mem_toFinset, ← h.waiters, hasl.mem_queue] at hp
    exact ⟨_, hp, .inl rfl⟩
  have hcard : l.length = l.toFinset.card := by
    rw [← h.waiters, List.toFinset_card_of_nodup hasl.queue_nodup]
  refine (hs.remove_iff (R := l.toFinset) (fun p ↦ ?_) ?_ h.soft).mpr (by rw [hsub, hcard])
  · rw [h.semAdd]
    simp
  · rw [hcard, ← hsub]
    exact Finset.card_le_card Finset.inter_subset_left

/-- An operation on a semaphore the nucleus does not own. -/
theorem SoftExact.move {full : Word} (hs : SoftExact cfg s) (hasl : s.asl.Inv s.semAdd)
    (hc : s.semAdd c = none) (hk : ¬ IsNucleusSem cfg k) (h : SemMove full k c s t) :
    SoftExact cfg t := by
  cases h with
  | block hfull h =>
      rw [SoftExact, sems_soft h, softWaiters_block_other (fun p ↦ ?_) hk hc]
      · exact hs
      · rw [sems_semAdd h, Nucleus.block_semAdd]
  | release p rest hfull hqueue h hfree =>
      have hp : s.semAdd p = some k := hasl.mem_queue.mp (by rw [hqueue]; exact List.mem_cons_self)
      have hnone : softWaiters cfg s ∩ {p} = ∅ := by
        refine Finset.inter_singleton_of_notMem fun hmem ↦ ?_
        obtain ⟨k', hk', hsem⟩ := mem_softWaiters.mp hmem
        rw [hp] at hk'
        exact hk (Option.some.inj hk' ▸ hsem)
      refine (hs.remove_iff (R := {p}) (m := 0) (fun q ↦ ?_) (Nat.zero_le _) ?_).mpr (by rw [hnone]; rfl)
      · rw [sems_semAdd h, Nucleus.unblock_semAdd]
        simp
      · rw [sems_soft h]
        exact (BitVec.sub_zero _).symm
  | write hfull hqueue h =>
      rw [SoftExact, sems_soft h, softWaiters_congr (sems_semAdd h)]
      exact hs

/-- DOIO and CLOCKWAIT, where the caller is counted before its P: the count stays right
exactly if the P blocks. -/
theorem SoftExact.wait_iff (hs : SoftExact cfg s) {u : Nucleus n} (husem : u.semAdd = s.semAdd)
    (husoft : u.softblocked_count = s.softblocked_count + 1) (hc : s.semAdd c = none)
    (hk : IsNucleusSem cfg k) (h : SemMove 0 k c u t) : SoftExact cfg t ↔ u.mem k = 0 := by
  cases h with
  | block hfull h =>
      refine iff_of_true (hs.add hc hk (fun p ↦ ?_) ((sems_soft h).trans husoft)) hfull
      rw [sems_semAdd h, Nucleus.block_semAdd, husem]
  | release p rest hfull hqueue h hfree =>
      refine iff_of_false (hs.overcount hc ?_ ((sems_soft h).trans husoft)) hfull
      rw [softWaiters_remove (s := s) (R := {p}) fun q ↦ ?_]
      · exact Finset.sdiff_subset
      · rw [sems_semAdd h, Nucleus.unblock_semAdd, husem]
        simp
  | write hfull hqueue h =>
      refine iff_of_false (hs.overcount hc ?_ ((sems_soft h).trans husoft)) hfull
      rw [softWaiters_congr ((sems_semAdd h).trans husem)]

/-- A completion: the count stays right unless its waiter carries the reserved pid. -/
theorem SoftExact.completion_iff (hs : SoftExact cfg s) (hasl : s.asl.Inv s.semAdd)
    {i : Fin TOTAL_IO_DEVICES} (h : Completion cfg i s t) :
    SoftExact cfg t ↔
      ∀ p, (s.asl.queue (cfg.devSem i)).head? = some p → s.pid p ≠ FREE_PCB_PID := by
  have hone : ∀ {p rest}, s.asl.queue (cfg.devSem i) = p :: rest →
      softWaiters cfg s ∩ {p} = {p} := by
    intro p rest hqueue
    refine Finset.inter_eq_right.mpr (Finset.singleton_subset_iff.mpr (mem_softWaiters.mpr ?_))
    exact ⟨_, hasl.mem_queue.mp (by rw [hqueue]; exact List.mem_cons_self), .inr ⟨i, rfl⟩⟩
  have hpos : ∀ {p rest}, s.asl.queue (cfg.devSem i) = p :: rest →
      1 ≤ (softWaiters cfg s).card := by
    intro p rest hqueue
    have := Finset.card_le_card
      (Finset.inter_subset_left : softWaiters cfg s ∩ {p} ⊆ softWaiters cfg s)
    rwa [hone hqueue, Finset.card_singleton] at this
  cases h with
  | wake p rest hv hqueue hp h =>
      refine iff_of_true ((hs.remove_iff (R := {p}) (m := 1) (fun q ↦ ?_) (hpos hqueue)
        (sems_soft h)).mpr ?_) ?_
      · rw [sems_semAdd h]
        exact (congrFun (Nucleus.unblock_semAdd _ _) q).trans (by simp; rfl)
      · rw [hone hqueue, Finset.card_singleton]
      · intro q hq
        rw [hqueue] at hq
        cases hq
        exact hp
  | drop p rest hv hqueue hp h =>
      refine iff_of_false (fun hexact ↦ ?_) fun hlive ↦ hlive p (by rw [hqueue]; rfl) hp
      have hzero := (hs.remove_iff (R := {p}) (m := 0) (fun q ↦ ?_) (Nat.zero_le _) ?_).mp hexact
      · rw [hone hqueue, Finset.card_singleton] at hzero
        cases hzero
      · rw [sems_semAdd h]
        exact (congrFun (Nucleus.unblock_semAdd _ _) q).trans (by simp; rfl)
      · rw [sems_soft h]
        exact (BitVec.sub_zero _).symm
  | late hv hqueue hnull h =>
      refine iff_of_true ?_ fun p hp ↦ ?_
      · rw [SoftExact, sems_soft h, softWaiters_congr (sems_semAdd h)]
        exact hs
      · rw [hqueue] at hp
        cases hp

/-- A step keeps the count right exactly if it fits what the count takes for granted. -/
theorem SemStep.exact_iff (hsound : Sound cfg (s.curr_process.toList ++ held) s)
    (hlaw : (Action.exception s.prev).Lawful cfg) (hs : SoftExact cfg s) (h : SemStep cfg s t) :
    SoftExact cfg t ↔ SoftFits cfg s := by
  have hasl := hsound.core.asl
  have hsem : ∀ {c}, s.curr_process = some c → s.semAdd c = none := by
    intro c hc
    rw [hc] at hsound
    exact (hsound.core.of_held List.mem_cons_self).2.2.1
  have hnone : NoSemCall s → SoftFits cfg s := fun hcall ↦
    ⟨fun i h ↦ absurd h (hcall.call DOIO (by decide)), fun i p hcode hi ↦ by
      rw [hcall.served hcode] at hi
      cases hi⟩
  have hcalled : ∀ {code}, IsCall s.prev code → code ≠ DOIO → SoftFits cfg s := fun hcall hne ↦
    ⟨fun i h ↦ absurd (hcall.code h) hne, fun i p hcode ↦ absurd hcode hcall.excCode_ne⟩
  cases h with
  | still hcall h => exact iff_of_true (hs.of_sems h) (hnone hcall)
  | passeren c hc hcall hmove =>
      have hk : ¬ IsNucleusSem cfg s.prev.reg_a1 := fun hk ↦ hlaw (.inl hcall) hk.owned
      exact iff_of_true (hs.move hasl (hsem hc) hk hmove) (hcalled hcall (by decide))
  | verhogen c hc hcall hmove =>
      have hk : ¬ IsNucleusSem cfg s.prev.reg_a1 := fun hk ↦ hlaw (.inr hcall) hk.owned
      exact iff_of_true (hs.move hasl (hsem hc) hk hmove) (hcalled hcall (by decide))
  | doIo c i hc hcall hi hmove =>
      refine (hs.wait_iff (u := s.issue i) rfl rfl (hsem hc) (.inr ⟨i, rfl⟩) hmove).trans ?_
      have hword : (s.issue i).mem (cfg.devSem i) = s.mem (cfg.devSem i) :=
        Nucleus.store_ne s _ (devSem_ne_bus i (commandAddr_bus i))
      rw [hword]
      refine ⟨fun hzero ↦ ⟨fun j _ hj ↦ ?_, fun j p hcode ↦ absurd hcode hcall.excCode_ne⟩,
        fun hfits ↦ hfits.down i hcall hi⟩
      rw [← commandAddr_injective (hi.symm.trans hj)]
      exact hzero
  | clockWait c hc hcall hmove =>
      refine iff_of_true ?_ (hcalled hcall (by decide))
      exact (hs.wait_iff (u := { s with softblocked_count := s.softblocked_count + 1 })
        rfl rfl (hsem hc) (.inl rfl) hmove).mpr hsound.clock
  | kill K hcall h => exact iff_of_true (hs.removed hsound h) (hnone hcall)
  | tick l hcall h => exact iff_of_true (hs.ticked hasl h) (hnone hcall)
  | device i hcode hi h =>
      refine (hs.completion_iff hasl h).trans ⟨fun hlive ↦ ⟨fun j hcall ↦ ?_, fun j p _ hj ↦ ?_⟩,
        fun hfits p ↦ hfits.live i p hcode hi⟩
      · exact absurd hcode hcall.excCode_ne
      · rw [hi] at hj
        exact Option.some.inj hj ▸ hlive p

/-! ## What the scheduler makes of the count -/

/-- With no process ready the processor waits if some are soft-blocked, and otherwise the
kernel reports a deadlock. -/
structure IdleBy (waiting : Prop) (e : Exit) (t : Nucleus n) : Prop where
  wait : e = .wait → t.process_count ≠ 0 ∧ (∀ prio, t.readyQueue prio = []) ∧ waiting
  deadlock : e = .panic .deadlock →
    t.process_count ≠ 0 ∧ (∀ prio, t.readyQueue prio = []) ∧ ¬ waiting
  idle : t.process_count ≠ 0 → t.curr_process = none → e = .wait ∨ e = .panic .deadlock

/-- A process is resumed or dispatched. -/
theorem IdleBy.running {waiting : Prop} {state : State} (hc : t.curr_process ≠ none) :
    IdleBy waiting (.ldst state) t :=
  ⟨fun h ↦ (nomatch h), fun h ↦ (nomatch h), fun _ h ↦ absurd h hc⟩

theorem Scheduled.idleBy {u : Nucleus n} {e : Exit} (h : Scheduled cfg u e t) :
    IdleBy (t.softblocked_count > 0) e t := by
  cases h with
  | halt hcount => exact ⟨fun h ↦ (nomatch h), fun h ↦ (nomatch h), fun h ↦ absurd hcount h⟩
  | wait hcount hhigh hlow hsoft =>
      refine ⟨fun _ ↦ ⟨hcount, ?_, hsoft⟩, fun h ↦ (nomatch h), fun _ _ ↦ .inl rfl⟩
      rintro (_ | _)
      · exact hlow
      · exact hhigh
  | deadlock hcount hhigh hlow hsoft =>
      refine ⟨fun h ↦ (nomatch h), fun _ ↦ ⟨hcount, ?_, hsoft⟩, fun _ _ ↦ .inr rfl⟩
      rintro (_ | _)
      · exact hlow
      · exact hhigh
  | dispatch p prio rest hcount hnext hqueue =>
      refine .running ?_
      have hcurr : ((u.pick p prio rest).load cfg p).curr_process = some p := by
        unfold Nucleus.load
        split <;> rfl
      rw [hcurr]
      exact Option.some_ne_none p

theorem Finished.idleBy {u : Nucleus n} {live : Prop} {e : Exit} (h : Finished cfg u live e t)
    (hlive : live → u.curr_process ≠ none) : IdleBy (t.softblocked_count > 0) e t := by
  cases h with
  | resume hl => exact .running (hlive hl)
  | schedule hdead hnext => exact hnext.idleBy

theorem SemCall.idleBy {full : Word} {e : Exit} (h : SemCall cfg full k c s e t)
    (hc : s.curr_process = some c) : IdleBy (t.softblocked_count > 0) e t := by
  have hne : s.curr_process ≠ none := by
    rw [hc]
    exact Option.some_ne_none c
  cases h with
  | block hfull hnext => exact hnext.idleBy
  | release p rest hfull hqueue => exact .running ((Nucleus.wake_curr p _).trans_ne hne)
  | write hfull hqueue => exact .running hne

theorem PassedUp.idleBy {i : Fin 2} {e : Exit} (h : PassedUp cfg i c s e t)
    (hc : s.curr_process = some c) : IdleBy (t.softblocked_count > 0) e t := by
  have hne : s.curr_process ≠ none := by
    rw [hc]
    exact Option.some_ne_none c
  cases h with
  | up a ha => exact ⟨fun h ↦ (nomatch h), fun h ↦ (nomatch h), fun _ h ↦ absurd h hne⟩
  | die K u ha hkill hnext => exact hnext.idleBy

theorem Called.idleBy {code : Int} {e : Exit} (h : Called cfg c s code e t)
    (hc : s.curr_process = some c) : IdleBy (t.softblocked_count > 0) e t := by
  have hne : s.curr_process ≠ none := by
    rw [hc]
    exact Option.some_ne_none c
  cases h with
  | createFails hfree => exact .running hne
  | create p rest statep hfree hstate => exact .running ((Nucleus.makeReady_curr p _).trans_ne hne)
  | kill p K u htarget hkill hend =>
      refine hend.idleBy fun _ ↦ ?_
      exact (congrArg (·.1.2.1) hkill.torn.kept : u.curr_process = s.curr_process).trans_ne hne
  | killNone htarget hend => exact hend.idleBy fun _ ↦ hne
  | passeren k hk hsem => exact hsem.idleBy hc
  | verhogen k hk hsem => exact hsem.idleBy hc
  | doIo i hi hsem => exact hsem.idleBy hc
  | getTime => exact .running hne
  | clockWait hsem => exact hsem.idleBy hc
  | getSupportPtr => exact .running hne
  | getProcessId => exact .running hne
  | yield hnext => exact hnext.idleBy
  | invalid hcode hend => exact hend.idleBy hc

theorem Handled.idleBy {e : Exit} (h : Handled cfg s e t) :
    IdleBy (t.softblocked_count > 0) e t := by
  cases h with
  | interrupt hcode hend =>
      cases hend with
      | plt c hc hip hnext => exact hnext.idleBy
      | clock l hl hip hend => exact hend.idleBy id
      | device i u hi hret hend => exact hend.idleBy id
      | none hi hend => exact hend.idleBy id
  | call c code hc hcall hend => exact hend.idleBy hc
  | passUp c i hc hcall hcode hend => exact hend.idleBy hc
  | trap c hc hcall hcode hend => exact hend.idleBy hc

theorem SoftExact.pos_iff (hs : SoftExact cfg s) :
    s.softblocked_count > 0 ↔ ∃ p, SoftBlocked cfg s p := by
  have hpos : s.softblocked_count > 0 ↔ 0 < (softWaiters cfg s).card := by
    rw [← hs]
    exact BitVec.lt_def
  rw [hpos, Finset.card_pos]
  simp only [softWaiters, Finset.filter_nonempty_iff, Finset.mem_univ, true_and]

/-! ## Runs -/

variable (cfg) in
/-- What the count takes for granted about an action. -/
def Action.SoftFits (s : Nucleus n) : Action → Prop
  | .exception state => PandosPlus.SoftFits cfg (enter state s)
  | _ => True

/-- A step keeps the count right exactly if it fits what the count takes for granted. -/
theorem NucStep.exact_iff {a : Action} (hs : Inv cfg s) (hexact : SoftExact cfg s)
    (h : NucStep cfg s a t) : SoftExact cfg t ↔ a.SoftFits cfg s := by
  obtain ⟨hstep, hlaw⟩ := h
  cases a with
  | store b v =>
      simp only [step, Option.ite_none_left_eq_some, Option.some.injEq] at hstep
      obtain ⟨hown, rfl⟩ := hstep
      exact iff_of_true hexact trivial
  | support b x =>
      simp only [step, Option.some.injEq] at hstep
      subst hstep
      exact iff_of_true hexact trivial
  | exception state =>
      obtain ⟨e, -, -, hend⟩ := step_handled hs hstep
      obtain ⟨lost, -, hsound⟩ := hs
      have hsound' : Sound cfg ((enter state s).curr_process.toList ++ lost) (enter state s) :=
        hsound.quiet (.enter state s) rfl
      exact (hend.semStep hsound'.core).exact_iff hsound' hlaw hexact

theorem Start.softExact (h : Start cfg s) : SoftExact cfg s := by
  obtain ⟨mem, support, p, rest, e, hmem, hfree, -, hend⟩ := h.scheduled
  have hnone : ∀ q, ((Nucleus.initial cfg mem support).first cfg p rest).semAdd q = none :=
    (first_sound hmem hfree).2
  refine SoftExact.of_sems ?_ hend.sems.1
  have hempty : softWaiters cfg ((Nucleus.initial cfg mem support).first cfg p rest) = ∅ := by
    refine Finset.eq_empty_of_forall_notMem fun q hq ↦ ?_
    obtain ⟨k, hk, -⟩ := mem_softWaiters.mp hq
    rw [hnone] at hk
    cases hk
  rw [SoftExact, hempty]
  rfl

/-- With the count right, an exception that fits leaves it right, and the processor waits
exactly if a process waits for a device or for the clock. -/
theorem Handled.soft {e : Exit} (hsound : Sound cfg (s.curr_process.toList ++ held) s)
    (hlaw : (Action.exception s.prev).Lawful cfg) (hs : SoftExact cfg s) (hfits : SoftFits cfg s)
    (h : Handled cfg s e t) : SoftExact cfg t ∧ IdleBy (∃ p, SoftBlocked cfg t p) e t := by
  have hexact := ((h.semStep hsound.core).exact_iff hsound hlaw hs).mpr hfits
  refine ⟨hexact, ?_⟩
  rw [← hexact.pos_iff]
  exact h.idleBy

/-- The count is right in every state of a run exactly if every step of the run fits what
the count takes for granted.  Then, whatever exception comes next, if it fits too then it
leaves the count right, and the processor waits if a process waits for a device or for
the clock, and otherwise reports a deadlock. -/
theorem softExact_iff {s₀ : Nucleus n} (h₀ : Start cfg s₀) (acts : List Action) :
    ((∀ as t, as <+: acts → Run (NucStep cfg) s₀ as t → SoftExact cfg t) ↔
      ∀ as a s t, as ++ [a] <+: acts → Run (NucStep cfg) s₀ as s → NucStep cfg s a t →
        a.SoftFits cfg s) ∧
    ∀ as s, Run (NucStep cfg) s₀ as s → SoftExact cfg s → ∀ state e t,
      (excCode state.cause = 0 ∨ s.curr_process ≠ none) → (Action.exception state).Lawful cfg →
      (Action.exception state).SoftFits cfg s →
      exceptionHandler cfg (enter state s) = .error e t → ¬ e.Stops →
      SoftExact cfg t ∧ IdleBy (∃ p, SoftBlocked cfg t p) e t := by
  have hinv : ∀ {as s}, Run (NucStep cfg) s₀ as s → Inv cfg s :=
    fun {as s} hrun ↦ reachable_inv ⟨s₀, as, h₀, hrun⟩
  refine ⟨⟨fun hexact as a s t hpre hrun hstep ↦ ?_, fun hfits as t hpre hrun ↦ ?_⟩,
    fun as s hrun hexact state e t hguard hlaw hfits hends hgo ↦ ?_⟩
  · have hs := hexact as s ((List.prefix_append as [a]).trans hpre) hrun
    exact (hstep.exact_iff (hinv hrun) hs).mp (hexact _ t hpre (.snoc hrun hstep))
  · induction hrun with
    | nil => exact h₀.softExact
    | snoc hrun hstep ih =>
        have hs := ih ((List.prefix_append _ _).trans hpre)
        exact (hstep.exact_iff (hinv hrun) hs).mpr (hfits _ _ _ _ hpre hrun hstep)
  · obtain ⟨lost, -, hsound⟩ := hinv hrun
    have hsound' : Sound cfg ((enter state s).curr_process.toList ++ lost) (enter state s) :=
      hsound.quiet (.enter state s) rfl
    have hclock : (enter state s).mem cfg.semaphore_it ≠ 1 := by
      rw [hsound'.clock]
      decide
    have hend := (exceptionHandler_ends hsound'.core hclock hguard hends).resolve_right hgo
    exact hend.soft hsound' hlaw hexact hfits

/-- The first process waits for a disk. -/
theorem softExact_iff_sample :
    ∃ t : Nucleus 2, t.softblocked_count = 1 ∧ SoftExact (.sample 2 (by decide) .dead) t := by
  let cfg := Config.sample 2 (by decide) .dead
  let doIo : Action := .call DOIO (commandAddr 0) 7 0
  have hcomputed : (firstState cfg).any (fun s ↦ decide (s.mem (cfg.devSem 0) = 0) &&
      (step cfg s doIo).any fun t ↦ decide (t.softblocked_count = 1)) = true := by decide +kernel
  obtain ⟨s, hs, hobs⟩ := (Option.any_eq_true _ _).mp hcomputed
  obtain ⟨hword, hstep⟩ := Bool.and_eq_true_iff.mp hobs
  obtain ⟨t, hstep, hcount⟩ := (Option.any_eq_true _ _).mp hstep
  have hfits : ∀ as a s' t', as ++ [a] <+: [doIo] → Run (NucStep cfg) s as s' →
      NucStep cfg s' a t' → a.SoftFits cfg s' := by
    intro as a s' t' hpre hrun _
    have hlen := hpre.length_le
    rw [List.length_append, List.length_singleton, List.length_singleton] at hlen
    obtain rfl : as = [] := List.length_eq_zero_iff.mp (by omega)
    obtain rfl := hrun.eq_of_nil
    obtain rfl : a = doIo := (List.cons_prefix_cons.mp hpre).1
    refine ⟨fun i _ hi ↦ ?_, fun i p hcode ↦ ?_⟩
    · have hi : commandAddr 0 = commandAddr i := hi
      rw [← commandAddr_injective hi]
      exact of_decide_eq_true hword
    · have hcode : excCode (0x20 : Word) = 0 := hcode
      exact absurd hcode (by decide)
  have hrun : Run (NucStep cfg) s [doIo] t := .single ⟨hstep, by decide⟩
  exact ⟨t, of_decide_eq_true hcount, (softExact_iff (firstState_start hs) [doIo]).1.mpr hfits
    [doIo] t (List.prefix_refl _) hrun⟩

/-- The requester of a disk operation is killed; the completion leaves the semaphore up, and
the next DOIO is counted without blocking. -/
theorem softblocked_overcount :
    ¬ ∀ (n : Nat) (cfg : Config n) (s : Nucleus n), cfg.nullRead = .dead →
      Reachable (Start cfg) (NucStep cfg) s → SoftExact cfg s := by
  intro hclaim
  let cfg := Config.sample 2 (by decide) .dead
  obtain ⟨s, hs, hcount, hnone⟩ := execute_reachable cfg
    (P := fun s ↦ s.softblocked_count = 1 ∧ ∀ p, (s.pcbFree_table p).p_semAdd = none)
    [.call CREATEPROCESS 0x20003000 1 0, .call YIELD 0 0 0, .call DOIO (commandAddr 0) 7 0,
      .call TERMPROCESS 2 0 0, .store (bitmapAddr IL_DISK) 1,
      .exception { State.zero with cause := DISKINTERRUPT }, .call DOIO (commandAddr 0) 7 0]
    (by decide +kernel)
  have hexact := hclaim 2 cfg s rfl hs
  have hempty : softWaiters cfg s = ∅ := by
    refine Finset.eq_empty_of_forall_notMem fun p hp ↦ ?_
    obtain ⟨k, hk, -⟩ := mem_softWaiters.mp hp
    rw [show s.semAdd p = none from hnone p] at hk
    cases hk
  rw [SoftExact, hcount, hempty] at hexact
  cases hexact

end PandosPlus
