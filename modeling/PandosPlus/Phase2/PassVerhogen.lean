import PandosPlus.Lib.BinarySemaphore
import PandosPlus.Phase2.SemSteps

/-!
# PASSEREN and VERHOGEN are the calls of a binary semaphore

The books of a semaphore are kept along a run by looking at the states before and after
each step (`observe`): a process that was blocked and no longer is has been killed if its
PCB is in the free list, and otherwise its call has completed; the caller of PASSEREN or
VERHOGEN has blocked if it is blocked afterwards, and otherwise its call has completed at
once.

As long as its word is changed by nothing else, the books of a semaphore obey the law of
binary semaphores.
-/

namespace PandosPlus

open Lts BinarySemaphore

variable {n : Nat}

/-- The call on the semaphore at `k`, if the exception is one. -/
def semaphoreCall (k : Word) (state : State) : Option Call :=
  if IsCall state PASSEREN ∧ state.reg_a1 = k then some .P
  else if IsCall state VERHOGEN ∧ state.reg_a1 = k then some .V
  else none

/-- The call made by an action. -/
def Action.semaphoreCall (k : Word) : Action → Option Call
  | .exception state => PandosPlus.semaphoreCall k state
  | _ => none

/-- The entry for a call made by `c`. -/
def recordCall (k : Word) (c : Fin n) (o : Call) (t : Nucleus n) (g : Ledger (Fin n)) :
    Ledger (Fin n) :=
  if t.semAdd c = some k then g.wait c o else g.complete o

/-- The books of the semaphore at `k` after a step from `s` to `t`. -/
def observe (k : Word) (s : Nucleus n) (a : Action) (t : Nucleus n) (g : Ledger (Fin n)) :
    Ledger (Fin n) :=
  let g := g.settle (fun p ↦ t.semAdd p = some k) (fun p ↦ p ∈ t.pcbFree_h)
  match a.semaphoreCall k, s.curr_process with
  | some o, some c => recordCall k c o t g
  | _, _ => g

variable (cfg : Config n)

/-- The steps that leave the word at `k` alone, except for PASSEREN and VERHOGEN on it. -/
def SemaphoreStep (k : Word) (s : Nucleus n) (a : Action) (t : Nucleus n) : Prop :=
  NucStep cfg s a t ∧ (t.mem k ≠ s.mem k → a.semaphoreCall k ≠ none)

/-- The books agree with the state of the nucleus. -/
structure Books (k : Word) (v₀ : Nat) (s : Nucleus n) (g : Ledger (Fin n)) : Prop where
  law : Law v₀ (s.mem k).toNat g
  queue : g.waiting.map Waiter.process = s.asl.queue k

variable {cfg} {s t : Nucleus n} {k : Word} {v₀ : Nat} {g : Ledger (Fin n)} {c p : Fin n} {o : Call}

/-! ## The two calls -/

theorem semaphoreCall_eq_some {state : State} (h : semaphoreCall k state = some o) :
    state.reg_a1 = k ∧ (o = .P ∧ IsCall state PASSEREN ∨ o = .V ∧ IsCall state VERHOGEN) := by
  unfold semaphoreCall at h
  split at h
  · rename_i hp
    cases h
    exact ⟨hp.2, .inl ⟨rfl, hp.1⟩⟩
  split at h
  · rename_i hv
    cases h
    exact ⟨hv.2, .inr ⟨rfl, hv.1⟩⟩
  · cases h

/-- The word at which a call blocks. -/
def callWord (o : Call) : Word := BitVec.ofNat 32 o.full

theorem callWord_toNat (o : Call) : (callWord o).toNat = o.full := by cases o <;> rfl

theorem eq_callWord_iff {v : Word} : v = callWord o ↔ v.toNat = o.full := by
  rw [← callWord_toNat]
  exact BitVec.toNat_inj.symm

theorem Books.mem_waiting (h : Books k v₀ s g) (hasl : s.asl.Inv s.semAdd) :
    (∃ w ∈ g.waiting, w.process = p) ↔ s.semAdd p = some k := by
  rw [← hasl.mem_queue, ← h.queue, List.mem_map]

/-- Nothing happens to the semaphore. -/
theorem Books.elsewhere (h : Books k v₀ s g) (hasl : t.asl.Inv t.semAdd)
    (hmem : t.mem k = s.mem k) (hqueue : t.asl.queue k = s.asl.queue k) :
    g.settle (fun p ↦ t.semAdd p = some k) (fun p ↦ p ∈ t.pcbFree_h) = g ∧ Books k v₀ t g := by
  refine ⟨Ledger.settle_still fun w hw ↦ ?_, ?_, ?_⟩
  · refine decide_eq_true (hasl.mem_queue.mp ?_)
    rw [hqueue, ← h.queue]
    exact List.mem_map_of_mem hw
  · rw [hmem]
    exact h.law
  · rw [hqueue]
    exact h.queue

/-- Waiters are killed. -/
theorem Books.removed {K : List (Fin n)} (h : Books k v₀ s g) (hasl : t.asl.Inv t.semAdd)
    (hrem : Removed cfg K s t) :
    Books k v₀ t (g.settle (fun p ↦ t.semAdd p = some k) (fun p ↦ p ∈ t.pcbFree_h)) := by
  have hstill : ∀ w ∈ g.waiting, decide (t.semAdd w.process = some k) = decide (w.process ∉ K) := by
    intro w hw
    refine decide_eq_decide.mpr ?_
    rw [← hasl.mem_queue, hrem.queue, mem_filter_notMem, ← h.queue]
    exact and_iff_right (List.mem_map_of_mem hw)
  refine ⟨?_, ?_⟩
  · rw [hrem.mem]
    refine h.law.kill fun w hw hgone ↦ decide_eq_true ((hrem.free _).mpr (.inl ?_))
    rw [hstill w hw, decide_eq_false_iff_not, not_not] at hgone
    exact hgone
  · rw [hrem.queue, ← h.queue, List.filter_map]
    exact congrArg (List.map Waiter.process) (List.filter_congr hstill)

/-- A call on the semaphore, made by the current process. -/
theorem Books.call (h : Books k v₀ s g) (hs : s.asl.Inv s.semAdd) (hasl : t.asl.Inv t.semAdd)
    (hlive : ∀ p, s.semAdd p = some k → p ∉ s.pcbFree_h) (hc : s.semAdd c = none)
    (hmove : SemMove (callWord o) k c s t) :
    Books k v₀ t (recordCall k c o t
      (g.settle (fun p ↦ t.semAdd p = some k) (fun p ↦ p ∈ t.pcbFree_h))) := by
  have hmem : ∀ w ∈ g.waiting, w.process ∈ s.asl.queue k := fun w hw ↦ by
    rw [← h.queue]
    exact List.mem_map_of_mem hw
  cases hmove with
  | block hfull hsems =>
      have hqueue : t.asl.queue k = s.asl.queue k ++ [c] := by
        rw [sems_asl hsems, Nucleus.block_queue hs hc, if_pos rfl]
      have hsem : t.semAdd c = some k := by
        rw [sems_semAdd hsems, Nucleus.block_semAdd]
        exact if_pos rfl
      have hstill : g.settle (fun p ↦ t.semAdd p = some k) (fun p ↦ p ∈ t.pcbFree_h) = g :=
        Ledger.settle_still fun w hw ↦ decide_eq_true (hasl.mem_queue.mp (by
          rw [hqueue]
          exact List.mem_append_left _ (hmem w hw)))
      have hword : t.mem k = s.mem k := congrFun (sems_mem hsems) k
      rw [hstill, recordCall, if_pos hsem]
      refine ⟨?_, ?_⟩
      · rw [hword]
        exact h.law.wait (eq_callWord_iff.mp hfull) c
      · rw [hqueue, ← h.queue, Ledger.wait, List.map_append]
        rfl
  | release p rest hfull hqueue hsems hfree =>
      have hp : s.semAdd p = some k := hs.mem_queue.mp (by rw [hqueue]; exact List.mem_cons_self)
      have hqueue' : t.asl.queue k = rest := by
        rw [sems_asl hsems, Nucleus.unblock_queue hs hp, if_pos rfl, hqueue, List.erase_cons_head]
      have hsem : ∀ q, t.semAdd q = if q = p then none else s.semAdd q := fun q ↦ by
        rw [sems_semAdd hsems, Nucleus.unblock_semAdd]
      obtain ⟨w, ws, hw, rfl, hws⟩ := List.map_eq_cons_iff.mp (h.queue.trans hqueue)
      have hsettle := Ledger.settle_head (fun p ↦ t.semAdd p = some k)
        (fun p ↦ p ∈ t.pcbFree_h) hw (by simp [hsem])
        (by simpa [hfree] using hlive _ hp) fun w' hw' ↦ decide_eq_true (hasl.mem_queue.mp (by
          rw [hqueue', ← hws]
          exact List.mem_map_of_mem hw'))
      have hcaller : t.semAdd c ≠ some k := by
        rw [hsem]
        split
        · exact (Option.some_ne_none k).symm
        · rw [hc]
          exact (Option.some_ne_none k).symm
      have hword : t.mem k = s.mem k := congrFun (sems_mem hsems) k
      rw [hsettle, recordCall, if_neg hcaller]
      refine ⟨?_, ?_⟩
      · rw [hword]
        exact h.law.release (mt eq_callWord_iff.mpr hfull) hw
      · rw [hqueue']
        exact hws
  | write hfull hqueue hsems =>
      have hempty : g.waiting = [] := List.map_eq_nil_iff.mp (h.queue.trans hqueue)
      have hcaller : t.semAdd c ≠ some k := by
        rw [sems_semAdd hsems]
        exact hc.trans_ne (Option.some_ne_none k).symm
      have hstill : g.settle (fun p ↦ t.semAdd p = some k) (fun p ↦ p ∈ t.pcbFree_h) = g :=
        Ledger.settle_still fun w hw ↦ by
          rw [hempty] at hw
          cases hw
      have hword : t.mem k = callWord o := by
        rw [sems_mem hsems]
        exact Nucleus.store_same s k _
      rw [hstill, recordCall, if_neg hcaller]
      refine ⟨?_, ?_⟩
      · rw [hword, callWord_toNat]
        exact h.law.complete (mt eq_callWord_iff.mpr hfull) hempty
      · rw [sems_asl hsems]
        exact h.queue

/-! ## One step -/

/-- No call on the semaphore is made, and it is left alone. -/
theorem Books.observe_elsewhere {a : Action} (h : Books k v₀ s g) (hasl : t.asl.Inv t.semAdd)
    (hcall : a.semaphoreCall k = none) (hmem : t.mem k = s.mem k)
    (hqueue : t.asl.queue k = s.asl.queue k) : Books k v₀ t (observe k s a t g) := by
  obtain ⟨hsettle, hbooks⟩ := h.elsewhere hasl hmem hqueue
  rw [observe, hcall, hsettle]
  exact hbooks

/-- A call on the semaphore is handled as such. -/
theorem SemStep.move_of_call (ho : semaphoreCall k s.prev = some o) (h : SemStep cfg s t) :
    ∃ c, s.curr_process = some c ∧ SemMove (callWord o) k c s t := by
  obtain ⟨rfl, hcall⟩ := semaphoreCall_eq_some ho
  have hmem : ∃ code ∈ [PASSEREN, VERHOGEN], IsCall s.prev code := by
    rcases hcall with ⟨-, h⟩ | ⟨-, h⟩
    · exact ⟨_, by decide, h⟩
    · exact ⟨_, by decide, h⟩
  obtain ⟨code, hcode, hcall'⟩ := hmem
  have hsem : code ∈ semCodes := by
    rcases List.mem_pair.mp hcode with rfl | rfl <;> decide
  have hother : ∀ {code'}, code' ∉ [PASSEREN, VERHOGEN] → ¬ IsCall s.prev code' :=
    fun hout h ↦ hout (hcall'.code h ▸ hcode)
  cases h with
  | still hno h => exact absurd hcall' (hno.call code hsem)
  | passeren c hc hp hmove =>
      rcases hcall with ⟨rfl, -⟩ | ⟨rfl, hv⟩
      · exact ⟨c, hc, hmove⟩
      · exact absurd (hp.code hv) (by decide)
  | verhogen c hc hv hmove =>
      rcases hcall with ⟨rfl, hp⟩ | ⟨rfl, -⟩
      · exact absurd (hp.code hv) (by decide)
      · exact ⟨c, hc, hmove⟩
  | doIo c i hc hio hi hmove => exact absurd hio (hother (by decide))
  | clockWait c hc hwait hmove => exact absurd hwait (hother (by decide))
  | kill K hno h => exact absurd hcall' (hno.call code hsem)
  | tick l hno h => exact absurd hcall' (hno.call code hsem)
  | device i hcode' hi h => exact absurd hcode' hcall'.excCode_ne

/-- An exception that is no call on a semaphore of the processes kills some of its
waiters, or leaves its queue alone. -/
theorem SemStep.queue_of_no_call {held : List (Fin n)} (hk : ¬ Owned cfg k)
    (hs : Core s (s.curr_process.toList ++ held)) (ho : semaphoreCall k s.prev = none)
    (h : SemStep cfg s t) : t.asl.queue k = s.asl.queue k ∨ ∃ K, Removed cfg K s t := by
  have hsem : ∀ {c}, s.curr_process = some c → s.semAdd c = none := by
    intro c hc
    rw [hc] at hs
    exact (hs.of_held List.mem_cons_self).2.2.1
  have hit : k ≠ cfg.semaphore_it := fun h ↦ hk (.inl h)
  have hdev : ∀ i, k ≠ cfg.devSem i := fun i h ↦ hk (h ▸ owned_devSem i)
  cases h with
  | still hno h => exact .inl (by rw [sems_asl h])
  | passeren c hc hp hmove =>
      refine .inl (hmove.queue_ne hs.asl (hsem hc) fun h ↦ ?_)
      rw [semaphoreCall, if_pos ⟨hp, h.symm⟩] at ho
      cases ho
  | verhogen c hc hv hmove =>
      refine .inl (hmove.queue_ne hs.asl (hsem hc) fun h ↦ ?_)
      have hp : ¬ (IsCall s.prev PASSEREN ∧ s.prev.reg_a1 = k) :=
        fun hp ↦ absurd (hp.1.code hv) (by decide)
      rw [semaphoreCall, if_neg hp, if_pos ⟨hv, h.symm⟩] at ho
      cases ho
  | doIo c i hc hcall hi hmove =>
      exact .inl (SemMove.queue_ne (s := s.issue i) hs.asl (hsem hc) (hdev i) hmove)
  | clockWait c hc hcall hmove =>
      exact .inl (SemMove.queue_ne (s := { s with softblocked_count := s.softblocked_count + 1 })
        hs.asl (hsem hc) hit hmove)
  | kill K hno h => exact .inr ⟨K, h⟩
  | tick l hno h => exact .inl ((h.queue k).trans (if_neg hit))
  | device i hcode hi h => exact .inl (h.queue_ne hs.asl (hdev i))

/-- The books are kept through every exception. -/
theorem SemStep.books {held : List (Fin n)} (hk : ¬ Owned cfg k)
    (hs : Core s (s.curr_process.toList ++ held)) (hasl : t.asl.Inv t.semAdd)
    (hword : t.mem k ≠ s.mem k → semaphoreCall k s.prev ≠ none) (h : SemStep cfg s t)
    (hbooks : Books k v₀ s g) : Books k v₀ t (observe k s (.exception s.prev) t g) := by
  have hlive : ∀ p, s.semAdd p = some k → p ∉ s.pcbFree_h := fun p hp ↦ (hs.of_blocked hp).1
  cases ho : semaphoreCall k s.prev with
  | some o =>
      obtain ⟨c, hc, hmove⟩ := h.move_of_call ho
      have hsem : s.semAdd c = none := by
        rw [hc] at hs
        exact (hs.of_held List.mem_cons_self).2.2.1
      rw [observe, Action.semaphoreCall, ho, hc]
      exact hbooks.call hs.asl hasl hlive hsem hmove
  | none =>
      have hmem : t.mem k = s.mem k := not_not.mp fun hne ↦ hword hne ho
      rcases h.queue_of_no_call hk hs ho with hqueue | ⟨K, hrem⟩
      · exact hbooks.observe_elsewhere hasl ho hmem hqueue
      · rw [observe, Action.semaphoreCall, ho]
        exact hbooks.removed hasl hrem

theorem observe_enter {state : State} :
    observe k (enter state s) (.exception (enter state s).prev) t g =
      observe k s (.exception state) t g := rfl

theorem SemaphoreStep.books {a : Action} (hk : ¬ Owned cfg k) (hs : Inv cfg s)
    (h : SemaphoreStep cfg k s a t) (hbooks : Books k v₀ s g) :
    Books k v₀ t (observe k s a t g) := by
  obtain ⟨hstep, hword⟩ := h
  obtain ⟨lost', -, hsound'⟩ := hstep.inv hs
  have hasl := hsound'.core.asl
  cases a with
  | store b v =>
      have ht := hstep.1
      simp only [step, Option.ite_none_left_eq_some, Option.some.injEq] at ht
      obtain ⟨-, rfl⟩ := ht
      exact hbooks.observe_elsewhere hasl rfl (not_not.mp fun hne ↦ hword hne rfl) rfl
  | support b x =>
      have ht := hstep.1
      simp only [step, Option.some.injEq] at ht
      subst ht
      exact hbooks.observe_elsewhere hasl rfl rfl rfl
  | exception state =>
      obtain ⟨e, -, -, hend⟩ := step_handled hs hstep.1
      obtain ⟨lost, -, hsound⟩ := hs
      have hcore : Core (enter state s) ((enter state s).curr_process.toList ++ lost) :=
        hsound.core.quiet (.enter state s)
      have hbooks' : Books k v₀ (enter state s) g := ⟨hbooks.law, hbooks.queue⟩
      have hword' : t.mem k ≠ (enter state s).mem k → semaphoreCall k (enter state s).prev ≠ none :=
        hword
      have hobserve := (hend.semStep hcore).books hk hcore hasl hword' hbooks'
      rwa [observe_enter] at hobserve

/-! ## Every run -/

/-- From a state in which no call on the semaphore has been made: its word is 0 or 1, and
counts the calls that have completed; while it is 0 all that wait are callers of P, and
while it is 1 callers of V; and calls are released in the order they blocked, except that
those of killed callers are skipped. -/
theorem semaphore_law {s₀ : Nucleus n} (hk : ¬ Owned cfg k)
    (h₀ : Reachable (Start cfg) (NucStep cfg) s₀) (hv : s₀.mem k = 0 ∨ s₀.mem k = 1)
    (hnew : ∀ p, (s₀.pcbFree_table p).p_semAdd ≠ some k) {as : List Action}
    (hrun : Run (WithHistory (SemaphoreStep cfg k) (observe k)) (s₀, .new) as (t, g)) :
    (t.mem k = 0 ∨ t.mem k = 1) ∧
    (t.mem k).toNat + g.done .P = (s₀.mem k).toNat + g.done .V ∧
    (∀ p, (t.pcbFree_table p).p_semAdd = some k ↔ ∃ w ∈ g.waiting, w.process = p) ∧
    (∀ w ∈ g.waiting, w.call = if t.mem k = 0 then .P else .V) ∧
    g.released.Pairwise (· < ·) ∧
    ∀ j ∈ g.released, ∀ i < j, i ∈ g.released ∨ i ∈ g.killed := by
  have hone : (s₀.mem k).toNat ≤ 1 := by
    rcases hv with h | h <;> rw [h] <;> decide
  obtain ⟨lost₀, -, hsound₀⟩ := reachable_inv h₀
  have hempty : s₀.asl.queue k = [] := by
    refine List.eq_nil_iff_forall_not_mem.mpr fun p hp ↦ hnew p ?_
    exact hsound₀.core.asl.mem_queue.mp hp
  have hstart : Inv cfg s₀ ∧ Books k (s₀.mem k).toNat s₀ .new :=
    ⟨reachable_inv h₀, Law.new hone, hempty.symm⟩
  have hinv := hrun.invariant (I := fun x ↦ Inv cfg x.1 ∧ Books k (s₀.mem k).toNat x.1 x.2)
    (fun x a y hx hstep ↦ ⟨hstep.1.1.inv hx.1, hstep.2 ▸ hstep.1.books hk hx.1 hx.2⟩) hstart
  obtain ⟨⟨lost, -, hsound⟩, hbooks⟩ := hinv
  have hbinary : t.mem k = 0 ∨ t.mem k = 1 := by
    have := hbooks.law.binary
    rcases Nat.le_one_iff_eq_zero_or_eq_one.mp this with h | h
    · exact .inl (BitVec.toNat_inj.mp h)
    · exact .inr (BitVec.toNat_inj.mp h)
  refine ⟨hbinary, hbooks.law.balance, fun p ↦ (hbooks.mem_waiting hsound.core.asl).symm,
    fun w hw ↦ ?_, hbooks.law.released, fun j hj i hi ↦ hbooks.law.fifo hj hi⟩
  have hkind := hbooks.law.kind w hw
  rcases hbinary with h | h <;> rw [h] at hkind ⊢ <;> cases hcall : w.call <;>
    simp [hcall, Call.full] at hkind ⊢

/-- The first process raises a semaphore. -/
theorem semaphore_law_sample :
    ∃ (t : Nucleus 2) (g : Ledger (Fin 2)),
      t.mem 0x20004000 = 1 ∧ 1 + g.done .P = g.done .V ∧ ∀ w ∈ g.waiting, w.call = .V := by
  let cfg := Config.sample 2 (by decide) .faults
  let raise : Action := .call VERHOGEN 0x20004000 0 0
  have hcomputed : (firstState cfg).any (fun s ↦
      decide (s.mem 0x20004000 = 0 ∧ ∀ p, (s.pcbFree_table p).p_semAdd ≠ some 0x20004000) &&
        (step cfg s raise).any fun t ↦ decide (t.mem 0x20004000 = 1)) = true := by decide +kernel
  obtain ⟨s, hs, hobs⟩ := (Option.any_eq_true _ _).mp hcomputed
  obtain ⟨hfirst, hstep⟩ := Bool.and_eq_true_iff.mp hobs
  obtain ⟨hzero, hnew⟩ := of_decide_eq_true hfirst
  obtain ⟨t, hstep, hone⟩ := (Option.any_eq_true _ _).mp hstep
  have hmem := of_decide_eq_true hone
  have hstep' : SemaphoreStep cfg 0x20004000 s raise t := ⟨⟨hstep, by decide⟩, fun _ ↦ by decide⟩
  obtain ⟨g, hrun⟩ := (Run.single hstep').decorate (observe 0x20004000) .new
  obtain ⟨-, hbalance, -, hkind, -⟩ := semaphore_law (by decide : ¬ Owned cfg 0x20004000)
    (.start (firstState_start hs)) (.inl hzero) hnew hrun
  rw [hmem, hzero] at hbalance
  refine ⟨t, g, hmem, hbalance.trans (Nat.zero_add _), fun w hw ↦ ?_⟩
  rw [hkind w hw, if_neg (by rw [hmem]; decide)]

end PandosPlus
