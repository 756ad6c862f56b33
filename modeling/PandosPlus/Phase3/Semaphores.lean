import PandosPlus.Phase2.PassVerhogen
import PandosPlus.Phase3.Runs
import PandosPlus.Phase3.Steps

/-!
# The semaphores of the support level in the nucleus

The support level has the nucleus for a machine: a call of PASSEREN or VERHOGEN is an instruction
to it (`System.semCall`), and the death of a process takes that process out of every queue
(`System.kill`).  Here these two are what the steps of the nucleus amount to, on the words at
which the support level has its semaphores.  Whatever else the nucleus does between two calls,
devices, clocks and other processes included, is nothing to them.
-/

namespace PandosPlus.SupportLevel

open Lts

variable {n u m k : Nat} {cfg : Config n}

/-- The semaphores of the source: two for each U-proc, and two of which there is one. -/
def SemId.Declared (u : Nat) : SemId → Prop
  | .printer i | .terminal i => 0 ≤ i ∧ i < u
  | .swapPool | .master => True

/-- The words of the semaphores and the PCBs of the processes. -/
structure Layout (cfg : Config n) (u : Nat) where
  sem : SemId → Word
  pcb : Actor u → Fin n
  sem_inj : ∀ x y, x.Declared u → y.Declared u → sem x = sem y → x = y
  /-- They are none of the nucleus' own. -/
  not_owned : ∀ x, x.Declared u → ¬ Owned cfg (sem x)
  pcb_inj : Function.Injective pcb

/-- The nucleus keeps the semaphores of the support level. -/
structure Backed (L : Layout cfg u) (s : Nucleus n) (S : System u m k) : Prop where
  binary : ∀ x, x.Declared u → (S.sem x).val = 0 ∨ (S.sem x).val = 1
  val : ∀ x, x.Declared u → (s.mem (L.sem x)).toInt = (S.sem x).val
  queue : ∀ x, x.Declared u → s.asl.queue (L.sem x) = (S.sem x).queue.map L.pcb
  asleep : ∀ q, (S.proc q).phase = .asleep ↔
    ∃ x, x.Declared u ∧ s.semAdd (L.pcb q) = some (L.sem x)

/-- The PCB has been freed. -/
def Freed (s t : Nucleus n) (p : Fin n) : Prop := p ∈ t.pcbFree_h ∧ p ∉ s.pcbFree_h

instance (s t : Nucleus n) (p : Fin n) : Decidable (Freed s t p) :=
  inferInstanceAs (Decidable (_ ∧ _))

/-- What an action of the nucleus is to the support level. -/
inductive Appears (L : Layout cfg u) (s : Nucleus n) (a : Action) (t : Nucleus n)
    (S : System u m k) : System u m k → Prop
  /-- A call on one of its semaphores, by one of its processes. -/
  | call (o : BinarySemaphore.Call) (p : Actor u) (x : SemId) (hx : x.Declared u)
      (hcall : a.semaphoreCall (L.sem x) = some o) (hp : s.curr_process = some (L.pcb p)) :
      Appears L s a t S (S.semCall o.full p x)
  /-- Anything else; but its processes may be killed. -/
  | other (hcall : ∀ x, x.Declared u → a.semaphoreCall (L.sem x) = none) :
      Appears L s a t S (S.kill fun q ↦ decide (Freed s t (L.pcb q)))

/-- A step of the nucleus that changes the words of the semaphores by calls only, and what it is
to the support level. -/
def SupportStep (L : Layout cfg u) (x : Nucleus n × System u m k) (a : Action)
    (y : Nucleus n × System u m k) : Prop :=
  NucStep cfg x.1 a y.1 ∧
    (∀ z, z.Declared u → y.1.mem (L.sem z) ≠ x.1.mem (L.sem z) →
      a.semaphoreCall (L.sem z) ≠ none) ∧
    Appears L x.1 a y.1 x.2 y.2

variable {L : Layout cfg u} {s t : Nucleus n} {S S' : System u m k} {p q : Actor u} {x y : SemId}
variable {o : BinarySemaphore.Call} {a : Action} {held lost : List (Fin n)}

theorem Layout.sem_ne (hx : x.Declared u) (hy : y.Declared u) (hne : y ≠ x) :
    L.sem y ≠ L.sem x := fun he ↦ hne (L.sem_inj y x hy hx he)

namespace Backed

theorem mem_queue (h : Backed L s S) (hs : s.asl.Inv s.semAdd) (hx : x.Declared u) :
    q ∈ (S.sem x).queue ↔ s.semAdd (L.pcb q) = some (L.sem x) := by
  rw [← hs.mem_queue, h.queue x hx, List.mem_map_of_injective L.pcb_inj]

/-- The words say whether a call blocks. -/
theorem val_eq_iff (h : Backed L s S) (hx : x.Declared u) :
    s.mem (L.sem x) = callWord o ↔ (S.sem x).val = o.full := by
  rw [← h.val x hx, ← BitVec.toInt_inj]
  cases o <;> rfl

/-! ## Calls -/

/-- One semaphore changes, and the processes have been looked after. -/
theorem setSem {v : NucSem u} (h : Backed L s S) (hx : x.Declared u) (hS : S'.sem = S.sem)
    (hbinary : v.val = 0 ∨ v.val = 1) (hval : (t.mem (L.sem x)).toInt = v.val)
    (hqueue : t.asl.queue (L.sem x) = v.queue.map L.pcb)
    (hmem : ∀ k, k ≠ L.sem x → t.mem k = s.mem k)
    (hqueues : ∀ k, k ≠ L.sem x → t.asl.queue k = s.asl.queue k)
    (hasleep : ∀ q, (S'.proc q).phase = .asleep ↔
      ∃ y, y.Declared u ∧ t.semAdd (L.pcb q) = some (L.sem y)) :
    Backed L t (S'.setSem x v) := by
  have hsem : ∀ {y}, y ≠ x → (S'.setSem x v).sem y = S.sem y := fun hne ↦ by
    rw [setSem_ne _ hne, hS]
  refine ⟨fun y hy ↦ ?_, fun y hy ↦ ?_, fun y hy ↦ ?_, hasleep⟩
  · by_cases he : y = x
    · rw [he, setSem_self]
      exact hbinary
    · rw [hsem he]
      exact h.binary y hy
  · by_cases he : y = x
    · rw [he, setSem_self]
      exact hval
    · rw [hsem he, hmem _ (Layout.sem_ne hx hy he)]
      exact h.val y hy
  · by_cases he : y = x
    · rw [he, setSem_self]
      exact hqueue
    · rw [hsem he, hqueues _ (Layout.sem_ne hx hy he)]
      exact h.queue y hy

/-- A process that is not blocked is not asleep. -/
theorem awake {v : Proc u m} (hv : v.phase = .ready) (hq : t.semAdd (L.pcb q) = none) :
    v.phase = .asleep ↔
      ∃ y, y.Declared u ∧ t.semAdd (L.pcb q) = some (L.sem y) := by
  rw [hv, hq]
  exact iff_of_false (by rintro ⟨⟩) fun ⟨_, _, he⟩ ↦ Option.some_ne_none _ he.symm

/-- The caller falls asleep. -/
theorem block (h : Backed L s S) (hs : s.asl.Inv s.semAdd) (hp : s.semAdd (L.pcb p) = none)
    (hx : x.Declared u) (hsems : t.sems = (s.block (L.sem x) (L.pcb p)).sems) :
    Backed L t ((S.setProc p { S.proc p with phase := .asleep }).setSem x
      { S.sem x with queue := (S.sem x).queue ++ [p] }) := by
  have hmem : t.mem = s.mem := by
    rw [sems_mem hsems]
    rfl
  have hsem : ∀ r, t.semAdd r = if r = L.pcb p then some (L.sem x) else s.semAdd r := fun r ↦ by
    rw [sems_semAdd hsems, Nucleus.block_semAdd]
  refine h.setSem hx rfl (h.binary x hx) ?_ ?_ (fun k _ ↦ congrFun hmem k) (fun k hk ↦ ?_)
    fun q ↦ ?_
  · rw [hmem]
    exact h.val x hx
  · rw [sems_asl hsems, Nucleus.block_queue hs hp, if_pos rfl, h.queue x hx, List.map_append]
    rfl
  · rw [sems_asl hsems, Nucleus.block_queue hs hp, if_neg hk]
  · rw [hsem]
    by_cases he : q = p
    · subst he
      rw [setProc_self, if_pos rfl]
      exact iff_of_true rfl ⟨x, hx, rfl⟩
    · rw [setProc_ne S he, if_neg (L.pcb_inj.ne he)]
      exact h.asleep q

/-- The first of the queue is woken. -/
theorem wake {rest : List (Actor u)} (h : Backed L s S) (hs : s.asl.Inv s.semAdd)
    (hp : s.semAdd (L.pcb p) = none) (hx : x.Declared u) (hq : (S.sem x).queue = q :: rest)
    (hsems : t.sems = (s.unblock (L.sem x) (L.pcb q)).sems) :
    Backed L t (((S.resume p).resume q).setSem x { S.sem x with queue := rest }) := by
  have hwaits : s.semAdd (L.pcb q) = some (L.sem x) :=
    (h.mem_queue hs hx).mp (by rw [hq]; exact List.mem_cons_self)
  have hmem : t.mem = s.mem := by
    rw [sems_mem hsems]
    rfl
  have hsem : ∀ r, t.semAdd r = if r = L.pcb q then none else s.semAdd r := fun r ↦ by
    rw [sems_semAdd hsems, Nucleus.unblock_semAdd]
  refine h.setSem hx rfl (h.binary x hx) ?_ ?_ (fun k _ ↦ congrFun hmem k) (fun k hk ↦ ?_)
    fun r ↦ ?_
  · rw [hmem]
    exact h.val x hx
  · rw [sems_asl hsems, Nucleus.unblock_queue hs hwaits, if_pos rfl, h.queue x hx, hq,
      List.map_cons, List.erase_cons_head]
  · rw [sems_asl hsems, Nucleus.unblock_queue hs hwaits, if_neg hk]
  · by_cases hrq : r = q
    · subst hrq
      rw [resume_self]
      exact awake rfl (by rw [hsem, if_pos rfl])
    · have hr : t.semAdd (L.pcb r) = s.semAdd (L.pcb r) := by
        rw [hsem, if_neg (L.pcb_inj.ne hrq)]
      rw [resume_ne _ hrq]
      by_cases hrp : r = p
      · subst hrp
        rw [resume_self]
        exact awake rfl (hr.trans hp)
      · rw [resume_ne _ hrp, hr]
        exact h.asleep r

/-- Nobody waits, and the word changes. -/
theorem change (h : Backed L s S) (hp : s.semAdd (L.pcb p) = none) (hx : x.Declared u)
    (hval : (S.sem x).val ≠ o.full) (hsems : t.sems = (s.store (L.sem x) (callWord o)).sems) :
    Backed L t ((S.resume p).setSem x { S.sem x with val := 1 - (S.sem x).val }) := by
  have hbinary := h.binary x hx
  have hfull : 1 - (S.sem x).val = o.full := by
    cases o <;> simp only [BinarySemaphore.Call.full] at hval ⊢ <;> omega
  have hasl : t.asl = s.asl := by
    rw [sems_asl hsems]
    rfl
  have hsem : t.semAdd = s.semAdd := by
    rw [sems_semAdd hsems]
    rfl
  refine h.setSem hx rfl (by dsimp only; omega) ?_ ?_ (fun k hk ↦ ?_) (fun k _ ↦ by rw [hasl])
    fun q ↦ ?_
  · rw [sems_mem hsems, Nucleus.store_same, hfull]
    cases o <;> rfl
  · rw [hasl]
    exact h.queue x hx
  · rw [sems_mem hsems, Nucleus.store_ne s _ hk]
  · by_cases he : q = p
    · subst he
      rw [resume_self]
      exact awake rfl (by rw [hsem, hp])
    · rw [resume_ne _ he, hsem]
      exact h.asleep q

/-- A call goes the same way in the nucleus and at the support level. -/
theorem call (h : Backed L s S) (hs : s.asl.Inv s.semAdd) (hp : s.semAdd (L.pcb p) = none)
    (hx : x.Declared u) (hmove : SemMove (callWord o) (L.sem x) (L.pcb p) s t) :
    Backed L t (S.semCall o.full p x) := by
  have hqueue := h.queue x hx
  cases hmove with
  | block hfull hsems =>
      have hval := (h.val_eq_iff hx).mp hfull
      rw [System.semCall, if_pos hval]
      exact h.block hs hp hx hsems
  | release r rest hfull hr hsems hfree =>
      have hval := mt (h.val_eq_iff hx).mpr hfull
      rw [hr] at hqueue
      obtain ⟨q, qs, hq, rfl, -⟩ := List.map_eq_cons_iff.mp hqueue.symm
      simp only [System.semCall, if_neg hval, hq]
      exact h.wake hs hp hx hq hsems
  | write hfull hr hsems =>
      have hval := mt (h.val_eq_iff hx).mpr hfull
      rw [hr] at hqueue
      have hq : (S.sem x).queue = [] := List.map_eq_nil_iff.mp hqueue.symm
      have hchange := h.change hp hx hval hsems
      simp only [System.semCall, if_neg hval, hq] at hchange ⊢
      exact hchange

/-! ## Everything else -/

/-- Of the queues only the PCBs that have been freed are missing. -/
theorem other (h : Backed L s S) (hs : s.asl.Inv s.semAdd) (ht : Core t held)
    (hmem : ∀ x, x.Declared u → t.mem (L.sem x) = s.mem (L.sem x))
    (hqueue : ∀ x, x.Declared u →
      t.asl.queue (L.sem x) = (s.asl.queue (L.sem x)).filter fun p ↦ ¬ Freed s t p) :
    Backed L t (S.kill fun q ↦ decide (Freed s t (L.pcb q))) := by
  refine ⟨h.binary, fun x hx ↦ ?_, fun x hx ↦ ?_, fun q ↦ ?_⟩
  · rw [hmem x hx]
    exact h.val x hx
  · rw [hqueue x hx, h.queue x hx, List.filter_map]
    refine congrArg (List.map L.pcb) (List.filter_congr fun q _ ↦ ?_)
    exact decide_not
  · by_cases hq : Freed s t (L.pcb q)
    · rw [kill_dead S (decide_eq_true hq), ht.semAdd_free hq.1]
      exact iff_of_false (by rintro ⟨⟩) fun ⟨_, _, he⟩ ↦ Option.some_ne_none _ he.symm
    · rw [kill_alive S (decide_eq_false hq), h.asleep q]
      refine exists_congr fun x ↦ and_congr_right fun hx ↦ ?_
      rw [← hs.mem_queue, ← ht.asl.mem_queue, hqueue x hx, List.mem_filter]
      exact (and_iff_left (decide_eq_true hq)).symm

end Backed

/-- An exception that is no call on the semaphore takes from its queue what is freed. -/
theorem queue_of_no_call {key : Word} (hkey : ¬ Owned cfg key)
    (hs : Core s (s.curr_process.toList ++ held)) (ht : Core t lost)
    (hcall : semaphoreCall key s.prev = none) (hstep : SemStep cfg s t) :
    t.asl.queue key = (s.asl.queue key).filter fun p ↦ ¬ Freed s t p := by
  rcases hstep.queue_of_no_call hkey hs hcall with hsame | ⟨K, hrem⟩
  · -- who still waits has not been freed
    rw [hsame]
    refine (List.filter_eq_self.mpr fun p hp ↦ decide_eq_true (p := ¬ _) fun hfreed ↦ ?_).symm
    rw [← hsame, ht.asl.mem_queue, ht.semAdd_free hfreed.1] at hp
    cases hp
  · rw [hrem.queue]
    refine List.filter_congr fun p hp ↦ decide_eq_decide.mpr (not_congr ⟨fun hK ↦ ?_, fun hf ↦ ?_⟩)
    · exact ⟨(hrem.free p).mpr (.inl hK), hrem.alive p hK⟩
    · exact ((hrem.free p).mp hf.1).resolve_right hf.2

/-- The current process is in no queue. -/
theorem semAdd_curr {c : Fin n} (hs : Core s (s.curr_process.toList ++ held))
    (hc : s.curr_process = some c) : s.semAdd c = none := by
  rw [hc] at hs
  exact (hs.of_held List.mem_cons_self).2.2.1

/-- A step of the nucleus keeps the semaphores as the support level sees them. -/
theorem SupportStep.backed (hs : Inv cfg s) (h : Backed L s S)
    (hstep : SupportStep L (s, S) a (t, S')) : Backed L t S' := by
  obtain ⟨hnuc, hword, happears⟩ := hstep
  have happears : Appears L s a t S S' := happears
  obtain ⟨lost', -, hsound'⟩ := hnuc.inv hs
  cases a with
  | store b v =>
      have ht := hnuc.1
      simp only [step, Option.ite_none_left_eq_some, Option.some.injEq] at ht
      obtain ⟨-, rfl⟩ := ht
      cases happears with
      | call o p x hx hcall hp => cases hcall
      | other hcall =>
          refine h.other hsound'.core.asl hsound'.core (fun x hx ↦ ?_) fun x hx ↦ ?_
          · exact not_not.mp fun hne ↦ hword x hx hne rfl
          · exact (List.filter_eq_self.mpr fun p _ ↦ decide_eq_true (p := ¬ _) fun hfreed ↦
              hfreed.2 hfreed.1).symm
  | support b v =>
      have ht := hnuc.1
      simp only [step, Option.some.injEq] at ht
      subst ht
      cases happears with
      | call o p x hx hcall hp => cases hcall
      | other hcall =>
          refine h.other hsound'.core.asl hsound'.core (fun x hx ↦ ?_) fun x hx ↦ ?_
          · exact not_not.mp fun hne ↦ hword x hx hne rfl
          · exact (List.filter_eq_self.mpr fun p _ ↦ decide_eq_true (p := ¬ _) fun hfreed ↦
              hfreed.2 hfreed.1).symm
  | exception state =>
      obtain ⟨e, -, -, hend⟩ := step_handled hs hnuc.1
      obtain ⟨lost, -, hsound⟩ := hs
      have hcore : Core (enter state s) ((enter state s).curr_process.toList ++ lost) :=
        hsound.core.quiet (.enter state s)
      have hsem := hend.semStep hcore
      have h' : Backed L (enter state s) S := ⟨h.binary, h.val, h.queue, h.asleep⟩
      cases happears with
      | call o p x hx hcall hp =>
          have hcall' : semaphoreCall (L.sem x) (enter state s).prev = some o := hcall
          obtain ⟨c, hc, hmove⟩ := hsem.move_of_call hcall'
          obtain rfl : L.pcb p = c := Option.some.inj (hp.symm.trans hc)
          exact h'.call hcore.asl (semAdd_curr hcore hc) hx hmove
      | other hcall =>
          refine h'.other hcore.asl hsound'.core (fun x hx ↦ ?_) fun x hx ↦ ?_
          · exact not_not.mp fun hne ↦ hword x hx hne (hcall x hx)
          · exact queue_of_no_call (L.not_owned x hx) hcore hsound'.core (hcall x hx) hsem

end PandosPlus.SupportLevel
