import PandosPlus.Phase1.AslInvariant
import PandosPlus.Phase1.HeapPcb

/-!
# The active semaphore list in memory

Each routine of `asl.c` does to the links what its definition in `Asl` does to the lists, and
returns the same.
-/

namespace PandosPlus

open Circular Flow SortedList Threads

variable {n : Nat}

/-- The sentinels that have been initialised: the children of a PCB when it is allocated, the
queue of a descriptor when it is activated. -/
def Nucleus.Live (s : Nucleus n) : Sentinel n → Prop
  | .p_child p => p ∉ s.pcbFree_h
  | .s_procq sem => sem ∈ s.asl.semd_h
  | _ => True

/-- The nucleus after `_initSemaphore` has taken `d` off the free list. -/
def Nucleus.activated (s : Nucleus n) (d : Fin n) (rest : List (Fin n)) (k : Word) : Nucleus n :=
  { s with asl := addActiveSemaphore d ({ s.asl with semdFree_h := rest }.setSemd d ⟨k, []⟩) }

theorem activated_procq (s : Nucleus n) (d d' : Fin n) (rest : List (Fin n)) (k : Word) :
    (s.activated d rest k).entries (.s_procq d') =
      if d' = d then [] else s.entries (.s_procq d') := by
  simp only [Nucleus.activated, Nucleus.entries, addActiveSemaphore, Asl.setSemd]
  split <;> rfl

namespace Heap.Models

variable {live : Sentinel n → Prop} {H : Heap n} {s : Nucleus n} {p d : Fin n}
variable {rest : List (Fin n)} {k : Word}

/-! ## Descriptors -/

theorem peekActiveSemaphore (hm : Models live H s) (hactive : live .semd_h) (k : Word) :
    Heap.peekActiveSemaphore k H = .ok (PandosPlus.peekActiveSemaphore k s.asl) H := by
  have hkey : H.s_key = fun d ↦ (s.asl.semd_table d).s_key := funext hm.key
  refine (search_run (h := .semd_h) Heap.s_key k hm.threads hactive).trans ?_
  rw [hkey]
  rfl

theorem getFreeSemaphore_nil (hm : Models live H s) (hfree : live .semdFree_h)
    (hf : s.asl.semdFree_h = []) : Heap.getFreeSemaphore H = .ok none H := by
  have hempty := (listEmpty_iff (h := .semdFree_h) hm.threads hfree).mpr hf
  simp only [Heap.getFreeSemaphore, bind_run, get_run, ite_run, hempty, if_true, pure_run]

theorem getFreeSemaphore_cons (hm : Models live H s) (hfree : live .semdFree_h)
    (hf : s.asl.semdFree_h = d :: rest) :
    Heap.getFreeSemaphore H = .ok (some d) (H.listDel (field .s_link d)) := by
  have hempty : H.listEmpty (.head .semdFree_h) = false := by
    refine Bool.eq_false_iff.mpr fun he ↦ ?_
    have hnil := (listEmpty_iff (h := .semdFree_h) hm.threads hfree).mp he
    exact List.cons_ne_nil d rest (hf.symm.trans hnil)
  have hnext : H.links.next (.head .semdFree_h) = field .s_link d :=
    hm.threads.next_head (h := .semdFree_h) hfree hf
  simp only [Heap.getFreeSemaphore, bind_run, get_run, ite_run, hempty, Bool.false_eq_true,
    if_false, hnext, containerOf_field, modify_run, pure_run]

/-- `sem->s_key = ...` -/
theorem setKey (hm : Models live H s) (d : Fin n) (k : Word) :
    Models live { H with s_key := fun d' ↦ if d' = d then k else H.s_key d' }
      { s with asl := s.asl.setSemd d { s.asl.semd_table d with s_key := k } } where
  threads := by
    refine hm.threads.mono (fun _ hh ↦ hh) fun h _ ↦ ?_
    cases h with
    | s_procq d' =>
        by_cases hd : d' = d
        · subst hd
          simp only [Nucleus.entries, Asl.setSemd, if_true]
        · simp only [Nucleus.entries, Asl.setSemd, if_neg hd]
    | readyqueue prio => cases prio <;> rfl
    | _ => rfl
  pcb := hm.pcb
  key d' := by
    simp only [Asl.setSemd]
    split
    · rfl
    · exact hm.key d'
  counters := hm.counters

/-- A descriptor gets a key and an empty queue. -/
theorem resetSemd (hm : Models live H s) (d : Fin n) (k : Word) :
    Models (fun h ↦ h = .s_procq d ∨ live h)
      (({ H with s_key := fun d' ↦ if d' = d then k else H.s_key d' } : Heap n).initListHead
        (.head (.s_procq d))) { s with asl := s.asl.setSemd d ⟨k, []⟩ } := by
  have hsemd : (s.asl.setSemd d { s.asl.semd_table d with s_key := k }).setProcQ d [] =
      s.asl.setSemd d ⟨k, []⟩ := by
    simp only [Asl.setProcQ, Asl.setSemd, if_true, Asl.mk.injEq, and_true]
    funext d'
    by_cases hd : d' = d
    · simp only [if_pos hd]
    · simp only [if_neg hd]
  have hset : ({ s with asl := s.asl.setSemd d ⟨k, []⟩ } : Nucleus n) =
      ({ s with asl := s.asl.setSemd d { s.asl.semd_table d with s_key := k } } :
        Nucleus n).setEntries [] (.s_procq d) :=
    congrArg (fun a : Asl n ↦ ({ s with asl := a } : Nucleus n)) hsemd.symm
  rw [hset]
  exact (hm.setKey d k).initListHead (.s_procq d)

/-- A scan from the front keeps the keys in order. -/
theorem addActiveSemaphore (hm : Models live H s) (hactive : live .semd_h)
    (hd : Loose live s.entries .s_link d) :
    ∃ H', Heap.addActiveSemaphore d H = .ok ⟨⟩ H' ∧
      Models live H' { s with asl := PandosPlus.addActiveSemaphore d s.asl } := by
  have hinsert : ∀ {l}, insertFront s.asl.key d s.asl.semd_h = l →
      ({ s with asl := PandosPlus.addActiveSemaphore d s.asl } : Nucleus n) =
        s.setEntries l .semd_h := by
    rintro l rfl
    rfl
  have hkey : ∀ d, H.s_key d = s.asl.key d := hm.key
  cases hf : s.asl.semd_h.find? fun d' ↦ decide (s.asl.key d < s.asl.key d') with
  | none =>
      have hall : ∀ d' ∈ s.asl.semd_h, ¬ s.asl.key d < s.asl.key d' := fun d' hd' ↦ by
        simpa using List.find?_eq_none.mp hf d' hd'
      rw [hinsert (insertFront_none hall)]
      refine ⟨_, ?_, hm.listAddTail (h := .semd_h) hactive hd⟩
      refine Returns.bind (listForEachEntry_none (h := .semd_h) hm.threads hactive
        fun d' hd' ↦ ?_) rfl
      simp only [bind_run, get_run, ite_run, hkey, if_neg (hall d' hd'), pure_run]
  | some d' =>
      obtain ⟨hd', k₁, k₂, hk, hall⟩ := find_split hf
      have hlt : s.asl.key d < s.asl.key d' := of_decide_eq_true hd'
      have hpass : ∀ r ∈ k₁, ¬ s.asl.key d < s.asl.key r := fun r hr ↦
        of_decide_eq_false (hall r hr)
      have hsplice : insertFront s.asl.key d s.asl.semd_h = k₁ ++ d :: d' :: k₂ := by
        rw [hk]
        exact insertFront_some hpass hlt
      rw [hinsert hsplice]
      refine ⟨_, ?_, hm.setEntries (hm.threads.before (h := .semd_h) hactive hk hd)⟩
      refine Returns.bind (a := some ()) (listForEachEntry_some (h := .semd_h) hm.threads hactive
        hk (fun r hr ↦ ?_) ?_) rfl
      · simp only [bind_run, get_run, ite_run, hkey, if_neg (hpass r hr), pure_run]
      · simp only [bind_run, get_run, ite_run, hkey, if_pos hlt, set_run, pure_run]
        rfl

/-- The first free descriptor becomes active with an empty queue. -/
theorem initSemaphore_cons (hm : Models live H s) (hfree : live .semdFree_h)
    (hactive : live .semd_h) (hf : s.asl.semdFree_h = d :: rest) :
    ∃ H', Heap.initSemaphore k H = .ok (some d) H' ∧
      Models (fun h ↦ h = .s_procq d ∨ live h) H' (s.activated d rest k) := by
  have hmem : d ∈ s.asl.semdFree_h := by
    rw [hf]
    exact List.mem_cons_self
  have hrest : s.asl.semdFree_h.erase d = rest := by
    rw [hf, List.erase_cons_head]
  have hloose : Loose live
      ({ s with asl := { s.asl with semdFree_h := rest } } : Nucleus n).entries .s_link d := by
    have herase := hm.threads.loose_erase (h := .semdFree_h) hfree hmem
    rw [← entries_setEntries] at herase
    exact hrest ▸ herase
  have hm₁ : Models live (H.listDel (field .s_link d))
      { s with asl := { s.asl with semdFree_h := rest } } :=
    hrest ▸ hm.listDel (h := .semdFree_h) hfree hmem
  obtain ⟨H', hadd, hm'⟩ := (hm₁.resetSemd d k).addActiveSemaphore (.inr hactive)
    (loose_link (hloose .semdFree_h hfree rfl) (hloose .semd_h hactive rfl))
  refine ⟨H', ?_, hm'⟩
  simp only [Heap.initSemaphore, bind_run, hm.getFreeSemaphore_cons hfree hf, modify_run, hadd,
    Heap.mkEmptyProcQ, pure_run]

/-- A descriptor whose queue has become empty is free again. -/
theorem updateActiveSemaphore (hm : Models live H s) (hq : live (.s_procq d))
    (hfree : live .semdFree_h) (hactive : live .semd_h) (hd : d ∈ s.asl.semd_h) :
    Models live (H.updateActiveSemaphore d)
      { s with asl := PandosPlus.updateActiveSemaphore d s.asl } := by
  have hempty := hm.emptyProcQ hq
  rw [Heap.updateActiveSemaphore, PandosPlus.updateActiveSemaphore]
  by_cases hnil : (s.asl.semd_table d).s_procq = []
  · rw [if_pos hnil, if_pos (hempty.mpr hnil)]
    have hloose := hm.threads.loose_erase (h := .semd_h) hactive hd
    rw [← entries_setEntries] at hloose
    exact (hm.listDel (h := .semd_h) hactive hd).listAdd (h := .semdFree_h) hfree hloose
  · rw [if_neg hnil, if_neg fun he ↦ hnil (hempty.mp he)]
    exact hm

/-! ## Blocking and unblocking -/

/-- A process that is in no queue joins one, and `TRUE` is not returned. -/
theorem insertBlocked (hm : Models s.Live H s) (hs : s.asl.Inv s.semAdd) (hp : s.semAdd p = none)
    (hloose : Loose s.Live s.entries .p_list p) (k : Word) :
    ∃ H', Heap.insertBlocked k p H = .ok false H' ∧
      Models (s.block k p).Live H' (s.block k p) := by
  have hpeek := hm.peekActiveSemaphore trivial k
  cases hk : PandosPlus.peekActiveSemaphore k s.asl with
  | some d =>
      have hd := (peek_mem hk).1
      have hins := (hm.insertProcQ (h := .s_procq d) hd rfl hloose).setSemAdd p (some k)
      have hblock : s.block k p = (s.setEntries (PandosPlus.insertProcQ (s.entries (.s_procq d)) p)
          (.s_procq d)).modifyPcb p fun x ↦ { x with p_semAdd := some k } := by
        rw [Nucleus.block, Asl.join_active hk]
        rfl
      rw [hblock]
      refine ⟨_, ?_, hins.mono fun h hh ↦ ?_⟩
      · simp only [Heap.insertBlocked, bind_run, hpeek, hk, pure_run, modify_run]
      · cases h <;> exact hh
  | none =>
      obtain ⟨d, rest, hf⟩ := List.exists_cons_of_ne_nil (hs.exists_free hp)
      obtain ⟨H₁, hinit, hm₁⟩ := hm.initSemaphore_cons (k := k) trivial trivial hf
      have hloose' : Loose (fun h ↦ h = .s_procq d ∨ s.Live h) (s.activated d rest k).entries
          .p_list p := by
        refine loose_list (hloose .pcbFree_h trivial rfl) (fun prio ↦ ?_) fun d' hd' ↦ ?_
        · have hready := hloose (.readyqueue prio) trivial rfl
          cases prio <;> exact hready
        · change p ∉ (s.activated d rest k).entries (.s_procq d')
          rw [activated_procq]
          split
          · exact List.not_mem_nil
          · rename_i hne
            exact hloose (.s_procq d') (hd'.resolve_left fun he ↦ hne (Sentinel.s_procq.inj he)) rfl
      have hins := (hm₁.insertProcQ (h := .s_procq d) (.inl rfl) rfl hloose').setSemAdd p (some k)
      rw [activated_procq, if_pos rfl] at hins
      have hblock : s.block k p = ((s.activated d rest k).setEntries [p] (.s_procq d)).modifyPcb p
          fun x ↦ { x with p_semAdd := some k } := by
        rw [Nucleus.block, Asl.join_activate hk hf]
        rfl
      rw [hblock]
      refine ⟨_, ?_, hins.mono fun h hh ↦ ?_⟩
      · simp only [Heap.insertBlocked, bind_run, hpeek, hk, hinit, pure_run, modify_run]
      · cases h with
        | s_procq d' =>
            refine ((Asl.mem_activate rest [p] d').mp hh).imp_left fun he ↦ ?_
            rw [he]
        | _ => exact .inr hh

/-- Without a free descriptor a process is turned away from a semaphore that is not active. -/
theorem insertBlocked_full (hm : Models s.Live H s)
    (hk : PandosPlus.peekActiveSemaphore k s.asl = none) (hf : s.asl.semdFree_h = []) :
    Heap.insertBlocked k p H = .ok true H := by
  simp only [Heap.insertBlocked, bind_run, hm.peekActiveSemaphore trivial k, hk,
    Heap.initSemaphore, hm.getFreeSemaphore_nil trivial hf, pure_run]

/-- The last lines of `removeBlocked` and `outBlocked`, after the process has left the queue. -/
theorem unblocked (hm : Models s.Live H (s.setEntries ((s.asl.procQ d).erase p) (.s_procq d)))
    (hs : s.asl.Inv s.semAdd) (hk : PandosPlus.peekActiveSemaphore k s.asl = some d) :
    ∃ H', Heap.unblocked d (some p) H = .ok (some p) H' ∧
      Models (s.unblock k p).Live H' (s.unblock k p) := by
  have hd := (peek_mem hk).1
  have hupd := (hm.setSemAdd p none).updateActiveSemaphore (d := d) hd trivial trivial hd
  have hunblock : s.unblock k p = ({ (s.setEntries ((s.asl.procQ d).erase p)
      (.s_procq d)).modifyPcb p fun x ↦ { x with p_semAdd := none } with
        asl := PandosPlus.updateActiveSemaphore d
          (s.setEntries ((s.asl.procQ d).erase p) (.s_procq d)).asl } : Nucleus n) := by
    rw [Nucleus.unblock, Asl.leave_active hk]
    rfl
  rw [hunblock]
  refine ⟨_, ?_, hupd.mono fun h hh ↦ ?_⟩
  · simp only [Heap.unblocked, bind_run, follow_some, modify_run, pure_run]
  · cases h with
    | s_procq d' => exact ((hs.mem_part d').mp hh).1
    | _ => exact hh

/-- The first waiter leaves its queue. -/
theorem removeBlocked (hm : Models s.Live H s) (hs : s.asl.Inv s.semAdd)
    (hq : s.asl.queue k = p :: rest) :
    ∃ H', Heap.removeBlocked k H = .ok (some p) H' ∧
      Models (s.unblock k p).Live H' (s.unblock k p) := by
  cases hk : PandosPlus.peekActiveSemaphore k s.asl with
  | none =>
      rw [Asl.queue, hk] at hq
      cases hq
  | some d =>
      have hprocq : s.entries (.s_procq d) = p :: rest := by
        rwa [Asl.queue, hk] at hq
      have hd := (peek_mem hk).1
      obtain ⟨H₁, hrem, hm₁⟩ := hm.removeProcQ (h := .s_procq d) hd rfl
      have herase : (PandosPlus.removeProcQ (s.entries (.s_procq d))).2 =
          (s.asl.procQ d).erase p := by
        change _ = (s.entries (.s_procq d)).erase p
        rw [hprocq, List.erase_cons_head]
        rfl
      have hfirst : (PandosPlus.removeProcQ (s.entries (.s_procq d))).1 = some p := by
        rw [hprocq]
        rfl
      rw [herase] at hm₁
      rw [hfirst] at hrem
      obtain ⟨H₂, hun, hm₂⟩ := hm₁.unblocked hs hk
      refine ⟨H₂, ?_, hm₂⟩
      simp only [Heap.removeBlocked, bind_run, hm.peekActiveSemaphore trivial k, hk, hrem, hun]

/-- No process waits at a semaphore that is not active. -/
theorem removeBlocked_none (hm : Models s.Live H s)
    (hk : PandosPlus.peekActiveSemaphore k s.asl = none) :
    Heap.removeBlocked k H = .ok none H := by
  simp only [Heap.removeBlocked, bind_run, hm.peekActiveSemaphore trivial k, hk, pure_run]

/-- A blocked process leaves its queue. -/
theorem outBlocked (hm : Models s.Live H s) (hs : s.asl.Inv s.semAdd) (hp : s.semAdd p = some k) :
    ∃ H', Heap.outBlocked p H = .ok (some p) H' ∧
      Models (s.unblock k p).Live H' (s.unblock k p) := by
  obtain ⟨d, hd, rfl, hmem⟩ := (hs.blocked p k).mp hp
  have hk := hs.peek_key hd
  have hsem : (H.pcbFree_table p).p_semAdd = some (s.asl.key d) := by
    rw [hm.pcb]
    exact hp
  obtain ⟨H₁, hout, hm₁⟩ := hm.outProcQ (h := .s_procq d) hd rfl p
  have hin : p ∈ s.entries (.s_procq d) := hmem
  rw [PandosPlus.outProcQ, if_pos hin] at hout hm₁
  obtain ⟨H₂, hun, hm₂⟩ := hm₁.unblocked hs hk
  refine ⟨H₂, ?_, hm₂⟩
  have hpeek := fun key ↦ hm.peekActiveSemaphore trivial key
  simp only [Heap.outBlocked, bind_run, get_run, hsem, hpeek, hk, hout, hun]

theorem outBlocked_none (hm : Models s.Live H s) (hp : s.semAdd p = none) :
    Heap.outBlocked p H = .ok none H := by
  have hsem : (H.pcbFree_table p).p_semAdd = none := by
    rw [hm.pcb]
    exact hp
  simp only [Heap.outBlocked, bind_run, get_run, hsem, pure_run]

theorem headBlocked (hm : Models s.Live H s) (k : Word) :
    Heap.headBlocked k H = .ok (PandosPlus.headBlocked k s) H := by
  rw [PandosPlus.headBlocked]
  cases hk : PandosPlus.peekActiveSemaphore k s.asl with
  | none =>
      simp only [Heap.headBlocked, bind_run, hm.peekActiveSemaphore trivial k, hk, pure_run]
  | some d =>
      have hhead := hm.headProcQ (h := .s_procq d) (peek_mem hk).1 rfl
      simp only [Heap.headBlocked, bind_run, hm.peekActiveSemaphore trivial k, hk]
      exact hhead

end Heap.Models

end PandosPlus
