import PandosPlus.Lib.Run
import PandosPlus.Phase1.HeapAsl
import PandosPlus.Phase2.Torn

/-!
# The lists in memory over long runs

Sequences of calls of the routines of `pcb.c` and `asl.c`, with the two ready queues for lists
of the caller's own.  Whatever is called, as long as no PCB is put into a list while it is in
another, the routines in memory come back with what those on lists return; every loop over a
list comes back to its sentinel, and no pointer goes astray.
-/

namespace PandosPlus

open Circular Flow Lts SortedList Threads

variable {n : Nat}

/-- The calls the kernel makes. -/
inductive ListCall (n : Nat) where
  | allocPcb
  | freePcb (p : Fin n)
  | emptyProcQ (prio : Prio)
  | insertProcQ (prio : Prio) (p : Fin n)
  | headProcQ (prio : Prio)
  | removeProcQ (prio : Prio)
  | outProcQ (prio : Prio) (p : Fin n)
  | emptyChild (p : Fin n)
  | insertChild (prnt p : Fin n)
  | removeChild (p : Fin n)
  | outChild (p : Fin n)
  | getProcessByPid (pid : Word)
  | insertBlocked (semAdd : Word) (p : Fin n)
  | removeBlocked (semAdd : Word)
  | outBlocked (p : Fin n)
  | headBlocked (semAdd : Word)

/-- What a call returns. -/
inductive ListAnswer (n : Nat) where
  | done
  | flag (b : Bool)
  | pcb (p : Option (Fin n))
deriving DecidableEq

/-- The call on lists. -/
def ListCall.run : ListCall n → NucM n (ListAnswer n)
  | .allocPcb => do
      match PandosPlus.allocPcb (← get) with
      | none => return .pcb none
      | some (p, s) =>
          set s
          return .pcb (some p)
  | .freePcb p => do
      modify (PandosPlus.freePcb p)
      return .done
  | .emptyProcQ prio => do return .flag ((← get).readyQueue prio).isEmpty
  | .insertProcQ prio p => do
      modify fun s ↦ s.setReadyQueue (PandosPlus.insertProcQ (s.readyQueue prio) p) prio
      return .done
  | .headProcQ prio => do return .pcb (PandosPlus.headProcQ ((← get).readyQueue prio))
  | .removeProcQ prio => do
      let s ← get
      set (s.setReadyQueue (PandosPlus.removeProcQ (s.readyQueue prio)).2 prio)
      return .pcb (PandosPlus.removeProcQ (s.readyQueue prio)).1
  | .outProcQ prio p => do
      let s ← get
      set (s.setReadyQueue (PandosPlus.outProcQ (s.readyQueue prio) p).2 prio)
      return .pcb (PandosPlus.outProcQ (s.readyQueue prio) p).1
  | .emptyChild p => do return .flag ((← get).children p).isEmpty
  | .insertChild prnt p => do
      modify (PandosPlus.insertChild prnt p)
      return .done
  | .removeChild p => do
      let s ← get
      set (PandosPlus.removeChild p s).2
      return .pcb (PandosPlus.removeChild p s).1
  | .outChild p => do
      let s ← get
      set (PandosPlus.outChild p s).2
      return .pcb (PandosPlus.outChild p s).1
  | .getProcessByPid pid => do return .pcb (PandosPlus.getProcessByPid pid (← get))
  | .insertBlocked semAdd p => do return .flag (← PandosPlus.insertBlocked semAdd (some p))
  | .removeBlocked semAdd => do return .pcb (← PandosPlus.removeBlocked semAdd)
  | .outBlocked p => do return .pcb (← PandosPlus.outBlocked p)
  | .headBlocked semAdd => do return .pcb (PandosPlus.headBlocked semAdd (← get))

/-- `&low_readyqueue`, `&high_readyqueue` -/
abbrev readyHead (prio : Prio) : ListHead n := .head (.readyqueue prio)

/-- The call in memory. -/
def ListCall.inMemory : ListCall n → HeapM n (ListAnswer n)
  | .allocPcb => do return .pcb (← Heap.allocPcb)
  | .freePcb p => do
      modify (Heap.freePcb p)
      return .done
  | .emptyProcQ prio => do return .flag ((← get).emptyProcQ (readyHead prio))
  | .insertProcQ prio p => do
      modify (Heap.insertProcQ (readyHead prio) p)
      return .done
  | .headProcQ prio => do return .pcb (← Heap.headProcQ (readyHead prio))
  | .removeProcQ prio => do return .pcb (← Heap.removeProcQ (readyHead prio))
  | .outProcQ prio p => do return .pcb (← Heap.outProcQ (readyHead prio) p)
  | .emptyChild p => do return .flag ((← get).emptyChild p)
  | .insertChild prnt p => do
      modify (Heap.insertChild prnt p)
      return .done
  | .removeChild p => do return .pcb (← Heap.removeChild p)
  | .outChild p => do return .pcb (← Heap.outChild p)
  | .getProcessByPid pid => do return .pcb (← Heap.getProcessByPid pid)
  | .insertBlocked semAdd p => do return .flag (← Heap.insertBlocked semAdd p)
  | .removeBlocked semAdd => do return .pcb (← Heap.removeBlocked semAdd)
  | .outBlocked p => do return .pcb (← Heap.outBlocked p)
  | .headBlocked semAdd => do return .pcb (← Heap.headBlocked semAdd)

/-- Allocated, and in no queue. -/
structure Nucleus.Idle (s : Nucleus n) (p : Fin n) : Prop where
  allocated : p ∉ s.pcbFree_h
  ready : ∀ prio, p ∉ s.readyQueue prio
  semAdd : s.semAdd p = none

/-- What the caller of a routine sees to. -/
def ListCall.Allowed (s : Nucleus n) : ListCall n → Prop
  | .freePcb p => s.Idle p ∧ s.parent p = none ∧ s.children p = []
  | .insertProcQ _ p => s.Idle p
  | .emptyChild p => p ∉ s.pcbFree_h
  | .insertChild prnt p => prnt ∉ s.pcbFree_h ∧ p ∉ s.pcbFree_h ∧ s.parent p = none
  | .removeChild p => p ∉ s.pcbFree_h
  | .insertBlocked semAdd p =>
      s.Idle p ∨ peekActiveSemaphore semAdd s.asl = none ∧ s.asl.semdFree_h = []
  | _ => True

/-- What holds between any two calls. -/
structure ListInv (s : Nucleus n) : Prop where
  pids : PidInv s
  asl : s.asl.Inv s.semAdd
  forest : Forest s
  free_leaf : ∀ p ∈ s.pcbFree_h, s.parent p = none ∧ s.children p = []

variable {H : Heap n} {s t : Nucleus n} {p q : Fin n} {k : Word} {c : ListCall n}
variable {l : List (Fin n)} {prio : Prio}

/-! ## The invariant -/

namespace ListInv

/-- What the invariant is about. -/
theorem congr (h : ListInv s) (hpids : t.pid_list_h = s.pid_list_h)
    (hfree : t.pcbFree_h = s.pcbFree_h) (hpid : t.pid = s.pid) (hasl : t.asl.Inv t.semAdd)
    (hparent : t.parent = s.parent) (hchildren : t.children = s.children) : ListInv t := by
  refine ⟨⟨?_, ?_, ?_⟩, hasl, ⟨?_, ?_⟩, ?_⟩
  · rw [hpids, hpid]
    exact h.pids.ascending
  · rw [hpids, hfree]
    exact h.pids.partition
  · rw [hfree, hpid]
    exact h.pids.free_pid
  · rw [hparent, hchildren]
    exact h.forest.link
  · rw [hchildren]
    exact h.forest.nodup
  · rw [hfree, hparent, hchildren]
    exact h.free_leaf

theorem setReadyQueue (h : ListInv s) (l : List (Fin n)) (prio : Prio) :
    ListInv (s.setReadyQueue l prio) := by
  cases prio <;> exact h.congr rfl rfl rfl h.asl rfl rfl

theorem block (h : ListInv s) (hp : s.semAdd p = none) (k : Word) : ListInv (s.block k p) :=
  h.congr rfl rfl (funext (Nucleus.modifyPcb_field Pcb.p_pid (by intro x; rfl) _ p))
    (Nucleus.block_asl h.asl hp k)
    (funext (Nucleus.modifyPcb_field Pcb.p_parent (by intro x; rfl) _ p))
    (funext (Nucleus.modifyPcb_field Pcb.p_child (by intro x; rfl) _ p))

theorem unblock (h : ListInv s) (hp : s.semAdd p = some k) : ListInv (s.unblock k p) :=
  h.congr rfl rfl (funext (Nucleus.modifyPcb_field Pcb.p_pid (by intro x; rfl) _ p))
    (Nucleus.unblock_asl h.asl hp)
    (funext (Nucleus.modifyPcb_field Pcb.p_parent (by intro x; rfl) _ p))
    (funext (Nucleus.modifyPcb_field Pcb.p_child (by intro x; rfl) _ p))

theorem insertChild {prnt : Fin n} (h : ListInv s) (hprnt : prnt ∉ s.pcbFree_h)
    (hp : p ∉ s.pcbFree_h) (hparent : s.parent p = none) :
    ListInv (PandosPlus.insertChild prnt p s) := by
  obtain ⟨hpid, -, hsem⟩ := insertChild_links s prnt p
  refine ⟨⟨?_, h.pids.partition, ?_⟩, ?_, h.forest.insertChild hparent, fun q hq ↦ ?_⟩
  · rw [hpid]
    exact h.pids.ascending
  · rw [hpid]
    exact h.pids.free_pid
  · rw [hsem]
    exact h.asl
  · have hqprnt : q ≠ prnt := fun he ↦ hprnt (he ▸ hq)
    have hqp : q ≠ p := fun he ↦ hp (he ▸ hq)
    rw [insertChild_parent, insertChild_children, if_neg hqp, if_neg hqprnt]
    exact h.free_leaf q hq

theorem removeFromTree (h : ListInv s) (p : Fin n) : ListInv (PandosPlus.removeFromTree p s) := by
  have hpid : (PandosPlus.removeFromTree p s).pid = s.pid := by
    funext q
    rw [Nucleus.pid, removeFromTree_table]
    rfl
  refine ⟨⟨?_, h.pids.partition, ?_⟩, ?_, ⟨fun q r ↦ ?_, fun q ↦ ?_⟩, fun q hq ↦ ⟨?_, ?_⟩⟩
  · rw [hpid]
    exact h.pids.ascending
  · rw [hpid]
    exact h.pids.free_pid
  · rw [removeFromTree_semAdd]
    exact h.asl
  · rw [removeFromTree_children, (h.forest.nodup q).mem_erase_iff, removeFromTree_parent,
      h.forest.link]
    by_cases hr : r = p
    · rw [if_pos hr]
      exact iff_of_false (fun hboth ↦ hboth.1 hr) (by rintro ⟨⟩)
    · rw [if_neg hr]
      exact and_iff_right hr
  · rw [removeFromTree_children]
    exact (h.forest.nodup q).erase p
  · rw [removeFromTree_parent, (h.free_leaf q hq).1]
    exact ite_self none
  · rw [removeFromTree_children, (h.free_leaf q hq).2]
    rfl

theorem free (h : ListInv s) (hp : p ∉ s.pcbFree_h) (hparent : s.parent p = none)
    (hchildren : s.children p = []) : ListInv (PandosPlus.freePcb p s) := by
  have hparents : (PandosPlus.freePcb p s).parent = s.parent :=
    funext (Nucleus.modifyPcb_field Pcb.p_parent (by intro x; rfl) _ p)
  have hchilds : (PandosPlus.freePcb p s).children = s.children :=
    funext (Nucleus.modifyPcb_field Pcb.p_child (by intro x; rfl) _ p)
  have hsem : (PandosPlus.freePcb p s).semAdd = s.semAdd :=
    funext (Nucleus.modifyPcb_field Pcb.p_semAdd (by intro x; rfl) _ p)
  refine ⟨h.pids.free hp, ?_, ⟨?_, ?_⟩, fun q hq ↦ ?_⟩
  · rw [hsem]
    exact h.asl
  · rw [hparents, hchilds]
    exact h.forest.link
  · rw [hchilds]
    exact h.forest.nodup
  · rw [hparents, hchilds]
    rcases List.mem_cons.mp hq with rfl | hq
    · exact ⟨hparent, hchildren⟩
    · exact h.free_leaf q hq

theorem alloc {rest : List (Fin n)} (h : ListInv s) (hn : n < 2 ^ 32)
    (hf : s.pcbFree_h = p :: rest) (hp : s.semAdd p = none) : ListInv (s.alloc p rest) := by
  have hleaf := h.free_leaf p (by rw [hf]; exact List.mem_cons_self)
  -- apart from its pid a free PCB is already as a fresh one
  have hsem : (s.alloc p rest).semAdd = s.semAdd := by
    funext q
    rw [Nucleus.semAdd, Nucleus.alloc_table]
    split
    · rename_i he
      rw [he, hp]
      rfl
    · rfl
  have hparent : (s.alloc p rest).parent = s.parent := by
    funext q
    rw [Nucleus.parent, Nucleus.alloc_table]
    split
    · rename_i he
      rw [he, hleaf.1]
      rfl
    · rfl
  have hchildren : (s.alloc p rest).children = s.children := by
    funext q
    rw [Nucleus.children, Nucleus.alloc_table]
    split
    · rename_i he
      rw [he, hleaf.2]
      rfl
    · rfl
  refine ⟨h.pids.alloc hn hf, ?_, ⟨?_, ?_⟩, fun q hq ↦ ?_⟩
  · rw [hsem]
    exact h.asl
  · rw [hparent, hchildren]
    exact h.forest.link
  · rw [hchildren]
    exact h.forest.nodup
  · rw [hparent, hchildren]
    refine h.free_leaf q ?_
    rw [hf]
    exact List.mem_cons_of_mem _ hq

/-- A PCB that is in no queue may be put into one. -/
theorem loose_idle (hs : ListInv s) (hp : s.Idle p) : Loose s.Live s.entries .p_list p := by
  refine loose_list hp.allocated hp.ready fun d hd hmem ↦ ?_
  have hsem := (hs.asl.blocked p (s.asl.key d)).mpr ⟨d, hd, rfl, hmem⟩
  rw [hp.semAdd] at hsem
  cases hsem

/-- A PCB without a parent may be put among the children of one. -/
theorem loose_root (hs : ListInv s) (hp : s.parent p = none) :
    Loose s.Live s.entries .p_sib p := by
  refine loose_sib fun q _ hmem ↦ ?_
  rw [(hs.forest.link q p).mp hmem] at hp
  cases hp

end ListInv

/-! ## One call -/

namespace Heap.Models

theorem semAdd_free (hm : Models s.Live H s) (hs : ListInv s) (hp : p ∈ s.pcbFree_h) :
    s.semAdd p = none := by
  refine Option.eq_none_iff_forall_not_mem.mpr fun k hk ↦ ?_
  obtain ⟨d, hd, -, hmem⟩ := (hs.asl.blocked p k).mp hk
  have hfree : p ∈ s.entries .pcbFree_h := hp
  have hwaits : p ∈ s.entries (.s_procq d) := hmem
  have hlive : s.Live .pcbFree_h := trivial
  have hlive' : s.Live (.s_procq d) := hd
  cases hm.threads.unique hlive hlive' rfl hfree hwaits

theorem setReady (hm : Models s.Live H (s.setEntries l (.readyqueue prio))) :
    Models (s.setReadyQueue l prio).Live H (s.setReadyQueue l prio) :=
  hm.mono fun h hh ↦ by
    cases prio <;> cases h <;> exact hh

end Heap.Models

/-- The lists in memory are those of the nucleus, and they are in order. -/
structure Heap.Mirrors (H : Heap n) (s : Nucleus n) : Prop where
  models : Heap.Models s.Live H s
  inv : ListInv s

namespace Heap.Mirrors

theorem freePcb (h : H.Mirrors s) (hp : s.Idle p) (hparent : s.parent p = none)
    (hchildren : s.children p = []) : (H.freePcb p).Mirrors (PandosPlus.freePcb p s) := by
  refine ⟨?_, h.inv.free hp.allocated hparent hchildren⟩
  refine (h.models.freePcb trivial trivial (h.inv.loose_idle hp)
    (h.inv.pids.mem_pids.mpr hp.allocated)).mono fun h hh ↦ ?_
  cases h with
  | p_child q => exact fun hq ↦ hh (List.mem_cons_of_mem _ hq)
  | _ => exact hh

theorem outProcQ (h : H.Mirrors s) (prio : Prio) (p : Fin n) :
    ∃ H', Heap.outProcQ (readyHead prio) p H =
        .ok (PandosPlus.outProcQ (s.readyQueue prio) p).1 H' ∧
      H'.Mirrors (s.setReadyQueue (PandosPlus.outProcQ (s.readyQueue prio) p).2 prio) := by
  obtain ⟨H', hrun, hm'⟩ := h.models.outProcQ (h := .readyqueue prio) trivial rfl p
  exact ⟨H', hrun, hm'.setReady, h.inv.setReadyQueue _ prio⟩

theorem removeChild (h : H.Mirrors s) (hp : p ∉ s.pcbFree_h) :
    ∃ H', Heap.removeChild p H = .ok (PandosPlus.removeChild p s).1 H' ∧
      H'.Mirrors (PandosPlus.removeChild p s).2 := by
  obtain ⟨H', hrun, hm'⟩ := h.models.removeChild (p := p) hp
  refine ⟨H', hrun, hm'.mono fun h hh ↦ ?_, ?_⟩
  · rw [PandosPlus.removeChild] at hh
    split at hh <;> cases h <;> exact hh
  · rw [PandosPlus.removeChild]
    split
    · exact h.inv
    · exact h.inv.removeFromTree _

theorem outChild (h : H.Mirrors s) (p : Fin n) :
    ∃ H', Heap.outChild p H = .ok (PandosPlus.outChild p s).1 H' ∧
      H'.Mirrors (PandosPlus.outChild p s).2 := by
  have hparent : ∀ q, s.parent p = some q → q ∉ s.pcbFree_h ∧ p ∈ s.children q := by
    intro q hq
    have hmem := (h.inv.forest.link q p).mpr hq
    refine ⟨fun hfree ↦ ?_, hmem⟩
    rw [(h.inv.free_leaf q hfree).2] at hmem
    exact List.not_mem_nil hmem
  obtain ⟨H', hrun, hm'⟩ := h.models.outChild (p := p) hparent
  refine ⟨H', hrun, hm'.mono fun h hh ↦ ?_, ?_⟩
  · rw [PandosPlus.outChild] at hh
    split at hh <;> cases h <;> exact hh
  · rw [PandosPlus.outChild]
    split
    · exact h.inv
    · exact h.inv.removeFromTree _

theorem outBlocked (h : H.Mirrors s) (hp : s.semAdd p = some k) :
    ∃ H', Heap.outBlocked p H = .ok (some p) H' ∧ H'.Mirrors (s.unblock k p) := by
  obtain ⟨H', hrun, hm'⟩ := h.models.outBlocked h.inv.asl hp
  exact ⟨H', hrun, hm', h.inv.unblock hp⟩

end Heap.Mirrors

/-- The call returns the same in memory and on lists, and the lists in memory stay those of the
nucleus. -/
def ListCall.Simulated (c : ListCall n) (H : Heap n) (s : Nucleus n) : Prop :=
  ∃ r H' s', c.inMemory H = .ok r H' ∧ c.run s = .ok r s' ∧ H'.Mirrors s'

section Calls

variable (hm : Heap.Models s.Live H s) (hs : ListInv s)

include hm hs

theorem simulated_allocPcb (hn : n < 2 ^ 32) : ListCall.allocPcb.Simulated H s := by
  cases hf : s.pcbFree_h with
  | nil =>
      refine ⟨.pcb none, H, s, ?_, ?_, ⟨hm, hs⟩⟩
      · simp only [ListCall.inMemory, bind_run, hm.allocPcb_nil trivial hf, pure_run]
      · simp only [ListCall.run, bind_run, get_run, allocPcb_nil hf, pure_run]
  | cons p rest =>
      have hp : p ∈ s.pcbFree_h := by
        rw [hf]
        exact List.mem_cons_self
      obtain ⟨H', halloc, hm'⟩ := hm.allocPcb_cons trivial trivial hs.pids hn hf
        (hs.loose_root (hs.free_leaf p hp).1)
      refine ⟨.pcb (some p), H', s.alloc p rest, ?_, ?_, hm'.mono fun h hh ↦ ?_,
        hs.alloc hn hf (hm.semAdd_free hs hp)⟩
      · simp only [ListCall.inMemory, bind_run, halloc, pure_run]
      · simp only [ListCall.run, bind_run, get_run, allocPcb_cons hf, set_run, pure_run]
      · cases h with
        | p_child q =>
            by_cases hq : q = p
            · exact .inl (by rw [hq])
            · refine .inr fun hmem ↦ ?_
              rw [hf] at hmem
              exact (List.mem_cons.mp hmem).elim hq hh
        | _ => exact .inr hh

theorem simulated_freePcb (hp : s.Idle p) (hparent : s.parent p = none)
    (hchildren : s.children p = []) : (ListCall.freePcb p).Simulated H s :=
  ⟨.done, H.freePcb p, freePcb p s, rfl, rfl, Heap.Mirrors.freePcb ⟨hm, hs⟩ hp hparent hchildren⟩

theorem simulated_emptyProcQ : (ListCall.emptyProcQ prio).Simulated H s := by
  have hempty := hm.emptyProcQ (h := .readyqueue prio) trivial
  refine ⟨_, H, s, ?_, rfl, ⟨hm, hs⟩⟩
  have hflag : H.emptyProcQ (readyHead prio) = (s.readyQueue prio).isEmpty :=
    Bool.eq_iff_iff.mpr (hempty.trans List.isEmpty_iff.symm)
  simp only [ListCall.inMemory, bind_run, get_run, hflag, pure_run]

theorem simulated_insertProcQ (hp : s.Idle p) : (ListCall.insertProcQ prio p).Simulated H s :=
  ⟨_, _, _, rfl, rfl, (hm.insertProcQ (h := .readyqueue prio) trivial rfl
    (hs.loose_idle hp)).setReady, hs.setReadyQueue _ prio⟩

theorem simulated_headProcQ : (ListCall.headProcQ prio).Simulated H s := by
  refine ⟨_, H, s, ?_, rfl, ⟨hm, hs⟩⟩
  have hhead := hm.headProcQ (h := .readyqueue prio) trivial rfl
  simp only [ListCall.inMemory, bind_run, hhead, pure_run]
  rfl

theorem simulated_removeProcQ : (ListCall.removeProcQ prio).Simulated H s := by
  obtain ⟨H', hrun, hm'⟩ := hm.removeProcQ (h := .readyqueue prio) trivial rfl
  refine ⟨_, H', _, ?_, rfl, hm'.setReady, hs.setReadyQueue _ prio⟩
  simp only [ListCall.inMemory, bind_run, hrun, pure_run]
  rfl

theorem simulated_outProcQ : (ListCall.outProcQ prio p).Simulated H s := by
  obtain ⟨H', hrun, h'⟩ := Heap.Mirrors.outProcQ ⟨hm, hs⟩ prio p
  refine ⟨_, H', _, ?_, rfl, h'⟩
  simp only [ListCall.inMemory, bind_run, hrun, pure_run]

theorem simulated_emptyChild (hp : p ∉ s.pcbFree_h) : (ListCall.emptyChild p).Simulated H s := by
  have hempty := hm.emptyChild (p := p) hp
  refine ⟨_, H, s, ?_, rfl, ⟨hm, hs⟩⟩
  have hflag : H.emptyChild p = (s.children p).isEmpty :=
    Bool.eq_iff_iff.mpr (hempty.trans List.isEmpty_iff.symm)
  simp only [ListCall.inMemory, bind_run, get_run, hflag, pure_run]

theorem simulated_insertChild {prnt : Fin n} (hprnt : prnt ∉ s.pcbFree_h) (hp : p ∉ s.pcbFree_h)
    (hparent : s.parent p = none) : (ListCall.insertChild prnt p).Simulated H s := by
  refine ⟨.done, H.insertChild prnt p, insertChild prnt p s, rfl, rfl, ?_,
    hs.insertChild hprnt hp hparent⟩
  refine (hm.insertChild hprnt (hs.loose_root hparent)).mono fun h hh ↦ ?_
  cases h <;> exact hh

theorem simulated_removeChild (hp : p ∉ s.pcbFree_h) :
    (ListCall.removeChild p).Simulated H s := by
  obtain ⟨H', hrun, h'⟩ := Heap.Mirrors.removeChild ⟨hm, hs⟩ hp
  refine ⟨_, H', _, ?_, rfl, h'⟩
  simp only [ListCall.inMemory, bind_run, hrun, pure_run]

theorem simulated_outChild : (ListCall.outChild p).Simulated H s := by
  obtain ⟨H', hrun, h'⟩ := Heap.Mirrors.outChild ⟨hm, hs⟩ p
  refine ⟨_, H', _, ?_, rfl, h'⟩
  simp only [ListCall.inMemory, bind_run, hrun, pure_run]

theorem simulated_getProcessByPid {pid : Word} :
    (ListCall.getProcessByPid pid).Simulated H s := by
  refine ⟨_, H, s, ?_, rfl, ⟨hm, hs⟩⟩
  simp only [ListCall.inMemory, bind_run, hm.getProcessByPid trivial pid, pure_run]

theorem simulated_insertBlocked
    (hp : s.Idle p ∨ peekActiveSemaphore k s.asl = none ∧ s.asl.semdFree_h = []) :
    (ListCall.insertBlocked k p).Simulated H s := by
  rcases hp with hp | ⟨hk, hf⟩
  · obtain ⟨H', hrun, hm'⟩ := hm.insertBlocked hs.asl hp.semAdd (hs.loose_idle hp) k
    refine ⟨.flag false, H', s.block k p, ?_, ?_, hm', hs.block hp.semAdd k⟩
    · simp only [ListCall.inMemory, bind_run, hrun, pure_run]
    · simp only [ListCall.run, bind_run, insertBlocked_run hs.asl hp.semAdd k, pure_run]
  · have hinit : initSemaphore k s.asl = none := by
      simp only [initSemaphore, getFreeSemaphore, hf]
    refine ⟨.flag true, H, s, ?_, ?_, ⟨hm, hs⟩⟩
    · simp only [ListCall.inMemory, bind_run, hm.insertBlocked_full hk hf, pure_run]
    · simp only [ListCall.run, insertBlocked, bind_run, get_run, hk, hinit, pure_run]

theorem simulated_removeBlocked : (ListCall.removeBlocked k).Simulated H s := by
  cases hq : s.asl.queue k with
  | nil =>
      have hk := hs.asl.queue_eq_nil_iff.mp hq
      refine ⟨.pcb none, H, s, ?_, ?_, ⟨hm, hs⟩⟩
      · simp only [ListCall.inMemory, bind_run, hm.removeBlocked_none hk, pure_run]
      · simp only [ListCall.run, removeBlocked, bind_run, get_run, hk, pure_run]
  | cons p rest =>
      have hp : s.semAdd p = some k := by
        rw [← hs.asl.mem_queue, hq]
        exact List.mem_cons_self
      obtain ⟨H', hrun, hm'⟩ := hm.removeBlocked hs.asl hq
      refine ⟨.pcb (some p), H', s.unblock k p, ?_, ?_, hm', hs.unblock hp⟩
      · simp only [ListCall.inMemory, bind_run, hrun, pure_run]
      · simp only [ListCall.run, bind_run, removeBlocked_run hq, pure_run]

theorem simulated_outBlocked : (ListCall.outBlocked p).Simulated H s := by
  cases hp : s.semAdd p with
  | none =>
      refine ⟨.pcb none, H, s, ?_, ?_, ⟨hm, hs⟩⟩
      · simp only [ListCall.inMemory, bind_run, hm.outBlocked_none hp, pure_run]
      · simp only [ListCall.run, bind_run, outBlocked_run_none hp, pure_run]
  | some k =>
      obtain ⟨H', hrun, h'⟩ := Heap.Mirrors.outBlocked ⟨hm, hs⟩ hp
      refine ⟨.pcb (some p), H', s.unblock k p, ?_, ?_, h'⟩
      · simp only [ListCall.inMemory, bind_run, hrun, pure_run]
      · simp only [ListCall.run, bind_run, outBlocked_run hs.asl hp, pure_run]

theorem simulated_headBlocked : (ListCall.headBlocked k).Simulated H s := by
  refine ⟨_, H, s, ?_, rfl, ⟨hm, hs⟩⟩
  simp only [ListCall.inMemory, bind_run, hm.headBlocked k, pure_run]

end Calls

/-- Every call that is allowed. -/
theorem ListCall.Allowed.simulated (hc : c.Allowed s) (h : H.Mirrors s) (hn : n < 2 ^ 32) :
    c.Simulated H s := by
  obtain ⟨hm, hs⟩ := h
  cases c with
  | allocPcb => exact simulated_allocPcb hm hs hn
  | freePcb p => exact simulated_freePcb hm hs hc.1 hc.2.1 hc.2.2
  | emptyProcQ prio => exact simulated_emptyProcQ hm hs
  | insertProcQ prio p => exact simulated_insertProcQ hm hs hc
  | headProcQ prio => exact simulated_headProcQ hm hs
  | removeProcQ prio => exact simulated_removeProcQ hm hs
  | outProcQ prio p => exact simulated_outProcQ hm hs
  | emptyChild p => exact simulated_emptyChild hm hs hc
  | insertChild prnt p => exact simulated_insertChild hm hs hc.1 hc.2.1 hc.2.2
  | removeChild p => exact simulated_removeChild hm hs hc
  | outChild p => exact simulated_outChild hm hs
  | getProcessByPid pid => exact simulated_getProcessByPid hm hs
  | insertBlocked semAdd p => exact simulated_insertBlocked hm hs hc
  | removeBlocked semAdd => exact simulated_removeBlocked hm hs
  | outBlocked p => exact simulated_outBlocked hm hs
  | headBlocked semAdd => exact simulated_headBlocked hm hs

/-! ## The first state -/

/-- The lines of `main` that set up the lists. -/
def Nucleus.initLists (s : Nucleus n) : Nucleus n :=
  { initPcbs s with
    asl := initASL (initPcbs s).asl
    process_count := 0, softblocked_count := 0
    high_readyqueue := [], low_readyqueue := [] }

/-- The same lines in memory. -/
def Heap.initLists (H : Heap n) : Heap n :=
  (({ H.initPcbs.initASL with process_count := 0, softblocked_count := 0 } : Heap n).mkEmptyProcQ
    (readyHead .high)).mkEmptyProcQ (readyHead .low)

/-- Static storage before `main` runs, whatever its links are. -/
def Heap.boot (L : Links (ListHead n)) : Heap n :=
  ⟨L, fun _ ↦ (Pcb.zero n).fields, fun _ ↦ 0, 0, 0, 0⟩

namespace Heap.Models

variable {live : Sentinel n → Prop}

/-- The loop of `initPcbs`. -/
theorem initPcbs_loop (hm : Models live H s) (hfree : live .pcbFree_h)
    (honly : ∀ h, live h → h.member = .p_list → h = .pcbFree_h) (hnil : s.pcbFree_h = [])
    (hl : l.Nodup) :
    Models live
      (l.foldr (fun i H ↦ (H.listAdd (field .p_list i) (.head .pcbFree_h)).modifyPcb i
        fun x ↦ { x with p_pid := FREE_PCB_PID }) H)
      (l.foldr (fun i s ↦ ({ s with pcbFree_h := i :: s.pcbFree_h }).modifyPcb i
        fun x ↦ { x with p_pid := FREE_PCB_PID }) s) := by
  induction l with
  | nil => exact hm
  | cons i l ih =>
      obtain ⟨hi, hl⟩ := List.nodup_cons.mp hl
      have hloose : Loose live (l.foldr (fun i s ↦
          ({ s with pcbFree_h := i :: s.pcbFree_h } : Nucleus n).modifyPcb i
            fun x ↦ { x with p_pid := FREE_PCB_PID }) s).entries .p_list i := by
        intro h hh hlist
        rw [honly h hh hlist, initPcbs_fold]
        change i ∉ l ++ s.pcbFree_h
        rwa [hnil, List.append_nil]
      rw [List.foldr_cons, List.foldr_cons]
      exact ((ih hl).listAdd (h := .pcbFree_h) hfree hloose).setPid i FREE_PCB_PID

/-- The loop of `initASL`. -/
theorem initASL_loop (hm : Models live H s) (hfree : live .semdFree_h)
    (hnil : s.asl.semdFree_h = []) (hactive : s.asl.semd_h = []) (hl : l.Nodup) :
    Models live (l.foldr Heap.addFreeSemaphore H)
      { s with asl := l.foldr PandosPlus.addFreeSemaphore s.asl } := by
  have hfold : ∀ l : List (Fin n), (l.foldr PandosPlus.addFreeSemaphore s.asl).semdFree_h = l ∧
      (l.foldr PandosPlus.addFreeSemaphore s.asl).semd_h = [] := by
    intro l
    induction l with
    | nil => exact ⟨hnil, hactive⟩
    | cons d l ih => exact ⟨congrArg (d :: ·) ih.1, ih.2⟩
  induction l with
  | nil => exact hm
  | cons d l ih =>
      obtain ⟨hd, hl⟩ := List.nodup_cons.mp hl
      have hloose : Loose live
          ({ s with asl := l.foldr PandosPlus.addFreeSemaphore s.asl } : Nucleus n).entries
          .s_link d := by
        refine loose_link ?_ ?_
        · change d ∉ (l.foldr PandosPlus.addFreeSemaphore s.asl).semdFree_h
          rwa [(hfold l).1]
        · change d ∉ (l.foldr PandosPlus.addFreeSemaphore s.asl).semd_h
          rw [(hfold l).2]
          exact List.not_mem_nil
      exact (ih hl).listAdd (h := .semdFree_h) hfree hloose

/-- `process_count = ...`, `softblocked_count = ...` -/
theorem setCounts (hm : Models live H s) (a b : Word) :
    Models live { H with process_count := a, softblocked_count := b }
      { s with process_count := a, softblocked_count := b } where
  threads := hm.threads
  pcb := hm.pcb
  key := hm.key
  counters := congrArg (·, a, b) (Prod.mk.inj hm.counters).1

theorem initPcbs (hm : Models (fun _ ↦ False) H s) :
    Models (fun h ↦ h = .pid_list_h ∨ h = .pcbFree_h ∨ False) H.initPcbs
      (PandosPlus.initPcbs s) := by
  have hm' := ((hm.initListHead .pcbFree_h).initListHead .pid_list_h).curr_pid_eq 1
  refine hm'.initPcbs_loop (.inr (.inl rfl)) (fun h hh hlist ↦ ?_) rfl (List.nodup_finRange n)
  rcases hh with rfl | rfl | hh
  · cases hlist
  · rfl
  · exact hh.elim

theorem initASL (hm : Models live H s) :
    Models (fun h ↦ h = .semd_h ∨ h = .semdFree_h ∨ live h) H.initASL
      { s with asl := PandosPlus.initASL s.asl } :=
  ((hm.initListHead .semdFree_h).initListHead .semd_h).initASL_loop (.inr (.inl rfl)) rfl rfl
    (List.nodup_finRange n)

/-- The lines of `main` set up the lists of a nucleus, whatever the links were. -/
theorem initLists (hm : Models (fun _ ↦ False) H s) :
    Models s.initLists.Live H.initLists s.initLists := by
  have hm' : Models (fun h ↦ h = .readyqueue .low ∨ h = .readyqueue .high ∨ h = .semd_h ∨
      h = .semdFree_h ∨ h = .pid_list_h ∨ h = .pcbFree_h ∨ False) H.initLists s.initLists :=
    ((hm.initPcbs.initASL.setCounts 0 0).initListHead (.readyqueue .high)).initListHead
      (.readyqueue .low)
  have hfree : s.initLists.pcbFree_h = List.finRange n := by
    rw [Nucleus.initLists, initPcbs_eq]
  have hactive : s.initLists.asl.semd_h = [] := by
    rw [Nucleus.initLists, initASL_eq]
  refine hm'.mono fun h hh ↦ ?_
  cases h with
  | p_child p =>
      refine absurd ?_ hh
      rw [hfree]
      exact List.mem_finRange p
  | s_procq d =>
      have hd : d ∈ s.initLists.asl.semd_h := hh
      rw [hactive] at hd
      exact absurd hd List.not_mem_nil
  | readyqueue prio => cases prio <;> simp
  | _ => simp

end Heap.Models

/-! ## Every sequence of calls -/

/-- A call in memory and on lists. -/
def ListStep (x : Heap n × Nucleus n) (c : ListCall n) (y : Heap n × Nucleus n) : Prop :=
  c.Allowed x.2 ∧ (∃ r, c.inMemory x.1 = .ok r y.1) ∧ ∃ r, c.run x.2 = .ok r y.2

theorem ListStep.mirrors {x y : Heap n × Nucleus n} (hn : n < 2 ^ 32)
    (h : x.1.Mirrors x.2) (hstep : ListStep x c y) : y.1.Mirrors y.2 := by
  obtain ⟨hc, ⟨r, hH⟩, r', hs⟩ := hstep
  obtain ⟨r₀, H', s', hH', hs', h'⟩ := hc.simulated h hn
  cases hH.symm.trans hH'
  cases hs.symm.trans hs'
  exact h'

variable (mem : Word → Word) (support : Word → Support)

theorem boot_models (L : Links (ListHead n)) :
    Heap.Models (fun _ ↦ False) (.boot L) (.boot mem support) where
  threads := ⟨fun _ h ↦ h.elim, fun _ _ _ h ↦ h.elim, fun _ h ↦ h.elim⟩
  pcb _ := rfl
  key _ := rfl
  counters := rfl

theorem boot_listInv : ListInv (Nucleus.boot mem support : Nucleus n).initLists := by
  have hsem : (Nucleus.boot mem support : Nucleus n).initLists.semAdd = fun _ ↦ none := by
    funext p
    rw [Nucleus.initLists, initPcbs_eq]
    rfl
  have hparent : (Nucleus.boot mem support : Nucleus n).initLists.parent = fun _ ↦ none := by
    funext p
    rw [Nucleus.initLists, initPcbs_eq]
    rfl
  have hchildren : (Nucleus.boot mem support : Nucleus n).initLists.children = fun _ ↦ [] := by
    funext p
    rw [Nucleus.initLists, initPcbs_eq]
    rfl
  have hpids := initPcbs_inv (Nucleus.boot mem support : Nucleus n)
  refine ⟨⟨hpids.ascending, hpids.partition, hpids.free_pid⟩, ?_, ⟨fun p q ↦ ?_, fun p ↦ ?_⟩,
    fun p _ ↦ ?_⟩
  · rw [hsem]
    exact initASL_inv fun _ ↦ rfl
  · rw [hparent, hchildren]
    exact iff_of_false List.not_mem_nil (by rintro ⟨⟩)
  · rw [hchildren]
    exact List.nodup_nil
  · rw [hparent, hchildren]
    exact ⟨rfl, rfl⟩

end PandosPlus
