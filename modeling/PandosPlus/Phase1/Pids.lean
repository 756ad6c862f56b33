import Mathlib.Data.Fintype.Card
import Mathlib.Data.Nat.Find
import PandosPlus.Phase1.Pcb

/-!
# Process identifiers

`pid_list` holds the allocated PCBs in strictly ascending order of their pid, so
the search with early exit decides whether a pid is in use, and the loop of
`_generatePid` stops at the first pid at or after `curr_pid` that is not.  It
stops within `MAXPROC` turns, since that many PCBs cannot use one pid more.
-/

namespace PandosPlus

open SortedList

variable {n : Nat}

/-- `p_pid` of every PCB. -/
def Nucleus.pid (s : Nucleus n) (p : Fin n) : Word := (s.pcbFree_table p).p_pid

/-- The invariant of the free list and the pid list. -/
structure PidInv (s : Nucleus n) : Prop where
  /-- Pids are strictly ascending along the list. -/
  ascending : Ascending s.pid s.pid_list_h
  /-- A PCB is in exactly one of the two lists, once. -/
  partition : ∀ p, s.pid_list_h.count p + s.pcbFree_h.count p = 1
  /-- A free PCB carries the reserved pid. -/
  free_pid : ∀ p ∈ s.pcbFree_h, s.pid p = FREE_PCB_PID

/-- A pid is in use when a process on the pid list carries it. -/
def Nucleus.Used (s : Nucleus n) (pid : Word) : Prop := ∃ q ∈ s.pid_list_h, s.pid q = pid

variable {s : Nucleus n} {p : Fin n} {rest : List (Fin n)}

namespace PidInv

theorem mem_pids (h : PidInv s) : p ∈ s.pid_list_h ↔ p ∉ s.pcbFree_h := by
  have hc := h.partition p
  constructor
  · intro hp hf
    have := List.count_pos_iff.mpr hp
    have := List.count_pos_iff.mpr hf
    omega
  · intro hf
    rw [List.count_eq_zero_of_not_mem hf] at hc
    exact List.count_pos_iff.mp (by omega)

theorem free_nodup (h : PidInv s) : s.pcbFree_h.Nodup :=
  List.nodup_iff_count_le_one.mpr fun p ↦ by have := h.partition p; omega

/-- `getProcessByPid` finds the allocated PCB with that pid, if there is one. -/
theorem getProcessByPid_eq_some (h : PidInv s) {pid : Word} :
    getProcessByPid pid s = some p ↔ p ∉ s.pcbFree_h ∧ s.pid p = pid := by
  rw [← h.mem_pids]
  exact h.ascending.search_eq_some_iff

theorem isSome_iff_used (h : PidInv s) {pid : Word} :
    (getProcessByPid pid s).isSome ↔ s.Used pid := by
  rw [Option.isSome_iff_exists]
  exact exists_congr fun q ↦ h.ascending.search_eq_some_iff

end PidInv

/-- Of `n + 1` consecutive pids one is not in use; the first such is met first. -/
theorem exists_first_unused (s : Nucleus n) (hn : n < 2 ^ 32) (c : Word) :
    ∃ j ≤ n, ¬ s.Used (c + BitVec.ofNat 32 j) ∧ ∀ i < j, s.Used (c + BitVec.ofNat 32 i) := by
  classical
  have hex : ∃ j, j ≤ n ∧ ¬ s.Used (c + BitVec.ofNat 32 j) := by
    by_contra hall
    push Not at hall
    choose f hf using fun j : Fin (n + 1) ↦ hall j (Nat.lt_succ_iff.mp j.isLt)
    have hinj : Function.Injective f := by
      intro i j e
      have he : c + BitVec.ofNat 32 i = c + BitVec.ofNat 32 j :=
        (hf i).2.symm.trans ((congrArg s.pid e).trans (hf j).2)
      have hi := i.isLt
      have hj := j.isLt
      refine Fin.ext ?_
      bv_omega
    have hcard := Fintype.card_le_of_injective f hinj
    rw [Fintype.card_fin, Fintype.card_fin] at hcard
    omega
  refine ⟨Nat.find hex, (Nat.find_spec hex).1, (Nat.find_spec hex).2, fun i hi ↦ ?_⟩
  have := Nat.find_min hex hi
  have hle := (Nat.find_spec hex).1
  rw [not_and, not_not] at this
  exact this (by omega)

/-- The loop of `_generatePid` stops at the first pid that is not in use. -/
theorem skipUsedPids_eq (h : PidInv s) {j : Nat} :
    ∀ {fuel : Nat} {c : Word}, j ≤ fuel → ¬ s.Used (c + BitVec.ofNat 32 j) →
      (∀ i < j, s.Used (c + BitVec.ofNat 32 i)) →
      skipUsedPids s fuel c = c + BitVec.ofNat 32 j := by
  induction j with
  | zero =>
      intro fuel c _ hfree _
      have hc : ¬ s.Used c := by simpa using hfree
      cases fuel with
      | zero => simp [skipUsedPids]
      | succ fuel => simp [skipUsedPids, h.isSome_iff_used, hc]
  | succ j ih =>
      intro fuel c hle hfree hused
      obtain ⟨fuel, rfl⟩ : ∃ m, fuel = m + 1 := ⟨fuel - 1, by omega⟩
      have hc : s.Used c := by simpa using hused 0 (Nat.succ_pos j)
      have hshift : ∀ i, c + 1 + BitVec.ofNat 32 i = c + BitVec.ofNat 32 (i + 1) := by
        intro i
        bv_omega
      rw [skipUsedPids, if_pos (h.isSome_iff_used.mpr hc),
        ih (by omega) (by rwa [hshift]) fun i hi ↦ by rw [hshift]; exact hused (i + 1) (by omega),
        hshift]

/-- The pid `_generatePid` starts its search from. -/
def Nucleus.firstPid (s : Nucleus n) : Word := if s.curr_pid ≤ 0 then 1 else s.curr_pid

theorem firstPid_pos (s : Nucleus n) : 1 ≤ s.firstPid := by
  unfold Nucleus.firstPid
  split <;> bv_omega

/-- `_generatePid` hands out the first pid at or after `curr_pid` that is not in
use, whether or not it enters its loop. -/
theorem nextPid_spec (h : PidInv s) (hn : n < 2 ^ 32) :
    ∃ j ≤ n, nextPid s = s.firstPid + BitVec.ofNat 32 j ∧
      ¬ s.Used (nextPid s) ∧ ∀ i < j, s.Used (s.firstPid + BitVec.ofNat 32 i) := by
  have hskip : ¬ s.Used s.firstPid → nextPid s = s.firstPid →
      ∃ j ≤ n, nextPid s = s.firstPid + BitVec.ofNat 32 j ∧ ¬ s.Used (nextPid s) ∧
        ∀ i < j, s.Used (s.firstPid + BitVec.ofNat 32 i) := fun hfree he ↦
    ⟨0, Nat.zero_le n, by rw [he]; simp, by rwa [he], fun i hi ↦ by omega⟩
  cases hl : s.pid_list_h.getLast? with
  | none =>
      refine hskip ?_ (by simp only [nextPid, hl]; rfl)
      rw [List.getLast?_eq_none_iff] at hl
      rintro ⟨q, hq, -⟩
      rw [hl] at hq
      cases hq
  | some last =>
      by_cases hle : s.firstPid ≤ s.pid last
      · obtain ⟨j, hj, hfree, hused⟩ := exists_first_unused s hn s.firstPid
        have he : nextPid s = s.firstPid + BitVec.ofNat 32 j := by
          have : nextPid s = skipUsedPids s (n + 1) s.firstPid := by
            simp only [nextPid, hl]
            exact if_pos hle
          rw [this, skipUsedPids_eq h (by omega) hfree hused]
        exact ⟨j, hj, he, by rwa [he], hused⟩
      · refine hskip ?_ (by simp only [nextPid, hl]; exact if_neg hle)
        -- every pid in use is at most that of the last element
        rintro ⟨q, hq, e⟩
        obtain ⟨front, hfront⟩ := List.getLast?_eq_some_iff.mp hl
        have hasc := h.ascending
        rw [hfront] at hasc hq
        rcases List.mem_append.mp hq with hq | hq
        · have hlt := (List.pairwise_append.mp hasc).2.2 q hq last (List.mem_singleton_self _)
          exact hle (le_of_lt (e ▸ hlt))
        · exact hle (le_of_eq (by rw [← e, List.mem_singleton.mp hq]))

/-- The pid handed out is not in use. -/
theorem nextPid_fresh (h : PidInv s) (hn : n < 2 ^ 32) :
    ∀ q ∈ s.pid_list_h, s.pid q ≠ nextPid s := by
  obtain ⟨_, _, _, hfree, _⟩ := nextPid_spec h hn
  exact fun q hq e ↦ hfree ⟨q, hq, e⟩

/-! ## Allocating and freeing -/

/-- The nucleus after `p`, at the head of the free list, has been allocated. -/
def Nucleus.alloc (s : Nucleus n) (p : Fin n) (rest : List (Fin n)) : Nucleus n :=
  addPid p (initPcb p { s with pcbFree_h := rest })

theorem allocPcb_cons (hf : s.pcbFree_h = p :: rest) : allocPcb s = some (p, s.alloc p rest) := by
  simp only [allocPcb, hf]
  rfl

theorem allocPcb_nil (hf : s.pcbFree_h = []) : allocPcb s = none := by
  simp only [allocPcb, hf]

/-- The fields of a PCB just allocated. -/
def Pcb.fresh (x : Pcb n) (pid : Word) : Pcb n :=
  { x with
    p_parent := none, p_child := [], p_time := 0, p_semAdd := none, p_supportStruct := none
    p_pid := pid, p_s := { x.p_s with entry_hi := pid } }

/-- The next pid does not depend on the free list. -/
theorem nextPid_free (s : Nucleus n) (rest : List (Fin n)) :
    nextPid { s with pcbFree_h := rest } = nextPid s := by
  have hskip : ∀ fuel pid,
      skipUsedPids { s with pcbFree_h := rest } fuel pid = skipUsedPids s fuel pid := by
    intro fuel
    induction fuel with
    | zero => exact fun _ ↦ rfl
    | succ fuel ih =>
        intro pid
        rw [skipUsedPids, skipUsedPids, ih]
        rfl
  simp only [nextPid, hskip]

theorem Nucleus.alloc_table (s : Nucleus n) (p : Fin n) (rest : List (Fin n)) (q : Fin n) :
    (s.alloc p rest).pcbFree_table q =
      if q = p then (s.pcbFree_table q).fresh (nextPid s) else s.pcbFree_table q := by
  rw [← nextPid_free s rest]
  rfl

theorem Nucleus.alloc_pid (s : Nucleus n) (p : Fin n) (rest : List (Fin n)) (q : Fin n) :
    (s.alloc p rest).pid q = if q = p then nextPid s else s.pid q := by
  rw [Nucleus.pid, Nucleus.alloc_table]
  split <;> rfl

theorem Nucleus.alloc_pids_perm (s : Nucleus n) (p : Fin n) (rest : List (Fin n)) :
    (s.alloc p rest).pid_list_h.Perm (p :: s.pid_list_h) := insertBack_perm

@[simp] theorem Nucleus.alloc_free (s : Nucleus n) (p : Fin n) (rest : List (Fin n)) :
    (s.alloc p rest).pcbFree_h = rest := rfl

@[simp] theorem Nucleus.alloc_curr_pid (s : Nucleus n) (p : Fin n) (rest : List (Fin n)) :
    (s.alloc p rest).curr_pid = nextPid s + 1 := by
  rw [← nextPid_free s rest]
  rfl

theorem freePcb_pid (s : Nucleus n) (p q : Fin n) :
    (freePcb p s).pid q = if q = p then FREE_PCB_PID else s.pid q := by
  by_cases h : q = p <;> simp [Nucleus.pid, freePcb, Nucleus.modifyPcb, h]

theorem PidInv.alloc (h : PidInv s) (hn : n < 2 ^ 32) (hf : s.pcbFree_h = p :: rest) :
    PidInv (s.alloc p rest) := by
  have hp : p ∉ s.pid_list_h := fun hp ↦
    h.mem_pids.mp hp (by rw [hf]; exact List.mem_cons_self)
  have hpid : ∀ q ∈ s.pid_list_h, (s.alloc p rest).pid q = s.pid q := fun q hq ↦ by
    rw [Nucleus.alloc_pid, if_neg fun e : q = p ↦ hp (e ▸ hq)]
  refine ⟨?_, ?_, ?_⟩
  · refine (h.ascending.congr hpid).insertBack fun q hq ↦ ?_
    rw [hpid q hq, Nucleus.alloc_pid, if_pos rfl]
    exact nextPid_fresh h hn q hq
  · intro q
    have hc := h.partition q
    rw [hf] at hc
    rw [(s.alloc_pids_perm p rest).count_eq, Nucleus.alloc_free]
    simp only [List.count_cons] at hc ⊢
    omega
  · intro q hq
    have hne : q ≠ p := by
      rintro rfl
      have := h.free_nodup
      rw [hf] at this
      exact (List.nodup_cons.mp this).1 hq
    rw [Nucleus.alloc_pid, if_neg hne]
    exact h.free_pid q (by rw [hf]; exact List.mem_cons_of_mem _ hq)

theorem PidInv.free (h : PidInv s) (hp : p ∉ s.pcbFree_h) : PidInv (freePcb p s) := by
  have hmem := h.mem_pids.mpr hp
  have hnodup := h.ascending.nodup
  refine ⟨?_, ?_, ?_⟩
  · refine (h.ascending.sublist List.erase_sublist).congr fun q hq ↦ ?_
    rw [freePcb_pid, if_neg fun e : q = p ↦ hnodup.not_mem_erase (e ▸ hq)]
  · intro q
    have hc := h.partition q
    have he := (List.perm_cons_erase hmem).count_eq q
    change (s.pid_list_h.erase p).count q + (p :: s.pcbFree_h).count q = 1
    rw [List.count_cons] at he ⊢
    omega
  · intro q hq
    rw [freePcb_pid]
    split
    · rfl
    · rename_i hne
      exact h.free_pid q ((List.mem_cons.mp hq).resolve_left hne)

/-! ## The first state -/

theorem initPcbs_fold (s : Nucleus n) (l : List (Fin n)) :
    l.foldr (fun i s ↦ ({ s with pcbFree_h := i :: s.pcbFree_h }).modifyPcb i
        fun x ↦ { x with p_pid := FREE_PCB_PID }) s =
      { s with
        pcbFree_h := l ++ s.pcbFree_h
        pcbFree_table := fun q ↦
          if q ∈ l then { s.pcbFree_table q with p_pid := FREE_PCB_PID }
          else s.pcbFree_table q } := by
  induction l with
  | nil => simp
  | cons i l ih =>
      rw [List.foldr_cons, ih]
      simp only [Nucleus.modifyPcb, List.cons_append, Nucleus.mk.injEq, and_true]
      funext q
      by_cases hq : q = i
      · subst hq
        by_cases hl : q ∈ l <;> simp [hl]
      · by_cases hl : q ∈ l <;> simp [hl, hq]

/-- `initPcbs` leaves every PCB in the free list, the first entry at its head. -/
theorem initPcbs_eq (s : Nucleus n) :
    initPcbs s =
      { s with
        pcbFree_h := List.finRange n
        pid_list_h := []
        curr_pid := 1
        pcbFree_table := fun q ↦ { s.pcbFree_table q with p_pid := FREE_PCB_PID } } := by
  rw [initPcbs, initPcbs_fold]
  simp

theorem initPcbs_inv (s : Nucleus n) : PidInv (initPcbs s) := by
  rw [initPcbs_eq]
  refine ⟨ascending_nil, fun p ↦ ?_, fun p _ ↦ rfl⟩
  simp [List.count_eq_one_of_mem (List.nodup_finRange n) (List.mem_finRange p)]

end PandosPlus
