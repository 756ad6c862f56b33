import PandosPlus.Phase1.PidRuns

/-!
# The list of live processes

`pid_list` holds exactly the PCBs that have been allocated and not freed since, in strictly
ascending order of their pids.  So a search by pid finds the process that carries it, the
loop of `_generatePid` ends, and pids stay distinct, also once `curr_pid` has gone around.
-/

namespace PandosPlus

open SortedList Lts

variable {n : Nat}

/-- The allocated PCBs, kept by looking at what each call returns. -/
def trackAllocated (s : Nucleus n) (c : PcbCall n) (_ : Nucleus n) (A : Finset (Fin n)) :
    Finset (Fin n) :=
  match c with
  | .alloc => match allocPcb s with
    | none => A
    | some (p, _) => insert p A
  | .free p => A.erase p

/-- The free list holds the PCBs that are not allocated. -/
structure Allocated (s : Nucleus n) (A : Finset (Fin n)) : Prop where
  pids : PidInv s
  mem : ∀ p, p ∈ A ↔ p ∉ s.pcbFree_h

variable {s t : Nucleus n} {A : Finset (Fin n)} {c : PcbCall n} {p : Fin n}

theorem Allocated.step {x y : Nucleus n × Finset (Fin n)} (hn : n < 2 ^ 32)
    (h : Allocated x.1 x.2) (hstep : WithHistory PcbStep trackAllocated x c y) :
    Allocated y.1 y.2 := by
  obtain ⟨s, A⟩ := x
  obtain ⟨t, B⟩ := y
  obtain ⟨hcall, hB⟩ := hstep
  refine ⟨hcall.inv hn h.pids, fun q ↦ ?_⟩
  change q ∈ B ↔ q ∉ t.pcbFree_h
  rw [show B = trackAllocated s c t A from hB]
  cases c with
  | alloc =>
      cases hf : s.pcbFree_h with
      | nil =>
          have hnone := allocPcb_nil hf
          rcases hcall with ⟨-, rfl⟩ | ⟨p, ha⟩
          · simp only [trackAllocated, hnone]
            exact h.mem q
          · cases hnone.symm.trans ha
      | cons p rest =>
          have hsome := allocPcb_cons hf
          have ht : t = s.alloc p rest := by
            rcases hcall with ⟨ha, -⟩ | ⟨p', ha⟩
            · cases hsome.symm.trans ha
            · cases hsome.symm.trans ha
              rfl
          have hnodup := h.pids.free_nodup
          rw [hf, List.nodup_cons] at hnodup
          simp only [trackAllocated, hsome]
          rw [Finset.mem_insert, h.mem, ht, Nucleus.alloc_free, hf, List.mem_cons, not_or]
          by_cases hq : q = p
          · rw [hq]
            exact iff_of_true (.inl rfl) hnodup.1
          · simp [hq]
  | free p =>
      obtain ⟨hp, rfl⟩ := hcall
      have hfree : (freePcb p s).pcbFree_h = p :: s.pcbFree_h := rfl
      change q ∈ A.erase p ↔ _
      rw [Finset.mem_erase, h.mem, hfree, List.mem_cons, not_or]

theorem Allocated.card_eq_iff (h : Allocated s A) : A.card = n ↔ s.pcbFree_h = [] := by
  have hcard : A.card = n ↔ A = Finset.univ := by
    rw [← Finset.card_eq_iff_eq_univ, Fintype.card_fin]
  rw [hcard, Finset.eq_univ_iff_forall, List.eq_nil_iff_forall_not_mem]
  exact forall_congr' fun p ↦ h.mem p

/-- After any sequence of calls from `initPcbs`: the pids ascend strictly along the list;
the list holds the allocated PCBs, and no two of these carry one pid; `_generatePid` stops,
after at most `MAXPROC` turns, at a pid no one carries; the search by pid finds the one
process that carries it; and an allocation fails exactly when all PCBs are allocated, and
otherwise gives one that was not, with that pid. -/
theorem pidList_exact (hn : n < 2 ^ 32) {s₀ : Nucleus n} {calls : List (PcbCall n)}
    (hrun : Run (WithHistory PcbStep trackAllocated) (initPcbs s₀, ∅) calls (t, A)) :
    (t.pid_list_h.Pairwise fun p q ↦ t.pid p < t.pid q) ∧
    (∀ p, p ∈ t.pid_list_h ↔ p ∈ A) ∧
    (∀ p ∈ A, ∀ q ∈ A, t.pid p = t.pid q → p = q) ∧
    (∃ j ≤ n, nextPid t = t.firstPid + BitVec.ofNat 32 j ∧
      getProcessByPid (nextPid t) t = none ∧
      ∀ i < j, (getProcessByPid (t.firstPid + BitVec.ofNat 32 i) t).isSome) ∧
    (∀ p ∈ A, t.pid p ≠ nextPid t) ∧
    (∀ pid p, getProcessByPid pid t = some p ↔ p ∈ A ∧ t.pid p = pid) ∧
    (allocPcb t = none ↔ A.card = n) ∧
    ∀ p u, allocPcb t = some (p, u) → p ∉ A ∧ u.pid p = nextPid t := by
  have hstart : Allocated (initPcbs s₀) ∅ := by
    refine ⟨initPcbs_inv s₀, fun p ↦ ?_⟩
    rw [initPcbs_eq]
    exact iff_of_false (Finset.notMem_empty p) (not_not.mpr (List.mem_finRange p))
  have h : Allocated t A := hrun.invariant (I := fun x ↦ Allocated x.1 x.2)
    (fun _ _ _ h hstep ↦ h.step hn hstep) hstart
  have hmem : ∀ p, p ∈ t.pid_list_h ↔ p ∈ A := fun p ↦ h.pids.mem_pids.trans (h.mem p).symm
  refine ⟨h.pids.ascending, hmem, ?_, ?_, ?_, ?_, ?_, ?_⟩
  · intro p hp q hq he
    exact h.pids.ascending.eq_of_key ((hmem p).mpr hp) ((hmem q).mpr hq) he
  · obtain ⟨j, hj, he, hfree, hused⟩ := nextPid_spec h.pids hn
    refine ⟨j, hj, he, ?_, fun i hi ↦ h.pids.isSome_iff_used.mpr (hused i hi)⟩
    rw [← Option.not_isSome_iff_eq_none, h.pids.isSome_iff_used]
    exact hfree
  · exact fun p hp ↦ nextPid_fresh h.pids hn p ((hmem p).mpr hp)
  · intro pid p
    rw [h.pids.getProcessByPid_eq_some, h.mem]
  · rw [h.card_eq_iff]
    cases hf : t.pcbFree_h with
    | nil => exact iff_of_true (allocPcb_nil hf) rfl
    | cons p rest =>
        rw [allocPcb_cons hf]
        exact iff_of_false (Option.some_ne_none _) (List.cons_ne_nil p rest)
  · intro p u ha
    cases hf : t.pcbFree_h with
    | nil => cases (allocPcb_nil hf).symm.trans ha
    | cons q rest =>
        cases (allocPcb_cons hf).symm.trans ha
        refine ⟨?_, ?_⟩
        · rw [h.mem, hf, not_not]
          exact List.mem_cons_self
        · rw [Nucleus.alloc_pid, if_pos rfl]

/-- The first PCB is allocated, and found by its pid. -/
theorem pidList_exact_sample :
    ∃ t : Nucleus 2, t.pid 0 = 1 ∧ getProcessByPid 1 t = some 0 := by
  let s : Nucleus 2 := initPcbs .zero
  have hcall : ∃ t, allocPcb s = some (0, t) ∧ t.pid 0 = 1 := ⟨_, rfl, by decide⟩
  obtain ⟨t, ha, hpid⟩ := hcall
  have hstep : WithHistory PcbStep trackAllocated (s, ∅) .alloc (t, {0}) := by
    refine ⟨.inr ⟨0, ha⟩, ?_⟩
    simp only [trackAllocated, ha]
    rfl
  obtain ⟨-, -, -, -, -, hfind, -, -⟩ := pidList_exact (by decide) (.single hstep)
  exact ⟨t, hpid, (hfind 1 0).mpr ⟨Finset.mem_singleton_self 0, hpid⟩⟩

end PandosPlus
