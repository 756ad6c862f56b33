import PandosPlus.Phase1.HeapSpecs
import PandosPlus.Phase1.Pids

/-!
# Process control blocks in memory

Each routine of `pcb.c` does to the links what its definition in `Pcb` does to the lists, and
returns the same.  The hypotheses are what `listx.h` leaves to its callers: a link field is put
into a list when it is in none, and `list_del` is for a field that is in one.
-/

namespace PandosPlus

open Circular Flow SortedList Threads

variable {n : Nat}

/-- The next pid depends on `curr_pid` and on the pids in use. -/
theorem nextPid_congr {s t : Nucleus n} (hpids : t.pid_list_h = s.pid_list_h)
    (hpid : ∀ q, t.pid q = s.pid q) (hcurr : t.curr_pid = s.curr_pid) : nextPid t = nextPid s := by
  have hget : ∀ pid, getProcessByPid pid t = getProcessByPid pid s := by
    intro pid
    rw [getProcessByPid, hpids]
    exact search_congr fun q _ ↦ hpid q
  have hskip : ∀ fuel pid, skipUsedPids t fuel pid = skipUsedPids s fuel pid := by
    intro fuel
    induction fuel with
    | zero => exact fun _ ↦ rfl
    | succ fuel ih =>
        intro pid
        rw [skipUsedPids, skipUsedPids, ih, hget]
  rw [nextPid, nextPid, hpids, hcurr]
  cases s.pid_list_h.getLast? with
  | none => rfl
  | some last =>
      have hlast : (t.pcbFree_table last).p_pid = (s.pcbFree_table last).p_pid := hpid last
      simp only [hlast, hskip]

theorem nextPid_modifyPcb (s : Nucleus n) (p : Fin n) {g : Pcb n → Pcb n}
    (hg : ∀ x, (g x).p_pid = x.p_pid) : nextPid (s.modifyPcb p g) = nextPid s :=
  nextPid_congr rfl (Nucleus.modifyPcb_field Pcb.p_pid hg s p) rfl

theorem ascending_modifyPcb {s : Nucleus n} (hs : Ascending s.pid s.pid_list_h) (p : Fin n)
    {g : Pcb n → Pcb n} (hg : ∀ x, (g x).p_pid = x.p_pid) :
    Ascending (s.modifyPcb p g).pid (s.modifyPcb p g).pid_list_h :=
  hs.congr fun q _ ↦ Nucleus.modifyPcb_field Pcb.p_pid hg s p q

/-- What `_initPcb` does to one PCB in four steps. -/
theorem modifyPcb_chain (s : Nucleus n) (p : Fin n) (c : Word) (f₁ f₂ f₃ f₄ : Pcb n → Pcb n)
    {g : Pcb n → Pcb n} (hg : ∀ x, f₄ (f₃ (f₂ (f₁ x))) = g x) :
    ({ ((s.modifyPcb p f₁).modifyPcb p f₂).modifyPcb p f₃ with curr_pid := c }).modifyPcb p f₄ =
      ({ s with curr_pid := c }).modifyPcb p g := by
  simp only [Nucleus.modifyPcb, Nucleus.mk.injEq, and_true]
  funext q
  by_cases hq : q = p
  · simp only [if_pos hq, hg]
  · simp only [if_neg hq]

/-- A list of children assigned to. -/
theorem modifyPcb_child (s : Nucleus n) (p : Fin n) (f : List (Fin n) → List (Fin n)) :
    s.modifyPcb p (fun x ↦ { x with p_child := f x.p_child }) =
      s.setEntries (f (s.entries (.p_child p))) (.p_child p) := by
  simp only [Nucleus.setEntries, Nucleus.modifyPcb, Nucleus.entries, Nucleus.mk.injEq, and_true]
  funext q
  by_cases hq : q = p
  · subst hq
    simp only [if_true]
  · simp only [if_neg hq]

namespace Heap.Models

variable {live : Sentinel n → Prop} {H : Heap n} {s : Nucleus n} {h : Sentinel n} {p q : Fin n}
variable {rest : List (Fin n)} {pid : Word}

/-- `p->p_parent = ...` -/
theorem setParent (hm : Models live H s) (p : Fin n) (v : Option (Fin n)) :
    Models live (H.modifyPcb p fun x ↦ { x with p_parent := v })
      (s.modifyPcb p fun x ↦ { x with p_parent := v }) := hm.modifyPcb (fun _ ↦ rfl) fun _ ↦ rfl

/-- `p->p_semAdd = ...` -/
theorem setSemAdd (hm : Models live H s) (p : Fin n) (v : Option Word) :
    Models live (H.modifyPcb p fun x ↦ { x with p_semAdd := v })
      (s.modifyPcb p fun x ↦ { x with p_semAdd := v }) := hm.modifyPcb (fun _ ↦ rfl) fun _ ↦ rfl

/-- `p->p_pid = ...` -/
theorem setPid (hm : Models live H s) (p : Fin n) (v : Word) :
    Models live (H.modifyPcb p fun x ↦ { x with p_pid := v })
      (s.modifyPcb p fun x ↦ { x with p_pid := v }) := hm.modifyPcb (fun _ ↦ rfl) fun _ ↦ rfl

/-! ## Process control blocks -/

theorem freePcb (hm : Models live H s) (hfree : live .pcbFree_h) (hpids : live .pid_list_h)
    (hp : Loose live s.entries .p_list p) (hmem : p ∈ s.pid_list_h) :
    Models live (H.freePcb p) (PandosPlus.freePcb p s) :=
  ((hm.listAdd (h := .pcbFree_h) hfree hp).listDel (h := .pid_list_h) hpids hmem).setPid p
    FREE_PCB_PID

theorem getProcessByPid (hm : Models live H s) (hpids : live .pid_list_h) (pid : Word) :
    Heap.getProcessByPid pid H = .ok (PandosPlus.getProcessByPid pid s) H := by
  have hkey : (fun p ↦ (H.pcbFree_table p).p_pid) = fun p ↦ (s.pcbFree_table p).p_pid := by
    funext p
    rw [hm.pcb]
    rfl
  refine (search_run (h := .pid_list_h) (fun H p ↦ (H.pcbFree_table p).p_pid) pid hm.threads
    hpids).trans ?_
  rw [hkey]
  rfl

theorem curr_pid_eq (hm : Models live H s) (c : Word) :
    Models live { H with curr_pid := c } { s with curr_pid := c } where
  threads := hm.threads
  pcb := hm.pcb
  key := hm.key
  counters := congrArg (c, ·) (Prod.mk.inj hm.counters).2

/-- The loop over the pids in use comes to its end when one of the next pids is not. -/
theorem skipUsedPids (hm : Models live H s) (hpids : live .pid_list_h) {fuel j : Nat} {c : Word}
    (hj : j < fuel) (hfree : PandosPlus.getProcessByPid (c + BitVec.ofNat 32 j) s = none) :
    Heap.skipUsedPids fuel { H with curr_pid := c } =
      .ok ⟨⟩ { H with curr_pid := PandosPlus.skipUsedPids s fuel c } := by
  induction fuel generalizing j c with
  | zero => exact absurd hj (Nat.not_lt_zero j)
  | succ fuel ih =>
      have hget := (hm.curr_pid_eq c).getProcessByPid hpids c
      simp only [Heap.skipUsedPids, bind_run, get_run, hget, ite_run, PandosPlus.skipUsedPids]
      change (if (PandosPlus.getProcessByPid c s).isSome = true then _ else _) = _
      by_cases hused : (PandosPlus.getProcessByPid c s).isSome = true
      · rw [if_pos hused, if_pos hused]
        obtain ⟨j, rfl⟩ : ∃ i, j = i + 1 := by
          refine Nat.exists_eq_succ_of_ne_zero fun hzero ↦ ?_
          subst hzero
          rw [BitVec.add_zero] at hfree
          rw [hfree] at hused
          exact Bool.false_ne_true hused
        refine ih (j := j) (c := c + 1) (Nat.lt_of_succ_lt_succ hj) ?_
        have hadd : c + 1 + BitVec.ofNat 32 j = c + BitVec.ofNat 32 (j + 1) := by bv_omega
        rwa [hadd]
      · rw [if_neg hused, if_neg hused]
        rfl

/-- Of `MAXPROC + 1` pids one is not in use, so that the loop comes to its end. -/
theorem generatePid (hm : Models live H s) (hpids : live .pid_list_h)
    (hs : Ascending s.pid s.pid_list_h) (hn : n < 2 ^ 32) :
    Heap.generatePid H = .ok (nextPid s) { H with curr_pid := nextPid s + 1 } := by
  have hpid : H.curr_pid = s.curr_pid := congrArg Prod.fst hm.counters
  have hcurr : (if H.curr_pid ≤ 0 then { H with curr_pid := 1 } else H) =
      { H with curr_pid := s.firstPid } := by
    rw [hpid, Nucleus.firstPid]
    split
    · rfl
    · rw [← hpid]
  have hm' := hm.curr_pid_eq s.firstPid
  simp only [Heap.generatePid, bind_run, modify_run, get_run, hcurr]
  cases hl : s.pid_list_h.getLast? with
  | none =>
      have hempty : s.pid_list_h = [] := List.getLast?_eq_none_iff.mp hl
      have hlist := (listEmpty_iff (h := .pid_list_h) hm'.threads hpids).mpr hempty
      have hnext : nextPid s = s.firstPid := by
        simp only [nextPid, hl]
        rfl
      rw [hlist, hnext]
      rfl
  | some last =>
      obtain ⟨front, hfront⟩ := List.getLast?_eq_some_iff.mp hl
      have hlist :
          Heap.listEmpty (.head .pid_list_h) { H with curr_pid := s.firstPid } = false := by
        refine Bool.eq_false_iff.mpr fun he ↦ ?_
        have hnil := (listEmpty_iff (h := .pid_list_h) hm'.threads hpids).mp he
        exact List.append_ne_nil_of_right_ne_nil front (List.cons_ne_nil last []) (hfront ▸ hnil)
      have hprev : H.links.prev (.head .pid_list_h) = field .pid_list last :=
        hm.threads.prev_head (h := .pid_list_h) hpids hfront
      have hpid : (H.pcbFree_table last).p_pid = s.pid last := by
        rw [hm.pcb]
        rfl
      simp only [hlist, Bool.not_false, if_true, bind_run, hprev, containerOf_field, ite_run, hpid]
      by_cases hle : s.firstPid ≤ s.pid last
      · obtain ⟨j, hj, hfree, -⟩ := exists_first_unused s hn s.firstPid
        have hnone : PandosPlus.getProcessByPid (s.firstPid + BitVec.ofNat 32 j) s = none :=
          hs.search_eq_none_iff.mpr fun q hq he ↦ hfree ⟨q, hq, he⟩
        have hnext : nextPid s = PandosPlus.skipUsedPids s (n + 1) s.firstPid := by
          simp only [nextPid, hl]
          exact if_pos hle
        rw [if_pos hle, hm.skipUsedPids hpids (Nat.lt_succ_of_le hj) hnone, hnext]
        rfl
      · have hnext : nextPid s = s.firstPid := by
          simp only [nextPid, hl]
          exact if_neg hle
        rw [if_neg hle, hnext]
        rfl

/-- A scan from the back keeps the pids in order. -/
theorem addPid (hm : Models live H s) (hpids : live .pid_list_h)
    (hp : Loose live s.entries .pid_list p) :
    ∃ H', Heap.addPid p H = .ok ⟨⟩ H' ∧ Models live H' (PandosPlus.addPid p s) := by
  have hpid : ∀ q, (H.pcbFree_table q).p_pid = s.pid q := by
    intro q
    rw [hm.pcb]
    rfl
  have hinsert : ∀ {l}, insertBack s.pid p s.pid_list_h = l →
      PandosPlus.addPid p s = s.setEntries l .pid_list_h := by
    rintro l rfl
    rfl
  cases hf : s.pid_list_h.reverse.find? fun q ↦ decide (s.pid q ≤ s.pid p) with
  | none =>
      have hall : ∀ q ∈ s.pid_list_h, ¬ s.pid q ≤ s.pid p := fun q hq ↦ by
        simpa using List.find?_eq_none.mp hf q (List.mem_reverse.mpr hq)
      rw [hinsert (insertBack_none hall)]
      refine ⟨_, ?_, hm.listAdd (h := .pid_list_h) hpids hp⟩
      refine Returns.bind (listForEachEntryReverse_none (h := .pid_list_h) hm.threads hpids
        fun q hq ↦ ?_) rfl
      simp only [bind_run, get_run, ite_run, hpid, if_neg (hall q hq), pure_run]
  | some q =>
      obtain ⟨hq, k₁, k₂, hk, hall⟩ := find_split hf
      have hle : s.pid q ≤ s.pid p := of_decide_eq_true hq
      have hsplit : s.pid_list_h = k₂.reverse ++ q :: k₁.reverse := by
        rw [← List.reverse_reverse s.pid_list_h, hk]
        simp
      have hpass : ∀ r ∈ k₁.reverse, ¬ s.pid r ≤ s.pid p := fun r hr ↦
        of_decide_eq_false (hall r (List.mem_reverse.mp hr))
      have hsplice : insertBack s.pid p s.pid_list_h = k₂.reverse ++ q :: p :: k₁.reverse := by
        rw [hsplit]
        exact insertBack_some hpass hle
      rw [hinsert hsplice]
      refine ⟨_, ?_, hm.setEntries (hm.threads.after (h := .pid_list_h) hpids hsplit hp)⟩
      refine Returns.bind (a := some ()) (listForEachEntryReverse_some (h := .pid_list_h)
        hm.threads hpids hsplit (fun r hr ↦ ?_) ?_) rfl
      · simp only [bind_run, get_run, ite_run, hpid, if_neg (hpass r hr), pure_run]
      · simp only [bind_run, get_run, ite_run, hpid, if_pos hle, set_run, pure_run]
        rfl

/-- `_initPcb`, for a PCB that has been taken off the free list. -/
theorem initPcb (hm : Models live H s) (hpids : live .pid_list_h)
    (hs : Ascending s.pid s.pid_list_h) (hn : n < 2 ^ 32) (hlist : Loose live s.entries .p_list p)
    (hsib : Loose live s.entries .p_sib p) :
    ∃ H', Heap.initPcb p H = .ok ⟨⟩ H' ∧
      Models (fun h ↦ h = .p_child p ∨ live h) H' (PandosPlus.initPcb p s) := by
  have hm₁ := ((hm.initField hlist).setParent p none).initListHead (.p_child p)
  have hsib' : Loose (fun h ↦ h = .p_child p ∨ live h)
      ((s.modifyPcb p fun x ↦ { x with p_parent := none }).setEntries [] (.p_child p)).entries
      .p_sib p := by
    rw [entries_setEntries, entries_modifyPcb (by intro x; rfl)]
    exact hsib.clear
  have hm₂ := (hm₁.initField hsib').modifyPcb (p := p)
    (f := fun x ↦ { x with p_time := 0, p_semAdd := none, p_supportStruct := none })
    (g := fun x ↦ { x with p_time := 0, p_semAdd := none, p_supportStruct := none })
    (fun _ ↦ rfl) fun _ ↦ rfl
  have hgen := hm₂.generatePid (.inr hpids)
    (ascending_modifyPcb (ascending_modifyPcb (g := fun x ↦ { x with p_child := [] })
      (ascending_modifyPcb hs p (by intro x; rfl)) p (by intro x; rfl)) p (by intro x; rfl)) hn
  have hnext : ∀ f₁ f₂ f₃ : Pcb n → Pcb n, (∀ x, (f₁ x).p_pid = x.p_pid) →
      (∀ x, (f₂ x).p_pid = x.p_pid) → (∀ x, (f₃ x).p_pid = x.p_pid) →
      nextPid (((s.modifyPcb p f₁).modifyPcb p f₂).modifyPcb p f₃) = nextPid s := by
    intro f₁ f₂ f₃ h₁ h₂ h₃
    rw [nextPid_modifyPcb _ p h₃, nextPid_modifyPcb _ p h₂, nextPid_modifyPcb s p h₁]
  rw [Nucleus.setEntries, hnext _ _ _ (by intro x; rfl) (by intro x; rfl) (by intro x; rfl)] at hgen
  have hm₃ := (hm₂.curr_pid_eq (nextPid s + 1)).modifyPcb (p := p)
    (f := fun x ↦ { x with p_pid := nextPid s, p_s := { x.p_s with entry_hi := nextPid s } })
    (g := fun x ↦ { x with p_pid := nextPid s, p_s := { x.p_s with entry_hi := nextPid s } })
    (fun _ ↦ rfl) fun _ ↦ rfl
  have hinit := modifyPcb_chain s p (nextPid s + 1) (fun x ↦ { x with p_parent := none })
    (fun x ↦ { x with p_child := [] })
    (fun x ↦ { x with p_time := 0, p_semAdd := none, p_supportStruct := none })
    (fun x ↦ { x with p_pid := nextPid s, p_s := { x.p_s with entry_hi := nextPid s } })
    (by intro x; rfl)
  refine ⟨_, ?_, hinit ▸ hm₃⟩
  simp only [Heap.initPcb, bind_run, modify_run, hgen]

theorem allocPcb_nil (hm : Models live H s) (hfree : live .pcbFree_h) (hf : s.pcbFree_h = []) :
    Heap.allocPcb H = .ok none H := by
  have hempty := (listEmpty_iff (h := .pcbFree_h) hm.threads hfree).mpr hf
  simp only [Heap.allocPcb, bind_run, get_run, ite_run, hempty, if_true, pure_run]

/-- The first PCB of the free list becomes a process without relatives. -/
theorem allocPcb_cons (hm : Models live H s) (hfree : live .pcbFree_h) (hpids : live .pid_list_h)
    (hs : PidInv s) (hn : n < 2 ^ 32) (hf : s.pcbFree_h = p :: rest)
    (hsib : Loose live s.entries .p_sib p) :
    ∃ H', Heap.allocPcb H = .ok (some p) H' ∧
      Models (fun h ↦ h = .p_child p ∨ live h) H' (s.alloc p rest) := by
  have hmem : p ∈ s.pcbFree_h := by
    rw [hf]
    exact List.mem_cons_self
  have hrest : s.pcbFree_h.erase p = rest := by
    rw [hf, List.erase_cons_head]
  have hempty : H.listEmpty (.head .pcbFree_h) = false := by
    refine Bool.eq_false_iff.mpr fun he ↦ ?_
    have hnil := (listEmpty_iff (h := .pcbFree_h) hm.threads hfree).mp he
    exact List.cons_ne_nil p rest (hf.symm.trans hnil)
  have hnext : H.links.next (.head .pcbFree_h) = field .p_list p :=
    hm.threads.next_head (h := .pcbFree_h) hfree hf
  have hm₁ : Models live (H.listDel (field .p_list p)) { s with pcbFree_h := rest } :=
    hrest ▸ hm.listDel (h := .pcbFree_h) hfree hmem
  have hlist : Loose live ({ s with pcbFree_h := rest } : Nucleus n).entries .p_list p := by
    have herase := hm.threads.loose_erase (h := .pcbFree_h) hfree hmem
    rw [← entries_setEntries] at herase
    exact hrest ▸ herase
  obtain ⟨H₂, hinit, hm₂⟩ := hm₁.initPcb hpids hs.ascending hn hlist
    (loose_sib fun q hq ↦ hsib (.p_child q) hq rfl)
  obtain ⟨H₃, hadd, hm₃⟩ := hm₂.addPid (.inr hpids)
    (loose_pids (hs.mem_pids.not.mpr (not_not_intro hmem)))
  refine ⟨H₃, ?_, hm₃⟩
  simp only [Heap.allocPcb, bind_run, get_run, ite_run, hempty, Bool.false_eq_true, if_false,
    hnext, containerOf_field, modify_run, hinit, hadd, pure_run]

/-! ## Queues -/

theorem emptyProcQ (hm : Models live H s) (hh : live h) :
    H.emptyProcQ (.head h) = true ↔ s.entries h = [] := listEmpty_iff hm.threads hh

theorem insertProcQ (hm : Models live H s) (hh : live h) (hlist : h.member = .p_list)
    (hp : Loose live s.entries .p_list p) :
    Models live (H.insertProcQ (.head h) p)
      (s.setEntries (PandosPlus.insertProcQ (s.entries h) p) h) := by
  rw [← hlist] at hp
  have hadd := hm.listAddTail hh hp
  rwa [hlist] at hadd

theorem headProcQ (hm : Models live H s) (hh : live h) (hlist : h.member = .p_list) :
    Heap.headProcQ (.head h) H = .ok (PandosPlus.headProcQ (s.entries h)) H := by
  cases he : s.entries h with
  | nil =>
      have hempty := (hm.emptyProcQ hh).mpr he
      simp only [Heap.headProcQ, bind_run, get_run, ite_run, hempty, if_true]
      rfl
  | cons p k =>
      have hempty : H.emptyProcQ (.head h) = false := by
        refine Bool.eq_false_iff.mpr fun hemp ↦ ?_
        exact List.cons_ne_nil p k (he.symm.trans ((hm.emptyProcQ hh).mp hemp))
      have hnext := hm.threads.next_head hh he
      rw [hlist] at hnext
      simp only [Heap.headProcQ, bind_run, get_run, ite_run, hempty, Bool.false_eq_true, if_false,
        hnext, containerOf_field, pure_run]
      rfl

/-- A list put in its own place. -/
theorem same (hm : Models live H s) (h : Sentinel n) :
    Models live H (s.setEntries (s.entries h) h) := by
  refine hm.setEntries ?_
  rw [Function.update_eq_self]
  exact hm.threads

theorem removeProcQ (hm : Models live H s) (hh : live h) (hlist : h.member = .p_list) :
    ∃ H', Heap.removeProcQ (.head h) H = .ok (PandosPlus.removeProcQ (s.entries h)).1 H' ∧
      Models live H' (s.setEntries (PandosPlus.removeProcQ (s.entries h)).2 h) := by
  have hhead := hm.headProcQ hh hlist
  cases he : s.entries h with
  | nil =>
      have hempty := (hm.emptyProcQ hh).mpr he
      have hsame := hm.same h
      rw [he] at hsame
      refine ⟨H, ?_, hsame⟩
      simp only [Heap.removeProcQ, bind_run, get_run, ite_run, hempty, if_true]
      rfl
  | cons p k =>
      have hempty : H.emptyProcQ (.head h) = false := by
        refine Bool.eq_false_iff.mpr fun hemp ↦ ?_
        exact List.cons_ne_nil p k (he.symm.trans ((hm.emptyProcQ hh).mp hemp))
      have hmem : p ∈ s.entries h := by
        rw [he]
        exact List.mem_cons_self
      have hdel := hm.listDel hh hmem
      rw [hlist, he, List.erase_cons_head] at hdel
      refine ⟨_, ?_, hdel⟩
      rw [he] at hhead
      simp only [Heap.removeProcQ, bind_run, get_run, ite_run, hempty, Bool.false_eq_true, if_false,
        hhead, PandosPlus.headProcQ, List.head?_cons, follow_some, modify_run, pure_run,
        PandosPlus.removeProcQ]

/-- `outProcQ` takes an entry out of the list it is asked about, and of no other. -/
theorem outProcQ (hm : Models live H s) (hh : live h) (hlist : h.member = .p_list) (p : Fin n) :
    ∃ H', Heap.outProcQ (.head h) p H = .ok (PandosPlus.outProcQ (s.entries h) p).1 H' ∧
      Models live H' (s.setEntries (PandosPlus.outProcQ (s.entries h) p).2 h) := by
  rw [PandosPlus.outProcQ]
  by_cases hp : p ∈ s.entries h
  · rw [if_pos hp]
    have hdel := hm.listDel hh hp
    obtain ⟨k₁, k₂, hk, hnot⟩ := List.eq_append_cons_of_mem hp
    rw [hlist] at hdel
    refine ⟨_, ?_, hdel⟩
    rw [Heap.outProcQ, ← hlist]
    refine listForEachEntry_some hm.threads hh hk (fun q hq ↦ ?_) ?_
    · have hne : q ≠ p := fun he ↦ hnot (he ▸ hq)
      simp only [bind_run, ite_run, if_neg hne, pure_run]
    · simp only [if_true, bind_run, modify_run, pure_run]
  · rw [if_neg hp]
    refine ⟨H, ?_, hm.same h⟩
    rw [Heap.outProcQ, ← hlist]
    refine listForEachEntry_none hm.threads hh fun q hq ↦ ?_
    have hne : q ≠ p := fun he ↦ hp (he ▸ hq)
    simp only [ite_run, if_neg hne, pure_run]

/-! ## The process tree -/

theorem emptyChild (hm : Models live H s) (hh : live (.p_child p)) :
    H.emptyChild p = true ↔ (s.pcbFree_table p).p_child = [] := listEmpty_iff hm.threads hh

theorem insertChild (hm : Models live H s) (hh : live (.p_child q))
    (hp : Loose live s.entries .p_sib p) :
    Models live (H.insertChild q p) (PandosPlus.insertChild q p s) := by
  rw [PandosPlus.insertChild, modifyPcb_child s q (· ++ [p])]
  exact (hm.listAddTail (h := .p_child q) hh hp).setParent p (some q)

/-- The PCB is taken from among the children of its parent. -/
theorem removeFromTree (hm : Models live H s) (hh : live (.p_child q))
    (hp : p ∈ (s.pcbFree_table q).p_child) :
    Models live (H.removeFromTree p) (PandosPlus.removeFromTree p s) := by
  refine ((hm.listDel (h := .p_child q) hh hp).setParent p none).congr (fun h hlive ↦ ?_)
    (fun r ↦ ?_) (fun _ ↦ rfl) rfl
  · rw [entries_modifyPcb (by intro x; rfl), entries_setEntries, PandosPlus.removeFromTree,
      entries_modifyPcb (by intro x; rfl)]
    by_cases he : h = .p_child q
    · rw [he, Function.update_self]
      rfl
    · rw [Function.update_of_ne he]
      cases h with
      | p_child r =>
          -- an element of one list of children is in no other
          refine List.erase_of_not_mem fun hr ↦ he ?_
          exact hm.threads.unique (h := .p_child q) hh hlive rfl hp hr
      | _ => rfl
  · simp only [PandosPlus.removeFromTree, Nucleus.modifyPcb_table]
    split
    · change ({ (s.pcbFree_table r).fields with p_parent := none } : PcbFields n) =
        { ((s.setEntries _ _).pcbFree_table r).fields with p_parent := none }
      rw [setEntries_fields]
    · exact setEntries_fields.symm

theorem removeChild (hm : Models live H s) (hh : live (.p_child p)) :
    ∃ H', Heap.removeChild p H = .ok (PandosPlus.removeChild p s).1 H' ∧
      Models live H' (PandosPlus.removeChild p s).2 := by
  have hempty := hm.emptyChild hh
  cases hc : (s.pcbFree_table p).p_child with
  | nil =>
      refine ⟨H, ?_, ?_⟩
      · simp only [Heap.removeChild, bind_run, get_run, ite_run, hempty.mpr hc, if_true,
          PandosPlus.removeChild, hc, pure_run]
      · simp only [PandosPlus.removeChild, hc]
        exact hm
  | cons out rest =>
      have hne : H.emptyChild p = false := by
        refine Bool.eq_false_iff.mpr fun he ↦ ?_
        exact List.cons_ne_nil out rest (hc.symm.trans (hempty.mp he))
      have hnext : H.links.next (.head (.p_child p)) = field .p_sib out :=
        hm.threads.next_head (h := .p_child p) hh hc
      have hmem : out ∈ (s.pcbFree_table p).p_child := by
        rw [hc]
        exact List.mem_cons_self
      refine ⟨H.removeFromTree out, ?_, ?_⟩
      · simp only [Heap.removeChild, bind_run, get_run, ite_run, hne, Bool.false_eq_true, if_false,
          hnext, containerOf_field, modify_run, pure_run, PandosPlus.removeChild, hc]
      · simp only [PandosPlus.removeChild, hc]
        exact hm.removeFromTree hh hmem

/-- A process with a parent is among its children. -/
theorem outChild (hm : Models live H s)
    (hp : ∀ q, (s.pcbFree_table p).p_parent = some q →
      live (.p_child q) ∧ p ∈ (s.pcbFree_table q).p_child) :
    ∃ H', Heap.outChild p H = .ok (PandosPlus.outChild p s).1 H' ∧
      Models live H' (PandosPlus.outChild p s).2 := by
  have hparent : (H.pcbFree_table p).p_parent = (s.pcbFree_table p).p_parent := by
    rw [hm.pcb]
    rfl
  cases hq : (s.pcbFree_table p).p_parent with
  | none =>
      refine ⟨H, ?_, ?_⟩
      · simp only [Heap.outChild, bind_run, get_run, ite_run, hparent, hq, if_true,
          PandosPlus.outChild, pure_run]
      · simp only [PandosPlus.outChild, hq]
        exact hm
  | some q =>
      obtain ⟨hlive, hmem⟩ := hp q hq
      refine ⟨H.removeFromTree p, ?_, ?_⟩
      · simp only [Heap.outChild, bind_run, get_run, ite_run, hparent, hq, reduceCtorEq, if_false,
          PandosPlus.outChild, modify_run, pure_run]
      · simp only [PandosPlus.outChild, hq]
        exact hm.removeFromTree hlive hmem

end Heap.Models

end PandosPlus
