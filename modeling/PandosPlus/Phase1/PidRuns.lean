import PandosPlus.Lib.Run
import PandosPlus.Phase2.Effects

/-!
# Pids over long runs

Sequences of `allocPcb` and `freePcb` long enough for `curr_pid` to go around.
Nothing keeps the pid handed out below `FREE_PCB_PID`: the guard on `curr_pid` is
checked before the loop over the pids in use, and the marker is itself a number
the counter reaches.  `pids_kept_iff` is the exact condition under which neither
reserved number is given away, and `reserved_pid_given` a run that gives one.
-/

namespace PandosPlus

open SortedList Lts Flow

variable {n : Nat} {s : Nucleus n} {p : Fin n} {rest : List (Fin n)}

/-- The calls a client makes. -/
inductive PcbCall (n : Nat) where
  | alloc
  | free (p : Fin n)

/-- A call: `freePcb` is only given allocated PCBs. -/
def PcbStep (s : Nucleus n) : PcbCall n → Nucleus n → Prop
  | .alloc, t => allocPcb s = none ∧ t = s ∨ ∃ p, allocPcb s = some (p, t)
  | .free p, t => p ∉ s.pcbFree_h ∧ t = freePcb p s

theorem PcbStep.inv {t : Nucleus n} {c : PcbCall n} (hn : n < 2 ^ 32) (h : PidInv s)
    (hc : PcbStep s c t) : PidInv t := by
  cases c with
  | alloc =>
      obtain ⟨_, rfl⟩ | ⟨p, ha⟩ := hc
      · exact h
      · cases hf : s.pcbFree_h with
        | nil => rw [allocPcb_nil hf] at ha; cases ha
        | cons q rest =>
            rw [allocPcb_cons hf] at ha
            cases ha
            exact h.alloc hn hf
  | free p =>
      obtain ⟨hp, rfl⟩ := hc
      exact h.free hp

/-- No allocated PCB carries one of the two pids with a meaning of their own. -/
def PidsValid (s : Nucleus n) : Prop :=
  ∀ p ∉ s.pcbFree_h, s.pid p ≠ 0 ∧ s.pid p ≠ FREE_PCB_PID

/-- At or after `curr_pid`, and before the reserved pid, some pid is not in use. -/
def PidsLeft (s : Nucleus n) : Prop :=
  ∃ pid, s.curr_pid ≤ pid ∧ 1 ≤ pid ∧ pid < FREE_PCB_PID ∧ ∀ p ∉ s.pcbFree_h, s.pid p ≠ pid

/-- As long as the pids in use are valid, the next one is exactly when one is left. -/
theorem nextPid_valid_iff (h : PidInv s) (hn : n < 2 ^ 32) (hv : PidsValid s) :
    nextPid s ≠ 0 ∧ nextPid s ≠ FREE_PCB_PID ↔ PidsLeft s := by
  obtain ⟨j, hj, he, hfree, hused⟩ := nextPid_spec h hn
  have hfirst := firstPid_pos s
  have hcurr : s.curr_pid ≤ s.firstPid := by
    unfold Nucleus.firstPid
    split <;> bv_omega
  have hnot : ∀ pid, ¬ s.Used pid ↔ ∀ p ∉ s.pcbFree_h, s.pid p ≠ pid := by
    intro pid
    constructor
    · exact fun hu p hp e ↦ hu ⟨p, h.mem_pids.mpr hp, e⟩
    · rintro hu ⟨p, hp, e⟩
      exact hu p (h.mem_pids.mp hp) e
  have hnoFree : ¬ s.Used FREE_PCB_PID := (hnot _).mpr fun p hp ↦ (hv p hp).2
  have hmax : FREE_PCB_PID.toNat = 2 ^ 32 - 1 := rfl
  -- the scan stops at the reserved pid at the latest: nothing in use carries it
  have hstop : (s.firstPid.toNat + j) ≤ FREE_PCB_PID.toNat := by
    by_contra hgt
    refine hnoFree ?_
    have hi := hused (FREE_PCB_PID.toNat - s.firstPid.toNat) (by omega)
    have hadd : s.firstPid + BitVec.ofNat 32 (FREE_PCB_PID.toNat - s.firstPid.toNat) =
        FREE_PCB_PID := by
      unfold FREE_PCB_PID
      bv_omega
    rwa [hadd] at hi
  have hnat : (nextPid s).toNat = s.firstPid.toNat + j := by
    rw [he]
    unfold FREE_PCB_PID at hstop
    bv_omega
  constructor
  · rintro ⟨_, hne⟩
    refine ⟨nextPid s, ?_, ?_, ?_, (hnot _).mp hfree⟩
    · bv_omega
    · bv_omega
    · unfold FREE_PCB_PID at hne hstop ⊢
      bv_omega
  · rintro ⟨pid, hge, hpos, hlt, hunused⟩
    have hle : s.firstPid ≤ pid := by
      unfold Nucleus.firstPid
      split
      · exact hpos
      · exact hge
    have hj' : s.firstPid.toNat + j ≤ pid.toNat := by
      by_contra hgt
      have hi := hused (pid.toNat - s.firstPid.toNat) (by bv_omega)
      have hadd : s.firstPid + BitVec.ofNat 32 (pid.toNat - s.firstPid.toNat) = pid := by
        bv_omega
      rw [hadd] at hi
      exact (hnot pid).mpr hunused hi
    constructor
    · bv_omega
    · unfold FREE_PCB_PID at hlt ⊢
      bv_omega

theorem PcbStep.valid_iff {t : Nucleus n} {c : PcbCall n} (hn : n < 2 ^ 32) (h : PidInv s)
    (hv : PidsValid s) (hc : PcbStep s c t) :
    PidsValid t ↔ (c = .alloc → s.pcbFree_h ≠ [] → PidsLeft s) := by
  cases c with
  | free p =>
      obtain ⟨hp, rfl⟩ := hc
      refine iff_of_true (fun q hq ↦ ?_) (fun e ↦ by cases e)
      have hne : q ≠ p := fun e ↦ hq (e ▸ List.mem_cons_self)
      rw [freePcb_pid, if_neg hne]
      exact hv q fun hf ↦ hq (List.mem_cons_of_mem _ hf)
  | alloc =>
      cases hf : s.pcbFree_h with
      | nil =>
          obtain ⟨_, rfl⟩ | ⟨p, ha⟩ := hc
          · exact iff_of_true hv fun _ e ↦ absurd rfl e
          · rw [allocPcb_nil hf] at ha; cases ha
      | cons p rest =>
          obtain ⟨ha, _⟩ | ⟨q, ha⟩ := hc
          · rw [allocPcb_cons hf] at ha; cases ha
          · rw [allocPcb_cons hf] at ha
            cases ha
            have hp : p ∉ rest := by
              have := h.free_nodup
              rw [hf] at this
              exact (List.nodup_cons.mp this).1
            have hiff := nextPid_valid_iff h hn hv
            constructor
            · intro hvt _ _
              refine hiff.mp ?_
              have := hvt p hp
              rwa [Nucleus.alloc_pid, if_pos rfl] at this
            · intro hleft q hq
              rw [Nucleus.alloc_pid]
              split
              · exact hiff.mpr (hleft rfl (by simp))
              · rename_i hne
                refine hv q fun hqf ↦ hq ?_
                rw [hf] at hqf
                exact (List.mem_cons.mp hqf).resolve_left hne

variable (cfg : Config n)

/-- What the nucleus relies on: the pids of allocated PCBs are valid, so that each
of them is taken to be alive, and `setProcessReady` puts it in its queue. -/
structure PidsKept (s : Nucleus n) : Prop where
  valid : PidsValid s
  alive : ∀ p ∉ s.pcbFree_h, Returns (isAlive cfg (some p)) s true s
  ready : ∀ p ∉ s.pcbFree_h, ∃ t, Returns (setProcessReady cfg (some p)) s ⟨⟩ t ∧
    t.readyQueue (s.pcbFree_table p).p_prio = s.readyQueue (s.pcbFree_table p).p_prio ++ [p]

theorem PidsValid.kept (h : PidsValid s) : PidsKept cfg s where
  valid := h
  alive p hp := isAlive_live cfg (h p hp).2
  ready p hp := by
    refine ⟨_, setProcessReady_run cfg p s, ?_⟩
    rw [Nucleus.wake, if_neg (h p hp).2]
    exact Nucleus.readyQueue_setReadyQueue _ _ _

theorem initPcbs_valid (s : Nucleus n) : PidsValid (initPcbs s) := by
  intro p hp
  rw [initPcbs_eq] at hp
  exact absurd (List.mem_finRange p) hp

theorem pcbRun_inv {s t : Nucleus n} {calls : List (PcbCall n)} (hn : n < 2 ^ 32)
    (hr : Run PcbStep (initPcbs s) calls t) : PidInv t :=
  hr.invariant (fun _ _ _ h hc ↦ hc.inv hn h) (initPcbs_inv s)

/-- From `initPcbs`, pids stay valid throughout a sequence of calls exactly when every
allocation that finds a free PCB is made while some pid from `curr_pid` on, and below
the reserved one, is not in use. -/
theorem pids_kept_iff (s₀ : Nucleus n) (calls : List (PcbCall n)) :
    (∀ pre post u, calls = pre ++ post → Run PcbStep (initPcbs s₀) pre u → PidsKept cfg u) ↔
      ∀ pre post u, calls = pre ++ .alloc :: post → Run PcbStep (initPcbs s₀) pre u →
        u.pcbFree_h ≠ [] → PidsLeft u := by
  have hn := cfg.maxproc_lt
  constructor
  · intro hkept pre post u hcalls hu hne
    -- the call after the prefix ends in a state of the run
    subst hcalls
    obtain ⟨v, hv⟩ : ∃ v, PcbStep u .alloc v := by
      cases hf : u.pcbFree_h with
      | nil => exact absurd hf hne
      | cons p rest => exact ⟨_, .inr ⟨p, allocPcb_cons hf⟩⟩
    have huv := (hkept pre (.alloc :: post) u rfl hu).valid
    have hvv := (hkept (pre ++ [.alloc]) post v (by simp) (.snoc hu hv)).valid
    exact (hv.valid_iff hn (pcbRun_inv hn hu) huv).mp hvv rfl hne
  · intro hleft pre post u hcalls hu
    refine PidsValid.kept cfg ?_
    induction hu generalizing post with
    | nil => exact initPcbs_valid s₀
    | @snoc u v as c hu hc ih =>
        have hu' := ih (c :: post) (by rw [hcalls]; simp)
        refine (hc.valid_iff hn (pcbRun_inv hn hu) hu').mpr fun e hne ↦ ?_
        subst e
        exact hleft as post u (by rw [hcalls]; simp) hu hne

/-! ## A run that gives the reserved pid away -/

/-- One PCB allocated and freed again. -/
def allocFree (p : Fin n) : List (PcbCall n) := [.alloc, .free p]

/-- With every PCB free, allocating one and freeing it moves `curr_pid` on by one. -/
theorem allocFree_run (hf : s.pcbFree_h = p :: rest) (hl : s.pid_list_h = [])
    (hc : 1 ≤ s.curr_pid) (hp : p ∉ rest) :
    ∃ t, Run PcbStep s (allocFree p) t ∧ t.pcbFree_h = p :: rest ∧ t.pid_list_h = [] ∧
      t.curr_pid = s.curr_pid + 1 := by
  have hnext : nextPid s = s.curr_pid := by
    simp only [nextPid, hl, List.getLast?_nil]
    exact if_neg (by bv_omega)
  have ha : PcbStep s .alloc (s.alloc p rest) := .inr ⟨p, allocPcb_cons hf⟩
  have hb : PcbStep (s.alloc p rest) (.free p) (freePcb p (s.alloc p rest)) := ⟨hp, rfl⟩
  refine ⟨_, (Run.single ha).snoc hb, rfl, ?_, ?_⟩
  · change (s.alloc p rest).pid_list_h.erase p = []
    have hlist : (s.alloc p rest).pid_list_h = [p] := by
      rw [← List.perm_singleton, ← hl]
      exact s.alloc_pids_perm p rest
    rw [hlist]
    simp
  · change (s.alloc p rest).curr_pid = _
    rw [Nucleus.alloc_curr_pid, hnext]

/-- Repeating that brings `curr_pid` to any value. -/
theorem allocFree_runs (k : Nat) (hk : k + 1 < 2 ^ 32) (hf : s.pcbFree_h = p :: rest)
    (hl : s.pid_list_h = []) (hc : s.curr_pid = 1) (hp : p ∉ rest) :
    ∃ t, Run PcbStep s (List.replicate k (allocFree p)).flatten t ∧ t.pcbFree_h = p :: rest ∧
      t.pid_list_h = [] ∧ t.curr_pid = BitVec.ofNat 32 (k + 1) := by
  induction k with
  | zero => exact ⟨s, .nil, hf, hl, hc⟩
  | succ k ih =>
      obtain ⟨t, hr, htf, htl, htc⟩ := ih (by omega)
      obtain ⟨u, hu, huf, hul, huc⟩ := allocFree_run htf htl (by rw [htc]; bv_omega) hp
      refine ⟨u, ?_, huf, hul, ?_⟩
      · rw [List.replicate_succ', List.flatten_append, List.flatten_singleton]
        exact hr.append hu
      · rw [huc, htc]
        bv_omega

/-- After `2 ^ 32 - 2` allocations, each freed at once, the next PCB is given the
reserved pid and is taken to be dead. -/
theorem reserved_pid_given :
    ∃ t : Nucleus 20,
      Run PcbStep (initPcbs .zero)
        ((List.replicate (2 ^ 32 - 2) (allocFree 0)).flatten ++ [.alloc]) t ∧
      0 ∉ t.pcbFree_h ∧ t.pid 0 = FREE_PCB_PID := by
  have hf : (initPcbs (.zero : Nucleus 20)).pcbFree_h = 0 :: (List.finRange 20).tail := by
    rw [initPcbs_eq]
    rfl
  obtain ⟨t, hr, htf, htl, htc⟩ := allocFree_runs (2 ^ 32 - 2) (by omega) hf rfl rfl (by decide)
  have ha : PcbStep t .alloc (t.alloc 0 (List.finRange 20).tail) := .inr ⟨0, allocPcb_cons htf⟩
  refine ⟨_, hr.snoc ha, ?_, ?_⟩
  · rw [Nucleus.alloc_free]
    decide
  · rw [Nucleus.alloc_pid, if_pos rfl]
    simp only [nextPid, htl, List.getLast?_nil, htc]
    decide

end PandosPlus
