import PandosPlus.Phase2.SemSteps

/-!
# The family of the first process

The parents of every process lead up to the first one.  A step leaves the links to the
parents alone, gives the current process a child, or takes away a process and all its
descendants.  The first process is never among these: when it is killed no one is left,
and the kernel halts.
-/

namespace PandosPlus

open Flow Lts

variable {n : Nat}

/-- Following `p_parent` from `q` leads to `p`. -/
def Nucleus.Rises (s : Nucleus n) : Fin n → Fin n → Prop :=
  Relation.ReflTransGen fun q p ↦ s.parent q = some p

/-- The links to the parents, and the PCBs that are free. -/
def Nucleus.tree (s : Nucleus n) : (Fin n → Option (Fin n)) × List (Fin n) :=
  (s.parent, s.pcbFree_h)

/-- All processes descend from `r`. -/
structure Rooted (r : Fin n) (s : Nucleus n) : Prop where
  alive : r ∉ s.pcbFree_h
  root : s.parent r = none
  rises : ∀ q, q ∉ s.pcbFree_h → s.Rises q r

/-- What a step does to the tree. -/
inductive TreeStep (s t : Nucleus n) : Prop
  | still (h : t.tree = s.tree)
  | birth (c p : Fin n) (hc : c ∉ s.pcbFree_h) (hp : p ∈ s.pcbFree_h) (hroot : s.parent p = none)
      (hparent : ∀ q, t.parent q = if q = p then some c else s.parent q)
      (hfree : ∀ q, q ∉ t.pcbFree_h ↔ q = p ∨ q ∉ s.pcbFree_h)
  /-- Someone is left. -/
  | death (p : Fin n) (K : List (Fin n)) (hK : Subtree s [p] K)
      (hparent : ∀ q, t.parent q = if q ∈ K then none else s.parent q)
      (hfree : ∀ q, q ∉ t.pcbFree_h ↔ q ∉ K ∧ q ∉ s.pcbFree_h) (hleft : ∃ q, q ∉ t.pcbFree_h)

variable {cfg : Config n} {s t u : Nucleus n} {c p q r : Fin n} {K held : List (Fin n)} {e : Exit}

/-! ## The root stays -/

theorem Forest.rises_iff (h : Forest s) : s.Rises q p ↔ s.Descends p q := by
  have hlink : (fun p q ↦ q ∈ s.children p) = Function.swap fun q p ↦ s.parent q = some p := by
    funext p q
    exact propext (h.link p q)
  rw [Nucleus.Descends, hlink, Relation.reflTransGen_swap]
  rfl

/-- A subtree holds everyone below its members. -/
theorem Subtree.mem_of_rises (hK : Subtree s [p] K) (hs : Forest s) (h : s.Rises q r)
    (hr : r ∈ K) : q ∈ K := by
  induction h using Relation.ReflTransGen.head_induction_on with
  | refl => exact hr
  | head hparent _ ih => exact hK.closed _ ih _ ((hs.link _ _).mpr hparent)

theorem Rooted.step (h : Rooted r s) (hs : Forest s) (hstep : TreeStep s t) : Rooted r t := by
  cases hstep with
  | still htree =>
      have hparent : t.parent = s.parent := congrArg Prod.fst htree
      have hfree : t.pcbFree_h = s.pcbFree_h := congrArg Prod.snd htree
      refine ⟨?_, ?_, ?_⟩
      · rw [hfree]
        exact h.alive
      · rw [hparent]
        exact h.root
      · rw [hfree, Nucleus.Rises, hparent]
        exact h.rises
  | birth c p hc hp hroot hparent hfree =>
      -- a PCB without a parent is on no way up, so the ways up stay
      have hup : ∀ {q}, s.Rises q r → t.Rises q r := fun hq ↦ by
        refine Relation.ReflTransGen.mono (fun a b hab ↦ ?_) _ _ hq
        have hne : a ≠ p := by
          rintro rfl
          cases hroot.symm.trans hab
        rw [hparent, if_neg hne]
        exact hab
      have hne : r ≠ p := by
        rintro rfl
        exact h.alive hp
      refine ⟨(hfree r).mpr (.inr h.alive), ?_, fun q hq ↦ ?_⟩
      · rw [hparent, if_neg hne]
        exact h.root
      · rcases (hfree q).mp hq with rfl | hq
        · exact .head ((hparent q).trans (if_pos rfl)) (hup (h.rises c hc))
        · exact hup (h.rises q hq)
  | death p K hK hparent hfree hleft =>
      obtain ⟨q, hq⟩ := hleft
      obtain ⟨hqK, hqs⟩ := (hfree q).mp hq
      have hr : r ∉ K := fun hr ↦ hqK (hK.mem_of_rises hs (h.rises q hqs) hr)
      have hup : ∀ q, s.Rises q r → q ∉ K → t.Rises q r := fun q hq ↦ by
        induction hq using Relation.ReflTransGen.head_induction_on with
        | refl => exact fun _ ↦ .refl
        | @head a b hab _ ih =>
            intro ha
            refine .head ?_ (ih fun hb ↦ ha (hK.closed b hb a ((hs.link b a).mpr hab)))
            rw [hparent, if_neg ha]
            exact hab
      refine ⟨(hfree r).mpr ⟨hr, h.alive⟩, ?_, fun q hq ↦ ?_⟩
      · rw [hparent, if_neg hr]
        exact h.root
      · obtain ⟨hqK, hqs⟩ := (hfree q).mp hq
        exact hup q (h.rises q hqs) hqK

theorem TreeStep.of_quiet (hq : Quiet s u) (h : TreeStep u t) : TreeStep s t := by
  have hparent := hq.parent
  have hfree := hq.free
  cases h with
  | still h => exact .still (h.trans (Prod.ext hparent hfree))
  | birth c p hc hp hroot hparent' hfree' =>
      refine .birth c p (hfree ▸ hc) (hfree ▸ hp) (hparent ▸ hroot) ?_ (hfree ▸ hfree')
      rw [← hparent]
      exact hparent'
  | death p K hK hparent' hfree' hleft =>
      have hdown : s.Descends = u.Descends := by
        unfold Nucleus.Descends
        rw [hq.children]
      refine .death p K ⟨hK.nodup, hK.root, ?_, ?_⟩ ?_ (hfree ▸ hfree') hleft
      · rw [← hq.children]
        exact hK.closed
      · rw [hdown]
        exact hK.down
      · rw [← hparent]
        exact hparent'

/-! ## What the routines do to the tree -/

theorem Quiet.tree (h : Quiet s t) : t.tree = s.tree := Prod.ext h.parent h.free

/-- The scheduler leaves the tree alone, and halts when no one is alive. -/
theorem Scheduled.tree (h : Scheduled cfg s e t) :
    t.tree = s.tree ∧ (e ≠ .halt → s.process_count ≠ 0) := by
  cases h with
  | halt hcount => exact ⟨rfl, fun he ↦ absurd rfl he⟩
  | wait hcount => exact ⟨rfl, fun _ ↦ hcount⟩
  | deadlock hcount => exact ⟨rfl, fun _ ↦ hcount⟩
  | dispatch p prio rest hcount hnext hqueue =>
      refine ⟨(Quiet.load cfg p (s.pick p prio rest)).tree.trans ?_, fun _ ↦ hcount⟩
      refine Prod.ext (funext fun q ↦ ?_) (Nucleus.setReadyQueue_free s rest prio)
      exact congrArg (fun f ↦ (f q).p_parent) (Nucleus.setReadyQueue_table s rest prio)

theorem Finished.tree {live : Prop} (h : Finished cfg s live e t) : t.tree = s.tree := by
  cases h with
  | resume => rfl
  | schedule hdead hnext => exact hnext.tree.1

theorem wake_tree (p : Fin n) (s : Nucleus n) : (s.wake p).tree = s.tree := by
  refine Prod.ext (funext fun q ↦ ?_) (Nucleus.wake_free p s)
  exact congrArg (fun f ↦ (f q).p_parent) (Nucleus.wake_table p s)

theorem unblock_tree (k : Word) (p : Fin n) (s : Nucleus n) : (s.unblock k p).tree = s.tree :=
  Prod.ext (s.unblock_links k p).2.2.1 rfl

theorem SemCall.tree {full k : Word} (h : SemCall cfg full k c s e t) : t.tree = s.tree := by
  cases h with
  | block hfull hnext =>
      have hquiet := (Quiet.saveState c s.prev (s.block k c)).trans (Quiet.charge cfg c _)
      exact hnext.tree.1.trans (hquiet.tree.trans (Prod.ext (s.block_links k c).2.2.1 rfl))
  | release p rest hfull hqueue => exact (wake_tree p _).trans (unblock_tree k p s)
  | write hfull hqueue => rfl

/-- `process_count` is zero only when all PCBs are free. -/
theorem Core.left (h : Core s held) (hcount : s.process_count ≠ 0) : ∃ q, q ∉ s.pcbFree_h := by
  by_contra hall
  rw [not_exists] at hall
  have hcard : Finset.univ.card ≤ s.pcbFree_h.toFinset.card :=
    Finset.card_le_card fun q _ ↦ List.mem_toFinset.mpr (not_not.mp (hall q))
  rw [Finset.card_univ, Fintype.card_fin] at hcard
  have hlen := hcard.trans (List.toFinset_card_le _)
  have hzero := h.count
  exact hcount (BitVec.eq_of_toNat_eq (by change _ = 0; omega))

/-- A kill that leaves someone alive. -/
theorem Killed.treeStep (hkill : Killed cfg p K s t) (hu : u.tree = t.tree)
    (hleft : ∃ q, q ∉ t.pcbFree_h) : TreeStep s u := by
  have hparent : u.parent = t.parent := congrArg Prod.fst hu
  have hfree : u.pcbFree_h = t.pcbFree_h := congrArg Prod.snd hu
  refine .death p K hkill.subtree (fun q ↦ ?_) (fun q ↦ ?_) (hfree ▸ hleft)
  · rw [hparent]
    exact hkill.torn.parent q
  · rw [hfree, hkill.torn.free, List.mem_append, List.mem_reverse, not_or]

theorem PassedUp.treeStep {i : Fin 2} (hs : Core s (c :: held)) (he : e ≠ .halt)
    (h : PassedUp cfg i c s e t) : TreeStep s t := by
  cases h with
  | up a ha => exact .still rfl
  | die K u ha hkill hnext =>
      have hu := hs.killed hkill (hs.of_held List.mem_cons_self).1
      exact hkill.treeStep hnext.tree.1 (hu.left (hnext.tree.2 he))

/-- CREATEPROCESS gives the caller a child. -/
theorem created_treeStep {rest : List (Fin n)} {statep : Word} (hs : Core s (c :: held))
    (hf : s.pcbFree_h = p :: rest) : TreeStep s (s.created cfg c p rest statep) := by
  have hp : p ∈ s.pcbFree_h := by rw [hf]; exact List.mem_cons_self
  have hparent : ∀ q, (s.created cfg c p rest statep).parent q =
      if q = p then some c else s.parent q := fun q ↦ by
    refine (insertChild_parent _ c p q).trans ?_
    split
    · rfl
    · rw [Nucleus.parent, Nucleus.makeReady_table]
      refine (congrFun (fillPcb_links _ _ _ _ _).2.1 q).trans ?_
      rw [(hs.enroll_links hp rest).2.1]
  have hfree : (s.created cfg c p rest statep).pcbFree_h = rest := Nucleus.makeReady_free p _
  have hnodup := hs.pids.free_nodup
  rw [hf, List.nodup_cons] at hnodup
  refine .birth c p (hs.of_held List.mem_cons_self).1 hp (hs.free_leaf p hp).1 hparent fun q ↦ ?_
  rw [hfree, hf, List.mem_cons, not_or]
  by_cases e : q = p
  · simp [e, hnodup.1]
  · simp [e]

theorem Called.treeStep {code : Int} (hs : Core s (c :: held)) (he : e ≠ .halt)
    (h : Called cfg c s code e t) : TreeStep s t := by
  cases h with
  | createFails hfree => exact .still rfl
  | create p rest statep hfree hstate => exact created_treeStep hs hfree
  | kill p K u htarget hkill hend =>
      refine hkill.treeStep hend.tree ?_
      cases hend with
      | resume hlive =>
          refine ⟨c, fun hfree ↦ ?_⟩
          rw [hkill.torn.free, List.mem_append, List.mem_reverse] at hfree
          rcases hfree with hK | hfree
          · exact hlive.2 (by rw [hkill.torn.pid, if_pos hK])
          · exact (hs.of_held List.mem_cons_self).1 hfree
      | schedule hdead hnext =>
          exact (hs.killed hkill (target_alive hs htarget)).left (hnext.tree.2 he)
  | killNone htarget hend => exact .still hend.tree
  | passeren k hk hsem => exact .still hsem.tree
  | verhogen k hk hsem => exact .still hsem.tree
  | doIo i hi hsem => exact .still hsem.tree
  | getTime => exact .still (Quiet.charge cfg c s).tree
  | clockWait hsem => exact .still hsem.tree
  | getSupportPtr => exact .still rfl
  | getProcessId => exact .still rfl
  | yield hnext =>
      have hsave : ({ s.saveState c s.prev with process_to_skip := some c } : Nucleus n).tree =
          s.tree := (Quiet.saveState c s.prev s).tree
      exact .still (hnext.tree.1.trans ((Quiet.charge cfg c _).tree.trans
        ((wake_tree c _).trans hsave)))
  | invalid hcode hend =>
      have hquiet : Quiet s s.invalidated := ⟨fun _ ↦ rfl, rfl⟩
      exact TreeStep.of_quiet hquiet (hend.treeStep (hs.quiet hquiet) he)

theorem ticked_tree (l : List (Fin n)) (s : Nucleus n) : (s.ticked cfg l).tree = s.tree := by
  change (l.foldl (fun s p ↦ s.wakeClock cfg.semaphore_it p) s).tree = s.tree
  induction l generalizing s with
  | nil => rfl
  | cons p l ih =>
      rw [List.foldl_cons, ih]
      exact (wake_tree p _).trans (unblock_tree _ p s)

theorem DeviceReturn.tree {i : Fin TOTAL_IO_DEVICES} (h : DeviceReturn cfg i s u) :
    u.tree = s.tree := by
  cases h with
  | wake p rest hv hqueue hp =>
      have hready : (((s.store (commandAddr i) ACK).unblock (cfg.devSem i) p).makeReady p).tree =
          s.tree := by
        refine Prod.ext (funext fun q ↦ ?_) (Nucleus.makeReady_free p _)
        refine (congrArg (fun f ↦ (f q).p_parent) (Nucleus.makeReady_table p _)).trans ?_
        exact congrFun (congrArg Prod.fst (unblock_tree (cfg.devSem i) p
          (s.store (commandAddr i) ACK))) q
      refine Eq.trans (b := (((s.store (commandAddr i) ACK).unblock (cfg.devSem i) p).makeReady
        p).tree) (Prod.ext (funext fun q ↦ ?_) rfl) hready
      exact Nucleus.modifyPcb_field Pcb.p_parent
        (f := fun x ↦ { x with p_s := { x.p_s with reg_v0 := s.mem (statusAddr i) } })
        (by intro; rfl) _ p q
  | drop p rest hv hqueue hp => exact unblock_tree (cfg.devSem i) p (s.store (commandAddr i) ACK)
  | late hv hqueue hnull => rfl

theorem Interrupted.tree (h : Interrupted cfg s e t) : t.tree = s.tree := by
  cases h with
  | plt c hc hip hnext =>
      have hstart : Quiet s (startPLT s) := ⟨fun _ ↦ rfl, rfl⟩
      have hquiet := (hstart.trans (.saveState c s.prev _)).trans (.charge cfg c _)
      exact hnext.tree.1.trans ((wake_tree c _).trans hquiet.tree)
  | clock l hl hip hend => exact hend.tree.trans (ticked_tree l s)
  | device i u hi hret hend => exact hend.tree.trans hret.tree
  | none hi hend => exact hend.tree

/-- Every way an exception is handled does one of these to the tree. -/
theorem Handled.treeStep (hs : Core s (s.curr_process.toList ++ held)) (he : e ≠ .halt)
    (h : Handled cfg s e t) : TreeStep s t := by
  cases h with
  | interrupt hcode hend => exact .still (hend.tree.trans (Quiet.interrupted cfg s).tree)
  | call c code hc hcall hend =>
      rw [hc] at hs
      have hquiet : Quiet s s.advanced := ⟨fun _ ↦ rfl, rfl⟩
      exact TreeStep.of_quiet hquiet (hend.treeStep (hs.quiet hquiet) he)
  | passUp c i hc hcall hcode hend =>
      rw [hc] at hs
      exact hend.treeStep hs he
  | trap c hc hcall hcode hend =>
      rw [hc] at hs
      have hquiet : Quiet s s.invalidated := ⟨fun _ ↦ rfl, rfl⟩
      exact TreeStep.of_quiet hquiet (hend.treeStep (hs.quiet hquiet) he)

/-! ## Every reachable state -/

theorem NucStep.rooted {a : Action} (hs : Inv cfg s) (hr : Rooted r s) (h : NucStep cfg s a t) :
    Rooted r t := by
  obtain ⟨hstep, -⟩ := h
  cases a with
  | store b v =>
      simp only [step, Option.ite_none_left_eq_some, Option.some.injEq] at hstep
      obtain ⟨-, rfl⟩ := hstep
      obtain ⟨lost, -, hsound⟩ := hs
      exact hr.step hsound.core.forest (.still rfl)
  | support b x =>
      simp only [step, Option.some.injEq] at hstep
      subst hstep
      obtain ⟨lost, -, hsound⟩ := hs
      exact hr.step hsound.core.forest (.still rfl)
  | exception state =>
      obtain ⟨e, hdone, -, hend⟩ := step_handled hs hstep
      obtain ⟨lost, -, hsound⟩ := hs
      have hquiet := Quiet.enter state s
      have hcore : Core (enter state s) ((enter state s).curr_process.toList ++ lost) :=
        hsound.core.quiet hquiet
      exact hr.step hsound.core.forest (.of_quiet hquiet (hend.treeStep hcore hdone.ne_halt))

/-- `main` leaves one process alive. -/
theorem Start.rooted (h : Start cfg s) : ∃ r, (∀ q, q ∉ s.pcbFree_h ↔ q = r) ∧ Rooted r s := by
  obtain ⟨mem, support, p, rest, e, -, hfree, -, hend⟩ := h.scheduled
  have htree := hend.tree.1
  have hrest : s.pcbFree_h = rest := congrArg Prod.snd htree
  have hparent : s.parent p = none := by
    refine (congrFun (congrArg Prod.fst htree) p).trans ?_
    change (((Nucleus.initial cfg mem support).alloc p rest).modifyPcb p
      (firstPcb cfg)).parent p = none
    rw [Nucleus.parent, Nucleus.modifyPcb_table, if_pos rfl, Nucleus.alloc_table, if_pos rfl]
    rfl
  have hnodup := List.nodup_finRange n
  rw [hfree, List.nodup_cons] at hnodup
  have hone : ∀ q, q ∉ s.pcbFree_h ↔ q = p := fun q ↦ by
    have hmem := List.mem_finRange q
    rw [hfree, List.mem_cons] at hmem
    rw [hrest]
    refine ⟨fun hq ↦ hmem.resolve_right hq, ?_⟩
    rintro rfl
    exact hnodup.1
  refine ⟨p, hone, (hone p).mpr rfl, hparent, fun q hq ↦ ?_⟩
  rw [(hone q).mp hq]
  exact .refl

/-- The tree of the processes, below the first one. -/
structure Family (cfg : Config n) (r : Fin n) (s : Nucleus n) : Prop where
  first : r ∉ s.pcbFree_h ∧ s.parent r = none
  parent : ∀ q, q ∉ s.pcbFree_h → q ≠ r → ∃ p, p ∉ s.pcbFree_h ∧ s.parent q = some p
  child : ∀ p q, q ∈ s.children p ↔ q ∉ s.pcbFree_h ∧ s.parent q = some p
  once : ∀ p, (s.children p).Nodup
  rises : ∀ q, q ∉ s.pcbFree_h → Relation.ReflTransGen (fun q p ↦ s.parent q = some p) q r
  acyclic : ∀ q, ¬ Relation.TransGen (fun q p ↦ s.parent q = some p) q q
  /-- GETPROCESSID for the parent returns the pid of a living process, and 0 to the first
  one. -/
  parentPid : ∀ state t c, s.curr_process = some c → IsCall state GETPROCESSID →
    state.reg_a1 ≠ 0 → step cfg s (.exception state) = some t →
      c = r ∧ t.prev.reg_v0 = 0 ∨
        ∃ p, p ∉ s.pcbFree_h ∧ s.parent c = some p ∧ t.prev.reg_v0 = s.pid p ∧ s.pid p ≠ 0
  /-- Terminating the first process leaves no one alive. -/
  extinct : ∃ t, killProcess cfg (2 * n + 2) r s = .ok ⟨⟩ t ∧ t.process_count = 0 ∧
    ∀ q, q ∈ t.pcbFree_h

/-- Parents are unique, so a way up that ends cannot go around. -/
theorem Rooted.acyclic (h : Rooted r s) (hs : Core s held) (q : Fin n) :
    ¬ Relation.TransGen (fun q p ↦ s.parent q = some p) q q := by
  intro hcycle
  have hq : q ∉ s.pcbFree_h := fun hfree ↦ by
    obtain ⟨b, hb, -⟩ := Relation.TransGen.head'_iff.mp hcycle
    cases (hs.free_leaf q hfree).1.symm.trans hb
  have hup := h.rises q hq
  revert hcycle
  clear hq
  induction hup using Relation.ReflTransGen.head_induction_on with
  | refl =>
      intro hcycle
      obtain ⟨b, hb, -⟩ := Relation.TransGen.head'_iff.mp hcycle
      cases h.root.symm.trans hb
  | @head a b hab _ ih =>
      intro hcycle
      obtain ⟨b', hab', hback⟩ := Relation.TransGen.head'_iff.mp hcycle
      obtain rfl : b = b' := Option.some.inj (hab.symm.trans hab')
      exact ih (.tail' hback hab)

theorem Rooted.parent_alive (h : Rooted r s) (hs : Core s held) (hq : q ∉ s.pcbFree_h)
    (hne : q ≠ r) : ∃ p, p ∉ s.pcbFree_h ∧ s.parent q = some p := by
  rcases Relation.ReflTransGen.cases_head (h.rises q hq) with rfl | ⟨p, hp, -⟩
  · exact absurd rfl hne
  · refine ⟨p, fun hfree ↦ ?_, hp⟩
    have hmem := (hs.forest.link p q).mpr hp
    rw [(hs.free_leaf p hfree).2] at hmem
    cases hmem

theorem Rooted.extinct (h : Rooted r s) (hs : Core s held) :
    ∃ t, killProcess cfg (2 * n + 2) r s = .ok ⟨⟩ t ∧ t.process_count = 0 ∧
      ∀ q, q ∈ t.pcbFree_h := by
  obtain ⟨K, t, hrun, hkill⟩ := killProcess_run cfg hs.linked r
  have hall : ∀ q, q ∈ t.pcbFree_h := fun q ↦ by
    rw [hkill.torn.free, List.mem_append, List.mem_reverse]
    by_cases hq : q ∈ s.pcbFree_h
    · exact .inr hq
    · exact .inl (hkill.subtree.mem_iff.mpr (hs.forest.rises_iff.mp (h.rises q hq)))
  refine ⟨t, hrun, ?_, hall⟩
  by_contra hcount
  obtain ⟨q, hq⟩ := (hs.killed hkill h.alive).left hcount
  exact hq (hall q)

/-- What GETPROCESSID returns for the parent. -/
theorem step_getProcessId {state : State} (hs : Inv cfg s) (hc : s.curr_process = some c)
    (hcall : IsCall state GETPROCESSID) (ha : state.reg_a1 ≠ 0)
    (h : step cfg s (.exception state) = some t) :
    t.prev.reg_v0 = match s.parent c with
      | none => 0
      | some p => s.pid p := by
  obtain ⟨e, -, -, hend⟩ := step_handled hs h
  have hmem : GETPROCESSID ∈ syscallCodes := by decide
  cases hend with
  | interrupt hcode hend => exact absurd hcode hcall.excCode_ne
  | call c' code hc' hcall' hend =>
      obtain rfl : code = GETPROCESSID := hcall'.code hcall
      obtain rfl : c' = c := Option.some.inj (hc'.symm.trans hc)
      cases hend with
      | getProcessId => exact if_neg ha
      | invalid hcode hend => exact absurd hmem hcode
  | passUp c' i hc' hcall' hcode hend => exact absurd hcall (hcall' _ hmem)
  | trap c' hc' hcall' hcode hend => exact absurd hcall (hcall' _ hmem)

/-- In every state reached from the one `main` leaves, where no PCB carries a reserved pid:
the processes form one tree below the first process. -/
theorem reachable_family {s₀ : Nucleus n} {as : List Action} (h₀ : Start cfg s₀)
    (hrun : Run (NucStep cfg) s₀ as s)
    (hpid : ∀ p, p ∉ s.pcbFree_h → s.pid p ≠ 0 ∧ s.pid p ≠ FREE_PCB_PID) :
    ∃ r, (∀ q, q ∉ s₀.pcbFree_h ↔ q = r) ∧ Family cfg r s := by
  obtain ⟨r, hone, hstart⟩ := h₀.rooted
  obtain ⟨hinv, hroot⟩ : Inv cfg s ∧ Rooted r s := hrun.invariant
    (I := fun s ↦ Inv cfg s ∧ Rooted r s)
    (fun _ _ _ h hstep ↦ ⟨hstep.inv h.1, hstep.rooted h.1 h.2⟩) ⟨h₀.inv, hstart⟩
  obtain ⟨lost, -, hsound⟩ := id hinv
  have hcore := hsound.core
  refine ⟨r, hone, ⟨hroot.alive, hroot.root⟩, fun q hq hne ↦ hroot.parent_alive hcore hq hne,
    fun p q ↦ ?_, hcore.forest.nodup, hroot.rises, hroot.acyclic hcore, ?_, hroot.extinct hcore⟩
  · rw [hcore.forest.link]
    refine ⟨fun hq ↦ ⟨fun hfree ↦ ?_, hq⟩, And.right⟩
    cases (hcore.free_leaf q hfree).1.symm.trans hq
  · intro state t c hc hcall ha hstep
    have hret := step_getProcessId hinv hc hcall ha hstep
    have halive : c ∉ s.pcbFree_h := by
      rw [hc] at hcore
      exact (hcore.of_held List.mem_cons_self).1
    by_cases hcr : c = r
    · rw [hcr, hroot.root] at hret
      exact .inl ⟨hcr, hret⟩
    · obtain ⟨p, hp, hparent⟩ := hroot.parent_alive hcore halive hcr
      rw [hparent] at hret
      exact .inr ⟨p, hp, hparent, hret, (hpid p hp).1⟩

/-- The first process creates a child, which creates another. -/
theorem reachable_family_sample :
    ∃ (s : Nucleus 3) (r : Fin 3), s.pcbFree_h = [] ∧ Family (.sample 3 (by decide) .faults) r s := by
  let cfg := Config.sample 3 (by decide) .faults
  obtain ⟨s, ⟨s₀, as, h₀, hrun⟩, hlen, hpid⟩ := execute_reachable cfg
    (P := fun s ↦ s.pcbFree_h = [] ∧
      ∀ p, p ∉ s.pcbFree_h → s.pid p ≠ 0 ∧ s.pid p ≠ FREE_PCB_PID)
    [.call CREATEPROCESS 0x20003000 1 0, .call YIELD 0 0 0, .call CREATEPROCESS 0x20003000 0 0]
    (by decide +kernel)
  obtain ⟨r, -, hfamily⟩ := reachable_family h₀ hrun hpid
  exact ⟨s, r, hlen, hfamily⟩

end PandosPlus
