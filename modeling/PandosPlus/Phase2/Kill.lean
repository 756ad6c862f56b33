import Mathlib.Algebra.Order.BigOperators.Group.List
import Mathlib.Algebra.Order.Group.Nat
import Mathlib.Logic.Relation
import PandosPlus.Phase2.Torn

/-!
# Killing a process

The recursion of `_killProcess` and its loop.  At its end the same PCBs have been
detached and freed: the process and its descendants, and nobody else.

The loop consumes the list of children it walks, so the number of links to a child
falls at each turn.  A PCB has at most one parent: there are no more than `MAXPROC`
links, and the depth allowed to the recursion is never reached.
-/

namespace PandosPlus

open Flow

variable {n : Nat} {cfg : Config n} {s t u : Nucleus n} {D D' F F' K held : List (Fin n)}
variable {p q c : Fin n}

/-! ## The links of the tree -/

/-- The number of links to a child. -/
def Nucleus.nlinks (s : Nucleus n) : Nat := ((List.finRange n).map fun q ↦ (s.children q).length).sum

/-- A PCB has one parent at most. -/
theorem Forest.nlinks_le (h : Forest s) : s.nlinks ≤ n := by
  have hnodup : ((List.finRange n).flatMap s.children).Nodup := by
    refine List.nodup_flatMap.mpr ⟨fun q _ ↦ h.nodup q, ?_⟩
    refine (List.nodup_finRange n).imp fun {a b} hab ↦ ?_
    intro q ha hb
    exact hab (Option.some.inj (((h.link a q).mp ha).symm.trans ((h.link b q).mp hb)))
  have hlen := hnodup.length_le_card
  rw [Fintype.card_fin, List.length_flatMap] at hlen
  exact hlen

theorem Torn.nlinks_le (h : Torn cfg D F s t) : t.nlinks ≤ s.nlinks := by
  refine List.sum_le_sum fun q _ ↦ ?_
  rw [h.children]
  exact List.length_filter_le _ _

theorem nlinks_unlink (hc : c ∈ s.children p) :
    (removeFromTree c s).nlinks < s.nlinks := by
  refine List.sum_lt_sum _ _ (fun q _ ↦ ?_) ⟨p, List.mem_finRange p, ?_⟩
  · rw [removeFromTree_children]
    exact List.length_erase_le
  · rw [removeFromTree_children, List.length_erase_of_mem hc]
    have := List.length_pos_of_mem hc
    omega

/-! ## The recursion -/

/-- `q` is `p` or one of its descendants. -/
def Nucleus.Descends (s : Nucleus n) : Fin n → Fin n → Prop :=
  Relation.ReflTransGen fun p q ↦ q ∈ s.children p

/-- `D` lists the roots and all their descendants. -/
structure Subtree (s : Nucleus n) (roots D : List (Fin n)) : Prop where
  nodup : D.Nodup
  root : ∀ p ∈ roots, p ∈ D
  closed : ∀ p ∈ D, ∀ q ∈ s.children p, q ∈ D
  down : ∀ q ∈ D, ∃ p ∈ roots, s.Descends p q

theorem Subtree.mem_iff (h : Subtree s [p] D) : q ∈ D ↔ s.Descends p q := by
  constructor
  · intro hq
    obtain ⟨r, hr, hd⟩ := h.down q hq
    rwa [List.mem_singleton.mp hr] at hd
  · intro hd
    induction hd with
    | refl => exact h.root p (List.mem_singleton_self p)
    | tail _ hq ih => exact h.closed _ ih _ hq

theorem Torn.descends (h : Torn cfg D F s t) (hd : t.Descends p q) : s.Descends p q := by
  refine Relation.ReflTransGen.mono (fun a b hb ↦ ?_) _ _ hd
  rw [h.children] at hb
  exact List.mem_of_mem_filter hb

/-- Detaching a PCB cuts it off below as well. -/
theorem Torn.notMem_of_descends (h : Torn cfg D F s t) (hp : p ∉ D) (hd : t.Descends p q) :
    q ∉ D := by
  cases hd with
  | refl => exact hp
  | tail _ hq =>
      rw [h.children] at hq
      simpa using (List.mem_filter.mp hq).2

theorem Torn.refl (h : Linked s) : Torn cfg [] [] s s where
  table q := by
    unfold Pcb.torn
    simp
  free := rfl
  pidList := by simp
  ready pr := by simp
  asl := h.asl
  queue k := by simp
  count := (BitVec.sub_zero _).symm
  soft := (BitVec.sub_zero _).symm
  kept := rfl

/-- A process and, once it has been detached, the subtrees of its children. -/
theorem Subtree.cons (h : Torn cfg [p] [] s t) (ht : Subtree t (t.children p) D) :
    Subtree s [p] (p :: D) := by
  have hsub : ∀ r q, q ∈ s.children r → q = p ∨ q ∈ t.children r := fun r q hq ↦ by
    rw [h.children, List.mem_filter]
    by_cases e : q = p
    · exact .inl e
    · exact .inr ⟨hq, by simpa using e⟩
  have hp : p ∉ D := fun hmem ↦ by
    obtain ⟨r, hr, hd⟩ := ht.down p hmem
    have hr' : r ∉ [p] := by
      rw [h.children] at hr
      simpa using (List.mem_filter.mp hr).2
    exact h.notMem_of_descends hr' hd (List.mem_singleton_self p)
  refine ⟨List.nodup_cons.mpr ⟨hp, ht.nodup⟩, ?_, ?_, ?_⟩
  · intro r hr
    rw [List.mem_singleton.mp hr]
    exact List.mem_cons_self
  · intro r hr q hq
    rcases hsub r q hq with rfl | hq'
    · exact List.mem_cons_self
    · refine List.mem_cons_of_mem _ ?_
      rcases List.mem_cons.mp hr with rfl | hr'
      · exact ht.root q hq'
      · exact ht.closed r hr' q hq'
  · intro q hq
    refine ⟨p, List.mem_singleton_self p, ?_⟩
    rcases List.mem_cons.mp hq with rfl | hq'
    · exact .refl
    · obtain ⟨r, hr, hd⟩ := ht.down q hq'
      rw [h.children] at hr
      exact .head (List.mem_of_mem_filter hr) (h.descends hd)

/-- The subtree of the first child and, once that has been torn off, those of the
others. -/
theorem Subtree.append (h : Torn cfg D F s t) (hc : c ∈ s.children p)
    (hD : Subtree (removeFromTree c s) [c] D) (ht : Subtree t (t.children p) D') :
    Subtree s (s.children p) (D ++ D') ∧ ∀ q ∈ D', q ∉ D := by
  have hsub : ∀ r q, q ∈ s.children r → q ∈ D ∨ q ∈ t.children r := fun r q hq ↦ by
    rw [h.children, List.mem_filter]
    by_cases e : q ∈ D
    · exact .inl e
    · exact .inr ⟨hq, by simpa using e⟩
  have hunlink : ∀ r q, q ∈ s.children r → q = c ∨ q ∈ (removeFromTree c s).children r :=
    fun r q hq ↦ by
      rw [removeFromTree_children]
      by_cases e : q = c
      · exact .inl e
      · exact .inr ((List.mem_erase_of_ne e).mpr hq)
  have hdisj : ∀ q ∈ D', q ∉ D := fun q hq ↦ by
    obtain ⟨r, hr, hd⟩ := ht.down q hq
    refine h.notMem_of_descends ?_ hd
    rw [h.children] at hr
    simpa using (List.mem_filter.mp hr).2
  refine ⟨⟨?_, ?_, ?_, ?_⟩, hdisj⟩
  · exact List.nodup_append.mpr ⟨hD.nodup, ht.nodup, fun a ha b hb e ↦ hdisj b hb (e ▸ ha)⟩
  · intro q hq
    rcases hsub p q hq with hq' | hq'
    · exact List.mem_append_left _ hq'
    · exact List.mem_append_right _ (ht.root q hq')
  · intro r hr q hq
    rcases List.mem_append.mp hr with hr' | hr'
    · refine List.mem_append_left _ ?_
      rcases hunlink r q hq with rfl | hq'
      · exact hD.root _ (List.mem_singleton_self _)
      · exact hD.closed r hr' q hq'
    · rcases hsub r q hq with hq' | hq'
      · exact List.mem_append_left _ hq'
      · exact List.mem_append_right _ (ht.closed r hr' q hq')
  · intro q hq
    rcases List.mem_append.mp hq with hq' | hq'
    · obtain ⟨r, hr, hd⟩ := hD.down q hq'
      rw [List.mem_singleton.mp hr] at hd
      refine ⟨c, hc, Relation.ReflTransGen.mono (fun a b hb ↦ ?_) _ _ hd⟩
      rw [removeFromTree_children] at hb
      exact List.mem_of_mem_erase hb
    · obtain ⟨r, hr, hd⟩ := ht.down q hq'
      rw [h.children] at hr
      exact ⟨r, List.mem_of_mem_filter hr, h.descends hd⟩

theorem removeChild_nil (h : s.children p = []) : removeChild p s = (none, s) := by
  have h' : (s.pcbFree_table p).p_child = [] := h
  simp only [removeChild, h']

theorem removeChild_cons {rest : List (Fin n)} (h : s.children p = c :: rest) :
    removeChild p s = (some c, removeFromTree c s) := by
  have h' : (s.pcbFree_table p).p_child = c :: rest := h
  simp only [removeChild, h']

/-- Induction on the depth allowed, for the recursion and its loop together: what
bounds both is the number of links that are left. -/
theorem kill_run (fuel : Nat) :
    (∀ (s : Nucleus n) p, Linked s → 2 * s.nlinks + 2 ≤ fuel →
      ∃ D F t, killProcess cfg fuel p s = .ok ⟨⟩ t ∧ Torn cfg D F s t ∧ D.Perm F ∧
        Subtree s [p] D) ∧
    ∀ (s : Nucleus n) p, Linked s → 2 * s.nlinks + 1 ≤ fuel →
      ∃ D F t, killChildren cfg fuel p s = .ok ⟨⟩ t ∧ Torn cfg D F s t ∧ D.Perm F ∧
        Subtree s (s.children p) D := by
  induction fuel with
  | zero => exact ⟨fun s p _ h ↦ by omega, fun s p _ h ↦ by omega⟩
  | succ fuel ih =>
      obtain ⟨ihProcess, ihChildren⟩ := ih
      constructor
      · intro s p hs hfuel
        have hdetach : Torn cfg [p] [] s (s.detach cfg p) := hs.detach p
        have hlinks := hdetach.nlinks_le
        obtain ⟨D, F, t, hrun, htorn, hperm, htree⟩ :=
          ihChildren _ p (hdetach.linked hs) (by omega)
        have hcons := Subtree.cons hdetach htree
        have hp : p ∉ D := (List.nodup_cons.mp hcons.nodup).1
        have hboth : Torn cfg ([p] ++ D) ([] ++ F) s t :=
          hdetach.trans htorn fun q hq hq' ↦ hp (List.mem_singleton.mp hq' ▸ hq)
        have hfree := hboth.trans ((hboth.linked hs).free p) fun q hq ↦ nomatch hq
        refine ⟨p :: D, F ++ [p], freePcb p t, ?_, ?_, ?_, hcons⟩
        · simp only [killProcess, bind_run, detachProcess_run hs, hrun, modify_run]
        · simpa using hfree
        · exact (hperm.cons p).trans (List.perm_append_singleton p F).symm
      · intro s p hs hfuel
        cases hc : s.children p with
        | nil =>
            refine ⟨[], [], s, ?_, .refl hs, .refl _, ?_⟩
            · simp only [killChildren, bind_run, get_run, removeChild_nil hc, pure_run]
            · exact ⟨List.nodup_nil, by simp, by simp, by simp⟩
        | cons c rest =>
            have hmem : c ∈ s.children p := by rw [hc]; exact List.mem_cons_self
            have hlinks := nlinks_unlink hmem
            obtain ⟨D, F, t, hrun, htorn, hperm, htree⟩ :=
              ihProcess _ c (hs.unlink c) (by omega)
            have hlinks' := htorn.nlinks_le
            have hs' := htorn.of_unlink hs (htree.root c (List.mem_singleton_self c))
            obtain ⟨D', F', u, hrun', htorn', hperm', htree'⟩ :=
              ihChildren t p (hs'.linked hs) (by omega)
            obtain ⟨happend, hdisj⟩ := Subtree.append hs' hmem htree htree'
            refine ⟨D ++ D', F ++ F', u, ?_, hs'.trans htorn' hdisj, hperm.append hperm', ?_⟩
            · simp only [killChildren, bind_run, get_run, removeChild_cons hc, set_run, hrun,
                hrun']
            · rw [← hc]
              exact happend

/-- `K` is `p` and its descendants, and they have been taken out of everything and
freed, each after its descendants. -/
structure Killed (cfg : Config n) (p : Fin n) (K : List (Fin n)) (s t : Nucleus n) : Prop where
  torn : Torn cfg K K s t
  subtree : Subtree s [p] K

variable (cfg) in
/-- `_killProcess` comes to its end, with the depth `termProcess` allows. -/
theorem killProcess_run (h : Linked s) (p : Fin n) :
    ∃ K t, killProcess cfg (2 * n + 2) p s = .ok ⟨⟩ t ∧ Killed cfg p K s t := by
  have hlinks := h.forest.nlinks_le
  obtain ⟨D, F, t, hrun, htorn, hperm, htree⟩ := (kill_run (2 * n + 2)).1 s p h (by omega)
  refine ⟨F, t, hrun, htorn.perm hperm, ?_⟩
  exact ⟨hperm.nodup_iff.mp htree.nodup, fun q hq ↦ hperm.mem_iff.mp (htree.root q hq),
    fun q hq r hr ↦ hperm.mem_iff.mp (htree.closed q (hperm.mem_iff.mpr hq) r hr),
    fun q hq ↦ htree.down q (hperm.mem_iff.mpr hq)⟩

/-! ## The invariant -/

theorem mem_filter_notMem {l : List (Fin n)} : q ∈ l.filter (· ∉ K) ↔ q ∈ l ∧ q ∉ K := by simp

theorem count_filter_notMem (l : List (Fin n)) (K : List (Fin n)) (q : Fin n) :
    (l.filter (· ∉ K)).count q = if q ∈ K then 0 else l.count q := by
  split
  · rename_i hq
    exact List.count_eq_zero_of_not_mem fun hmem ↦ (mem_filter_notMem.mp hmem).2 hq
  · rename_i hq
    exact List.count_filter (by simpa using hq)

theorem Torn.readies (h : Torn cfg D F s t) (q : Fin n) :
    t.readies q = if q ∈ D then 0 else s.readies q := by
  have hlow : t.low_readyqueue = s.low_readyqueue.filter (· ∉ D) := h.ready .low
  have hhigh : t.high_readyqueue = s.high_readyqueue.filter (· ∉ D) := h.ready .high
  rw [Nucleus.readies, hlow, hhigh, count_filter_notMem, count_filter_notMem]
  split <;> rfl

/-- A subtree with an allocated root is allocated: free PCBs have no parent. -/
theorem Subtree.alive (h : Subtree s [p] K) (hs : Core s held) (hp : p ∉ s.pcbFree_h) :
    ∀ q ∈ K, q ∉ s.pcbFree_h := by
  intro q hq hfree
  cases h.mem_iff.mp hq with
  | refl => exact hp hfree
  | tail _ hmem =>
      have := (hs.free_leaf q hfree).1
      rw [(hs.forest.link _ q).mp hmem] at this
      cases this

theorem Killed.alive (h : Killed cfg p K s t) (hs : Core s held) (hp : p ∉ s.pcbFree_h) :
    ∀ q ∈ K, q ∉ s.pcbFree_h := h.subtree.alive hs hp

/-- The killed PCBs go to the free list, and every other one stays where it is. -/
theorem Core.killed (hs : Core s held) (h : Killed cfg p K s t) (hp : p ∉ s.pcbFree_h) :
    Core t (held.filter (· ∉ K)) := by
  have halive := h.alive hs hp
  have hlinked := h.torn.linked hs.linked
  have hfree : ∀ q, t.pcbFree_h.count q = if q ∈ K then 1 else s.pcbFree_h.count q := by
    intro q
    rw [h.torn.free, List.count_append, List.count_reverse]
    split
    · rename_i hq
      rw [List.count_eq_one_of_mem h.subtree.nodup hq,
        List.count_eq_zero_of_not_mem (halive q hq)]
    · rename_i hq
      rw [List.count_eq_zero_of_not_mem hq, Nat.zero_add]
  have hmem : ∀ q, q ∈ t.pcbFree_h ↔ q ∈ K ∨ q ∈ s.pcbFree_h := by
    intro q
    rw [h.torn.free, List.mem_append, List.mem_reverse]
  refine ⟨⟨?_, fun q ↦ ?_, fun q hq ↦ ?_⟩, h.torn.asl, fun q ↦ ?_, hlinked.prio, hlinked.forest,
    fun q hq ↦ ?_, ?_⟩
  · rw [h.torn.pidList]
    refine (hs.pids.ascending.sublist List.filter_sublist).congr fun q hq ↦ ?_
    rw [h.torn.pid, if_neg (mem_filter_notMem.mp hq).2]
  · have := hs.pids.partition q
    rw [h.torn.pidList, count_filter_notMem, hfree]
    split <;> omega
  · rw [h.torn.pid]
    split
    · rfl
    · rename_i hK
      exact hs.pids.free_pid q (((hmem q).mp hq).resolve_left hK)
  · have := hs.place q
    rw [hfree, h.torn.readies, Nucleus.waits, h.torn.semAdd, count_filter_notMem]
    by_cases hq : q ∈ K
    · simp [hq]
    · simpa [hq, Nucleus.waits] using this
  · rw [h.torn.parent, h.torn.children]
    by_cases hK : q ∈ K
    · refine ⟨if_pos hK, List.filter_eq_nil_iff.mpr fun r hr ↦ ?_⟩
      simpa using h.subtree.closed q hK r hr
    · obtain ⟨hparent, hchildren⟩ := hs.free_leaf q (((hmem q).mp hq).resolve_left hK)
      rw [if_neg hK, hparent, hchildren]
      exact ⟨rfl, rfl⟩
  · -- the killed PCBs and the free ones are different, so they are `n` at most
    have hcount := hs.count
    have hnodup : (K ++ s.pcbFree_h).Nodup := List.nodup_append.mpr
      ⟨h.subtree.nodup, hs.pids.free_nodup, fun a ha b hb e ↦ halive a ha (e ▸ hb)⟩
    have hle := hnodup.length_le_card
    rw [Fintype.card_fin, List.length_append] at hle
    rw [h.torn.count, h.torn.free, List.length_append, List.length_reverse]
    bv_omega

end PandosPlus
