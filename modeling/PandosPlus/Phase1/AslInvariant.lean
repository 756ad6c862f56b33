import Mathlib.Data.Fintype.Card
import Mathlib.Data.Fintype.EquivFin
import Mathlib.Data.List.Nodup
import PandosPlus.Phase1.Asl

/-!
# What the active semaphore list stands for

The list of active descriptors stands for a map from keys to queues: `Asl.queue`
reads it, and is empty at a key that is not active.  `Asl.Inv` is what the search
with early exit and the recycling of descriptors rest on; it also ties the queues
to the `p_semAdd` field of the PCBs, given here as a function `sem`.

Each routine of `asl.c` then acts on one queue: `insertBlocked` appends,
`removeBlocked` takes the first, `outBlocked` erases, and no other queue moves.
-/

namespace PandosPlus

open SortedList

variable {n : Nat}

/-- The key of a descriptor. -/
def Asl.key (a : Asl n) (d : Fin n) : Word := (a.semd_table d).s_key

/-- The queue of a descriptor. -/
def Asl.procQ (a : Asl n) (d : Fin n) : List (Fin n) := (a.semd_table d).s_procq

/-- The processes blocked on a semaphore, in the order of its queue. -/
def Asl.queue (a : Asl n) (k : Word) : List (Fin n) :=
  match peekActiveSemaphore k a with
  | none => []
  | some d => a.procQ d

/-- The invariant of the two descriptor lists. -/
structure Asl.Inv (a : Asl n) (sem : Fin n → Option Word) : Prop where
  /-- Active keys are strictly ascending. -/
  ascending : Ascending a.key a.semd_h
  /-- An active semaphore has a waiter. -/
  nonempty : ∀ d ∈ a.semd_h, a.procQ d ≠ []
  /-- Every descriptor is in exactly one of the two lists, once. -/
  partition : ∀ d, a.semd_h.count d + a.semdFree_h.count d = 1
  /-- No process waits twice in one queue. -/
  nodup : ∀ d ∈ a.semd_h, (a.procQ d).Nodup
  /-- `p_semAdd` is the key of the queue the process is in. -/
  blocked : ∀ p k, sem p = some k ↔ ∃ d ∈ a.semd_h, a.key d = k ∧ p ∈ a.procQ d

variable {a : Asl n} {sem : Fin n → Option Word} {d : Fin n} {p : Fin n} {k : Word}

theorem peek_mem (h : peekActiveSemaphore k a = some d) : d ∈ a.semd_h ∧ a.key d = k :=
  search_mem h

namespace Asl.Inv

/-! ## Reading the map -/

theorem peek_key (h : a.Inv sem) (hd : d ∈ a.semd_h) :
    peekActiveSemaphore (a.key d) a = some d := h.ascending.search_of_mem hd

theorem queue_key (h : a.Inv sem) (hd : d ∈ a.semd_h) : a.queue (a.key d) = a.procQ d := by
  rw [Asl.queue, h.peek_key hd]

/-- A process is in the queue its `p_semAdd` names, and in no other. -/
theorem mem_queue (h : a.Inv sem) : p ∈ a.queue k ↔ sem p = some k := by
  rw [h.blocked]
  constructor
  · intro hp
    rw [Asl.queue] at hp
    cases hd : peekActiveSemaphore k a with
    | none => rw [hd] at hp; cases hp
    | some d =>
        rw [hd] at hp
        exact ⟨d, (peek_mem hd).1, (peek_mem hd).2, hp⟩
  · rintro ⟨d, hd, rfl, hp⟩
    rwa [h.queue_key hd]

theorem queue_nodup (h : a.Inv sem) : (a.queue k).Nodup := by
  rw [Asl.queue]
  cases hd : peekActiveSemaphore k a with
  | none => exact List.nodup_nil
  | some d => exact h.nodup d (peek_mem hd).1

theorem queue_eq_nil_iff (h : a.Inv sem) :
    a.queue k = [] ↔ peekActiveSemaphore k a = none := by
  rw [Asl.queue]
  cases hd : peekActiveSemaphore k a with
  | none => exact iff_of_true rfl rfl
  | some d => exact iff_of_false (h.nonempty d (peek_mem hd).1) (by simp)

theorem congr {sem' : Fin n → Option Word} (h : a.Inv sem)
    (hs : ∀ q, sem' q = sem q) : a.Inv sem' := by
  rwa [show sem' = sem from funext hs]

/-- A descriptor is free as long as one process waits nowhere: the active ones are
no more than the processes at the heads of their queues. -/
theorem exists_free (h : a.Inv sem) (hp : sem p = none) : a.semdFree_h ≠ [] := by
  intro hnil
  have hall : ∀ d, d ∈ a.semd_h := by
    intro d
    have hc := h.partition d
    rw [hnil, List.count_nil, Nat.add_zero] at hc
    exact List.count_pos_iff.mp (by omega)
  choose f hf using fun d ↦ List.exists_mem_of_ne_nil _ (h.nonempty d (hall d))
  have hinj : Function.Injective f := by
    intro d d' e
    have hd := (h.blocked (f d) (a.key d)).mpr ⟨d, hall d, rfl, hf d⟩
    have hd' := (h.blocked (f d) (a.key d')).mpr ⟨d', hall d', rfl, e ▸ hf d'⟩
    exact h.ascending.eq_of_key (hall d) (hall d') (Option.some.inj (hd.symm.trans hd'))
  obtain ⟨d, rfl⟩ := (Finite.injective_iff_surjective.mp hinj) p
  have hd := (h.blocked (f d) (a.key d)).mpr ⟨d, hall d, rfl, hf d⟩
  rw [hp] at hd
  cases hd

end Asl.Inv

/-! ## Reading a changed descriptor -/

@[simp] theorem Asl.setSemd_semd_h (x : Semd n) : (a.setSemd d x).semd_h = a.semd_h := rfl
@[simp] theorem Asl.setSemd_semdFree_h (x : Semd n) :
    (a.setSemd d x).semdFree_h = a.semdFree_h := rfl
@[simp] theorem Asl.setProcQ_semd_h (l : List (Fin n)) :
    (a.setProcQ d l).semd_h = a.semd_h := rfl
@[simp] theorem Asl.setProcQ_semdFree_h (l : List (Fin n)) :
    (a.setProcQ d l).semdFree_h = a.semdFree_h := rfl

@[simp] theorem Asl.setProcQ_key (l : List (Fin n)) (d' : Fin n) :
    (a.setProcQ d l).key d' = a.key d' := by
  by_cases h : d' = d <;> simp [Asl.key, Asl.setProcQ, Asl.setSemd, h]

theorem Asl.setProcQ_procQ (l : List (Fin n)) (d' : Fin n) :
    (a.setProcQ d l).procQ d' = if d' = d then l else a.procQ d' := by
  by_cases h : d' = d <;> simp [Asl.procQ, Asl.setProcQ, Asl.setSemd, h]

@[simp] theorem Asl.setProcQ_peek (l : List (Fin n)) :
    peekActiveSemaphore k (a.setProcQ d l) = peekActiveSemaphore k a :=
  search_congr fun d' _ ↦ Asl.setProcQ_key l d'

theorem Asl.setProcQ_queue (h : a.Inv sem) (hd : d ∈ a.semd_h) (l : List (Fin n)) (k : Word) :
    (a.setProcQ d l).queue k = if k = a.key d then l else a.queue k := by
  rw [Asl.queue, Asl.setProcQ_peek, Asl.queue]
  cases hk : peekActiveSemaphore k a with
  | none =>
      have hne : k ≠ a.key d := by
        rintro rfl
        rw [h.peek_key hd] at hk
        cases hk
      rw [if_neg hne]
  | some d' =>
      obtain ⟨hd', rfl⟩ := peek_mem hk
      simp only [Asl.setProcQ_procQ]
      by_cases e : d' = d
      · rw [if_pos e, if_pos (by rw [e])]
      · rw [if_neg e, if_neg fun hk ↦ e (h.ascending.eq_of_key hd' hd hk)]

/-! ## Appending to a queue -/

/-- The map after `p` has joined the queue at `k`. -/
def Asl.Joined (a : Asl n) (k : Word) (p : Fin n) (a' : Asl n) : Prop :=
  ∀ k', a'.queue k' = if k' = k then a.queue k ++ [p] else a.queue k'

theorem Asl.Inv.append (h : a.Inv sem) (hd : d ∈ a.semd_h) (hp : sem p = none) :
    (a.setProcQ d (a.procQ d ++ [p])).Inv fun q ↦ if q = p then some (a.key d) else sem q := by
  have hnot : ∀ d' ∈ a.semd_h, p ∉ a.procQ d' := by
    intro d' hd' hmem
    rw [(h.blocked p _).mpr ⟨d', hd', rfl, hmem⟩] at hp
    cases hp
  refine ⟨h.ascending.congr fun d' _ ↦ Asl.setProcQ_key _ d', ?_, h.partition, ?_, ?_⟩
  · intro d' hd'
    rw [Asl.setProcQ_procQ]
    split
    · simp
    · exact h.nonempty d' hd'
  · intro d' hd'
    rw [Asl.setProcQ_procQ]
    split
    · exact List.nodup_append.mpr ⟨h.nodup d hd, List.nodup_singleton p,
        fun x hx y hy e ↦ hnot d hd (by rw [List.mem_singleton.mp hy] at e; exact e ▸ hx)⟩
    · exact h.nodup d' hd'
  · intro q k
    simp only [Asl.setProcQ_key, Asl.setProcQ_procQ, Asl.setProcQ_semd_h]
    by_cases hq : q = p
    · subst hq
      rw [if_pos rfl]
      constructor
      · rintro ⟨⟩
        exact ⟨d, hd, rfl, by rw [if_pos rfl]; simp⟩
      · rintro ⟨d', hd', rfl, hmem⟩
        by_cases e : d' = d
        · rw [e]
        · rw [if_neg e] at hmem
          exact absurd hmem (hnot d' hd')
    · rw [if_neg hq, h.blocked]
      refine exists_congr fun d' ↦ and_congr_right fun _ ↦ and_congr_right fun _ ↦ ?_
      by_cases e : d' = d
      · rw [if_pos e, e, List.mem_append, List.mem_singleton, or_iff_left hq]
      · rw [if_neg e]

theorem Asl.Inv.append_joined (h : a.Inv sem) (hd : d ∈ a.semd_h) :
    a.Joined (a.key d) p (a.setProcQ d (a.procQ d ++ [p])) := by
  intro k'
  rw [Asl.setProcQ_queue h hd, h.queue_key hd]

/-- The descriptor lists after `_initSemaphore` has activated `d` for `k`, with its
queue already set to `l`. -/
def Asl.activate (a : Asl n) (d : Fin n) (rest : List (Fin n)) (k : Word) (l : List (Fin n)) :
    Asl n :=
  (addActiveSemaphore d ({ a with semdFree_h := rest }.setSemd d ⟨k, []⟩)).setProcQ d l

theorem Asl.activate_key (rest l : List (Fin n)) (d' : Fin n) :
    (a.activate d rest k l).key d' = if d' = d then k else a.key d' := by
  rw [Asl.activate, Asl.setProcQ_key]
  by_cases e : d' = d <;> simp [Asl.key, addActiveSemaphore, Asl.setSemd, e]

theorem Asl.activate_procQ (rest l : List (Fin n)) (d' : Fin n) :
    (a.activate d rest k l).procQ d' = if d' = d then l else a.procQ d' := by
  rw [Asl.activate, Asl.setProcQ_procQ]
  by_cases e : d' = d <;> simp [Asl.procQ, addActiveSemaphore, Asl.setSemd, e]

theorem Asl.mem_activate (rest l : List (Fin n)) (d' : Fin n) :
    d' ∈ (a.activate d rest k l).semd_h ↔ d' = d ∨ d' ∈ a.semd_h := by
  simp [Asl.activate, addActiveSemaphore]

section Activate

variable {rest : List (Fin n)}

theorem Asl.Inv.notMem_of_free (h : a.Inv sem) (hf : a.semdFree_h = d :: rest) :
    d ∉ a.semd_h := by
  intro hd
  have hc := h.partition d
  rw [hf, List.count_cons_self] at hc
  have := List.count_pos_iff.mpr hd
  omega

theorem Asl.Inv.key_ne_of_peek (h : a.Inv sem) (hk : peekActiveSemaphore k a = none)
    {d' : Fin n} (hd' : d' ∈ a.semd_h) : a.key d' ≠ k := h.ascending.search_eq_none_iff.mp hk d' hd'

theorem Asl.Inv.activate (h : a.Inv sem) (hf : a.semdFree_h = d :: rest)
    (hk : peekActiveSemaphore k a = none) (hp : sem p = none) :
    (a.activate d rest k [p]).Inv fun q ↦ if q = p then some k else sem q := by
  have hd := h.notMem_of_free hf
  have hkey : ∀ d' ∈ a.semd_h, (a.activate d rest k [p]).key d' = a.key d' := fun d' hd' ↦ by
    rw [Asl.activate_key, if_neg fun e : d' = d ↦ hd (e ▸ hd')]
  refine ⟨?_, ?_, ?_, ?_, ?_⟩
  · -- sorted insertion of the fresh key
    have hasc : Ascending (a.activate d rest k [p]).key a.semd_h := h.ascending.congr hkey
    have hfresh : ∀ d' ∈ a.semd_h,
        (a.activate d rest k [p]).key d' ≠ (a.activate d rest k [p]).key d := by
      intro d' hd'
      rw [hkey d' hd', Asl.activate_key, if_pos rfl]
      exact h.key_ne_of_peek hk hd'
    have hins := hasc.insertFront hfresh
    have hfun : (a.activate d rest k [p]).key =
        fun d' ↦ (({ a with semdFree_h := rest }.setSemd d ⟨k, []⟩).semd_table d').s_key := by
      funext d'
      rw [Asl.activate_key]
      by_cases e : d' = d <;> simp [Asl.key, Asl.setSemd, e]
    rw [hfun] at hins ⊢
    exact hins
  · intro d' hd'
    rw [Asl.activate_procQ]
    split
    · simp
    · rename_i e
      exact h.nonempty d' (((Asl.mem_activate _ _ _).mp hd').resolve_left e)
  · intro d'
    have hc := h.partition d'
    have hperm : (a.activate d rest k [p]).semd_h.Perm (d :: a.semd_h) := insertFront_perm
    have hfree : (a.activate d rest k [p]).semdFree_h = rest := rfl
    rw [hperm.count_eq, hfree]
    rw [hf] at hc
    simp only [List.count_cons] at hc ⊢
    omega
  · intro d' hd'
    rw [Asl.activate_procQ]
    split
    · exact List.nodup_singleton p
    · rename_i e
      exact h.nodup d' (((Asl.mem_activate _ _ _).mp hd').resolve_left e)
  · intro q k'
    by_cases hq : q = p
    · subst hq
      rw [if_pos rfl]
      constructor
      · rintro ⟨⟩
        exact ⟨d, (Asl.mem_activate _ _ _).mpr (.inl rfl), by rw [Asl.activate_key, if_pos rfl],
          by rw [Asl.activate_procQ, if_pos rfl]; exact List.mem_singleton_self q⟩
      · rintro ⟨d', hd', rfl, hmem⟩
        by_cases e : d' = d
        · rw [Asl.activate_key, if_pos e]
        · rw [Asl.activate_procQ, if_neg e] at hmem
          have hd'' := ((Asl.mem_activate _ _ _).mp hd').resolve_left e
          rw [(h.blocked q _).mpr ⟨d', hd'', rfl, hmem⟩] at hp
          cases hp
    · rw [if_neg hq, h.blocked]
      constructor
      · rintro ⟨d', hd', rfl, hmem⟩
        have e : d' ≠ d := fun e ↦ hd (e ▸ hd')
        exact ⟨d', (Asl.mem_activate _ _ _).mpr (.inr hd'), by rw [Asl.activate_key, if_neg e],
          by rw [Asl.activate_procQ, if_neg e]; exact hmem⟩
      · rintro ⟨d', hd', rfl, hmem⟩
        by_cases e : d' = d
        · rw [Asl.activate_procQ, if_pos e] at hmem
          exact absurd (List.mem_singleton.mp hmem) hq
        · rw [Asl.activate_procQ, if_neg e] at hmem
          exact ⟨d', ((Asl.mem_activate _ _ _).mp hd').resolve_left e,
            by rw [Asl.activate_key, if_neg e], hmem⟩

theorem Asl.Inv.activate_joined (h : a.Inv sem) (hf : a.semdFree_h = d :: rest)
    (hk : peekActiveSemaphore k a = none) (hp : sem p = none) :
    a.Joined k p (a.activate d rest k [p]) := by
  have h' := h.activate hf hk hp
  have hd := h.notMem_of_free hf
  intro k'
  by_cases e : k' = k
  · subst e
    have hmem : d ∈ (a.activate d rest k' [p]).semd_h := (Asl.mem_activate _ _ _).mpr (.inl rfl)
    have hq := h'.queue_key hmem
    rw [Asl.activate_key, if_pos rfl, Asl.activate_procQ, if_pos rfl] at hq
    rw [if_pos rfl, hq, h.queue_eq_nil_iff.mpr hk, List.nil_append]
  · rw [if_neg e]
    cases hp' : peekActiveSemaphore k' a with
    | none =>
        rw [h.queue_eq_nil_iff.mpr hp', h'.queue_eq_nil_iff]
        refine h'.ascending.search_eq_none_iff.mpr fun d' hd' ↦ ?_
        rw [Asl.activate_key]
        split
        · exact Ne.symm e
        · rename_i e'
          exact h.key_ne_of_peek hp' (((Asl.mem_activate _ _ _).mp hd').resolve_left e')
    | some d' =>
        obtain ⟨hd', rfl⟩ := peek_mem hp'
        have e' : d' ≠ d := fun e ↦ hd (e ▸ hd')
        have hmem : d' ∈ (a.activate d rest k [p]).semd_h :=
          (Asl.mem_activate _ _ _).mpr (.inr hd')
        have hq := h'.queue_key hmem
        rw [Asl.activate_key, if_neg e', Asl.activate_procQ, if_neg e'] at hq
        rw [hq, h.queue_key hd']

end Activate

/-! ## Leaving a queue -/

/-- The map after `p` has left the queue at `k`. -/
def Asl.Parted (a : Asl n) (k : Word) (p : Fin n) (a' : Asl n) : Prop :=
  ∀ k', a'.queue k' = if k' = k then (a.queue k).erase p else a.queue k'

/-- The descriptor lists after `p` has left the queue of `d`. -/
def Asl.part (a : Asl n) (d p : Fin n) : Asl n :=
  updateActiveSemaphore d (a.setProcQ d ((a.procQ d).erase p))

theorem Asl.part_key (d' : Fin n) : (a.part d p).key d' = a.key d' := by
  unfold Asl.part updateActiveSemaphore
  split
  · exact Asl.setProcQ_key _ d'
  · exact Asl.setProcQ_key _ d'

theorem Asl.part_procQ (d' : Fin n) :
    (a.part d p).procQ d' = if d' = d then (a.procQ d).erase p else a.procQ d' := by
  unfold Asl.part updateActiveSemaphore
  split
  · exact Asl.setProcQ_procQ _ d'
  · exact Asl.setProcQ_procQ _ d'

/-- The descriptor stays active while its queue has a process left. -/
theorem Asl.Inv.mem_part (h : a.Inv sem) (d' : Fin n) :
    d' ∈ (a.part d p).semd_h ↔ d' ∈ a.semd_h ∧ (d' = d → (a.procQ d).erase p ≠ []) := by
  have hproc : ((a.setProcQ d ((a.procQ d).erase p)).semd_table d).s_procq =
      (a.procQ d).erase p := by
    change (a.setProcQ d ((a.procQ d).erase p)).procQ d = _
    rw [Asl.setProcQ_procQ, if_pos rfl]
  unfold Asl.part updateActiveSemaphore
  rw [hproc]
  split
  · rename_i he
    rw [show (addFreeSemaphore d _ : Asl n).semd_h = a.semd_h.erase d from rfl,
      h.ascending.nodup.mem_erase_iff]
    constructor
    · exact fun ⟨hne, hmem⟩ ↦ ⟨hmem, fun e ↦ absurd e hne⟩
    · exact fun ⟨hmem, hne⟩ ↦ ⟨fun e ↦ hne e he, hmem⟩
  · rename_i he
    exact ⟨fun hmem ↦ ⟨hmem, fun _ ↦ he⟩, And.left⟩

theorem Asl.Inv.part (h : a.Inv sem) (hd : d ∈ a.semd_h) (hp : p ∈ a.procQ d) :
    (a.part d p).Inv fun q ↦ if q = p then none else sem q := by
  refine ⟨?_, ?_, ?_, ?_, ?_⟩
  · have hsub : (a.part d p).semd_h.Sublist a.semd_h := by
      unfold Asl.part updateActiveSemaphore
      split
      · exact List.erase_sublist
      · exact List.Sublist.refl _
    exact (h.ascending.congr fun d' _ ↦ Asl.part_key d').sublist hsub
  · intro d' hd'
    obtain ⟨hmem, hne⟩ := (h.mem_part d').mp hd'
    rw [Asl.part_procQ]
    split
    · rename_i e
      exact hne e
    · exact h.nonempty d' hmem
  · intro d'
    have hc := h.partition d'
    unfold Asl.part updateActiveSemaphore
    split
    · have he : (a.semd_h.erase d).count d' + (if d = d' then 1 else 0) = a.semd_h.count d' := by
        rw [(List.perm_cons_erase hd).count_eq, List.count_cons]
        simp
      change (a.semd_h.erase d).count d' + (d :: a.semdFree_h).count d' = 1
      rw [List.count_cons]
      simp only [beq_iff_eq]
      omega
    · exact hc
  · intro d' hd'
    obtain ⟨hmem, _⟩ := (h.mem_part d').mp hd'
    rw [Asl.part_procQ]
    split
    · exact (h.nodup d hd).erase p
    · exact h.nodup d' hmem
  · intro q k
    by_cases hq : q = p
    · subst hq
      rw [if_pos rfl]
      refine iff_of_false (by simp) ?_
      rintro ⟨d', hd', rfl, hmem⟩
      obtain ⟨hd'', _⟩ := (h.mem_part d').mp hd'
      rw [Asl.part_procQ] at hmem
      split at hmem
      · exact (h.nodup d hd).not_mem_erase hmem
      · rename_i e
        have hq := (h.blocked q _).mpr ⟨d', hd'', rfl, hmem⟩
        have hq' := (h.blocked q _).mpr ⟨d, hd, rfl, hp⟩
        exact e (h.ascending.eq_of_key hd'' hd (Option.some.inj (hq.symm.trans hq')))
    · rw [if_neg hq, h.blocked]
      constructor
      · rintro ⟨d', hd', rfl, hmem⟩
        have hmem' : q ∈ (a.part d p).procQ d' := by
          rw [Asl.part_procQ]
          split
          · rename_i e
            exact (List.mem_erase_of_ne hq).mpr (e ▸ hmem)
          · exact hmem
        refine ⟨d', (h.mem_part d').mpr ⟨hd', fun e hnil ↦ ?_⟩, Asl.part_key d', hmem'⟩
        rw [Asl.part_procQ, if_pos e, hnil] at hmem'
        cases hmem'
      · rintro ⟨d', hd', rfl, hmem⟩
        obtain ⟨hd'', _⟩ := (h.mem_part d').mp hd'
        refine ⟨d', hd'', (Asl.part_key d').symm, ?_⟩
        rw [Asl.part_procQ] at hmem
        split at hmem
        · rename_i e
          exact e ▸ List.mem_of_mem_erase hmem
        · exact hmem

theorem Asl.Inv.part_parted (h : a.Inv sem) (hd : d ∈ a.semd_h) (hp : p ∈ a.procQ d) :
    a.Parted (a.key d) p (a.part d p) := by
  have h' := h.part hd hp
  intro k'
  rw [h.queue_key hd]
  cases hk : peekActiveSemaphore k' (a.part d p) with
  | some d' =>
      obtain ⟨hd', rfl⟩ := peek_mem hk
      obtain ⟨hd'', _⟩ := (h.mem_part d').mp hd'
      rw [h'.queue_key hd', Asl.part_procQ, Asl.part_key]
      by_cases e : d' = d
      · rw [if_pos e, if_pos (by rw [e])]
      · rw [if_neg e, if_neg fun hk ↦ e (h.ascending.eq_of_key hd'' hd hk), h.queue_key hd'']
  | none =>
      rw [h'.queue_eq_nil_iff.mpr hk]
      have hgone := h'.ascending.search_eq_none_iff.mp hk
      by_cases e : k' = a.key d
      · rw [if_pos e]
        by_contra hne
        refine hgone d ((h.mem_part d).mpr ⟨hd, fun _ ↦ Ne.symm hne⟩) ?_
        exact (Asl.part_key d).trans e.symm
      · rw [if_neg e]
        refine (h.queue_eq_nil_iff.mpr (h.ascending.search_eq_none_iff.mpr ?_)).symm
        intro d' hd' hkey
        refine hgone d' ((h.mem_part d').mpr ⟨hd', ?_⟩) ((Asl.part_key d').trans hkey)
        rintro rfl
        exact absurd hkey.symm e

/-! ## Joining and leaving a queue by its key -/

/-- The descriptors after `p` has joined the queue at `k`. -/
def Asl.join (a : Asl n) (k : Word) (p : Fin n) : Asl n :=
  match peekActiveSemaphore k a, a.semdFree_h with
  | some d, _ => a.setProcQ d (a.procQ d ++ [p])
  | none, d :: rest => a.activate d rest k [p]
  | none, [] => a

/-- The descriptors after `p` has left the queue at `k`. -/
def Asl.leave (a : Asl n) (k : Word) (p : Fin n) : Asl n :=
  match peekActiveSemaphore k a with
  | some d => a.part d p
  | none => a

theorem Asl.join_active (hk : peekActiveSemaphore k a = some d) :
    a.join k p = a.setProcQ d (a.procQ d ++ [p]) := by
  rw [Asl.join, hk]

theorem Asl.join_activate {rest : List (Fin n)} (hk : peekActiveSemaphore k a = none)
    (hf : a.semdFree_h = d :: rest) : a.join k p = a.activate d rest k [p] := by
  rw [Asl.join, hk, hf]

theorem Asl.leave_active (hk : peekActiveSemaphore k a = some d) : a.leave k p = a.part d p := by
  rw [Asl.leave, hk]

theorem Asl.Inv.join (h : a.Inv sem) (hp : sem p = none) (k : Word) :
    (a.join k p).Inv (fun q ↦ if q = p then some k else sem q) ∧ a.Joined k p (a.join k p) := by
  cases hk : peekActiveSemaphore k a with
  | some d =>
      obtain ⟨hd, rfl⟩ := peek_mem hk
      rw [Asl.join_active hk]
      exact ⟨h.append hd hp, h.append_joined hd⟩
  | none =>
      obtain ⟨d, rest, hf⟩ := List.exists_cons_of_ne_nil (h.exists_free hp)
      rw [Asl.join_activate hk hf]
      exact ⟨h.activate hf hk hp, h.activate_joined hf hk hp⟩

theorem Asl.Inv.leave (h : a.Inv sem) (hp : sem p = some k) :
    (a.leave k p).Inv (fun q ↦ if q = p then none else sem q) ∧ a.Parted k p (a.leave k p) := by
  obtain ⟨d, hd, rfl, hmem⟩ := (h.blocked p k).mp hp
  rw [Asl.leave_active (h.peek_key hd)]
  exact ⟨h.part hd hmem, h.part_parted hd hmem⟩

/-! ## The routines -/

/-- `p_semAdd` of every PCB. -/
def Nucleus.semAdd (s : Nucleus n) (p : Fin n) : Option Word := (s.pcbFree_table p).p_semAdd

/-- `p` has joined the queue at `k`. -/
def Nucleus.block (s : Nucleus n) (k : Word) (p : Fin n) : Nucleus n :=
  ({ s with asl := s.asl.join k p }).modifyPcb p fun x ↦ { x with p_semAdd := some k }

/-- `p` has left the queue at `k`. -/
def Nucleus.unblock (s : Nucleus n) (k : Word) (p : Fin n) : Nucleus n :=
  ({ s with asl := s.asl.leave k p }).modifyPcb p fun x ↦ { x with p_semAdd := none }

variable {s : Nucleus n}

theorem Nucleus.block_semAdd (k : Word) (p : Fin n) :
    (s.block k p).semAdd = fun q ↦ if q = p then some k else s.semAdd q := by
  funext q
  simp only [Nucleus.semAdd, Nucleus.block, Nucleus.modifyPcb]
  split <;> rfl

theorem Nucleus.unblock_semAdd (k : Word) (p : Fin n) :
    (s.unblock k p).semAdd = fun q ↦ if q = p then none else s.semAdd q := by
  funext q
  simp only [Nucleus.semAdd, Nucleus.unblock, Nucleus.modifyPcb]
  split <;> rfl

theorem Nucleus.block_asl (h : s.asl.Inv s.semAdd) (hp : s.semAdd p = none) (k : Word) :
    (s.block k p).asl.Inv (s.block k p).semAdd := by
  rw [Nucleus.block_semAdd]
  exact (h.join hp k).1

theorem Nucleus.unblock_asl (h : s.asl.Inv s.semAdd) (hp : s.semAdd p = some k) :
    (s.unblock k p).asl.Inv (s.unblock k p).semAdd := by
  rw [Nucleus.unblock_semAdd]
  exact (h.leave hp).1

/-- `p` is the last of the queue it has joined, and no other queue moves. -/
theorem Nucleus.block_queue (h : s.asl.Inv s.semAdd) (hp : s.semAdd p = none) (k k' : Word) :
    (s.block k p).asl.queue k' =
      if k' = k then s.asl.queue k ++ [p] else s.asl.queue k' := (h.join hp k).2 k'

theorem Nucleus.unblock_queue (h : s.asl.Inv s.semAdd) (hp : s.semAdd p = some k) (k' : Word) :
    (s.unblock k p).asl.queue k' =
      if k' = k then (s.asl.queue k).erase p else s.asl.queue k' := (h.leave hp).2 k'

theorem headBlocked_eq (k : Word) (s : Nucleus n) :
    headBlocked k s = (s.asl.queue k).head? := by
  unfold headBlocked Asl.queue
  cases peekActiveSemaphore k s.asl <;> rfl

/-- A process that waits nowhere joins the queue; a descriptor is always there. -/
theorem insertBlocked_run (h : s.asl.Inv s.semAdd) (hp : s.semAdd p = none) (k : Word) :
    insertBlocked k (some p) s = .ok false (s.block k p) := by
  cases hk : peekActiveSemaphore k s.asl with
  | some d =>
      simp only [insertBlocked, Flow.bind_run, Flow.get_run, hk, deref_some, Flow.modify_run,
        Flow.pure_run, Nucleus.block, Asl.join_active hk]
      rfl
  | none =>
      obtain ⟨d, rest, hf⟩ := List.exists_cons_of_ne_nil (h.exists_free hp)
      have hinit : initSemaphore k s.asl =
          some (d, addActiveSemaphore d
            ({ s.asl with semdFree_h := rest }.setSemd d ⟨k, []⟩)) := by
        simp [initSemaphore, getFreeSemaphore, hf]
      simp only [insertBlocked, Flow.bind_run, Flow.get_run, hk, hinit, Flow.set_run, deref_some,
        Flow.modify_run, Flow.pure_run, enqueueBlocked, Nucleus.block, Asl.join_activate hk hf,
        Asl.activate]
      simp [insertProcQ, addActiveSemaphore, Asl.setSemd]

theorem dequeueBlocked_run {d : Fin n} (hk : peekActiveSemaphore k s.asl = some d) :
    dequeueBlocked d (some p, (s.asl.procQ d).erase p) s = .ok (some p) (s.unblock k p) := by
  simp only [dequeueBlocked, Flow.bind_run, Flow.modify_run, deref_some, Flow.pure_run,
    Nucleus.unblock, Asl.leave_active hk]
  rfl

/-- The first waiter leaves the queue. -/
theorem removeBlocked_run {rest : List (Fin n)} (hq : s.asl.queue k = p :: rest) :
    removeBlocked k s = .ok (some p) (s.unblock k p) := by
  cases hk : peekActiveSemaphore k s.asl with
  | none =>
      rw [Asl.queue, hk] at hq
      cases hq
  | some d =>
      simp only [Asl.queue, hk] at hq
      have hout : removeProcQ (s.asl.semd_table d).s_procq =
          (some p, (s.asl.procQ d).erase p) := by
        change removeProcQ (s.asl.procQ d) = _
        rw [hq, removeProcQ, List.erase_cons_head]
      simp only [removeBlocked, Flow.bind_run, Flow.get_run, hk, hout]
      exact dequeueBlocked_run hk

/-- A blocked process leaves the queue it is in. -/
theorem outBlocked_run (h : s.asl.Inv s.semAdd) (hp : s.semAdd p = some k) :
    outBlocked p s = .ok (some p) (s.unblock k p) := by
  obtain ⟨d, hd, rfl, hmem⟩ := (h.blocked p k).mp hp
  have hout : outProcQ (s.asl.semd_table d).s_procq p = (some p, (s.asl.procQ d).erase p) :=
    if_pos hmem
  have hsem : (s.pcbFree_table p).p_semAdd = some (s.asl.key d) := hp
  simp only [outBlocked, Flow.bind_run, Flow.get_run, hsem, h.peek_key hd, hout]
  exact dequeueBlocked_run (h.peek_key hd)

theorem outBlocked_run_none (hp : s.semAdd p = none) : outBlocked p s = .ok none s := by
  have hsem : (s.pcbFree_table p).p_semAdd = none := hp
  simp only [outBlocked, Flow.bind_run, Flow.get_run, hsem, Flow.pure_run]

/-! ## The first state -/

/-- `initASL` leaves every descriptor in the free list. -/
theorem initASL_eq (a : Asl n) :
    initASL a = { a with semdFree_h := List.finRange n, semd_h := [] } := by
  have hfold : ∀ l : List (Fin n), l.foldr addFreeSemaphore { a with semdFree_h := [], semd_h := [] } =
      { a with semdFree_h := l, semd_h := [] } := by
    intro l
    induction l with
    | nil => rfl
    | cons d l ih => rw [List.foldr_cons, ih]; rfl
  exact hfold _

theorem initASL_inv (hs : ∀ p, sem p = none) : (initASL a).Inv sem := by
  rw [initASL_eq]
  refine ⟨ascending_nil, by simp, fun d ↦ ?_, by simp, fun p k ↦ ?_⟩
  · exact (Nat.zero_add _).trans
      (List.count_eq_one_of_mem (List.nodup_finRange n) (List.mem_finRange d))
  · simp [hs p]

end PandosPlus
