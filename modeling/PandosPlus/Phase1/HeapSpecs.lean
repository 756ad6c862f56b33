import Mathlib.Data.Fintype.Card
import PandosPlus.Lib.Flow
import PandosPlus.Phase1.Heap

/-!
# What the routines do to the links

`Threads` says which PCBs and descriptors the lists lead through, for the sentinels that have
been initialised; and each routine of `Heap` is then a change of these lists.
-/

namespace PandosPlus

open Circular Flow SortedList

variable {n : Nat}

/-- The link field a list is threaded through. -/
def Sentinel.member : Sentinel n → Member
  | .pcbFree_h => .p_list
  | .pid_list_h => .pid_list
  | .readyqueue _ => .p_list
  | .p_child _ => .p_sib
  | .semdFree_h => .s_link
  | .semd_h => .s_link
  | .s_procq _ => .p_list

/-- The lists of the live sentinels, as the links lead through them. -/
def Threads (L : Links (ListHead n)) (live : Sentinel n → Prop)
    (e : Sentinel n → List (Fin n)) : Prop :=
  Rings L live fun h ↦ (e h).map (h.member, ·)

namespace Threads

variable {L : Links (ListHead n)} {live live' : Sentinel n → Prop}
variable {e e' : Sentinel n → List (Fin n)} {h : Sentinel n} {p q : Fin n}
variable {l k k₁ k₂ : List (Fin n)} {m : Member}

theorem member_injective (m : Member) : Function.Injective fun p : Fin n ↦ (m, p) :=
  fun _ _ h ↦ (Prod.mk.inj h).2

theorem update_map (e : Sentinel n → List (Fin n)) (h : Sentinel n) (l : List (Fin n)) :
    (fun h' ↦ (Function.update e h l h').map (h'.member, ·)) =
      Function.update (fun h' ↦ (e h').map (h'.member, ·)) h (l.map (h.member, ·)) := by
  funext h'
  by_cases hh : h' = h
  · subst hh
    rw [Function.update_self, Function.update_self]
  · rw [Function.update_of_ne hh, Function.update_of_ne hh]

/-- In no live list that is threaded through the field. -/
def Loose (live : Sentinel n → Prop) (e : Sentinel n → List (Fin n)) (m : Member) (p : Fin n) :
    Prop := ∀ h, live h → h.member = m → p ∉ e h

theorem Loose.not_mem (hp : Loose live e m p) :
    ∀ h, live h → (m, p) ∉ (e h).map (h.member, ·) := by
  intro h hh hmem
  obtain ⟨q, hq, he⟩ := List.mem_map.mp hmem
  obtain ⟨hm, rfl⟩ := Prod.mk.inj he
  exact hp h hh hm hq

/-- A new list has no elements. -/
theorem Loose.clear (hp : Loose live e m p) :
    Loose (fun h' ↦ h' = h ∨ live h') (Function.update e h []) m p := by
  intro h' hh' hm
  by_cases he : h' = h
  · rw [he, Function.update_self]
    exact List.not_mem_nil
  · rw [Function.update_of_ne he]
    exact hp h' (hh'.resolve_left he) hm

/-- An element of one list is in no other. -/
theorem unique {h' : Sentinel n} (ht : Threads L live e) (hh : live h) (hh' : live h')
    (hm : h'.member = h.member) (hp : p ∈ e h) (hp' : p ∈ e h') : h' = h := by
  refine ht.alone h' h (h.member, p) hh' hh ?_ (List.mem_map_of_mem hp)
  rw [← hm]
  exact List.mem_map_of_mem hp'

theorem nodup (ht : Threads L live e) (hh : live h) : (e h).Nodup :=
  List.Nodup.of_map _ (Rings.nodup ht h hh)

theorem length_le (ht : Threads L live e) (hh : live h) : (e h).length ≤ n := by
  have hlen := List.Nodup.length_le_card (ht.nodup hh)
  rwa [Fintype.card_fin] at hlen

/-- Only the lists of live sentinels matter. -/
theorem mono (ht : Threads L live e) (hl : ∀ h, live' h → live h)
    (he : ∀ h, live' h → e' h = e h) : Threads L live' e' :=
  Rings.mono ht hl fun h hh ↦ by rw [he h hh]

theorem ring (ht : Threads L live e) (hh : live h) :
    Segment L (.head h) ((e h).map (field h.member)) (.head h) := by
  have hring := Rings.ring ht h hh
  rwa [List.map_map] at hring

theorem next_head (ht : Threads L live e) (hh : live h) (he : e h = p :: k) :
    L.next (.head h) = field h.member p :=
  Rings.first ht hh (c := (h.member, p)) (k := k.map (h.member, ·)) (by rw [he, List.map_cons])

theorem prev_head (ht : Threads L live e) (hh : live h) (he : e h = k ++ [p]) :
    L.prev (.head h) = field h.member p :=
  Rings.last ht hh (c := (h.member, p)) (k := k.map (h.member, ·))
    (by rw [he, List.map_append, List.map_singleton])

theorem isEmpty (ht : Threads L live e) (hh : live h) :
    L.next (.head h) = .head h ↔ e h = [] :=
  (Rings.isEmpty ht hh).trans List.map_eq_nil_iff

theorem push (ht : Threads L live e) (hh : live h) (hp : Loose live e h.member p) :
    Threads (L.link (field h.member p) (.head h) (L.next (.head h))) live
      (Function.update e h (p :: e h)) := by
  rw [Threads, update_map, List.map_cons]
  exact Rings.push ht hh hp.not_mem

theorem append (ht : Threads L live e) (hh : live h) (hp : Loose live e h.member p) :
    Threads (L.link (field h.member p) (L.prev (.head h)) (.head h)) live
      (Function.update e h (e h ++ [p])) := by
  rw [Threads, update_map, List.map_append, List.map_singleton]
  exact Rings.append ht hh hp.not_mem

theorem before (ht : Threads L live e) (hh : live h) (he : e h = k₁ ++ q :: k₂)
    (hp : Loose live e h.member p) :
    Threads (L.link (field h.member p) (L.prev (field h.member q)) (field h.member q)) live
      (Function.update e h (k₁ ++ p :: q :: k₂)) := by
  rw [Threads, update_map, List.map_append, List.map_cons, List.map_cons]
  refine Rings.before ht hh ?_ hp.not_mem
  rw [he, List.map_append, List.map_cons]

theorem after (ht : Threads L live e) (hh : live h) (he : e h = k₁ ++ q :: k₂)
    (hp : Loose live e h.member p) :
    Threads (L.link (field h.member p) (field h.member q) (L.next (field h.member q))) live
      (Function.update e h (k₁ ++ q :: p :: k₂)) := by
  rw [Threads, update_map, List.map_append, List.map_cons, List.map_cons]
  refine Rings.after ht hh ?_ hp.not_mem
  rw [he, List.map_append, List.map_cons]

theorem unlink (ht : Threads L live e) (hh : live h) (hp : p ∈ e h) :
    Threads (L.unlink (field h.member p)) live (Function.update e h ((e h).erase p)) := by
  obtain ⟨k₁, k₂, he⟩ := List.append_of_mem hp
  have hp₁ : p ∉ k₁ := by
    have hnodup := ht.nodup hh
    rw [he] at hnodup
    exact fun hmem ↦ (List.nodup_append.mp hnodup).2.2 p hmem p List.mem_cons_self rfl
  have herase : (e h).erase p = k₁ ++ k₂ := by
    rw [he, List.erase_append_right _ hp₁, List.erase_cons_head]
  rw [Threads, update_map, herase, List.map_append]
  refine Rings.unlink ht hh ?_
  rw [he, List.map_append, List.map_cons]

/-- A new list. -/
theorem close (ht : Threads L live e) (h : Sentinel n) :
    Threads (L.close (.head h)) (fun h' ↦ h' = h ∨ live h') (Function.update e h []) := by
  rw [Threads, update_map]
  exact Rings.close ht h

/-- A link field that is in no list is initialised. -/
theorem close_field (ht : Threads L live e) (hp : Loose live e m p) :
    Threads (L.close (field m p)) live e := Rings.close_elem ht hp.not_mem

/-- Whatever is taken out of a list is in no list. -/
theorem loose_erase (ht : Threads L live e) (hh : live h) (hp : p ∈ e h) :
    Loose live (Function.update e h ((e h).erase p)) h.member p := by
  intro h' hh' hm
  by_cases he : h' = h
  · subst he
    rw [Function.update_self]
    exact (ht.nodup hh).not_mem_erase
  · rw [Function.update_of_ne he]
    exact fun hp' ↦ he (ht.unique hh hh' hm hp hp')

/-- The sentinels of a memory. -/
def sentinels (n : Nat) : List (Sentinel n) :=
  [.pcbFree_h, .pid_list_h, .readyqueue .low, .readyqueue .high, .semdFree_h, .semd_h] ++
    (List.finRange n).map .p_child ++ (List.finRange n).map .s_procq

theorem mem_sentinels (h : Sentinel n) : h ∈ sentinels n := by
  unfold sentinels
  cases h with
  | p_child p => simp
  | s_procq sem => simp
  | readyqueue prio => cases prio <;> simp
  | _ => simp

/-- Lists of which no two lead through the same link field can be laid out in memory. -/
theorem exists_threads (hnodup : ∀ h, live h → (e h).Nodup)
    (halone : ∀ h h' p, live h → live h' → h.member = h'.member → p ∈ e h → p ∈ e h' → h = h') :
    ∃ L : Links (ListHead n), Threads L live e := by
  classical
  have hlive : ∀ {h}, h ∈ (sentinels n).filter (fun h ↦ live h) ↔ live h := fun {h} ↦ by
    rw [List.mem_filter, decide_eq_true_iff]
    exact and_iff_right (mem_sentinels h)
  obtain ⟨L, hr⟩ : ∃ L : Links (ListHead n), Rings L
      (· ∈ (sentinels n).filter fun h ↦ live h) fun h ↦ (e h).map (h.member, ·) := by
    refine exists_rings (fun h hh ↦ (hnodup h (hlive.mp hh)).map (member_injective _)) ?_
    intro h h' a hh hh' ha ha'
    obtain ⟨p, hp, rfl⟩ := List.mem_map.mp ha
    obtain ⟨p', hp', he⟩ := List.mem_map.mp ha'
    obtain ⟨hm, rfl⟩ := Prod.mk.inj he
    exact halone h h' p' (hlive.mp hh) (hlive.mp hh') hm.symm hp hp'
  exact ⟨L, Rings.mono hr (fun h hh ↦ hlive.mpr hh) fun _ _ ↦ rfl⟩

end Threads

namespace Heap

open Threads

variable {H : Heap n} {live : Sentinel n → Prop} {e : Sentinel n → List (Fin n)}
variable {h : Sentinel n} {p q : Fin n} {k k₁ k₂ : List (Fin n)} {m : Member} {α : Type}

/-! ## `listx.h` -/

@[simp] theorem follow_some (a : α) : (follow (some a) : HeapM n α) H = .ok a H := rfl

@[simp] theorem containerOf_field (m : Member) (p : Fin n) :
    containerOf m (field m p) H = .ok p H := by
  rw [containerOf, if_pos rfl]
  rfl

theorem listEmpty_iff (ht : Threads H.links live e) (hh : live h) :
    H.listEmpty (.head h) = true ↔ e h = [] := by
  rw [listEmpty, decide_eq_true_iff, ht.isEmpty hh]

/-- A loop comes back to its sentinel when its body passes over every entry. -/
theorem forEachEntry_none (turn : Links (ListHead n) → Links (ListHead n)) {o : ListHead n}
    {body : Fin n → HeapM n (Option α)} {fuel : Nat}
    (hs : Segment (turn H.links) o (k.map (field m)) (.head h)) (hfuel : k.length < fuel)
    (hpass : ∀ p ∈ k, body p H = .ok none H) :
    forEachEntry turn m (.head h) body fuel ((turn H.links).next o) H = .ok none H := by
  induction k generalizing o fuel with
  | nil =>
      obtain ⟨fuel, rfl⟩ := Nat.exists_eq_succ_of_ne_zero (Nat.ne_of_gt hfuel)
      rw [hs.1, forEachEntry, if_pos rfl]
      rfl
  | cons p k ih =>
      obtain ⟨fuel, rfl⟩ := Nat.exists_eq_succ_of_ne_zero (Nat.ne_of_gt (Nat.zero_lt_of_lt hfuel))
      rw [hs.1, forEachEntry, if_neg (by rintro ⟨⟩), bind_run, containerOf_field]
      simp only [bind_run, hpass p List.mem_cons_self]
      exact ih hs.2.2 (Nat.lt_of_succ_lt_succ hfuel) fun q hq ↦ hpass q (List.mem_cons_of_mem _ hq)

/-- A loop is left at the first entry its body does not pass over. -/
theorem forEachEntry_some (turn : Links (ListHead n) → Links (ListHead n)) {o y : ListHead n}
    {body : Fin n → HeapM n (Option α)} {fuel : Nat} {a : α} {H' : Heap n}
    (hs : Segment (turn H.links) o ((k₁ ++ p :: k₂).map (field m)) y) (hfuel : k₁.length < fuel)
    (hpass : ∀ q ∈ k₁, body q H = .ok none H) (hstop : body p H = .ok (some a) H') :
    forEachEntry turn m (.head h) body fuel ((turn H.links).next o) H = .ok (some a) H' := by
  induction k₁ generalizing o fuel with
  | nil =>
      obtain ⟨fuel, rfl⟩ := Nat.exists_eq_succ_of_ne_zero (Nat.ne_of_gt hfuel)
      rw [hs.1, forEachEntry, if_neg (by rintro ⟨⟩), bind_run, containerOf_field]
      simp only [bind_run, hstop]
      rfl
  | cons q k₁ ih =>
      obtain ⟨fuel, rfl⟩ := Nat.exists_eq_succ_of_ne_zero (Nat.ne_of_gt (Nat.zero_lt_of_lt hfuel))
      rw [hs.1, forEachEntry, if_neg (by rintro ⟨⟩), bind_run, containerOf_field]
      simp only [bind_run, hpass q List.mem_cons_self]
      exact ih hs.2.2 (Nat.lt_of_succ_lt_succ hfuel) fun q hq ↦ hpass q (List.mem_cons_of_mem _ hq)

theorem listForEachEntry_none {body : Fin n → HeapM n (Option α)}
    (ht : Threads H.links live e) (hh : live h) (hpass : ∀ p ∈ e h, body p H = .ok none H) :
    listForEachEntry h.member (.head h) body H = .ok none H :=
  forEachEntry_none id (ht.ring hh) (Nat.lt_succ_of_le (ht.length_le hh)) hpass

theorem listForEachEntry_some {body : Fin n → HeapM n (Option α)} {a : α} {H' : Heap n}
    (ht : Threads H.links live e) (hh : live h) (he : e h = k₁ ++ p :: k₂)
    (hpass : ∀ q ∈ k₁, body q H = .ok none H) (hstop : body p H = .ok (some a) H') :
    listForEachEntry h.member (.head h) body H = .ok (some a) H' := by
  have hlen := ht.length_le hh
  rw [he, List.length_append] at hlen
  exact forEachEntry_some id (he ▸ ht.ring hh)
    (Nat.lt_succ_of_le ((Nat.le_add_right ..).trans hlen)) hpass hstop

theorem listForEachEntryReverse_none {body : Fin n → HeapM n (Option α)}
    (ht : Threads H.links live e) (hh : live h) (hpass : ∀ p ∈ e h, body p H = .ok none H) :
    listForEachEntryReverse h.member (.head h) body H = .ok none H := by
  have hring := (ht.ring hh).flip
  rw [← List.map_reverse] at hring
  refine forEachEntry_none Links.flip hring ?_ fun p hp ↦ hpass p (List.mem_reverse.mp hp)
  rw [List.length_reverse]
  exact Nat.lt_succ_of_le (ht.length_le hh)

theorem listForEachEntryReverse_some {body : Fin n → HeapM n (Option α)} {a : α} {H' : Heap n}
    (ht : Threads H.links live e) (hh : live h) (he : e h = k₁ ++ p :: k₂)
    (hpass : ∀ q ∈ k₂, body q H = .ok none H) (hstop : body p H = .ok (some a) H') :
    listForEachEntryReverse h.member (.head h) body H = .ok (some a) H' := by
  have hring := (ht.ring hh).flip
  have hlen := ht.length_le hh
  rw [he, List.length_append, List.length_cons] at hlen
  rw [← List.map_reverse, he, List.reverse_append, List.reverse_cons, List.append_assoc,
    List.singleton_append] at hring
  refine forEachEntry_some Links.flip hring ?_
    (fun q hq ↦ hpass q (List.mem_reverse.mp hq)) hstop
  rw [List.length_reverse]
  omega

/-- What the first `true` of a list splits it into. -/
theorem find_split {f : Fin n → Bool} (hf : k.find? f = some p) :
    f p = true ∧ ∃ k₁ k₂, k = k₁ ++ p :: k₂ ∧ ∀ q ∈ k₁, f q = false := by
  obtain ⟨hp, k₁, k₂, hk, hall⟩ := List.find?_eq_some_iff_append.mp hf
  exact ⟨hp, k₁, k₂, hk, fun q hq ↦ by simpa using hall q hq⟩

/-- The loop that looks for a key gives up at the first larger one. -/
theorem search_run (key : Heap n → Fin n → Word) (k : Word)
    (ht : Threads H.links live e) (hh : live h) :
    (do
      let found ← listForEachEntry h.member (.head h) fun iter ↦ do
        let H ← get
        if key H iter = k then return some (some iter)
        else if k < key H iter then return some none
        else return none
      return found.join : HeapM n (Option (Fin n))) H = .ok (search (key H) k (e h)) H := by
  have hpass : ∀ p, ¬ k ≤ key H p → (do
      let H ← get
      if key H p = k then return some (some p)
      else if k < key H p then return some none
      else return none : HeapM n (Option (Option (Fin n)))) H = .ok none H := by
    intro p hp
    have hlt := not_le.mp hp
    simp only [bind_run, get_run, ite_run, if_neg hlt.ne, if_neg (not_lt_of_gt hlt)]
    rfl
  rw [search_eq_find?]
  cases hf : (e h).find? fun p ↦ decide (k ≤ key H p) with
  | none =>
      have hall := List.find?_eq_none.mp hf
      rw [bind_run, listForEachEntry_none ht hh fun p hp ↦ hpass p (by simpa using hall p hp)]
      rfl
  | some p =>
      obtain ⟨hp, k₁, k₂, hk, hall⟩ := find_split hf
      have hle : k ≤ key H p := of_decide_eq_true hp
      by_cases he : key H p = k
      · rw [bind_run, listForEachEntry_some ht hh hk
          (fun q hq ↦ hpass q (of_decide_eq_false (hall q hq)))
          (by simp only [bind_run, get_run, ite_run, if_pos he]; rfl)]
        simp only [if_pos he]
        rfl
      · have hlt := lt_of_le_of_ne hle (Ne.symm he)
        rw [bind_run, listForEachEntry_some ht hh hk
          (fun q hq ↦ hpass q (of_decide_eq_false (hall q hq)))
          (by simp only [bind_run, get_run, ite_run, if_neg he, if_pos hlt]; rfl)]
        simp only [if_neg he]
        rfl

/-! ## What the lists in memory stand for -/

end Heap

/-- The entries of every list. -/
def Nucleus.entries (s : Nucleus n) : Sentinel n → List (Fin n)
  | .pcbFree_h => s.pcbFree_h
  | .pid_list_h => s.pid_list_h
  | .readyqueue prio => s.readyQueue prio
  | .p_child p => (s.pcbFree_table p).p_child
  | .semdFree_h => s.asl.semdFree_h
  | .semd_h => s.asl.semd_h
  | .s_procq sem => (s.asl.semd_table sem).s_procq

/-- Another list in the place of one. -/
def Nucleus.setEntries (s : Nucleus n) (l : List (Fin n)) : Sentinel n → Nucleus n
  | .pcbFree_h => { s with pcbFree_h := l }
  | .pid_list_h => { s with pid_list_h := l }
  | .readyqueue prio => s.setReadyQueue l prio
  | .p_child p => s.modifyPcb p fun x ↦ { x with p_child := l }
  | .semdFree_h => { s with asl := { s.asl with semdFree_h := l } }
  | .semd_h => { s with asl := { s.asl with semd_h := l } }
  | .s_procq sem => { s with asl := s.asl.setProcQ sem l }

/-- A PCB without its list of children. -/
def Pcb.fields (x : Pcb n) : PcbFields n :=
  ⟨x.p_parent, x.p_s, x.p_time, x.p_semAdd, x.p_supportStruct, x.p_prio, x.p_pid⟩

section SetEntries

open Threads

variable {s : Nucleus n} {h : Sentinel n} {l : List (Fin n)} {p : Fin n}

theorem entries_setEntries : (s.setEntries l h).entries = Function.update s.entries h l := by
  funext h'
  by_cases hh : h' = h
  · subst hh
    rw [Function.update_self]
    cases h' with
    | readyqueue prio => exact s.readyQueue_setReadyQueue l prio
    | p_child p => simp only [Nucleus.entries, Nucleus.setEntries, Nucleus.modifyPcb, if_true]
    | s_procq sem =>
        simp only [Nucleus.entries, Nucleus.setEntries, Asl.setProcQ, Asl.setSemd, if_true]
    | _ => rfl
  · rw [Function.update_of_ne hh]
    cases h with
    | readyqueue prio =>
        cases h' with
        | readyqueue prio' =>
            refine s.readyQueue_setReadyQueue_ne l fun he ↦ hh ?_
            rw [he]
        | _ => cases prio <;> rfl
    | p_child p =>
        cases h' with
        | p_child q =>
            have hq : q ≠ p := fun he ↦ hh (by rw [he])
            simp only [Nucleus.entries, Nucleus.setEntries, Nucleus.modifyPcb, if_neg hq]
        | readyqueue prio => cases prio <;> rfl
        | _ => rfl
    | s_procq sem =>
        cases h' with
        | s_procq d =>
            have hd : d ≠ sem := fun he ↦ hh (by rw [he])
            simp only [Nucleus.entries, Nucleus.setEntries, Asl.setProcQ, Asl.setSemd, if_neg hd]
        | readyqueue prio => cases prio <;> rfl
        | _ => rfl
    | _ =>
        cases h' with
        | readyqueue prio => cases prio <;> rfl
        | _ => first | rfl | exact absurd rfl hh

theorem setEntries_fields :
    ((s.setEntries l h).pcbFree_table p).fields = (s.pcbFree_table p).fields := by
  cases h with
  | readyqueue prio => rw [Nucleus.setEntries, Nucleus.setReadyQueue_table]
  | p_child q =>
      exact Nucleus.modifyPcb_field (f := fun x ↦ { x with p_child := l }) Pcb.fields
        (fun _ ↦ rfl) s q p
  | _ => rfl

theorem setEntries_key :
    ((s.setEntries l h).asl.semd_table p).s_key = (s.asl.semd_table p).s_key := by
  cases h with
  | readyqueue prio => rw [Nucleus.setEntries, Nucleus.setReadyQueue_asl]
  | s_procq sem =>
      simp only [Nucleus.setEntries, Asl.setProcQ, Asl.setSemd]
      split
      · rename_i hd
        rw [hd]
      · rfl
  | _ => rfl

/-- `curr_pid` and the two counters. -/
def Nucleus.counters (s : Nucleus n) : Word × Word × Word :=
  (s.curr_pid, s.process_count, s.softblocked_count)

theorem setEntries_counters : (s.setEntries l h).counters = s.counters := by
  cases h with
  | readyqueue prio => cases prio <;> rfl
  | _ => rfl

theorem entries_modifyPcb {f : Pcb n → Pcb n} (hf : ∀ x, (f x).p_child = x.p_child) :
    (s.modifyPcb p f).entries = s.entries := by
  funext h
  cases h with
  | p_child q => exact Nucleus.modifyPcb_field Pcb.p_child hf s p q
  | readyqueue prio => cases prio <;> rfl
  | _ => rfl

variable {live : Sentinel n → Prop}

theorem loose_pids (hp : p ∉ s.pid_list_h) : Loose live s.entries .pid_list p := by
  intro h _ hm
  cases h with
  | pid_list_h => exact hp
  | _ => cases hm

theorem loose_sib (hp : ∀ q, live (.p_child q) → p ∉ (s.pcbFree_table q).p_child) :
    Loose live s.entries .p_sib p := by
  intro h hh hm
  cases h with
  | p_child q => exact hp q hh
  | _ => cases hm

theorem loose_link (hfree : p ∉ s.asl.semdFree_h) (hactive : p ∉ s.asl.semd_h) :
    Loose live s.entries .s_link p := by
  intro h _ hm
  cases h with
  | semdFree_h => exact hfree
  | semd_h => exact hactive
  | _ => cases hm

theorem loose_list (hfree : p ∉ s.pcbFree_h) (hready : ∀ prio, p ∉ s.readyQueue prio)
    (hblocked : ∀ sem, live (.s_procq sem) → p ∉ (s.asl.semd_table sem).s_procq) :
    Loose live s.entries .p_list p := by
  intro h hh hm
  cases h with
  | pcbFree_h => exact hfree
  | readyqueue prio => exact hready prio
  | s_procq sem => exact hblocked sem hh
  | _ => cases hm

end SetEntries

namespace Heap

/-- The lists in memory are those of the nucleus, and so is the rest of the data. -/
structure Models (live : Sentinel n → Prop) (H : Heap n) (s : Nucleus n) : Prop where
  threads : Threads H.links live s.entries
  pcb : ∀ p, H.pcbFree_table p = (s.pcbFree_table p).fields
  key : ∀ d, H.s_key d = (s.asl.semd_table d).s_key
  counters : (H.curr_pid, H.process_count, H.softblocked_count) = s.counters

namespace Models

open Threads

variable {live live' : Sentinel n → Prop} {H : Heap n} {s : Nucleus n} {h : Sentinel n}
variable {l k k₁ k₂ : List (Fin n)} {p q : Fin n} {L : Links (ListHead n)} {m : Member}

/-! ## Changes of one list -/

theorem setEntries (hm : Models live H s)
    (ht : Threads L live' (Function.update s.entries h l)) :
    Models live' { H with links := L } (s.setEntries l h) where
  threads := by rwa [entries_setEntries]
  pcb p := (hm.pcb p).trans setEntries_fields.symm
  key d := (hm.key d).trans setEntries_key.symm
  counters := hm.counters.trans setEntries_counters.symm

/-- `list_add` -/
theorem listAdd (hm : Models live H s) (hh : live h) (hp : Loose live s.entries h.member p) :
    Models live (H.listAdd (field h.member p) (.head h)) (s.setEntries (p :: s.entries h) h) :=
  hm.setEntries (hm.threads.push hh hp)

/-- `list_add_tail` -/
theorem listAddTail (hm : Models live H s) (hh : live h) (hp : Loose live s.entries h.member p) :
    Models live (H.listAddTail (field h.member p) (.head h))
      (s.setEntries (s.entries h ++ [p]) h) :=
  hm.setEntries (hm.threads.append hh hp)

/-- `list_del` -/
theorem listDel (hm : Models live H s) (hh : live h) (hp : p ∈ s.entries h) :
    Models live (H.listDel (field h.member p)) (s.setEntries ((s.entries h).erase p) h) :=
  hm.setEntries (hm.threads.unlink hh hp)

/-- `INIT_LIST_HEAD` of a sentinel -/
theorem initListHead (hm : Models live H s) (h : Sentinel n) :
    Models (fun h' ↦ h' = h ∨ live h') (H.initListHead (.head h)) (s.setEntries [] h) :=
  hm.setEntries (hm.threads.close h)

/-- `INIT_LIST_HEAD` of a link field -/
theorem initField (hm : Models live H s) (hp : Loose live s.entries m p) :
    Models live (H.initListHead (field m p)) s :=
  { hm with threads := hm.threads.close_field hp }

/-- Only the lists of live sentinels matter. -/
theorem mono (hm : Models live H s) (hl : ∀ h, live' h → live h) : Models live' H s :=
  { hm with threads := hm.threads.mono hl fun _ _ ↦ rfl }

/-- Another nucleus with the same lists and the same data. -/
theorem congr {t : Nucleus n} (hm : Models live H s)
    (hentries : ∀ h, live h → t.entries h = s.entries h)
    (hfields : ∀ p, (t.pcbFree_table p).fields = (s.pcbFree_table p).fields)
    (hkey : ∀ d, (t.asl.semd_table d).s_key = (s.asl.semd_table d).s_key)
    (hcounters : t.counters = s.counters) : Models live H t where
  threads := hm.threads.mono (fun _ hh ↦ hh) hentries
  pcb p := (hm.pcb p).trans (hfields p).symm
  key d := (hm.key d).trans (hkey d).symm
  counters := hm.counters.trans hcounters.symm

/-- `p->field = ...` -/
theorem modifyPcb (hm : Models live H s) {f : PcbFields n → PcbFields n} {g : Pcb n → Pcb n}
    (hfields : ∀ x, (g x).fields = f x.fields) (hchild : ∀ x, (g x).p_child = x.p_child) :
    Models live (H.modifyPcb p f) (s.modifyPcb p g) where
  threads := by
    rw [entries_modifyPcb hchild]
    exact hm.threads
  pcb q := by
    simp only [Heap.modifyPcb, Nucleus.modifyPcb]
    split
    · rw [hfields, hm.pcb]
    · exact hm.pcb q
  key := hm.key
  counters := hm.counters

end Models

end Heap

end PandosPlus
