import Mathlib.Data.List.Nodup
import Mathlib.Logic.Function.Basic
import Mathlib.Tactic.Common

/-!
# Circular lists

Doubly linked lists closed to rings, each with a node of its own that is no element: the head.
The elements carry their links themselves, so that an element is in one ring at most, and is
linked and unlinked without looking for its ring.  `Rings` says which elements the rings hold,
in their order from the head on.
-/

namespace Circular

universe u v w

variable {ν : Type u} {η : Type v} {α : Type w}

/-- The two links of each node. -/
structure Links (ν : Type u) where
  next : ν → ν
  prev : ν → ν

/-- The other way round. -/
def Links.flip (L : Links ν) : Links ν := ⟨L.prev, L.next⟩

/-- A node of a ring. -/
inductive Node (η : Type v) (α : Type w) where
  | head (h : η)
  | elem (a : α)
deriving DecidableEq

variable {L L' : Links ν} {x y z a b : ν} {l l₁ l₂ : List ν}

/-! ## Segments -/

/-- The links lead from `x` through the list to `y`, and back. -/
def Segment (L : Links ν) : ν → List ν → ν → Prop
  | x, [], y => L.next x = y ∧ L.prev y = x
  | x, a :: l, y => L.next x = a ∧ L.prev a = x ∧ Segment L a l y

/-- Links outside the segment do not matter. -/
theorem Segment.congr (h : Segment L x l y) (hnext : ∀ z ∈ x :: l, L'.next z = L.next z)
    (hprev : ∀ z ∈ y :: l, L'.prev z = L.prev z) : Segment L' x l y := by
  induction l generalizing x with
  | nil =>
      exact ⟨(hnext x List.mem_cons_self).trans h.1, (hprev y List.mem_cons_self).trans h.2⟩
  | cons a l ih =>
      obtain ⟨h₁, h₂, h₃⟩ := h
      refine ⟨(hnext x List.mem_cons_self).trans h₁, (hprev a ?_).trans h₂, ih h₃ ?_ ?_⟩
      · exact List.mem_cons_of_mem _ List.mem_cons_self
      · exact fun z hz ↦ hnext z (List.mem_cons_of_mem _ hz)
      · intro z hz
        rcases List.mem_cons.mp hz with rfl | hz
        · exact hprev z List.mem_cons_self
        · exact hprev z (List.mem_cons_of_mem _ (List.mem_cons_of_mem _ hz))

/-- The first node after `x`. -/
theorem Segment.next_eq (h : Segment L x l y) : L.next x = l.headD y := by
  cases l with
  | nil => exact h.1
  | cons a l => exact h.1

/-- The last node before `y`. -/
theorem Segment.prev_eq (h : Segment L x l y) : L.prev y = l.getLastD x := by
  induction l generalizing x with
  | nil => exact h.2
  | cons a l ih => exact (ih h.2.2).trans (List.getLastD_cons ..).symm

/-- The two parts of a segment. -/
theorem Segment.split (h : Segment L x (l₁ ++ a :: l₂) y) :
    Segment L x l₁ a ∧ Segment L a l₂ y := by
  induction l₁ generalizing x with
  | nil => exact ⟨⟨h.1, h.2.1⟩, h.2.2⟩
  | cons b l₁ ih =>
      obtain ⟨h₁, h₂, h₃⟩ := h
      exact ⟨⟨h₁, h₂, (ih h₃).1⟩, (ih h₃).2⟩

theorem Segment.join (h : Segment L x l₁ a) (h' : Segment L a l₂ y) :
    Segment L x (l₁ ++ a :: l₂) y := by
  induction l₁ generalizing x with
  | nil => exact ⟨h.1, h.2, h'⟩
  | cons b l₁ ih => exact ⟨h.1, h.2.1, ih h.2.2⟩

/-- Back along a segment. -/
theorem Segment.flip (h : Segment L x l y) : Segment L.flip y l.reverse x := by
  induction l generalizing x with
  | nil => exact ⟨h.2, h.1⟩
  | cons a l ih =>
      rw [List.reverse_cons]
      exact (ih h.2.2).join ⟨h.2.1, h.1⟩

/-! ## Linking and unlinking -/

section Update

variable [DecidableEq ν]

/-- A node is closed to a ring of its own. -/
def Links.close (L : Links ν) (x : ν) : Links ν where
  next := Function.update L.next x x
  prev := Function.update L.prev x x

/-- A node is linked between two others. -/
def Links.link (L : Links ν) (a p n : ν) : Links ν where
  next := Function.update (Function.update L.next a n) p a
  prev := Function.update (Function.update L.prev n a) a p

/-- A node is unlinked, and keeps its own links. -/
def Links.unlink (L : Links ν) (a : ν) : Links ν where
  next := Function.update L.next (L.prev a) (L.next a)
  prev := Function.update L.prev (L.next a) (L.prev a)

theorem link_next_ne {p n : ν} (ha : z ≠ a) (hp : z ≠ p) : (L.link a p n).next z = L.next z :=
  (Function.update_of_ne hp ..).trans (Function.update_of_ne ha ..)

theorem link_prev_ne {p n : ν} (ha : z ≠ a) (hn : z ≠ n) : (L.link a p n).prev z = L.prev z :=
  (Function.update_of_ne ha ..).trans (Function.update_of_ne hn ..)

omit [DecidableEq ν] in
theorem mem_headD (l : List ν) (y : ν) : l.headD y ∈ y :: l := by
  cases l with
  | nil => exact List.mem_cons_self
  | cons a l => exact List.mem_cons_of_mem _ List.mem_cons_self

omit [DecidableEq ν] in
theorem mem_getLastD (l : List ν) (x : ν) : l.getLastD x ∈ x :: l := by
  induction l generalizing x with
  | nil => exact List.mem_cons_self
  | cons a l ih =>
      rw [List.getLastD_cons]
      exact List.mem_cons_of_mem _ (ih a)

/-- A node is linked into a segment. -/
theorem Segment.link (h : Segment L x (l₁ ++ l₂) y) (hnodup : (l₁ ++ l₂).Nodup)
    (hx : x ∉ l₁ ++ l₂) (hy : y ∉ l₁ ++ l₂) (ha : a ∉ l₁ ++ l₂) (hax : a ≠ x) (hay : a ≠ y) :
    Segment (L.link a (l₁.getLastD x) (l₂.headD y)) x (l₁ ++ a :: l₂) y := by
  have hne : ∀ {z : ν} {l : List ν}, z ∈ l → a ∉ l → z ≠ a := by
    rintro z l hz hl rfl
    exact hl hz
  induction l₁ generalizing x with
  | nil =>
      have hself : (L.link a x (l₂.headD y)).next a = l₂.headD y :=
        (Function.update_of_ne hax ..).trans (Function.update_self ..)
      refine ⟨Function.update_self .., Function.update_self .., ?_⟩
      cases l₂ with
      | nil =>
          exact ⟨hself, (Function.update_of_ne (Ne.symm hay) ..).trans (Function.update_self ..)⟩
      | cons c l₂ =>
          obtain ⟨hc, hnodup⟩ := List.nodup_cons.mp hnodup
          refine ⟨hself, ?_, h.2.2.congr (fun z hz ↦ ?_) fun z hz ↦ ?_⟩
          · exact (Function.update_of_ne (hne List.mem_cons_self ha) ..).trans
              (Function.update_self ..)
          · refine link_next_ne (hne hz ha) ?_
            rintro rfl
            exact hx hz
          · rcases List.mem_cons.mp hz with rfl | hz
            · refine link_prev_ne (Ne.symm hay) ?_
              rintro rfl
              exact hy List.mem_cons_self
            · refine link_prev_ne (hne (List.mem_cons_of_mem _ hz) ha) ?_
              rintro rfl
              exact hc hz
  | cons b l₁ ih =>
      obtain ⟨h₁, h₂, h₃⟩ := h
      obtain ⟨hb, hnodup⟩ := List.nodup_cons.mp hnodup
      obtain ⟨hab, ha'⟩ := List.ne_and_not_mem_of_not_mem_cons ha
      obtain ⟨hyb, hy'⟩ := List.ne_and_not_mem_of_not_mem_cons hy
      rw [List.getLastD_cons]
      refine ⟨?_, ?_, ih h₃ hnodup hb hy' ha' hab⟩
      · refine (link_next_ne (Ne.symm hax) ?_).trans h₁
        rintro rfl
        exact hx (List.mem_append_left l₂ (mem_getLastD l₁ b))
      · refine (link_prev_ne (Ne.symm hab) ?_).trans h₂
        rintro he
        rcases List.mem_cons.mp (he ▸ mem_headD l₂ y) with he | hmem
        · exact hyb he.symm
        · exact hb (List.mem_append_right _ hmem)

theorem unlink_next_ne (hz : z ≠ L.prev a) : (L.unlink a).next z = L.next z :=
  Function.update_of_ne hz ..

theorem unlink_prev_ne (hz : z ≠ L.next a) : (L.unlink a).prev z = L.prev z :=
  Function.update_of_ne hz ..

/-- A node is unlinked from a segment. -/
theorem Segment.unlink (h : Segment L x (l₁ ++ a :: l₂) y) (hnodup : (l₁ ++ a :: l₂).Nodup)
    (hx : x ∉ l₁ ++ a :: l₂) (hy : y ∉ l₁ ++ a :: l₂) :
    Segment (L.unlink a) x (l₁ ++ l₂) y := by
  have hprev : L.prev a = l₁.getLastD x := h.split.1.prev_eq
  have hnext : L.next a = l₂.headD y := h.split.2.next_eq
  induction l₁ generalizing x with
  | nil =>
      obtain ⟨ha, hnodup⟩ := List.nodup_cons.mp hnodup
      have hself : (L.unlink a).next x = L.next a := by
        rw [Links.unlink, hprev]
        exact Function.update_self ..
      have hself' : (L.unlink a).prev (L.next a) = x := by
        rw [Links.unlink, hprev]
        exact Function.update_self ..
      cases l₂ with
      | nil =>
          rw [hnext] at hself hself'
          exact ⟨hself, hself'⟩
      | cons c l₂ =>
          rw [hnext] at hself hself'
          obtain ⟨hc, hnodup⟩ := List.nodup_cons.mp hnodup
          refine ⟨hself, hself', h.2.2.2.2.congr (fun z hz ↦ ?_) fun z hz ↦ ?_⟩
          · refine unlink_next_ne ?_
            rw [hprev]
            rintro rfl
            exact hx (List.mem_cons_of_mem _ hz)
          · refine unlink_prev_ne ?_
            rw [hnext]
            rintro rfl
            rcases List.mem_cons.mp hz with he | hz
            · exact hy (he ▸ List.mem_cons_of_mem _ List.mem_cons_self)
            · exact hc hz
  | cons b l₁ ih =>
      obtain ⟨h₁, h₂, h₃⟩ := h
      obtain ⟨hb, hnodup⟩ := List.nodup_cons.mp hnodup
      obtain ⟨hyb, hy'⟩ := List.ne_and_not_mem_of_not_mem_cons hy
      rw [List.getLastD_cons] at hprev
      refine ⟨?_, ?_, ih h₃ hnodup hb hy' hprev⟩
      · refine (unlink_next_ne ?_).trans h₁
        rw [hprev]
        rintro rfl
        exact hx (List.mem_append_left _ (mem_getLastD l₁ b))
      · refine (unlink_prev_ne ?_).trans h₂
        rw [hnext]
        rintro he
        rcases List.mem_cons.mp (he ▸ mem_headD l₂ y) with he | hmem
        · exact hyb he.symm
        · exact hb (List.mem_append_right _ (List.mem_cons_of_mem _ hmem))

end Update

/-! ## Rings -/

/-- The known heads have rings with these elements, and no element twice. -/
structure Rings (L : Links (Node η α)) (known : η → Prop) (q : η → List α) : Prop where
  nodup : ∀ h, known h → (q h).Nodup
  alone : ∀ h h' a, known h → known h' → a ∈ q h → a ∈ q h' → h = h'
  ring : ∀ h, known h → Segment L (.head h) ((q h).map .elem) (.head h)

section Rings

variable {M : Links (Node η α)} {known : η → Prop} {q : η → List α} {h h' : η} {c d : α}
variable {k k₁ k₂ : List α}

theorem Rings.next_head (hr : Rings M known q) (hk : known h) :
    M.next (.head h) = ((q h).map Node.elem).headD (.head h) := (hr.ring h hk).next_eq

theorem Rings.prev_head (hr : Rings M known q) (hk : known h) :
    M.prev (.head h) = ((q h).map Node.elem).getLastD (.head h) := (hr.ring h hk).prev_eq

/-- A ring is empty when its head is linked to itself. -/
theorem Rings.isEmpty (hr : Rings M known q) (hk : known h) :
    M.next (.head h) = .head h ↔ q h = [] := by
  rw [hr.next_head hk]
  cases q h with
  | nil => exact iff_of_true rfl rfl
  | cons c k => exact iff_of_false (by rintro ⟨⟩) (by rintro ⟨⟩)

theorem Rings.first (hr : Rings M known q) (hk : known h) (hq : q h = c :: k) :
    M.next (.head h) = .elem c := by
  rw [hr.next_head hk, hq]
  rfl

theorem Rings.last (hr : Rings M known q) (hk : known h) (hq : q h = k ++ [c]) :
    M.prev (.head h) = .elem c := by
  rw [hr.prev_head hk, hq, List.map_append, List.getLastD_eq_getLast?, List.map_singleton,
    List.getLast?_concat]
  rfl

/-- Fewer heads, with the same elements. -/
theorem Rings.mono {known' : η → Prop} {q' : η → List α} (hr : Rings M known q)
    (hk : ∀ h, known' h → known h) (hq : ∀ h, known' h → q' h = q h) : Rings M known' q' := by
  refine ⟨fun h hh ↦ ?_, fun h h' a hh hh' ha ha' ↦ ?_, fun h hh ↦ ?_⟩
  · rw [hq h hh]
    exact hr.nodup h (hk h hh)
  · rw [hq h hh] at ha
    rw [hq h' hh'] at ha'
    exact hr.alone h h' a (hk h hh) (hk h' hh') ha ha'
  · rw [hq h hh]
    exact hr.ring h (hk h hh)

theorem elem_injective : Function.Injective (Node.elem : α → Node η α) := fun _ _ h ↦
  Node.elem.inj h

theorem mem_map_elem : (Node.elem c : Node η α) ∈ k.map Node.elem ↔ c ∈ k :=
  List.mem_map_of_injective elem_injective

theorem head_not_mem : (Node.head h : Node η α) ∉ k.map Node.elem := by
  rintro hmem
  obtain ⟨c, -, hc⟩ := List.mem_map.mp hmem
  cases hc

/-- Two rings have no node in common. -/
theorem Rings.apart {z : Node η α} (hr : Rings M known q) (hk : known h) (hk' : known h')
    (hne : h' ≠ h) (hz : z ∈ .head h' :: (q h').map Node.elem) :
    z ∉ .head h :: (q h).map Node.elem := by
  intro hmem
  cases z with
  | head h₀ =>
      obtain rfl := Node.head.inj ((List.mem_cons.mp hz).resolve_right head_not_mem)
      exact hne (Node.head.inj ((List.mem_cons.mp hmem).resolve_right head_not_mem))
  | elem c =>
      have hz' := (List.mem_cons.mp hz).resolve_left (by rintro ⟨⟩)
      have hmem' := (List.mem_cons.mp hmem).resolve_left (by rintro ⟨⟩)
      exact hne (hr.alone h' h c hk' hk (mem_map_elem.mp hz') (mem_map_elem.mp hmem'))

/-- The node before an element. -/
theorem Rings.prev_elem (hr : Rings M known q) (hk : known h) (hq : q h = k₁ ++ d :: k₂) :
    M.prev (.elem d) = (k₁.map Node.elem).getLastD (.head h) := by
  have hring := hr.ring h hk
  rw [hq, List.map_append, List.map_cons] at hring
  exact hring.split.1.prev_eq

/-- The node after an element. -/
theorem Rings.next_elem (hr : Rings M known q) (hk : known h) (hq : q h = k₁ ++ d :: k₂) :
    M.next (.elem d) = (k₂.map Node.elem).headD (.head h) := by
  have hring := hr.ring h hk
  rw [hq, List.map_append, List.map_cons] at hring
  exact hring.split.2.next_eq

variable [DecidableEq η] [DecidableEq α]

omit [DecidableEq α] in
/-- A change of the links around one ring leaves the others alone. -/
theorem Rings.update {N : Links (Node η α)} (hr : Rings M known q) (hnodup : k.Nodup)
    (hnew : ∀ c ∈ k, c ∈ q h ∨ ∀ h', known h' → c ∉ q h')
    (hring : Segment N (.head h) (k.map .elem) (.head h))
    (hnext : ∀ h' z, known h' → h' ≠ h → z ∈ .head h' :: (q h').map Node.elem →
      N.next z = M.next z)
    (hprev : ∀ h' z, known h' → h' ≠ h → z ∈ .head h' :: (q h').map Node.elem →
      N.prev z = M.prev z) (hk : known h) : Rings N known (Function.update q h k) := by
  have hsame : ∀ {h'}, h' ≠ h → Function.update q h k h' = q h' := fun hne ↦
    Function.update_of_ne hne ..
  have hother : ∀ {h' c}, known h' → h' ≠ h → c ∈ k → c ∉ q h' := by
    intro h' c hk' hne hc hmem
    rcases hnew c hc with hc | hc
    · exact hne (hr.alone h' h c hk' hk hmem hc)
    · exact hc h' hk' hmem
  refine ⟨fun h' hk' ↦ ?_, fun h₁ h₂ c hk₁ hk₂ hc₁ hc₂ ↦ ?_, fun h' hk' ↦ ?_⟩
  · by_cases hh : h' = h
    · rw [hh, Function.update_self]
      exact hnodup
    · rw [hsame hh]
      exact hr.nodup h' hk'
  · by_cases hh₁ : h₁ = h <;> by_cases hh₂ : h₂ = h
    · rw [hh₁, hh₂]
    · rw [hh₁, Function.update_self] at hc₁
      rw [hsame hh₂] at hc₂
      exact absurd hc₂ (hother hk₂ hh₂ hc₁)
    · rw [hh₂, Function.update_self] at hc₂
      rw [hsame hh₁] at hc₁
      exact absurd hc₁ (hother hk₁ hh₁ hc₂)
    · rw [hsame hh₁] at hc₁
      rw [hsame hh₂] at hc₂
      exact hr.alone h₁ h₂ c hk₁ hk₂ hc₁ hc₂
  · by_cases hh : h' = h
    · rw [hh, Function.update_self]
      exact hring
    · rw [hsame hh]
      exact (hr.ring h' hk').congr (hnext h' · hk' hh) (hprev h' · hk' hh)

/-- An element is linked into a ring. -/
theorem Rings.link (hr : Rings M known q) (hk : known h) (hq : q h = k₁ ++ k₂)
    (hc : ∀ h', known h' → c ∉ q h') :
    Rings (M.link (.elem c) ((k₁.map Node.elem).getLastD (.head h))
      ((k₂.map Node.elem).headD (.head h))) known (Function.update q h (k₁ ++ c :: k₂)) := by
  have hnodup := hr.nodup h hk
  have hring := hr.ring h hk
  have hc' := hc h hk
  rw [hq] at hnodup hring hc'
  rw [List.map_append] at hring
  have hout : ∀ h' z, known h' → z ∈ .head h' :: (q h').map Node.elem →
      z ≠ (.elem c : Node η α) := by
    rintro h' z hk' hz rfl
    exact hc h' hk' (mem_map_elem.mp ((List.mem_cons.mp hz).resolve_left (by rintro ⟨⟩)))
  have hsub : ∀ {k : List α}, k ⊆ q h → ∀ {z : Node η α}, z ∈ .head h :: k.map Node.elem →
      z ∈ .head h :: (q h).map Node.elem := fun hk z hz ↦
    List.cons_subset_cons _ (List.map_subset _ hk) hz
  refine hr.update ?_ ?_ ?_ (fun h' z hk' hne hz ↦ link_next_ne (hout h' z hk' hz) ?_)
    (fun h' z hk' hne hz ↦ link_prev_ne (hout h' z hk' hz) ?_) hk
  · exact (List.perm_middle.nodup_iff).mpr (List.nodup_cons.mpr ⟨hc', hnodup⟩)
  · intro d hd
    rcases List.mem_cons.mp (List.perm_middle.mem_iff.mp hd) with rfl | hd
    · exact .inr hc
    · exact .inl (hq ▸ hd)
  · rw [List.map_append, List.map_cons]
    refine hring.link ?_ ?_ ?_ ?_ (by rintro ⟨⟩) (by rintro ⟨⟩)
    · rw [← List.map_append]
      exact hnodup.map elem_injective
    · rw [← List.map_append]
      exact head_not_mem
    · rw [← List.map_append]
      exact head_not_mem
    · rw [← List.map_append]
      exact fun hmem ↦ hc' (mem_map_elem.mp hmem)
  · rintro rfl
    refine hr.apart hk hk' hne hz (hsub ?_ (mem_getLastD ..))
    rw [hq]
    exact List.subset_append_left ..
  · rintro rfl
    refine hr.apart hk hk' hne hz (hsub ?_ (mem_headD ..))
    rw [hq]
    exact List.subset_append_right ..

/-- An element becomes the first. -/
theorem Rings.push (hr : Rings M known q) (hk : known h) (hc : ∀ h', known h' → c ∉ q h') :
    Rings (M.link (.elem c) (.head h) (M.next (.head h))) known
      (Function.update q h (c :: q h)) := by
  have hfront : q h = [] ++ q h := rfl
  rw [hr.next_head hk]
  exact hr.link hk hfront hc

/-- An element becomes the last. -/
theorem Rings.append (hr : Rings M known q) (hk : known h) (hc : ∀ h', known h' → c ∉ q h') :
    Rings (M.link (.elem c) (M.prev (.head h)) (.head h)) known
      (Function.update q h (q h ++ [c])) := by
  rw [hr.prev_head hk]
  exact hr.link hk (List.append_nil _).symm hc

/-- An element is linked before another. -/
theorem Rings.before (hr : Rings M known q) (hk : known h) (hq : q h = k₁ ++ d :: k₂)
    (hc : ∀ h', known h' → c ∉ q h') :
    Rings (M.link (.elem c) (M.prev (.elem d)) (.elem d)) known
      (Function.update q h (k₁ ++ c :: d :: k₂)) := by
  rw [hr.prev_elem hk hq]
  exact hr.link hk hq hc

/-- An element is linked after another. -/
theorem Rings.after (hr : Rings M known q) (hk : known h) (hq : q h = k₁ ++ d :: k₂)
    (hc : ∀ h', known h' → c ∉ q h') :
    Rings (M.link (.elem c) (.elem d) (M.next (.elem d))) known
      (Function.update q h (k₁ ++ d :: c :: k₂)) := by
  have hq' : q h = (k₁ ++ [d]) ++ k₂ := by rw [hq, List.append_assoc, List.singleton_append]
  have hlast : ((k₁ ++ [d]).map (Node.elem : α → Node η α)).getLastD (.head h) = .elem d := by
    rw [List.map_append, List.getLastD_eq_getLast?, List.map_singleton, List.getLast?_concat]
    rfl
  have hlink := hr.link hk hq' hc
  rwa [hlast, List.append_assoc, List.singleton_append, ← hr.next_elem hk hq] at hlink

/-- An element is unlinked from its ring. -/
theorem Rings.unlink (hr : Rings M known q) (hk : known h) (hq : q h = k₁ ++ c :: k₂) :
    Rings (M.unlink (.elem c)) known (Function.update q h (k₁ ++ k₂)) := by
  have hnodup := hr.nodup h hk
  have hring := hr.ring h hk
  rw [hq] at hnodup hring
  rw [List.map_append, List.map_cons] at hring
  have hprev := hr.prev_elem hk hq
  have hnext := hr.next_elem hk hq
  have hsub : k₁ ++ k₂ ⊆ q h := by
    rw [hq]
    exact List.append_subset.mpr ⟨List.subset_append_left .., fun d hd ↦
      List.mem_append_right _ (List.mem_cons_of_mem _ hd)⟩
  have hmem : ∀ {k : List α}, k ⊆ q h → ∀ {z : Node η α}, z ∈ .head h :: k.map Node.elem →
      z ∈ .head h :: (q h).map Node.elem := fun hk z hz ↦
    List.cons_subset_cons _ (List.map_subset _ hk) hz
  refine hr.update ?_ (fun d hd ↦ .inl (hsub hd)) ?_
    (fun h' z hk' hne hz ↦ unlink_next_ne ?_) (fun h' z hk' hne hz ↦ unlink_prev_ne ?_) hk
  · exact (List.nodup_cons.mp (List.perm_middle.nodup_iff.mp hnodup)).2
  · rw [List.map_append]
    refine hring.unlink ?_ ?_ ?_
    · rw [← List.map_cons, ← List.map_append]
      exact hnodup.map elem_injective
    · rw [← List.map_cons, ← List.map_append]
      exact head_not_mem
    · rw [← List.map_cons, ← List.map_append]
      exact head_not_mem
  · rintro rfl
    refine hr.apart hk hk' hne hz ?_
    rw [hprev]
    exact hmem (fun d hd ↦ hsub (List.mem_append_left _ hd)) (mem_getLastD ..)
  · rintro rfl
    refine hr.apart hk hk' hne hz ?_
    rw [hnext]
    exact hmem (fun d hd ↦ hsub (List.mem_append_right _ hd)) (mem_headD ..)

/-- A new ring without elements. -/
theorem Rings.close (hr : Rings M known q) (h : η) :
    Rings (M.close (.head h)) (fun h' ↦ h' = h ∨ known h') (Function.update q h []) := by
  have hsame : ∀ {h'}, h' ≠ h → Function.update q h [] h' = q h' := fun hne ↦
    Function.update_of_ne hne ..
  have hold : ∀ {h'}, h' = h ∨ known h' → h' ≠ h → known h' := fun hk hne ↦ hk.resolve_left hne
  have hnil : ∀ {h' c}, h' = h → c ∉ Function.update q h [] h' := by
    rintro h' c rfl hc
    rw [Function.update_self] at hc
    exact absurd hc List.not_mem_nil
  refine ⟨fun h' hk' ↦ ?_, fun h₁ h₂ c hk₁ hk₂ hc₁ hc₂ ↦ ?_, fun h' hk' ↦ ?_⟩
  · by_cases hh : h' = h
    · rw [hh, Function.update_self]
      exact List.nodup_nil
    · rw [hsame hh]
      exact hr.nodup h' (hold hk' hh)
  · have hh₁ : h₁ ≠ h := fun he ↦ hnil he hc₁
    have hh₂ : h₂ ≠ h := fun he ↦ hnil he hc₂
    rw [hsame hh₁] at hc₁
    rw [hsame hh₂] at hc₂
    exact hr.alone h₁ h₂ c (hold hk₁ hh₁) (hold hk₂ hh₂) hc₁ hc₂
  · by_cases hh : h' = h
    · rw [hh, Function.update_self]
      exact ⟨Function.update_self .., Function.update_self ..⟩
    · have hne : ∀ {z}, z ∈ .head h' :: (q h').map Node.elem → z ≠ (.head h : Node η α) := by
        rintro z hz rfl
        exact hh (Node.head.inj ((List.mem_cons.mp hz).resolve_right head_not_mem)).symm
      rw [hsame hh]
      exact (hr.ring h' (hold hk' hh)).congr (fun z hz ↦ Function.update_of_ne (hne hz) ..)
        fun z hz ↦ Function.update_of_ne (hne hz) ..

/-- An element that is in no ring is closed to a ring of its own. -/
theorem Rings.close_elem (hr : Rings M known q) (hc : ∀ h', known h' → c ∉ q h') :
    Rings (M.close (.elem c)) known q := by
  refine ⟨hr.nodup, hr.alone, fun h hk ↦ ?_⟩
  have hne : ∀ {z}, z ∈ .head h :: (q h).map Node.elem → z ≠ (.elem c : Node η α) := by
    rintro z hz rfl
    exact hc h hk (mem_map_elem.mp ((List.mem_cons.mp hz).resolve_left (by rintro ⟨⟩)))
  exact (hr.ring h hk).congr (fun z hz ↦ Function.update_of_ne (hne hz) ..)
    fun z hz ↦ Function.update_of_ne (hne hz) ..

/-- An empty ring is filled with elements that are in no ring. -/
theorem Rings.fill (hr : Rings M known q) (hk : known h) (hq : q h = []) (hnodup : k.Nodup)
    (hc : ∀ c ∈ k, ∀ h', known h' → c ∉ q h') :
    ∃ N, Rings N known (Function.update q h k) := by
  induction k with
  | nil =>
      rw [← hq, Function.update_eq_self]
      exact ⟨M, hr⟩
  | cons c k ih =>
      obtain ⟨hck, hnodup⟩ := List.nodup_cons.mp hnodup
      obtain ⟨N, hr'⟩ := ih hnodup fun d hd ↦ hc d (List.mem_cons_of_mem _ hd)
      have hpush := hr'.push (c := c) hk fun h' hk' ↦ by
        by_cases hh : h' = h
        · rwa [hh, Function.update_self]
        · rw [Function.update_of_ne hh]
          exact hc c List.mem_cons_self h' hk'
      rw [Function.update_idem, Function.update_self] at hpush
      exact ⟨_, hpush⟩

/-- Any lists without common elements can be laid out as rings. -/
theorem exists_rings {heads : List η} (hnodup : ∀ h ∈ heads, (q h).Nodup)
    (halone : ∀ h h' a, h ∈ heads → h' ∈ heads → a ∈ q h → a ∈ q h' → h = h') :
    ∃ M : Links (Node η α), Rings M (· ∈ heads) q := by
  induction heads with
  | nil =>
      refine ⟨⟨id, id⟩, ⟨fun h hh ↦ ?_, fun h h' a hh ↦ ?_, fun h hh ↦ ?_⟩⟩ <;>
        exact absurd hh List.not_mem_nil
  | cons h heads ih =>
      have hsub : ∀ {h'}, h' ∈ heads → h' ∈ h :: heads := List.mem_cons_of_mem _
      obtain ⟨M, hr⟩ := ih (fun h' hh' ↦ hnodup h' (hsub hh')) fun h₁ h₂ a hh₁ hh₂ ↦
        halone h₁ h₂ a (hsub hh₁) (hsub hh₂)
      by_cases hh : h ∈ heads
      · refine ⟨M, hr.mono (fun h' hh' ↦ ?_) fun _ _ ↦ rfl⟩
        rcases List.mem_cons.mp hh' with rfl | hh'
        · exact hh
        · exact hh'
      · obtain ⟨N, hr'⟩ := (hr.close h).fill (k := q h) (.inl rfl) (Function.update_self ..)
          (hnodup h List.mem_cons_self) fun c hc h' hh' ↦ by
            by_cases he : h' = h
            · rw [he, Function.update_self]
              exact List.not_mem_nil
            · rw [Function.update_of_ne he]
              intro hc'
              exact he (halone h' h c (hsub (hh'.resolve_left he)) List.mem_cons_self hc' hc)
        rw [Function.update_idem, Function.update_eq_self] at hr'
        exact ⟨N, hr'.mono (fun h' hh' ↦ List.mem_cons.mp hh') fun _ _ ↦ rfl⟩

end Rings

end Circular
