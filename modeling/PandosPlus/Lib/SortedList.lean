import Mathlib.Data.List.Sort
import Mathlib.Order.Basic

/-!
# Lists kept in ascending order of a key

A list without repeated keys, kept in strictly ascending order, is searched with
an early exit: the scan stops at the first key above the one looked for.  New
elements enter by a scan from the front (`insertFront`) or from the back
(`insertBack`); both leave the list ascending as long as the new key is fresh.

Nothing here mentions what the elements are: the key is a function on them, so a
list of addresses into a table is ordered by what the table holds.
-/

namespace SortedList

universe u v

variable {ι : Type u} {κ : Type v} [LinearOrder κ]

/-- The keys of the list are strictly ascending. -/
def Ascending (key : ι → κ) (l : List ι) : Prop := l.Pairwise fun x y ↦ key x < key y

/-- Look for the element with key `k`, giving up at the first larger key. -/
def search (key : ι → κ) (k : κ) : List ι → Option ι
  | [] => none
  | x :: xs => if key x = k then some x else if k < key x then none else search key k xs

/-- Insert before the first element with a larger key. -/
def insertFront (key : ι → κ) (x : ι) (l : List ι) : List ι :=
  l.orderedInsert (fun a b ↦ key a < key b) x

/-- Scan from the back and insert after the first element met with a key that is
not larger. -/
def insertBack (key : ι → κ) (x : ι) (l : List ι) : List ι :=
  (l.reverse.orderedInsert (fun a b ↦ key b ≤ key a) x).reverse

variable {key : ι → κ} {k : κ} {x y : ι} {l : List ι}

@[simp] theorem ascending_nil : Ascending key ([] : List ι) := List.Pairwise.nil

theorem ascending_cons :
    Ascending key (x :: l) ↔ (∀ y ∈ l, key x < key y) ∧ Ascending key l := List.pairwise_cons

theorem Ascending.sublist {l' : List ι} (h : Ascending key l) (hl : l'.Sublist l) :
    Ascending key l' := List.Pairwise.sublist hl h

theorem Ascending.congr {key' : ι → κ} (h : Ascending key l) (hk : ∀ y ∈ l, key' y = key y) :
    Ascending key' l := by
  refine List.Pairwise.imp_of_mem ?_ h
  intro a b ha hb hab
  rwa [hk a ha, hk b hb]

/-- An ascending list has no repeated key. -/
theorem Ascending.eq_of_key (h : Ascending key l) (hx : x ∈ l) (hy : y ∈ l)
    (hxy : key x = key y) : x = y := by
  induction l with
  | nil => cases hx
  | cons z l ih =>
      obtain ⟨hz, hl⟩ := ascending_cons.mp h
      rcases List.mem_cons.mp hx with rfl | hx' <;> rcases List.mem_cons.mp hy with rfl | hy'
      · rfl
      · exact absurd hxy (ne_of_lt (hz y hy'))
      · exact absurd hxy.symm (ne_of_lt (hz x hx'))
      · exact ih hl hx' hy'

/-- An ascending list has no repeated element. -/
theorem Ascending.nodup (h : Ascending key l) : l.Nodup :=
  List.Pairwise.imp (fun hab e ↦ absurd (congrArg key e) (ne_of_lt hab)) h

/-! ## Searching -/

theorem search_mem (h : search key k l = some x) : x ∈ l ∧ key x = k := by
  induction l with
  | nil => cases h
  | cons z l ih =>
      rw [search] at h
      split at h
      · rename_i hz
        cases h
        exact ⟨List.mem_cons_self, hz⟩
      · split at h
        · cases h
        · exact ⟨List.mem_cons_of_mem _ (ih h).1, (ih h).2⟩

/-- On an ascending list the early exit loses nothing. -/
theorem Ascending.search_of_mem (h : Ascending key l) (hx : x ∈ l) :
    search key (key x) l = some x := by
  induction l with
  | nil => cases hx
  | cons z l ih =>
      obtain ⟨hz, hl⟩ := ascending_cons.mp h
      rcases List.mem_cons.mp hx with rfl | hx'
      · simp [search]
      · have hlt : key z < key x := hz x hx'
        rw [search, if_neg (ne_of_lt hlt), if_neg (not_lt_of_gt hlt), ih hl hx']

theorem Ascending.search_eq_some_iff (h : Ascending key l) :
    search key k l = some x ↔ x ∈ l ∧ key x = k :=
  ⟨search_mem, fun ⟨hx, hk⟩ ↦ hk ▸ h.search_of_mem hx⟩

theorem Ascending.search_eq_none_iff (h : Ascending key l) :
    search key k l = none ↔ ∀ y ∈ l, key y ≠ k := by
  constructor
  · intro hn y hy hk
    rw [← hk, h.search_of_mem hy] at hn
    cases hn
  · intro hn
    cases hs : search key k l with
    | none => rfl
    | some y => exact absurd (search_mem hs).2 (hn y (search_mem hs).1)

theorem search_congr {key' : ι → κ} (hk : ∀ y ∈ l, key' y = key y) :
    search key' k l = search key k l := by
  induction l with
  | nil => rfl
  | cons z l ih =>
      rw [search, search, hk z List.mem_cons_self,
        ih fun y hy ↦ hk y (List.mem_cons_of_mem _ hy)]

/-- The search looks at the first element whose key is not smaller. -/
theorem search_eq_find? :
    search key k l = match l.find? fun y ↦ decide (k ≤ key y) with
      | none => none
      | some y => if key y = k then some y else none := by
  induction l with
  | nil => rfl
  | cons z l ih =>
      rw [search, ih, List.find?_cons]
      by_cases hz : k ≤ key z
      · rw [decide_eq_true hz]
        by_cases he : key z = k
        · simp only [if_pos he]
        · simp only [if_neg he, if_pos (lt_of_le_of_ne hz (Ne.symm he))]
      · have hlt := not_le.mp hz
        rw [decide_eq_false hz, if_neg hlt.ne, if_neg (not_lt_of_gt hlt)]

/-! ## Inserting -/

theorem insertFront_perm : (insertFront key x l).Perm (x :: l) := List.perm_orderedInsert _ _ _

theorem insertBack_perm : (insertBack key x l).Perm (x :: l) :=
  (List.reverse_perm _).trans
    ((List.perm_orderedInsert _ _ _).trans ((List.reverse_perm l).cons x))

@[simp] theorem mem_insertFront : y ∈ insertFront key x l ↔ y = x ∨ y ∈ l := by
  rw [insertFront_perm.mem_iff, List.mem_cons]

@[simp] theorem mem_insertBack : y ∈ insertBack key x l ↔ y = x ∨ y ∈ l := by
  rw [insertBack_perm.mem_iff, List.mem_cons]

theorem orderedInsert_append {r : ι → ι → Prop} [DecidableRel r] {l₁ : List ι} (l₂ : List ι)
    (h : ∀ z ∈ l₁, ¬ r x z) :
    (l₁ ++ l₂).orderedInsert r x = l₁ ++ l₂.orderedInsert r x := by
  induction l₁ with
  | nil => rfl
  | cons z l₁ ih =>
      rw [List.cons_append, List.orderedInsert_cons, if_neg (h z List.mem_cons_self),
        ih fun z hz ↦ h z (List.mem_cons_of_mem _ hz), List.cons_append]

/-- A scan from the front that finds no larger key inserts at the end. -/
theorem insertFront_none (h : ∀ z ∈ l, ¬ key x < key z) : insertFront key x l = l ++ [x] := by
  have hend := orderedInsert_append (r := fun a b ↦ key a < key b) [] h
  rwa [List.append_nil] at hend

/-- A scan from the front inserts before the first larger key. -/
theorem insertFront_some {l₁ l₂ : List ι} (h : ∀ z ∈ l₁, ¬ key x < key z) (hy : key x < key y) :
    insertFront key x (l₁ ++ y :: l₂) = l₁ ++ x :: y :: l₂ := by
  rw [insertFront, orderedInsert_append _ h, List.orderedInsert_cons, if_pos hy]

/-- A scan from the back that finds only larger keys inserts at the beginning. -/
theorem insertBack_none (h : ∀ z ∈ l, ¬ key z ≤ key x) : insertBack key x l = x :: l := by
  have hend := orderedInsert_append (r := fun a b ↦ key b ≤ key a) []
    fun z hz ↦ h z (List.mem_reverse.mp hz)
  rw [List.append_nil] at hend
  rw [insertBack, hend, List.orderedInsert_nil, List.reverse_append, List.reverse_reverse]
  rfl

/-- A scan from the back inserts after the first key that is not larger. -/
theorem insertBack_some {l₁ l₂ : List ι} (h : ∀ z ∈ l₂, ¬ key z ≤ key x) (hy : key y ≤ key x) :
    insertBack key x (l₁ ++ y :: l₂) = l₁ ++ y :: x :: l₂ := by
  have hrev : (l₁ ++ y :: l₂).reverse = l₂.reverse ++ y :: l₁.reverse := by
    rw [List.reverse_append, List.reverse_cons, List.append_assoc, List.singleton_append]
  rw [insertBack, hrev, orderedInsert_append _ fun z hz ↦ h z (List.mem_reverse.mp hz),
    List.orderedInsert_cons, if_pos hy]
  simp

theorem Ascending.insertFront (h : Ascending key l) (hx : ∀ y ∈ l, key y ≠ key x) :
    Ascending key (insertFront key x l) := by
  induction l with
  | nil => simp [SortedList.insertFront, Ascending]
  | cons z l ih =>
      obtain ⟨hz, hl⟩ := ascending_cons.mp h
      rw [SortedList.insertFront, List.orderedInsert]
      split
      · rename_i hlt
        refine ascending_cons.mpr ⟨?_, h⟩
        intro y hy
        rcases List.mem_cons.mp hy with rfl | hy'
        · exact hlt
        · exact hlt.trans (hz y hy')
      · rename_i hge
        have hzx : key z < key x :=
          lt_of_le_of_ne (not_lt.mp hge) (hx z List.mem_cons_self)
        refine ascending_cons.mpr ⟨?_, ih hl fun y hy ↦ hx y (List.mem_cons_of_mem _ hy)⟩
        intro y hy
        rcases mem_insertFront.mp hy with rfl | hy'
        · exact hzx
        · exact hz y hy'

theorem Ascending.insertBack (h : Ascending key l) (hx : ∀ y ∈ l, key y ≠ key x) :
    Ascending key (insertBack key x l) := by
  -- the reversed list descends weakly, which is what `orderedInsert` keeps
  have hrev : l.reverse.Pairwise fun a b ↦ key b ≤ key a :=
    List.pairwise_reverse.mpr (List.Pairwise.imp le_of_lt h)
  have : Std.Total fun a b : ι ↦ key b ≤ key a := ⟨fun a b ↦ le_total (key b) (key a)⟩
  have : IsTrans ι fun a b : ι ↦ key b ≤ key a := ⟨fun _ _ _ hab hbc ↦ hbc.trans hab⟩
  have hweak : (SortedList.insertBack key x l).Pairwise fun a b ↦ key a ≤ key b :=
    List.pairwise_reverse.mpr (hrev.orderedInsert x)
  have hfresh : ((SortedList.insertBack key x l).map key).Nodup := by
    rw [(insertBack_perm.map key).nodup_iff, List.map_cons, List.nodup_cons]
    refine ⟨fun hmem ↦ ?_, ?_⟩
    · obtain ⟨y, hy, e⟩ := List.mem_map.mp hmem
      exact hx y hy e
    · exact (List.pairwise_map.mpr (List.Pairwise.imp ne_of_lt h))
  refine List.Pairwise.imp ?_ (hweak.and (List.pairwise_map.mp hfresh))
  exact fun hab ↦ lt_of_le_of_ne hab.1 hab.2

end SortedList
