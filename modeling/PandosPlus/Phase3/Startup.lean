import PandosPlus.Lib.Threaded
import PandosPlus.Phase3.Owners

/-!
# The start of the U-procs

What `test` has still to do, at every point of its code, and which support structure it has
in hand (`TestCode`).  The structure in hand is no U-proc's as long as the free list is
sound, and the free list stays sound as long as no operation on it begins in the middle of
another (`Serial`): the source protects neither `_allocate` nor `_deallocate`.
-/

namespace PandosPlus.SupportLevel

open Threaded

variable {u m k : Nat} {cfg : PoolConfig m} {s t : System u m k} {p q : Actor u} {x : SemId}
variable {a : Event u k} {c : Choice k} {i : Instr u m} {code rest : List (Instr u m)}
variable {j b : Fin u} {n : Nat}

/-- What `test` has still to do when it waits for as many signals. -/
def awaits (n : Nat) : List (Instr u m) := List.replicate n (.passeren .master) ++ [.termProcess]

/-- What `test` has still to do when it has started as many U-procs. -/
def remaining (n : Nat) : List (Instr u m) :=
  ((List.finRange u).drop n).map .allocate ++ awaits u

/-- The support structure that `test` has in hand. -/
inductive Hand (u : Nat) where
  | empty
  /-- It is about to be taken out of the free list. -/
  | deleting (b : Fin u)
  | taken (b : Fin u)
  /-- `sup_asid` is that of the U-proc `j`. -/
  | named (j b : Fin u)
  /-- The page table is that of the U-proc `j` too. -/
  | filled (j b : Fin u)

/-- `test` is about to start the U-proc `n`, or to go on with it, or all have been started. -/
inductive TestCode : Nat → Hand u → List (Instr u m) → Prop
  | allocating {n : Nat} (h : n ≤ u) : TestCode n .empty (remaining n)
  | deleting (j b : Fin u) : TestCode j (.deleting b) (.listDel j b :: remaining (j + 1))
  | initialising (j b : Fin u) : TestCode j (.taken b) (.initSupport j b :: remaining (j + 1))
  | reading (j b : Fin u) (w : Word) {pre : List (Instr u m)}
      (h : pre <:+ backingStoreOperation FLASHREAD (asidOf j) 0 w) :
      TestCode j (.named j b) (pre ++ .initPageTable j b w :: remaining (j + 1))
  | creating (j b : Fin u) : TestCode j (.filled j b) (.createProcess j b :: remaining (j + 1))
  /-- The header of a drive could not be read. -/
  | failed (n : Nat) : TestCode n .empty trapExceptionHandler
  | waiting (n : Nat) : TestCode u .empty (awaits n)

/-- Where `test` is, by the instruction its code begins with. -/
inductive TestHead : Nat → Hand u → Instr u m → List (Instr u m) → Prop
  | allocate (j : Fin u) : TestHead j .empty (.allocate j) (remaining (j + 1))
  | listDel (j b : Fin u) : TestHead j (.deleting b) (.listDel j b) (remaining (j + 1))
  | initSupport (j b : Fin u) : TestHead j (.taken b) (.initSupport j b) (remaining (j + 1))
  | read (j b : Fin u) {i : Instr u m} {rest : List (Instr u m)}
      (hi : (∃ w, i = .setData0 (.flash (asidOf j - 1)) w) ∨
        (∃ w, i = .doIo (.flash (asidOf j - 1)) w) ∨ i = .checkStatus)
      (h : TestCode j (.named j b) rest) : TestHead j (.named j b) i rest
  | initPageTable (j b : Fin u) (w : Word) :
      TestHead j (.named j b) (.initPageTable j b w) (remaining (j + 1))
  | createProcess (j b : Fin u) :
      TestHead j (.filled j b) (.createProcess j b) (remaining (j + 1))
  | release (n : Nat) (x : SemId) (rest : List (Instr u m)) : TestHead n .empty (.release x) rest
  | passeren (n : Nat) : TestHead u .empty (.passeren .master) (awaits n)
  | termProcess : TestHead u .empty .termProcess []

/-! ## The code of `test` -/

theorem remaining_zero : (remaining 0 : List (Instr u m)) = test := by
  rw [remaining, List.drop_zero, test, List.append_assoc]
  rfl

theorem remaining_last : (remaining u : List (Instr u m)) = awaits u := by
  rw [remaining, List.drop_eq_nil_of_le (by rw [List.length_finRange])]
  rfl

theorem remaining_cons (j : Fin u) :
    (remaining j : List (Instr u m)) = .allocate j :: remaining (j + 1) := by
  have hlt : (j : Nat) < (List.finRange u).length := by rw [List.length_finRange]; exact j.isLt
  rw [remaining, List.drop_eq_getElem_cons hlt, List.getElem_finRange]
  rfl

theorem trap_cons : ∃ y l, (trapExceptionHandler : List (Instr u m)) = .release y :: l := by
  cases u with
  | zero => exact ⟨_, _, rfl⟩
  | succ u =>
      rw [trapExceptionHandler, List.range_succ_eq_map]
      exact ⟨_, _, rfl⟩

theorem TestCode.awaits_heads (h : awaits n = i :: rest) : TestHead (u := u) u .empty i rest := by
  cases n with
  | zero =>
      obtain ⟨rfl, rfl⟩ := List.cons.inj h
      exact .termProcess
  | succ n =>
      obtain ⟨rfl, rfl⟩ := List.cons.inj h
      exact .passeren n

theorem TestCode.heads {hand : Hand u} (h : TestCode n hand (i :: rest)) :
    TestHead n hand i rest := by
  generalize hcode : i :: rest = code at h
  cases h with
  | allocating h =>
      rcases Nat.lt_or_eq_of_le h with hlt | rfl
      · rw [show n = (⟨n, hlt⟩ : Fin u) from rfl, remaining_cons] at hcode
        obtain ⟨rfl, rfl⟩ := List.cons.inj hcode
        exact .allocate ⟨n, hlt⟩
      · rw [remaining_last] at hcode
        exact awaits_heads hcode.symm
  | deleting j b =>
      obtain ⟨rfl, rfl⟩ := List.cons.inj hcode
      exact .listDel j b
  | initialising j b =>
      obtain ⟨rfl, rfl⟩ := List.cons.inj hcode
      exact .initSupport j b
  | @reading j b w pre h =>
      cases pre with
      | nil =>
          obtain ⟨rfl, rfl⟩ := List.cons.inj hcode
          exact .initPageTable j b w
      | cons i' pre =>
          obtain ⟨rfl, rfl⟩ := List.cons.inj hcode
          refine .read j b ?_ (.reading j b w ((List.suffix_cons _ _).trans h))
          have hmem := h.subset List.mem_cons_self
          rw [backingStoreOperation] at hmem
          simp only [List.mem_cons, List.not_mem_nil, or_false] at hmem
          rcases hmem with rfl | rfl | rfl
          · exact .inl ⟨_, rfl⟩
          · exact .inr (.inl ⟨_, rfl⟩)
          · exact .inr (.inr rfl)
  | creating j b =>
      obtain ⟨rfl, rfl⟩ := List.cons.inj hcode
      exact .createProcess j b
  | failed n =>
      obtain ⟨y, l, htrap⟩ := @trap_cons u m
      rw [htrap] at hcode
      obtain ⟨rfl, -⟩ := List.cons.inj hcode
      exact .release n y rest
  | waiting n => exact awaits_heads hcode.symm

/-- The operation of a drive starts right after `data0` has been written. -/
theorem TestCode.starts {hand : Hand u} {d : Int} {w : Word}
    (h : TestCode n hand (.setData0 (.flash d) w :: rest)) :
    ∃ c rest', rest = .doIo (.flash d) c :: rest' := by
  have hnamed : ∃ j b, hand = .named j b := by
    cases h.heads with
    | read j b hi hrest => exact ⟨j, b, rfl⟩
  obtain ⟨j', b', rfl⟩ := hnamed
  generalize hcode : Instr.setData0 (.flash d) w :: rest = code, hn : Hand.named j' b' = hand at h
  cases h with
  | @reading j b w' pre hpre =>
      cases pre with
      | nil => cases hcode
      | cons i pre =>
          obtain ⟨rfl, rfl⟩ := List.cons.inj hcode
          rw [backingStoreOperation, List.suffix_cons_iff] at hpre
          rcases hpre with hpre | hpre
          · obtain ⟨hi, rfl⟩ := List.cons.inj hpre
            obtain rfl := Dev.flash.inj (Instr.setData0.inj hi).1
            exact ⟨_, _, rfl⟩
          · have hmem := hpre.subset List.mem_cons_self
            simp only [List.mem_cons, List.not_mem_nil, reduceCtorEq, or_self] at hmem
  | _ => cases hn

/-! ## The free list -/

/-- `test` has still to take a support structure. -/
def Proc.starting (v : Proc u m) : Bool :=
  v.code.any fun | .allocate _ => true | _ => false

/-- The process begins an operation on the free list. -/
def Proc.begins (v : Proc u m) : Bool :=
  match v.code with
  | .allocate _ :: _ | .deallocate :: _ => true
  | _ => false

/-- The process is in the middle of an operation on the free list. -/
def Proc.amid (v : Proc u m) : Bool :=
  match v.code with
  | .listDel _ _ :: _ | .listAdd _ _ :: _ => true
  | _ => false

/-- As long as `test` takes from the free list, no operation on it begins in the middle of
another. -/
def Serial (s : System u m k) (a : Event u k) : Prop :=
  ∀ p ∈ a.actor, (s.proc .test).starting = true → (s.proc p).begins = true →
    (s.proc .test).amid = false ∧ ∀ j, (s.proc (.uproc j)).amid = false

instance (s : System u m k) (a : Event u k) : Decidable (Serial s a) :=
  inferInstanceAs (Decidable (∀ p ∈ a.actor, _))

def Hand.Holds (b : Fin u) : Hand u → Prop
  | .empty => False
  | .deleting b' | .taken b' | .named _ b' | .filled _ b' => b' = b

/-- The free list holds nothing that is in use, and at most one operation is under way. -/
structure FreeList (s : System u m k) (hand : Hand u) : Prop where
  list : ∃ l, Stack s.mem.next s.mem.prev l ∧ (∀ b ∈ l, ∀ i, ¬ Has s i b) ∧
    (∀ b, hand = .deleting b → l.head? = some b) ∧
    ∀ b, hand.Holds b → hand ≠ .deleting b → b ∉ l
  adding : ∀ i b next rest, (s.proc (.uproc i)).code = .listAdd b next :: rest →
    next = s.mem.next none ∧ Has s i b
  alone : ∀ i b next rest, (s.proc (.uproc i)).code = .listAdd b next :: rest →
    (∀ b', hand ≠ .deleting b') ∧
      ∀ i' b' next' rest', (s.proc (.uproc i')).code = .listAdd b' next' :: rest' → i' = i

/-- The page table in the support structure `b` is that of the U-proc `j`. -/
def Paged (r : Memory u m k) (j b : Fin u) : Prop :=
  ∀ n, (r.pte (b, n)).pte_entryHI = entryHi (pageNumber n) (asidOf j)

/-- What `test` has started so far. -/
structure Scripted (s : System u m k) (n : Nat) (hand : Hand u) : Prop where
  alive : (s.proc .test).phase.Alive
  code : TestCode n hand (s.proc .test).code
  born : ∀ i : Fin u, (s.proc (.uproc i)).phase = .unborn ↔ n ≤ i
  nil : ∀ i, (s.proc (.uproc i)).phase = .unborn → (s.proc (.uproc i)).code = []
  apart : ∀ b, hand.Holds b → ∀ i, ¬ Has s i b
  named : ∀ j b, hand = .named j b ∨ hand = .filled j b → (s.mem.support_arr b).sup_asid = asidOf j
  filled : ∀ j b, hand = .filled j b → Paged s.mem j b
  free : (s.proc .test).starting = true → FreeList s hand

/-- `test` follows its code until it terminates. -/
def Script (s : System u m k) : Prop :=
  (s.proc .test).phase = .dead ∨ ∃ n hand, Scripted s n hand

/-- A process that is dead does nothing. -/
theorem SupStep.dead (h : SupStep cfg s a t) (hp : Placed s) (hnew : Fresh s)
    (hq : (s.proc q).phase = .dead) : (t.proc q).phase = .dead := by
  have hno : ∀ φ, (s.proc q).phase = φ → φ ≠ .dead → False := fun φ h hne ↦ hne (h.symm.trans hq)
  cases h.goes hp hnew q with
  | still ha h => rwa [h]
  | blocked c i rest x ha hready => exact (hno _ hready nofun).elim
  | passed i rest x hphase =>
      rcases hphase with ⟨h, -⟩ | ⟨h, -⟩ <;> exact (hno _ h nofun).elim
  | ran c i rest ha hready => exact (hno _ hready nofun).elim
  | left i j hi hready => exact (hno _ hready nofun).elim
  | answered d c rest status ha hwaiting => exact (hno _ hwaiting nofun).elim
  | creates i b rest ha hready => exact (hno _ hready nofun).elim
  | created i b p rest hi ha hready hcode hunborn => exact (hno _ hunborn nofun).elim
  | killed p i rest ha hready hcode hi hq h => rw [h]

/-! ### Who runs what -/

/-- The instructions of `test` alone. -/
def Instr.OfTest : Instr u m → Prop
  | .allocate _ | .listDel _ _ | .initSupport _ _ | .initPageTable _ _ _ | .createProcess _ _ => True
  | _ => False

theorem Shapes.not_test (h : Shapes s) (hready : (s.proc (.uproc j)).phase = .ready)
    (hcode : (s.proc (.uproc j)).code = i :: rest) : ¬ i.OfTest := by
  intro htest
  have hall := h j (by rw [hready]; exact nofun)
  rw [hcode] at hall
  rcases hall with hall | hall
  · have hhead := hall.head
    cases i <;> first | exact htest | exact hhead
  · rcases hall.head with h | h | rfl | rfl
    · cases i <;> first | exact htest | exact h rfl
    · cases i <;> first | exact htest | exact h
    · exact htest
    · exact htest

/-- What `test` runs is in its code. -/
theorem Script.heads (h : Script s) (hready : (s.proc .test).phase = .ready)
    (hcode : (s.proc .test).code = i :: rest) :
    ∃ n hand, Scripted s n hand ∧ TestHead n hand i rest := by
  obtain ⟨n, hand, h⟩ := h.resolve_left (by rw [hready]; exact nofun)
  exact ⟨n, hand, h, (hcode ▸ h.code).heads⟩

theorem Script.fresh (h : Script s) (hshapes : Shapes s) : Fresh s := by
  rintro (_ | j) i b rest hready hcode
  · obtain ⟨n, hand, h, hhead⟩ := h.heads hready hcode
    cases hhead with
    | read j b hi => rcases hi with ⟨w, hi⟩ | ⟨w, hi⟩ | hi <;> cases hi
    | createProcess j b =>
        have hborn := (h.born i).mpr le_rfl
        exact ⟨hborn, h.nil i hborn⟩
  · exact absurd trivial (hshapes.not_test hready hcode)

theorem Script.careful (h : Script s) (hshapes : Shapes s) : Careful s := by
  constructor
  · rintro (_ | j) i b rest hready hcode
    · obtain ⟨n, hand, h, hhead⟩ := h.heads hready hcode
      cases hhead with
      | read j b hi => rcases hi with ⟨w, hi⟩ | ⟨w, hi⟩ | hi <;> cases hi
      | initSupport j b => exact h.apart b rfl
    · exact absurd trivial (hshapes.not_test hready hcode)
  · rintro (_ | j) i b rest hready hcode
    · obtain ⟨n, hand, h, hhead⟩ := h.heads hready hcode
      cases hhead with
      | read j b hi => rcases hi with ⟨w, hi⟩ | ⟨w, hi⟩ | hi <;> cases hi
      | createProcess j b => exact h.named i b (.inr rfl)
    · exact absurd trivial (hshapes.not_test hready hcode)

/-- Only the two operations on the free list change its links. -/
theorem Executed.list {id : Actor u} {r s' : Memory u m k} {v v' : Proc u m}
    (h : Executed cfg c id r v i rest s' v') (hadd : ∀ b next, i ≠ .listAdd b next)
    (hdel : ∀ j b, i ≠ .listDel j b) : s'.next = r.next ∧ s'.prev = r.prev := by
  have htlb : ∀ (r : Memory u m k) e,
      (r.updateTLB e).next = r.next ∧ (r.updateTLB e).prev = r.prev := fun r e ↦ by
    obtain ⟨tlb, he⟩ := updateTLB_eq r e
    rw [he]
    exact ⟨rfl, rfl⟩
  cases h with
  | expand hcalm hexp hv => exact ⟨hcalm.next, hcalm.prev⟩
  | storePage f e hpte => exact htlb _ e
  | mapPage e f => exact htlb _ e
  | listAdd b next => exact absurd rfl (hadd b next)
  | listDel j b => exact absurd rfl (hdel j b)
  | _ => exact ⟨rfl, rfl⟩

theorem SupStep.list (h : SupStep cfg s a t) (hno : ∀ p i rest, a.actor = some p →
    (s.proc p).code = i :: rest → (∀ b next, i ≠ .listAdd b next) ∧ ∀ j b, i ≠ .listDel j b) :
    t.mem.next = s.mem.next ∧ t.mem.prev = s.mem.prev := by
  cases h.touches with
  | nothing h => rw [h]; exact ⟨rfl, rfl⟩
  | calm h => exact ⟨h.next, h.prev⟩
  | ran p c i rest ha hready hcode h =>
      obtain ⟨hadd, hdel⟩ := hno p i rest (by rw [ha]; rfl) hcode
      exact h.list hadd hdel
  | answered d status p rest ha hwaiting h =>
      obtain ⟨ram, flash, he⟩ := completed_eq s.mem status d
      rw [h, he]
      exact ⟨rfl, rfl⟩
  | killed dies h => rw [h]; exact ⟨rfl, rfl⟩

theorem setPte_entryHI (r : Memory u m k) (e e' : Fin u × Fin 32) (lo : Word) :
    ((r.setPte e lo).pte e').pte_entryHI = (r.pte e').pte_entryHI := by
  unfold Memory.pte
  rw [Memory.setPte]
  by_cases hb : e'.1 = e.1
  · rw [hb, setSupport_self]
    dsimp only
    by_cases hn : e'.2 = e.2
    · rw [hn, Function.update_self]
      rfl
    · rw [Function.update_of_ne hn]
  · rw [setSupport_ne r hb]

/-- Only `initPageTable` changes the page numbers and the ASIDs in a page table. -/
theorem Executed.entryHI {id : Actor u} {r s' : Memory u m k} {v v' : Proc u m} {e : Fin u × Fin 32}
    (h : Executed cfg c id r v i rest s' v') (hi : ∀ j w, i ≠ .initPageTable j e.1 w) :
    (s'.pte e).pte_entryHI = (r.pte e).pte_entryHI := by
  have htlb : ∀ (r : Memory u m k) e', (r.updateTLB e').pte e = r.pte e := fun r e' ↦ by
    obtain ⟨tlb, he⟩ := updateTLB_eq r e'
    rw [he]
    rfl
  have hkeep : ∀ b' (f : SupportStruct → SupportStruct),
      (∀ x, (f x).sup_privatePgTbl = x.sup_privatePgTbl) →
      ((r.setSupport b' f).pte e).pte_entryHI = (r.pte e).pte_entryHI := fun b' f hf ↦ by
    unfold Memory.pte
    rw [setSupport_field (·.sup_privatePgTbl) r b' hf e.1]
  cases h with
  | expand hcalm hexp hv =>
      unfold Memory.pte
      rw [hcalm.pgTbl]
  | pageFault j a hid hi a' => exact hkeep a' _ fun _ ↦ rfl
  | storePage f e' hpte => rw [htlb, setPte_entryHI]
  | mapPage e' f => rw [htlb, setPte_entryHI]
  | initSupport j b' => exact hkeep b' (fun x ↦ { x with sup_asid := asidOf j }) fun _ ↦ rfl
  | initPageTable j b' w =>
      have hne : e.1 ≠ b' := fun he ↦ hi j w (he ▸ rfl)
      unfold Memory.pte
      rw [setSupport_ne r hne fun x ↦
        { x with sup_privatePgTbl := PandosPlus.initPageTable (asidOf j) (r.ram w) }]
  | _ => rfl

theorem SupStep.entryHI {e : Fin u × Fin 32} (h : SupStep cfg s a t)
    (hi : ∀ p j w rest, a.actor = some p → (s.proc p).phase = .ready →
      (s.proc p).code ≠ .initPageTable j e.1 w :: rest) :
    (t.mem.pte e).pte_entryHI = (s.mem.pte e).pte_entryHI := by
  cases h.touches with
  | nothing h => rw [h]
  | calm h =>
      unfold Memory.pte
      rw [h.pgTbl]
  | ran p c i rest ha hready hcode h =>
      refine h.entryHI fun j w he ↦ hi p j w rest (by rw [ha]; rfl) hready ?_
      rw [hcode, he]
  | answered d status p rest ha hwaiting h =>
      obtain ⟨ram, flash, he⟩ := completed_eq s.mem status d
      rw [h, he]
      rfl
  | killed dies h =>
      rw [h]
      rfl

theorem Working.starting {v : Proc u m} (h : Working v.code) : v.starting = false := by
  refine List.any_eq_false.mpr fun i hi ↦ ?_
  have hw := h i hi
  cases i with
  | allocate j => exact hw.elim
  | _ => exact nofun

theorem starting_of_tail {v v' : Proc u m} (hcode : v.code = i :: rest) (hcode' : v'.code = rest)
    (h : v'.starting = true) : v.starting = true := by
  unfold Proc.starting at h ⊢
  rw [hcode'] at h
  rw [hcode, List.any_cons, h, Bool.or_true]

/-- The links stay, nobody gets a structure, and nobody begins to give one back. -/
theorem FreeList.keep {hand hand' : Hand u} (h : FreeList s hand)
    (hlist : t.mem.next = s.mem.next ∧ t.mem.prev = s.mem.prev)
    (hhas : ∀ i b, Has t i b → Has s i b)
    (hadd : ∀ i b next rest, (t.proc (.uproc i)).code = .listAdd b next :: rest →
      (s.proc (.uproc i)).code = .listAdd b next :: rest ∧ Has t i b)
    (hholds : ∀ b, hand'.Holds b → hand.Holds b)
    (hdel : ∀ b, hand' = .deleting b ↔ hand = .deleting b) : FreeList t hand' := by
  obtain ⟨l, hstack, hfree, hhead, hout⟩ := h.list
  refine ⟨⟨l, ?_, fun b hb i hi ↦ hfree b hb i (hhas i b hi), fun b hb ↦ hhead b ((hdel b).mp hb),
    fun b hb hne ↦ hout b (hholds b hb) fun he ↦ hne ((hdel b).mpr he)⟩, ?_, ?_⟩
  · rw [hlist.1, hlist.2]
    exact hstack
  · intro i b next rest hcode
    obtain ⟨hcode', hhas'⟩ := hadd i b next rest hcode
    rw [hlist.1]
    exact ⟨(h.adding i b next rest hcode').1, hhas'⟩
  · intro i b next rest hcode
    obtain ⟨hno, halone⟩ := h.alone i b next rest (hadd i b next rest hcode).1
    exact ⟨fun b' hb' ↦ hno b' ((hdel b').mp hb'), fun i' b' next' rest' hcode' ↦
      halone i' b' next' rest' (hadd i' b' next' rest' hcode').1⟩

/-- A U-proc is about to add to the free list only after it has read the head of it. -/
theorem SupStep.adds {next : Option (Fin u)} (h : SupStep cfg s a t) (hp : Placed s)
    (hnew : Fresh s) (hshapes : Shapes s) (ho : Owns s)
    (hcode : (t.proc (.uproc j)).code = .listAdd b next :: rest) :
    a.actor ≠ some (.uproc j) ∧ t.proc (.uproc j) = s.proc (.uproc j) ∨
    a.actor = some (.uproc j) ∧ (∃ rest', (s.proc (.uproc j)).code = .deallocate :: rest') ∧
      next = s.mem.next none ∧ Has t j b := by
  have hworking : ∀ code : List (Instr u m), Working code →
      code = .listAdd b next :: rest → False := by
    rintro _ h rfl
    exact h.head
  have hshape : ∀ {φ}, (s.proc (.uproc j)).phase = φ → φ ≠ .dead →
      Working (s.proc (.uproc j)).code ∨ Ending (asidOf j) (s.proc (.uproc j)).code :=
    fun h hne ↦ hshapes j (h ▸ hne)
  cases h.goes hp hnew (.uproc j) with
  | still ha h =>
      exact .inl ⟨ha, h⟩
  | blocked c i rest' x ha hready hcode' hi h =>
      rw [h] at hcode
      obtain ⟨rfl, -⟩ := List.cons.inj (hcode'.symm.trans hcode)
      cases hi
  | passed i rest' x hphase hcode' hi h =>
      rw [h] at hcode
      have hall : Working (i :: rest') ∨ Ending (asidOf j) (i :: rest') := by
        rw [← hcode']
        rcases hphase with ⟨hphase, -⟩ | ⟨hphase, -⟩ <;> exact hshape hphase nofun
      rcases hall with hall | hall
      · exact (hworking _ hall.tail hcode).elim
      · exact absurd hcode hall.tail_ne_listAdd
  | ran c i rest' ha hready hcode' h =>
      have hall := hshape hready nofun
      rw [hcode'] at hall
      rcases hall with hall | hall
      · have hown : i = .terminate → ∀ b, (s.proc (.uproc j)).p_supportStruct = some b →
            (s.mem.support_arr b).sup_asid = asidOf j := fun hi b hb ↦ by
          obtain ⟨hsem, hterm⟩ := h.not_sem
          obtain ⟨j', he, hasid⟩ := ho.tagged hready hcode' hsem hterm hb
          rwa [Actor.uproc.inj he]
        rcases h.working hcode' hown hall with hw | ⟨-, he⟩
        · exact (hworking _ hw hcode).elim
        · cases (List.cons.inj (he.symm.trans hcode)).1
      · rcases h.ending hall with ⟨rfl, b', hb', hphase, he⟩ | ⟨hi, he⟩
        · obtain ⟨hinj, -⟩ := List.cons.inj (he.symm.trans hcode)
          obtain ⟨rfl, rfl⟩ := Instr.listAdd.inj hinj
          refine .inr ⟨by rw [ha]; rfl, ⟨rest', hcode'⟩, rfl, ?_, ?_, ?_⟩
          · rw [hphase, hready]
            exact .ready
          · rw [he]
            exact not_leaving_cons rfl nofun
          · rw [h.support]
            exact hb'
        · exact absurd (he.symm.trans hcode) hall.tail_ne_listAdd
  | left i j' hq hready hcode' hcalm hi h =>
      rw [h] at hcode
      obtain ⟨rfl, -⟩ := List.cons.inj hcode
      rcases hi with ⟨_, hi⟩ | ⟨_, _, hi⟩ | hi <;> cases hi
  | answered d c rest' status ha hwaiting hcode' h =>
      rw [h] at hcode
      have hall := hshape hwaiting nofun
      rw [hcode'] at hall
      rcases hall with hall | hall
      · exact (hworking _ hall.tail hcode).elim
      · rcases hall.head with h | h | h | h
        · exact absurd rfl h
        · cases h
        · cases h
        · cases h
  | creates i b' rest' ha hready hcode' h => exact absurd trivial (hshapes.not_test hready hcode')
  | created i b' p rest' hq ha hready hcode' hunborn hmem h =>
      rw [h] at hcode
      cases hcode
  | killed p i rest' ha hready hcode' hi hq h =>
      rw [h] at hcode
      cases hcode

/-- U-procs are created by `test`. -/
theorem Has.before (h : Has t j b) (hstep : SupStep cfg s a t) (hp : Placed s) (hnew : Fresh s)
    (hshapes : Shapes s) (ha : a.actor ≠ some .test) : Has s j b := by
  refine (h.of_step hstep hp hnew).resolve_right ?_
  rintro ⟨_ | i, rest, hact, hready, hcode⟩
  · exact ha hact
  · exact hshapes.not_test hready hcode trivial

theorem Proc.amid_of_listAdd {v : Proc u m} {next : Option (Fin u)}
    (h : v.code = .listAdd b next :: rest) : v.amid = true := by
  rw [Proc.amid, h]

/-- A U-proc gives its support structure back. -/
theorem FreeList.give {hand : Hand u} {next : Option (Fin u)} (h : FreeList s hand)
    (hp : Placed s) (hnew : Fresh s) (hshapes : Shapes s) (ho : Owns s)
    (hapart : ∀ b, hand.Holds b → ∀ i, ¬ Has s i b) (hstep : SupStep cfg s a t)
    (ha : a.actor = some (.uproc j)) (hcode : (s.proc (.uproc j)).code = .listAdd b next :: rest) :
    FreeList t hand := by
  have htest : a.actor ≠ some .test := by rw [ha]; exact nofun
  obtain ⟨hnext, hhas⟩ := h.adding j b next rest hcode
  obtain ⟨hno, halone⟩ := h.alone j b next rest hcode
  obtain ⟨hready, c, ⟨hexec, -⟩ | ⟨hexec, -⟩⟩ := hstep.exec ha hcode rfl nofun nofun
  swap
  · cases hexec
  obtain ⟨hmem, hproc⟩ := Outcome.ok.inj hexec
  -- the process is leaving from now on
  have hgone : ¬ Has t j b := fun hhas' ↦ by
    refine hhas'.stays ?_
    rw [← hproc]
    have hall := hshapes j (by rw [hready]; exact nofun)
    rw [hcode] at hall
    rcases hall with hall | hall
    · exact absurd hall.head id
    · rcases hall.cons with ⟨pre, hpre, -⟩ | ⟨h, -⟩ | ⟨-, -, -, hrest⟩ | ⟨h, -⟩ | ⟨h, -⟩
      · rcases mem_freeFrames (hpre.subset List.mem_cons_self) with h | ⟨n, h⟩ | ⟨f, h⟩ | h <;>
          cases h
      · cases h
      · exact .inl hrest
      · cases h
      · cases h
  have hnone : ∀ i b' next' rest', (t.proc (.uproc i)).code ≠ .listAdd b' next' :: rest' := by
    intro i b' next' rest' hi
    rcases hstep.adds hp hnew hshapes ho hi with ⟨hne, hsame⟩ | ⟨hact, ⟨rest'', hde⟩, -⟩
    · rw [hsame] at hi
      obtain rfl := halone i b' next' rest' hi
      exact hne ha
    · obtain rfl := Actor.uproc.inj (Option.some.inj (hact.symm.trans ha))
      cases hcode.symm.trans hde
  obtain ⟨l, hstack, hfree, -, hout⟩ := h.list
  have hb : b ∉ l := fun hb ↦ hfree b hb j hhas
  refine ⟨⟨b :: l, ?_, fun b' hb' i hi ↦ ?_, fun b' hb' ↦ absurd hb' (hno b'), fun b' hb' hne ↦ ?_⟩,
    fun i b' next' rest' hi ↦ absurd hi (hnone i b' next' rest'),
    fun i b' next' rest' hi ↦ absurd hi (hnone i b' next' rest')⟩
  · rw [← hmem, hnext]
    exact hstack.add hb
  · have hi' := hi.before hstep hp hnew hshapes htest
    rcases List.mem_cons.mp hb' with rfl | hb'
    · obtain rfl := hi'.unique hhas ho
      exact hgone hi
    · exact hfree b' hb' i hi'
  · refine List.not_mem_cons_of_ne_of_not_mem ?_ (hout b' hb' hne)
    rintro rfl
    exact hapart b' hb' j hhas

/-- The free list stays sound when `test` does not run. -/
theorem FreeList.other {hand : Hand u} (h : FreeList s hand) (hp : Placed s) (hnew : Fresh s)
    (hshapes : Shapes s) (ho : Owns s) (hapart : ∀ b, hand.Holds b → ∀ i, ¬ Has s i b)
    (hdeleting : ∀ b, hand = .deleting b → (s.proc .test).amid = true)
    (hstart : (s.proc .test).starting = true) (hserial : Serial s a)
    (hstep : SupStep cfg s a t) (ha : a.actor ≠ some .test) : FreeList t hand := by
  by_cases hadd : ∃ j b next rest, a.actor = some (.uproc j) ∧
      (s.proc (.uproc j)).code = .listAdd b next :: rest
  · obtain ⟨j, b, next, rest, hact, hcode⟩ := hadd
    exact h.give hp hnew hshapes ho hapart hstep hact hcode
  have hlist := hstep.list fun p i rest hact hcode ↦ by
    cases p with
    | test => exact absurd hact ha
    | uproc j =>
        refine ⟨fun b next hi ↦ hadd ⟨j, b, next, rest, hact, hi ▸ hcode⟩, fun j' b hi ↦ ?_⟩
        subst hi
        obtain ⟨hready, -⟩ := hstep.exec hact hcode rfl nofun nofun
        exact hshapes.not_test hready hcode trivial
  have hhas : ∀ i b, Has t i b → Has s i b := fun i b hi ↦ hi.before hstep hp hnew hshapes ha
  by_cases hde : ∃ j rest, a.actor = some (.uproc j) ∧
      (s.proc (.uproc j)).code = .deallocate :: rest
  · -- a U-proc begins to give its structure back: nobody else is doing so
    obtain ⟨j, rest, hact, hcode⟩ := hde
    obtain ⟨htest, hidle⟩ := hserial (.uproc j) hact hstart (by rw [Proc.begins, hcode])
    obtain ⟨l, hstack, hfree, hhead, hout⟩ := h.list
    have hnew' : ∀ i b next rest, (t.proc (.uproc i)).code = .listAdd b next :: rest →
        i = j ∧ next = s.mem.next none ∧ Has t i b := by
      intro i b next rest' hi
      rcases hstep.adds hp hnew hshapes ho hi with ⟨-, hsame⟩ | ⟨hact', -, hnext, hhas'⟩
      · rw [hsame] at hi
        cases (hidle i).symm.trans (Proc.amid_of_listAdd hi)
      · exact ⟨Actor.uproc.inj (Option.some.inj (hact'.symm.trans hact)), hnext, hhas'⟩
    refine ⟨⟨l, hlist.1 ▸ hlist.2 ▸ hstack, fun b hb i hi ↦ hfree b hb i (hhas i b hi), hhead, hout⟩,
      fun i b next rest' hi ↦ ?_, fun i b next rest' hi ↦ ⟨fun b' hb' ↦ ?_, ?_⟩⟩
    · rw [hlist.1]
      exact (hnew' i b next rest' hi).2
    · cases htest.symm.trans (hdeleting b' hb')
    · intro i' b' next' rest'' hi'
      rw [(hnew' i b next rest' hi).1, (hnew' i' b' next' rest'' hi').1]
  · refine h.keep hlist hhas (fun i b next rest hi ↦ ?_) (fun _ hb ↦ hb) fun _ ↦ Iff.rfl
    rcases hstep.adds hp hnew hshapes ho hi with ⟨-, hsame⟩ | ⟨hact, ⟨rest', hcode⟩, -⟩
    · rw [hsame] at hi
      obtain ⟨halive, hstays, hsupport⟩ := (h.adding i b next rest hi).2
      refine ⟨hi, ?_, ?_, ?_⟩ <;> rw [hsame] <;> assumption
    · exact absurd ⟨i, rest', hact, hcode⟩ hde

/-! ## A step -/

theorem TestCode.deleting_amid {v : Proc u m} (h : TestCode n (.deleting b) v.code) :
    v.amid = true := by
  generalize hcode : v.code = code at h
  cases h with
  | deleting j b => rw [Proc.amid, hcode]

theorem awaits_starting {v : Proc u m} (h : v.code = awaits n) : v.starting = false := by
  rw [Proc.starting, h, awaits, List.any_append, List.any_replicate]
  split <;> rfl

/-- A process that is not there stays so, unless `test` does more than call PASSEREN. -/
theorem SupStep.unborn (h : SupStep cfg s a t) (hp : Placed s) (hnew : Fresh s)
    (hshapes : Shapes s) (ha : a.actor = some .test → ∃ i rest x, (s.proc .test).code = i :: rest ∧
      i.sem? = some x) (hj : (s.proc (.uproc j)).phase = .unborn) :
    t.proc (.uproc j) = s.proc (.uproc j) := by
  have hno : ∀ φ, (s.proc (.uproc j)).phase = φ → φ ≠ .unborn → False :=
    fun φ h hne ↦ hne (h.symm.trans hj)
  cases h.goes hp hnew (.uproc j) with
  | still ha h => exact h
  | blocked c i rest x ha hready => exact (hno _ hready nofun).elim
  | passed i rest x hphase =>
      rcases hphase with ⟨h, -⟩ | ⟨h, -⟩ <;> exact (hno _ h nofun).elim
  | ran c i rest ha hready => exact (hno _ hready nofun).elim
  | left i j hi hready => exact (hno _ hready nofun).elim
  | answered d c rest status ha hwaiting => exact (hno _ hwaiting nofun).elim
  | creates i b rest ha hready => exact (hno _ hready nofun).elim
  | created i b p rest hi hact hready hcode =>
      cases p with
      | test =>
          obtain ⟨i', rest', x, hcode', hx⟩ := ha hact
          obtain ⟨rfl, -⟩ := List.cons.inj (hcode.symm.trans hcode')
          cases hx
      | uproc i' => exact absurd trivial (hshapes.not_test hready hcode)
  | killed p i rest hact hready hcode hi hq h =>
      cases p with
      | test =>
          obtain ⟨i', rest', x, hcode', hx⟩ := ha hact
          obtain ⟨rfl, -⟩ := List.cons.inj (hcode.symm.trans hcode')
          rcases hi with rfl | ⟨c, hexec⟩
          · cases hx
          · cases i with
            | passeren y => cases hexec
            | verhogen y => cases hexec
            | _ => cases hx
      | uproc i' =>
          obtain rfl := Actor.uproc.inj (Actor.eq_of_progeny hq)
          exact (hno _ hready nofun).elim

/-- `test` is woken, or nothing happens to it. -/
theorem Scripted.woken {hand : Hand u} (h : Scripted s n hand) (hp : Placed s) (hnew : Fresh s)
    (hstep : SupStep cfg s a t) (ha : a.actor ≠ some .test) :
    (t.proc .test).phase.Alive ∧ TestCode n hand (t.proc .test).code ∧
      ((t.proc .test).starting = true → (s.proc .test).starting = true) := by
  cases hstep.goes hp hnew .test with
  | still _ h' =>
      rw [h']
      exact ⟨h.alive, h.code, id⟩
  | passed i rest x hphase hcode hi h' =>
      have hcode' := h.code
      rw [hcode] at hcode'
      rw [h']
      refine ⟨.ready, ?_, starting_of_tail hcode rfl⟩
      cases hcode'.heads with
      | read j b hi' => rcases hi' with ⟨w, rfl⟩ | ⟨w, rfl⟩ | rfl <;> cases hi
      | passeren n => exact .waiting n
      | _ => cases hi
  | answered d c rest status hact hwaiting hcode h' =>
      have hcode' := h.code
      rw [hcode] at hcode'
      rw [h']
      refine ⟨.ready, ?_, starting_of_tail hcode rfl⟩
      cases hcode'.heads with
      | read j b hi h => exact h
  | blocked c i rest x hact => exact absurd (by rw [hact]; rfl) ha
  | ran c i rest hact => exact absurd (by rw [hact]; rfl) ha
  | left i j hq => cases hq
  | creates i b rest hact => exact absurd hact ha
  | created i b p rest hq => cases hq
  | killed p i rest hact hready hcode hi hq =>
      cases p with
      | test => exact absurd hact ha
      | uproc i' => cases Actor.eq_of_progeny hq

/-- What `test` has started stays started while it does not run. -/
theorem Scripted.other {hand : Hand u} (h : Scripted s n hand) (hp : Placed s) (hnew : Fresh s)
    (hshapes : Shapes s) (ho : Owns s) (hserial : Serial s a) (hstep : SupStep cfg s a t)
    (ha : a.actor ≠ some .test) : Scripted t n hand := by
  obtain ⟨halive, hcode, hstarting⟩ := h.woken hp hnew hstep ha
  have hborn : ∀ i : Fin u, (t.proc (.uproc i)).phase = .unborn →
      (s.proc (.uproc i)).phase = .unborn := fun i hi ↦ by
    by_contra hne
    exact hstep.born hp hnew hne hi
  refine ⟨halive, hcode, fun i ↦ ?_, fun i hi ↦ ?_, fun b hb i hi ↦ ?_, fun j b hb ↦ ?_,
    fun j b hb n ↦ ?_, fun hs ↦ ?_⟩
  · refine ⟨fun hi ↦ (h.born i).mp (hborn i hi), fun hi ↦ ?_⟩
    rw [hstep.unborn hp hnew hshapes (fun he ↦ absurd he ha) ((h.born i).mpr hi)]
    exact (h.born i).mpr hi
  · rw [hstep.unborn hp hnew hshapes (fun he ↦ absurd he ha) (hborn i hi)]
    exact h.nil i (hborn i hi)
  · exact h.apart b hb i (hi.before hstep hp hnew hshapes ha)
  · rw [hstep.sup_asid fun p j' rest hact hready hcode ↦ ?_]
    · exact h.named j b hb
    · cases p with
      | test => exact ha hact
      | uproc i => exact hshapes.not_test hready hcode trivial
  · rw [hstep.entryHI fun p j' w rest hact hready hcode ↦ ?_]
    · exact h.filled j b hb n
    · cases p with
      | test => exact ha hact
      | uproc i => exact hshapes.not_test hready hcode trivial
  · refine (h.free (hstarting hs)).other hp hnew hshapes ho h.apart (fun b hb ↦ ?_) (hstarting hs)
      hserial hstep ha
    exact (hb ▸ h.code).deleting_amid

/-- `test` alone goes on. -/
theorem Scripted.advance {hand hand' : Hand u} (h : Scripted s n hand)
    (hne : ∀ q, q ≠ .test → t.proc q = s.proc q) (halive : (t.proc .test).phase.Alive)
    (hcode : TestCode n hand' (t.proc .test).code)
    (hapart : ∀ b, hand'.Holds b → ∀ i, ¬ Has s i b)
    (hnamed : ∀ j b, hand' = .named j b ∨ hand' = .filled j b →
      (t.mem.support_arr b).sup_asid = asidOf j)
    (hfilled : ∀ j b, hand' = .filled j b → Paged t.mem j b)
    (hfree : (t.proc .test).starting = true → FreeList t hand') : Scripted t n hand' := by
  have hsame : ∀ i : Fin u, t.proc (.uproc i) = s.proc (.uproc i) := fun i ↦ hne _ nofun
  refine ⟨halive, hcode, fun i ↦ ?_, fun i hi ↦ ?_, fun b hb i hi ↦ ?_, hnamed, hfilled, hfree⟩
  · rw [hsame]
    exact h.born i
  · rw [hsame] at hi ⊢
    exact h.nil i hi
  · obtain ⟨halive, hstays, hsupport⟩ := hi
    rw [hsame] at halive hstays hsupport
    exact hapart b hb i ⟨halive, hstays, hsupport⟩

/-- When `test` runs, the U-procs keep what they have. -/
theorem Has.congr (hne : ∀ q, q ≠ .test → t.proc q = s.proc q) : Has t j b ↔ Has s j b := by
  have hsame : t.proc (.uproc j) = s.proc (.uproc j) := hne _ nofun
  refine ⟨fun ⟨h₁, h₂, h₃⟩ ↦ ?_, fun ⟨h₁, h₂, h₃⟩ ↦ ?_⟩
  · rw [hsame] at h₁ h₂ h₃
    exact ⟨h₁, h₂, h₃⟩
  · rw [← hsame] at h₁ h₂ h₃
    exact ⟨h₁, h₂, h₃⟩

/-- The list stays sound when `test` runs something that is no operation on it. -/
theorem FreeList.test {hand hand' : Hand u} (h : FreeList s hand)
    (hne : ∀ q, q ≠ .test → t.proc q = s.proc q)
    (hlist : t.mem.next = s.mem.next ∧ t.mem.prev = s.mem.prev)
    (hholds : ∀ b, hand'.Holds b → hand.Holds b)
    (hdel : ∀ b, hand' = .deleting b ↔ hand = .deleting b) : FreeList t hand' := by
  refine h.keep hlist (fun i b hi ↦ (Has.congr hne).mp hi) (fun i b next rest hi ↦ ?_) hholds hdel
  rw [hne (.uproc i) nofun] at hi
  exact ⟨hi, (Has.congr hne).mpr (h.adding i b next rest hi).2⟩

theorem remaining_starting {v v' : Proc u m} (code : List (Instr u m)) (hcode : v.code = i :: rest)
    (hcode' : v'.code = code ++ rest) (hi : ∀ i ∈ code, ∀ j, i ≠ .allocate j)
    (h : v'.starting = true) : v.starting = true := by
  unfold Proc.starting at h ⊢
  rw [hcode', List.any_append, Bool.or_eq_true] at h
  rw [hcode, List.any_cons, Bool.or_eq_true]
  refine .inr (h.resolve_left fun h ↦ ?_)
  obtain ⟨i', hmem, hi'⟩ := List.any_eq_true.mp h
  cases i' with
  | allocate j => exact hi _ hmem j rfl
  | _ => cases hi'

/-- `test` takes the first support structure of the free list in hand. -/
theorem Scripted.allocate (h : Scripted s j .empty)
    (hcode : (s.proc .test).code = .allocate j :: remaining (j + 1)) (hserial : Serial s a)
    (hstep : SupStep cfg s a t) (ha : a.actor = some .test) : Script t := by
  have hstart : (s.proc .test).starting = true := by
    rw [Proc.starting, hcode]
    rfl
  obtain ⟨-, hidle⟩ := hserial .test ha hstart (by rw [Proc.begins, hcode])
  obtain ⟨l, hstack, hfree, -⟩ := (h.free hstart).list
  obtain ⟨hready, c, ⟨hexec, hne⟩ | ⟨hexec, -⟩⟩ := hstep.exec ha hcode rfl (by rintro ⟨⟩) (by rintro _ _ ⟨⟩)
  · simp only [exec] at hexec
    split at hexec
    · cases hexec
    · rename_i b hhead
      obtain ⟨hmem, hproc⟩ := Outcome.ok.inj hexec
      have hl : l.head? = some b := hstack.next_none.symm.trans hhead
      have hb : b ∈ l := List.mem_of_mem_head? hl
      refine .inr ⟨j, .deleting b, h.advance hne ?_ ?_ ?_ (by rintro _ _ (⟨⟨⟩⟩ | ⟨⟨⟩⟩)) (by rintro _ _ ⟨⟩) fun _ ↦ ?_⟩
      · rw [← hproc]
        exact h.alive
      · rw [← hproc]
        exact .deleting j b
      · rintro b' rfl i
        exact hfree b hb i
      · refine ⟨⟨l, ?_, fun b' hb' i hi ↦ hfree b' hb' i ((Has.congr hne).mp hi), ?_, ?_⟩, ?_, ?_⟩
        · rw [← hmem]
          exact hstack
        · intro b' hb'
          rw [hl, Hand.deleting.inj hb']
        · rintro b' rfl hb'
          exact absurd rfl hb'
        · intro i b' next rest hi
          rw [hne (.uproc i) (by rintro ⟨⟩)] at hi
          cases (hidle i).symm.trans (Proc.amid_of_listAdd hi)
        · intro i b' next rest hi
          rw [hne (.uproc i) (by rintro ⟨⟩)] at hi
          cases (hidle i).symm.trans (Proc.amid_of_listAdd hi)
  · simp only [exec] at hexec
    split at hexec <;> cases hexec

/-- The support structure in hand is taken out of the free list. -/
theorem Scripted.listDel (h : Scripted s j (.deleting b))
    (hcode : (s.proc .test).code = .listDel j b :: remaining (j + 1))
    (hstep : SupStep cfg s a t) (ha : a.actor = some .test) : Script t := by
  obtain ⟨hready, c, ⟨hexec, hne⟩ | ⟨hexec, -⟩⟩ := hstep.exec ha hcode rfl nofun nofun
  swap
  · cases hexec
  obtain ⟨hmem, hproc⟩ := Outcome.ok.inj hexec
  refine .inr ⟨j, .taken b, h.advance hne ?_ ?_ h.apart nofun nofun fun hs ↦ ?_⟩
  · rw [← hproc]
    exact h.alive
  · rw [← hproc]
    exact .initialising j b
  · rw [← hproc] at hs
    have hf := h.free (remaining_starting [.initSupport j b] hcode rfl (fun i hi j' ↦ by
      rw [List.mem_singleton.mp hi]
      exact nofun) hs)
    obtain ⟨l, hstack, hfree, hhead, -⟩ := hf.list
    have hl := hhead b rfl
    cases l with
    | nil => cases hl
    | cons b' l =>
        obtain rfl := Option.some.inj hl
        have hnone : ∀ i b' next rest,
            (t.proc (.uproc i)).code ≠ .listAdd b' next :: rest := by
          intro i b' next rest hi
          rw [hne (.uproc i) nofun] at hi
          exact (hf.alone i b' next rest hi).1 _ rfl
        refine ⟨⟨l, ?_, fun b hb i hi ↦ ?_, nofun, ?_⟩, ?_, ?_⟩
        · rw [← hmem, Memory.listDel, hstack.next_none]
          exact hstack.del
        · exact hfree b (List.mem_cons_of_mem _ hb) i ((Has.congr hne).mp hi)
        · rintro b rfl -
          exact (List.nodup_cons.mp hstack.nodup).1
        · exact fun i b' next rest hi ↦ absurd hi (hnone i b' next rest)
        · exact fun i b' next rest hi ↦ absurd hi (hnone i b' next rest)

/-- The support structure in hand gets an ASID. -/
theorem Scripted.initSupport (h : Scripted s j (.taken b))
    (hcode : (s.proc .test).code = .initSupport j b :: remaining (j + 1))
    (hstep : SupStep cfg s a t) (ha : a.actor = some .test) : Script t := by
  obtain ⟨hready, c, ⟨hexec, hne⟩ | ⟨hexec, -⟩⟩ := hstep.exec ha hcode rfl nofun nofun
  swap
  · cases hexec
  obtain ⟨hmem, hproc⟩ := Outcome.ok.inj hexec
  have hlist := hstep.list fun p i rest hact hcode' ↦ by
    obtain rfl := Option.some.inj (hact.symm.trans ha)
    obtain ⟨rfl, -⟩ := List.cons.inj (hcode.symm.trans hcode')
    exact ⟨nofun, nofun⟩
  refine .inr ⟨j, .named j b, h.advance hne ?_ ?_ h.apart ?_ nofun fun hs ↦ ?_⟩
  · rw [← hproc]
    exact h.alive
  · rw [← hproc]
    exact .reading j b _ (List.suffix_refl _)
  · rintro j' b' (he | he)
    · obtain ⟨rfl, rfl⟩ := Hand.named.inj he
      rw [← hmem]
      exact congrArg SupportStruct.sup_asid (setSupport_self s.mem b fun x ↦
        { x with sup_asid := asidOf j })
    · cases he
  · rw [← hproc] at hs
    refine (h.free ?_).test hne hlist (fun _ hb ↦ hb) fun b' ↦ ?_
    · refine remaining_starting (backingStoreOperation FLASHREAD (asidOf j) 0
        (cfg.tmpFrame s.mem.curr_offset) ++ [.initPageTable j b (cfg.tmpFrame s.mem.curr_offset)])
        hcode (by rw [List.append_assoc]; rfl) (fun i hi j' he ↦ ?_) hs
      subst he
      simp [backingStoreOperation] at hi
    · exact iff_of_false nofun nofun

/-- An instruction of `test` that neither takes from the free list nor gives an ASID. -/
def Instr.Steady (i : Instr u m) : Prop :=
  (∀ b next, i ≠ .listAdd b next) ∧ ∀ j b, i ≠ .listDel j b ∧ i ≠ .initSupport j b

/-- `test` goes on without touching the free list. -/
theorem Scripted.goOn {hand hand' : Hand u} (h : Scripted s n hand)
    (hstep : SupStep cfg s a t) (ha : a.actor = some .test)
    (hi : (s.proc .test).code = i :: rest) (hsteady : i.Steady)
    (hne : ∀ q, q ≠ .test → t.proc q = s.proc q) (halive : (t.proc .test).phase.Alive)
    (hcode : TestCode n hand' (t.proc .test).code)
    (hstart : (t.proc .test).starting = true → (s.proc .test).starting = true)
    (hholds : ∀ b, hand'.Holds b → hand.Holds b)
    (hnamed : ∀ j b, hand' = .named j b ∨ hand' = .filled j b →
      hand = .named j b ∨ hand = .filled j b)
    (hfilled : ∀ j b, hand' = .filled j b → Paged t.mem j b)
    (hdel : ∀ b, hand' = .deleting b ↔ hand = .deleting b) : Scripted t n hand' := by
  have hlist := hstep.list fun p i' rest' hact hi' ↦ by
    obtain rfl := Option.some.inj (hact.symm.trans ha)
    obtain ⟨rfl, -⟩ := List.cons.inj (hi.symm.trans hi')
    exact ⟨hsteady.1, fun j b ↦ (hsteady.2 j b).1⟩
  refine h.advance hne halive hcode (fun b hb ↦ h.apart b (hholds b hb)) (fun j b hb ↦ ?_) hfilled
    fun hs ↦ (h.free (hstart hs)).test hne hlist hholds hdel
  rw [hstep.sup_asid fun p j' rest' hact _ hi' ↦ ?_]
  · exact h.named j b (hnamed j b hb)
  · obtain rfl := Option.some.inj (hact.symm.trans ha)
    obtain ⟨rfl, -⟩ := List.cons.inj (hi.symm.trans hi')
    exact (hsteady.2 j' b).2 rfl

/-- The header of the drive is read. -/
theorem Scripted.read (h : Scripted s j (.named j b))
    (hi : (∃ d w, i = .setData0 d w) ∨ (∃ d w, i = .doIo d w) ∨ i = .checkStatus)
    (hcode : (s.proc .test).code = i :: rest) (hrest : TestCode j (.named j b) rest)
    (hstep : SupStep cfg s a t) (ha : a.actor = some .test) : Script t := by
  have hsteady : i.Steady := by
    rcases hi with ⟨d, w, rfl⟩ | ⟨d, w, rfl⟩ | rfl <;> exact ⟨nofun, fun _ _ ↦ ⟨nofun, nofun⟩⟩
  have hgo : (∀ q, q ≠ .test → t.proc q = s.proc q) → (t.proc .test).phase.Alive →
      ((t.proc .test).code = rest ∨ (t.proc .test).code = (s.proc .test).code) → Script t := by
    intro hne halive ht
    refine .inr ⟨j, .named j b, h.goOn hstep ha hcode hsteady hne halive ?_ ?_ (fun _ hb ↦ hb)
      (fun _ _ hb ↦ hb) nofun fun _ ↦ Iff.rfl⟩ <;> rcases ht with ht | ht
    · rwa [ht]
    · rw [ht]
      exact h.code
    · exact starting_of_tail hcode ht
    · rw [Proc.starting, ht]
      exact id
  rcases hi with ⟨d, w, rfl⟩ | ⟨d, w, rfl⟩ | rfl
  · obtain ⟨hready, c, ⟨hexec, hne⟩ | ⟨hexec, -⟩⟩ := hstep.exec ha hcode rfl nofun nofun
    · obtain ⟨-, hproc⟩ := Outcome.ok.inj hexec
      refine hgo hne ?_ (.inl ?_) <;> rw [← hproc]
      · exact h.alive
      · rfl
    · cases hexec
  · obtain ⟨hready, c, ⟨hexec, hne⟩ | ⟨hexec, -⟩⟩ := hstep.exec ha hcode rfl nofun nofun
    · obtain ⟨-, hproc⟩ := Outcome.ok.inj hexec
      refine hgo hne ?_ (.inr ?_) <;> rw [← hproc]
      exact .waiting
    · cases hexec
  · obtain ⟨hready, c, ⟨hexec, hne⟩ | ⟨hexec, -⟩⟩ := hstep.exec ha hcode rfl nofun nofun
    · simp only [exec] at hexec
      split at hexec
      · obtain ⟨-, hproc⟩ := Outcome.ok.inj hexec
        refine .inr ⟨j, .empty, h.goOn hstep ha hcode hsteady hne ?_ ?_ ?_
          (fun _ hb ↦ hb.elim) (fun _ _ hb ↦ by rcases hb with hb | hb <;> cases hb)
          (by rintro _ _ ⟨⟩) fun _ ↦ iff_of_false (by rintro ⟨⟩) (by rintro ⟨⟩)⟩ <;> rw [← hproc]
        · exact h.alive
        · exact .failed j
        · intro hs
          cases hs.symm.trans (Working.starting .trap)
      · obtain ⟨-, hproc⟩ := Outcome.ok.inj hexec
        refine hgo hne ?_ (.inl ?_) <;> rw [← hproc]
        · exact h.alive
        · rfl
    · simp only [exec] at hexec
      split at hexec <;> cases hexec

/-- The page table of the new U-proc is made. -/
theorem Scripted.initPageTable {w : Word} (h : Scripted s j (.named j b))
    (hcode : (s.proc .test).code = .initPageTable j b w :: remaining (j + 1))
    (hstep : SupStep cfg s a t) (ha : a.actor = some .test) : Script t := by
  obtain ⟨hready, c, ⟨hexec, hne⟩ | ⟨hexec, -⟩⟩ := hstep.exec ha hcode rfl nofun nofun
  swap
  · cases hexec
  obtain ⟨hmem, hproc⟩ := Outcome.ok.inj hexec
  refine .inr ⟨j, .filled j b, h.goOn hstep ha hcode ⟨nofun, fun _ _ ↦ ⟨nofun, nofun⟩⟩ hne ?_ ?_ ?_
    (fun _ hb ↦ hb) (fun j' b' hb ↦ ?_) (fun j' b' hb n ↦ ?_) fun _ ↦ iff_of_false nofun nofun⟩
  · rw [← hproc]
    exact h.alive
  · rw [← hproc]
    exact .creating j b
  · refine remaining_starting [.createProcess j b] hcode (by rw [← hproc]; rfl)
      fun i hi j' ↦ ?_
    rw [List.mem_singleton.mp hi]
    exact nofun
  · rcases hb with hb | hb
    · cases hb
    · cases hb
      exact .inl rfl
  · obtain ⟨rfl, rfl⟩ := Hand.filled.inj hb
    have htable : (t.mem.support_arr b).sup_privatePgTbl =
        PandosPlus.initPageTable (asidOf j) (s.mem.ram w) := by
      rw [← hmem]
      exact congrArg SupportStruct.sup_privatePgTbl (setSupport_self s.mem b fun x ↦
        { x with sup_privatePgTbl := PandosPlus.initPageTable (asidOf j) (s.mem.ram w) })
    rw [Memory.pte, htable, initPageTable_entryHI]

/-- A U-proc is created, with the support structure in hand. -/
theorem Scripted.createProcess (h : Scripted s j (.filled j b))
    (hcode : (s.proc .test).code = .createProcess j b :: remaining (j + 1))
    (hstep : SupStep cfg s a t) (ha : a.actor = some .test) : Script t := by
  obtain ⟨hready, hmem, htest, hnewborn, hne⟩ := hstep.creation ha hcode nofun
  have hself : ∀ i : Fin u, i ≠ j → t.proc (.uproc i) = s.proc (.uproc i) := fun i hi ↦
    hne (.uproc i) nofun fun he ↦ hi (Actor.uproc.inj he)
  have hunborn := (h.born j).mpr le_rfl
  -- the new U-proc alone has got something
  have hhas : ∀ i b', Has t i b' → i = j ∧ b' = b ∨ Has s i b' := fun i b' ⟨halive, hstays, hsup⟩ ↦ by
    by_cases hi : i = j
    · subst hi
      rw [hnewborn] at hsup
      exact .inl ⟨rfl, (Option.some.inj hsup).symm⟩
    · rw [hself i hi] at halive hstays hsup
      exact .inr ⟨halive, hstays, hsup⟩
  have hkeeps : ∀ i b', Has s i b' → Has t i b' := fun i b' ⟨halive, hstays, hsup⟩ ↦ by
    have hi : i ≠ j := by
      rintro rfl
      exact halive.1 hunborn
    exact ⟨by rwa [hself i hi], by rwa [hself i hi], by rwa [hself i hi]⟩
  refine .inr ⟨j + 1, .empty, ?_, ?_, fun i ↦ ?_, fun i hi ↦ ?_, nofun, nofun, nofun, fun hs ↦ ?_⟩
  · rw [htest]
    exact h.alive
  · rw [htest]
    exact .allocating j.isLt
  · by_cases hi : i = j
    · subst hi
      rw [hnewborn]
      exact iff_of_false nofun (Nat.not_succ_le_self _)
    · rw [hself i hi, h.born, Nat.succ_le_iff, Nat.lt_iff_le_and_ne]
      exact (and_iff_left fun he ↦ hi (Fin.ext he.symm)).symm
  · by_cases hij : i = j
    · subst hij
      rw [hnewborn]
    · rw [hself i hij] at hi ⊢
      exact h.nil i hi
  · have hf := h.free (starting_of_tail hcode (by rw [htest]; rfl) hs)
    obtain ⟨l, hstack, hfree, -, hout⟩ := hf.list
    have hadd : ∀ i b' next rest, (t.proc (.uproc i)).code = .listAdd b' next :: rest →
        (s.proc (.uproc i)).code = .listAdd b' next :: rest := by
      intro i b' next rest hi
      by_cases hij : i = j
      · rw [hij, hnewborn] at hi
        cases hi
      · rwa [hself i hij] at hi
    refine ⟨⟨l, hmem ▸ hstack, fun b' hb' i hi ↦ ?_, nofun, nofun⟩, fun i b' next rest hi ↦ ?_,
      fun i b' next rest hi ↦ ⟨nofun, fun i' b'' next' rest' hi' ↦ ?_⟩⟩
    · rcases hhas i b' hi with ⟨rfl, rfl⟩ | hi
      · exact hout b' rfl nofun hb'
      · exact hfree b' hb' i hi
    · obtain ⟨hnext, hi'⟩ := hf.adding i b' next rest (hadd i b' next rest hi)
      rw [hmem]
      exact ⟨hnext, hkeeps i b' hi'⟩
    · exact (hf.alone i b' next rest (hadd i b' next rest hi)).2 i' b'' next' rest'
        (hadd i' b'' next' rest' hi')

/-- `test` waits for a signal. -/
theorem Scripted.passeren (h : Scripted s u .empty) (hp : Placed s) (hnew : Fresh s)
    (hshapes : Shapes s) (hcode : (s.proc .test).code = .passeren .master :: awaits n)
    (hstep : SupStep cfg s a t) (ha : a.actor = some .test) : Script t := by
  have hborn : ∀ i : Fin u, (t.proc (.uproc i)).phase = .unborn →
      (s.proc (.uproc i)).phase = .unborn := fun i hi ↦ by
    by_contra hne
    exact hstep.born hp hnew hne hi
  have hkeep : ∀ i : Fin u, (s.proc (.uproc i)).phase = .unborn →
      t.proc (.uproc i) = s.proc (.uproc i) := fun i ↦
    hstep.unborn hp hnew hshapes fun _ ↦ ⟨_, _, _, hcode, rfl⟩
  obtain ⟨n', halive, ht⟩ : ∃ n', (t.proc .test).phase.Alive ∧ (t.proc .test).code = awaits n' := by
    cases hstep.goes hp hnew .test with
    | still hne => exact absurd ha hne
    | blocked c i rest x _ _ _ _ h' =>
        rw [h']
        exact ⟨n + 1, .asleep, hcode⟩
    | passed i rest x _ hcode' _ h' =>
        obtain ⟨-, rfl⟩ := List.cons.inj (hcode.symm.trans hcode')
        rw [h']
        exact ⟨n, .ready, rfl⟩
    | ran c i rest _ _ hcode' h' =>
        obtain ⟨rfl, -⟩ := List.cons.inj (hcode.symm.trans hcode')
        cases h'.not_sem.1
    | left i j hq => cases hq
    | answered d c rest status hact => rw [hact] at ha; cases ha
    | creates i b rest _ _ hcode' => cases hcode.symm.trans hcode'
    | created i b p rest hq => cases hq
    | killed p i rest hact _ hcode' hi =>
        obtain rfl := Option.some.inj (hact.symm.trans ha)
        obtain ⟨rfl, -⟩ := List.cons.inj (hcode.symm.trans hcode')
        rcases hi with hi | ⟨c, hexec⟩
        · cases hi
        · cases hexec
  refine .inr ⟨u, .empty, halive, ht ▸ .waiting n', fun i ↦ ?_, fun i hi ↦ ?_, nofun, nofun, nofun,
    fun hs ↦ ?_⟩
  · refine ⟨fun hi ↦ (h.born i).mp (hborn i hi), fun hi ↦ ?_⟩
    rw [hkeep i ((h.born i).mpr hi)]
    exact (h.born i).mpr hi
  · rw [hkeep i (hborn i hi)]
    exact h.nil i (hborn i hi)
  · cases hs.symm.trans (awaits_starting ht)

/-- A process that calls TERMPROCESS is killed. -/
theorem SupStep.terminated (hstep : SupStep cfg s a t) (hp : Placed s) (hnew : Fresh s)
    (ha : a.actor = some p) (hcode : (s.proc p).code = .termProcess :: rest) :
    (t.proc p).phase = .dead := by
  have hhead : ∀ {i rest'}, (s.proc p).code = i :: rest' → i = .termProcess := fun h ↦
    (List.cons.inj (h.symm.trans hcode)).1
  cases hstep.goes hp hnew p with
  | still hne => exact absurd ha hne
  | blocked c i rest' x _ _ hcode' hx =>
      rw [hhead hcode'] at hx
      cases hx
  | passed i rest' x _ hcode' hx =>
      rw [hhead hcode'] at hx
      cases hx
  | ran c i rest' _ _ hcode' h => exact absurd (hhead hcode') h.not_sem.2
  | left i j _ _ hnil => cases hnil.symm.trans hcode
  | answered d c rest' status hact =>
      rw [hact] at ha
      cases ha
  | creates i b rest' _ _ hcode' => cases hhead hcode'
  | created i b p' rest' _ hact hready hcode' hunborn =>
      obtain rfl := Option.some.inj (hact.symm.trans ha)
      cases hready.symm.trans hunborn
  | killed p' i rest' _ _ _ _ _ h => rw [h]

/-- A trap is the end of `test`, which has no support structure. -/
theorem SupStep.test_traps (hstep : SupStep cfg s a t) (ho : Owns s) (ha : a.actor = some .test)
    (hcode : (s.proc .test).code = .release x :: rest) : (t.proc .test).phase = .dead := by
  obtain ⟨-, c, ⟨hexec, -⟩ | ⟨-, rfl⟩⟩ := hstep.exec ha hcode rfl nofun nofun
  · simp only [SupportLevel.exec, ho.test] at hexec
    cases hexec
  · rw [kill_dead s (Actor.progeny_self _)]

/-- When `test` runs it has something to do. -/
theorem SupStep.test_head (hstep : SupStep cfg s a t) (ha : a.actor = some .test) :
    ∃ i rest, (s.proc .test).code = i :: rest := by
  have hsome : ∀ {p : Actor u} {c : Choice k} {i : Instr u m} {rest},
      (Event.run p c).actor = some .test → (s.proc p).code = i :: rest →
      ∃ i rest, (s.proc .test).code = i :: rest := by
    intro p c i rest ha hcode
    obtain rfl := Option.some.inj ha
    exact ⟨i, rest, hcode⟩
  cases hstep.moved with
  | passeren _ hcode => exact hsome ha hcode
  | verhogen _ hcode => exact hsome ha hcode
  | terminated _ hcode => exact hsome ha hcode
  | created _ hcode => exact hsome ha hcode
  | ran _ hcode => exact hsome ha hcode
  | faulted _ hcode => exact hsome ha hcode
  | left => cases ha
  | completed => cases ha

/-- A step keeps `test` in its code, if it is no operation on the free list that begins in
the middle of another. -/
theorem Script.step (h : Script s) (hp : Placed s) (hshapes : Shapes s) (ho : Owns s)
    (hserial : Serial s a) (hstep : SupStep cfg s a t) : Script t := by
  have hnew := h.fresh hshapes
  rcases h with hdead | ⟨n, hand, h⟩
  · exact .inl (hstep.dead hp hnew hdead)
  by_cases ha : a.actor = some .test
  swap
  · exact .inr ⟨n, hand, h.other hp hnew hshapes ho hserial hstep ha⟩
  obtain ⟨i, rest, hcode⟩ := hstep.test_head ha
  have hheads := h.code
  rw [hcode] at hheads
  cases hheads.heads with
  | allocate j => exact h.allocate hcode hserial hstep ha
  | listDel j b => exact h.listDel hcode hstep ha
  | initSupport j b => exact h.initSupport hcode hstep ha
  | read j b hi hrest =>
      refine h.read ?_ hcode hrest hstep ha
      exact hi.imp (fun ⟨w, he⟩ ↦ ⟨_, w, he⟩) (Or.imp_left fun ⟨w, he⟩ ↦ ⟨_, w, he⟩)
  | initPageTable j b w => exact h.initPageTable hcode hstep ha
  | createProcess j b => exact h.createProcess hcode hstep ha
  | release n x rest => exact .inl (hstep.test_traps ho ha hcode)
  | passeren n => exact h.passeren hp hnew hshapes hcode hstep ha
  | termProcess => exact .inl (hstep.terminated hp hnew ha hcode)

end PandosPlus.SupportLevel
