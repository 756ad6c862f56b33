import PandosPlus.Phase3.Locks
import PandosPlus.Phase3.Runs
import PandosPlus.Phase3.Startup

/-!
# Runs of the support level

What holds in every state of a run (`Running`), whether it begins before the first U-proc
is started or after the last, as long as no operation on the free list begins in the middle
of another.  When the U-procs have been started nobody takes from the free list any more and
nothing has to be assumed.  The locks are exclusive then: the tag of a lock is that of the
one process that holds it, a V never blocks, and a U-proc that terminates holds nothing.
-/

namespace PandosPlus.SupportLevel

open Lts TaggedLock Threaded

variable {u m k : Nat} {cfg : PoolConfig m} {s t : System u m k} {p q : Actor u} {x : SemId}
variable {a : Event u k} {mode : SemId → Actor u → Mode} {i : Instr u m} {rest : List (Instr u m)}

/-- What holds in every state. -/
structure Running (s : System u m k) (mode : SemId → Actor u → Mode) : Prop where
  placed : Placed s
  shapes : Shapes s
  script : Script s
  owns : Owns s
  locks : Locks s mode

theorem Running.fresh (h : Running s mode) : Fresh s := h.script.fresh h.shapes

theorem Running.step (h : Running s mode) (hserial : Serial s a) (hstep : SupStep cfg s a t) :
    Running t (track s a t mode) where
  placed := h.placed.step h.fresh hstep
  shapes := h.shapes.step h.owns h.placed h.fresh hstep
  script := h.script.step h.placed h.shapes h.owns hserial hstep
  owns := h.owns.step h.placed h.fresh (h.script.careful h.shapes) hstep
  locks := h.locks.step h.placed h.owns h.fresh hstep

/-! ## The first states -/

/-- Nobody is blocked at first. -/
theorem Placed.new (hsem : s.sem = initialSem) (hidle : ∀ d, (s.mem.dev d).waiting = [])
    (hfree : ∀ p, (s.proc p).phase.Free) : Placed s := by
  refine ⟨⟨fun p x ↦ ?_, fun x ↦ ?_⟩, ⟨fun p d ↦ ?_, fun d ↦ ?_⟩,
    fun p hp ↦ absurd hp (hfree p).1, fun p hp ↦ absurd hp (hfree p).2⟩
  · rw [(Proc.free_none (hfree p)).1, hsem]
    exact iff_of_false List.not_mem_nil nofun
  · rw [hsem]
    exact .nil
  · rw [(Proc.free_none (hfree p)).2, hidle]
    exact iff_of_false List.not_mem_nil nofun
  · rw [hidle]
    exact .nil

/-- Every lock is free at first. -/
theorem Locks.new (hsem : s.sem = initialSem) (huser : s.mem.user_asid = fun _ ↦ NOPROC)
    (hfollows : ∀ p x, x ≠ .master → shifts p x (s.proc p).code .out = some .out) :
    Locks s fun _ _ ↦ .out := by
  refine ⟨fun x hx ↦ ?_, fun x _ p hp ↦ absurd rfl hp, fun p _ x hx ↦ hfollows p x hx⟩
  have hfree : s.sem x = { val := 1, queue := [] } := by
    rw [hsem, initialSem, if_neg hx]
  rw [hfree, huser]
  exact Inv.new

theorem shifts_awaits (hx : x ≠ .master) (n : Nat) :
    shifts .test x (awaits n : List (Instr u m)) .out = some .out := by
  induction n with
  | zero => exact shifts_step (keep_of rfl) rfl
  | succ n ih =>
      refine shifts_step (ξ := .out) ?_ ih
      rw [Instr.shift, if_neg hx.symm, keep_of ⟨fun _ ↦ rfl, fun _ ↦ rfl⟩]

theorem shifts_test (hx : x ≠ .master) :
    shifts .test x (test : List (Instr u m)) .out = some .out := by
  rw [test, List.append_assoc, shifts_append]
  refine ⟨.out, ?_, shifts_awaits hx u⟩
  induction List.finRange u with
  | nil => rfl
  | cons j l ih => exact shifts_step (keep_of ⟨rfl, rfl⟩) ih

/-- Support structures are added to the free list one by one. -/
theorem foldl_listAdd (l : List (Fin u)) : ∀ (r : Memory u m k) (l₀ : List (Fin u)),
    Stack r.next r.prev l₀ → (l ++ l₀).Nodup →
      ∃ l', Stack (l.foldl (fun s a ↦ s.listAdd a (s.next none)) r).next
        (l.foldl (fun s a ↦ s.listAdd a (s.next none)) r).prev l' := by
  induction l with
  | nil => exact fun r l₀ h _ ↦ ⟨l₀, h⟩
  | cons a l ih =>
      intro r l₀ h hnodup
      have ha : a ∉ l₀ := fun ha ↦ (List.nodup_cons.mp hnodup).1 (List.mem_append_right _ ha)
      exact ih _ (a :: l₀) (h.add ha) (List.nodup_middle.mpr hnodup)

theorem Memory.initial_stack (support_arr : Fin u → SupportStruct) (ram : Word → Page)
    (flash : Int → Nat → Page) (dev : Dev → Word × Word) :
    ∃ l, Stack (Memory.initial support_arr ram flash dev : Memory u m k).next
      (Memory.initial support_arr ram flash dev : Memory u m k).prev l :=
  foldl_listAdd (List.finRange u) _ [] ⟨.nil, rfl, nofun⟩
    (by rw [List.append_nil]; exact List.nodup_finRange u)

theorem Booted.running (h : Booted s) : Running s fun _ _ ↦ .out := by
  obtain ⟨support_arr, ram, flash, dev, hmem, hsem, hready, hcode, hsupport, hborn⟩ := h
  obtain ⟨next, prev, heq⟩ := Memory.initial_eq (m := m) (k := k) support_arr ram flash dev
  have hnobody : ∀ i b, ¬ Has s i b := fun i b hi ↦ hi.alive.1 (hborn i).1
  refine ⟨.new hsem (fun d ↦ ?_) ?_, fun j _ ↦ ?_, .inr ⟨0, .empty, ?_⟩, ⟨hsupport, ?_⟩,
    .new hsem ?_ ?_⟩
  · rw [hmem, heq]
  · rintro (_ | i)
    · exact hready ▸ .ready
    · exact (hborn i).1 ▸ .unborn
  · rw [(hborn j).2]
    exact .inl .nil
  · refine ⟨hready ▸ .ready, ?_, fun i ↦ ?_, fun i _ ↦ (hborn i).2, nofun, nofun, nofun,
      fun _ ↦ ?_⟩
    · rw [hcode, ← remaining_zero]
      exact .allocating (Nat.zero_le u)
    · exact iff_of_true (hborn i).1 (Nat.zero_le _)
    · obtain ⟨l, hl⟩ := Memory.initial_stack (m := m) (k := k) support_arr ram flash dev
      have hno : ∀ i b next rest, (s.proc (.uproc i)).code ≠ .listAdd b next :: rest := by
        intro i b next rest hi
        cases hi.symm.trans (hborn i).2
      refine ⟨⟨l, hmem ▸ hl, fun b _ i ↦ hnobody i b, nofun, nofun⟩,
        fun i b next rest hi ↦ absurd hi (hno i b next rest),
        fun i b next rest hi ↦ absurd hi (hno i b next rest)⟩
  · exact fun j hj ↦ absurd (hborn j).1 hj.1
  · rw [hmem, heq]
  · rintro (_ | i) x hx
    · rw [hcode]
      exact shifts_test hx
    · rw [(hborn i).2]
      rfl

theorem Started.running (h : Started s) : Running s fun _ _ ↦ .out where
  placed := by
    refine .new h.sem h.idle ?_
    rintro (_ | i)
    · exact h.waits.1 ▸ .ready
    · exact (h.born i).1 ▸ .ready
  shapes j _ := by
    rw [(h.born j).2]
    exact .inl .nil
  script := by
    refine .inr ⟨u, .empty, h.waits.1 ▸ .ready, ?_, fun i ↦ ?_, fun i _ ↦ (h.born i).2, nofun,
      nofun, nofun, fun hs ↦ ?_⟩
    · rw [h.waits.2.1]
      exact .waiting u
    · rw [(h.born i).1]
      exact iff_of_false nofun (Nat.not_le.mpr i.isLt)
    · cases hs.symm.trans (awaits_starting h.waits.2.1)
  owns := by
    obtain ⟨f, -, hf⟩ := h.support
    exact ⟨h.waits.2.2, fun i _ _ ↦ ⟨f i, (hf i).1, (hf i).2.1⟩⟩
  locks := by
    refine .new h.sem h.user_asid ?_
    rintro (_ | i) x hx
    · rw [h.waits.2.1]
      exact shifts_awaits hx u
    · rw [(h.born i).2]
      rfl

/-! ## After the start -/

/-- `test` only waits for the U-procs, or has ended. -/
def Waits (s : System u m k) : Prop :=
  (s.proc .test).code = [] ∨ ∃ n, (s.proc .test).code = awaits n

/-- Nobody takes from the free list any more. -/
theorem Waits.serial (h : Waits s) (a : Event u k) : Serial s a := fun p _ hs ↦ by
  rcases h with h | ⟨n, h⟩
  · rw [Proc.starting, h] at hs
    cases hs
  · cases hs.symm.trans (awaits_starting h)

theorem awaits_cons {n : Nat} (h : awaits n = i :: rest) :
    i = .termProcess ∨ i = .passeren .master ∧ ∃ n', rest = awaits n' := by
  cases n with
  | zero => exact .inl (List.cons.inj h).1.symm
  | succ n => exact .inr ⟨(List.cons.inj h).1.symm, n, (List.cons.inj h).2.symm⟩

/-- `test` waits, whatever happens. -/
theorem Waits.step (h : Waits s) (hp : Placed s) (hnew : Fresh s) (hstep : SupStep cfg s a t) :
    Waits t := by
  have hheads : ∀ {i rest}, (s.proc .test).code = i :: rest →
      i = .termProcess ∨ i = .passeren .master ∧ ∃ n', rest = awaits n' := fun hcode ↦ by
    rcases h with h | ⟨n, h⟩
    · cases hcode.symm.trans h
    · exact awaits_cons (h.symm.trans hcode)
  cases hstep.goes hp hnew .test with
  | still _ h' =>
      rw [Waits, h']
      exact h
  | blocked c i rest x _ _ _ _ h' =>
      rw [Waits, h']
      exact h
  | passed i rest x _ hcode hi h' =>
      rcases hheads hcode with rfl | ⟨-, n, rfl⟩
      · cases hi
      · rw [Waits, h']
        exact .inr ⟨n, rfl⟩
  | ran c i rest _ _ hcode h' =>
      obtain ⟨hsem, hterm⟩ := h'.not_sem
      rcases hheads hcode with rfl | ⟨rfl, -⟩
      · exact absurd rfl hterm
      · cases hsem
  | left i j hq => cases hq
  | answered d c rest status _ _ hcode =>
      rcases hheads hcode with he | ⟨he, -⟩ <;> cases he
  | creates i b rest _ _ hcode =>
      rcases hheads hcode with he | ⟨he, -⟩ <;> cases he
  | created i b p rest hq => cases hq
  | killed p i rest _ _ _ _ _ h' =>
      rw [Waits, h']
      exact .inl rfl

/-! ## The locks are exclusive -/

theorem run_running {s₀ : System u m k} {as : List (Event u k)} (hs : Started s₀)
    (hrun : Run (WithHistory (SupStep cfg) track) (s₀, fun _ _ ↦ .out) as (s, mode)) :
    Running s mode :=
  (hrun.invariant (I := fun x ↦ Running x.1 x.2 ∧ Waits x.1) (fun x a y ⟨hx, hw⟩ hstep ↦ by
    obtain ⟨hstep, hg⟩ := hstep
    rw [hg]
    exact ⟨hx.step (hw.serial a) hstep, hw.step hx.placed hx.fresh hstep⟩)
    ⟨hs.running, .inr ⟨u, hs.waits.2.1⟩⟩).1

end PandosPlus.SupportLevel
