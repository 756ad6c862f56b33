import PandosPlus.Lib.Cyclic
import PandosPlus.Phase3.Frames

/-!
# The choice of a frame

`_getFrame` is a scan for a free frame from the counter on: a page is evicted only when no
frame is free, and then the frame is the one at the counter.  Each call leaves the counter
one past the frame it returns, so on a full pool the calls go round the frames.
-/

namespace PandosPlus.SupportLevel

variable {u m k : Nat} {cfg : PoolConfig m}

theorem nextFrame_eq_scan (s : Memory u m k) (turns : Nat) (f : Fin (m + 1)) :
    s.nextFrame turns f = Cyclic.scan s.IsFree turns f := by
  induction turns generalizing f with
  | zero => rfl
  | succ turns ih => rw [Memory.nextFrame, Cyclic.scan, ih]

theorem getFrame_eq_scan (s : Memory u m k) :
    s.getFrame.1 = Cyclic.scan s.IsFree (m + 1) s.to_swap_frame_index :=
  nextFrame_eq_scan s (m + 1) s.to_swap_frame_index

/-- The frame that is returned is free, if any is. -/
theorem getFrame_free {s : Memory u m k} {g : Fin (m + 1)} (h : s.IsFree g) :
    Cyclic.FirstFrom s.IsFree s.to_swap_frame_index s.getFrame.1 := by
  rw [getFrame_eq_scan]
  exact Cyclic.scan_firstFrom h

theorem getFrame_full {s : Memory u m k} (h : ∀ g, ¬ s.IsFree g) :
    s.getFrame.1 = s.to_swap_frame_index := by
  rw [getFrame_eq_scan]
  exact Cyclic.scan_none h

@[simp] theorem getFrame_counter (s : Memory u m k) :
    s.getFrame.2.to_swap_frame_index = s.getFrame.1 + 1 := rfl

/-- A page is stored only on the order of `_TLBInvalidHandler`, in the frame it has got and
when no frame is free. -/
theorem exec_storePage {c : Choice k} {id : Actor u} {s s' : Memory u m k} {v v' : Proc u m}
    {i : Instr u m} {rest : List (Instr u m)} (hcode : v.code = i :: rest)
    (h : exec cfg c id s v i rest = .ok s' v') {f : Fin (m + 1)} (hf : .storePage f ∈ v'.code) :
    .storePage f ∈ v.code ∨ i = .tlbInvalid ∧ f = s.getFrame.1 ∧ ∀ g, ¬ s.IsFree g := by
  have hfull : ¬ s.IsFree s.getFrame.1 → ∀ g, ¬ s.IsFree g := fun hn g hg ↦ hn (getFrame_free hg).1
  let Q : Instr u m → Prop := fun i' ↦ i' = .storePage f → .storePage f ∈ i :: rest ∨
    i = .tlbInvalid ∧ f = s.getFrame.1 ∧ ∀ g, ¬ s.IsFree g
  have hrest : ∀ i' ∈ rest, Q i' := by
    rintro i' hi' rfl
    exact .inl (List.mem_cons_of_mem i hi')
  have hhead : Q i := by
    rintro rfl
    exact .inl List.mem_cons_self
  suffices hall : ∀ i' ∈ v'.code, Q i' by
    rw [hcode]
    exact hall _ hf rfl
  cases exec_executed hcode h with
  | expand hcalm hexp hv =>
      rw [hv.2.2]
      apply hexp.all hrest
      · rintro i' hquiet rfl
        exact absurd trivial hquiet
      · intro b g _ _
        exact nofun
      · intro b page_index hi _
        refine ⟨nofun, fun hn ↦ ⟨?_, nofun⟩⟩
        rintro hg
        cases hg
        exact .inr ⟨hi, rfl, hfull hn⟩
      · intro g w w' _
        exact ⟨nofun, nofun⟩
      · intro e g w w' _
        exact ⟨nofun, nofun, nofun, nofun⟩
  | refill => exact List.forall_mem_cons.mpr ⟨hhead, hrest⟩
  | pageFault => exact List.forall_mem_cons.mpr ⟨nofun, List.forall_mem_cons.mpr ⟨hhead, hrest⟩⟩
  | doIo d w =>
      rw [hcode]
      exact List.forall_mem_cons.mpr ⟨nofun, hrest⟩
  | listDel => exact List.forall_mem_cons.mpr ⟨nofun, hrest⟩
  | initSupport => exact List.forall_mem_cons.mpr ⟨nofun, List.forall_mem_cons.mpr ⟨nofun,
      List.forall_mem_cons.mpr ⟨nofun, List.forall_mem_cons.mpr ⟨nofun, hrest⟩⟩⟩⟩
  | initPageTable => exact List.forall_mem_cons.mpr ⟨nofun, hrest⟩
  | _ => exact hrest

/-! ## Consecutive calls -/

/-- `calls` consecutive calls of `_getFrame`, the first from the memory `s 0`, and each on a
full pool.  Anything but the counter may change from one to the next. -/
structure FullCalls (calls : Nat) (s : Nat → Memory u m k) : Prop where
  full : ∀ i < calls, ∀ f, ¬ (s i).IsFree f
  counter : ∀ i, i + 1 < calls →
    (s (i + 1)).to_swap_frame_index = (s i).getFrame.2.to_swap_frame_index

/-- On a full pool the frames are chosen in turn. -/
theorem FullCalls.movesOn {calls : Nat} {s : Nat → Memory u m k} (h : FullCalls calls s) :
    Cyclic.MovesOn calls fun i ↦ (s i).getFrame.1 := fun i hi ↦ by
  change (s (i + 1)).getFrame.1 = (s i).getFrame.1 + 1
  rw [getFrame_full (h.full (i + 1) hi), h.counter i hi, getFrame_counter]

/-- `_getFrame` returns the first free frame from the counter on, or the one at the counter
when none is free, and leaves the counter in range, one past it.  So `_TLBInvalidHandler`
evicts a page only from a full pool; and of consecutive calls on a full pool two return the
same frame only when every other frame has been returned between them. -/
theorem getFrame_choice (s : Memory u m k) :
    ((∃ f, s.IsFree f) → Cyclic.FirstFrom s.IsFree s.to_swap_frame_index s.getFrame.1) ∧
    ((∀ f, ¬ s.IsFree f) → s.getFrame.1 = s.to_swap_frame_index) ∧
    (s.getFrame.2.to_swap_frame_index.val < m + 1 ∧
      s.getFrame.2.to_swap_frame_index.val = (s.getFrame.1.val + 1) % (m + 1)) ∧
    (∀ cfg c id v i rest s' v', v.code = i :: rest → exec cfg c id s v i rest = .ok s' v' →
      ∀ f, .storePage f ∈ v'.code → .storePage f ∈ v.code ∨
        i = .tlbInvalid ∧ f = s.getFrame.1 ∧ ∀ g, ¬ s.IsFree g) ∧
    ∀ calls (r : Nat → Memory u m k), FullCalls calls r →
      ∀ i j, i < j → j < calls → (r j).getFrame.1 = (r i).getFrame.1 →
        ∀ f, f ≠ (r i).getFrame.1 → ∃ l, i < l ∧ l < j ∧ (r l).getFrame.1 = f := by
  refine ⟨fun ⟨_, hf⟩ ↦ getFrame_free hf, getFrame_full, ⟨Fin.isLt _, ?_⟩, ?_, ?_⟩
  · rw [getFrame_counter, Fin.val_add, Fin.val_one', Nat.add_mod_mod]
  · intro cfg c id v i rest s' v' hcode h f
    exact exec_storePage hcode h
  · intro calls r hr i j hij hj heq f hf
    exact hr.movesOn.between hij hj heq hf

end PandosPlus.SupportLevel
