import Mathlib.Data.Fintype.EquivFin
import PandosPlus.Phase3.Shutdown

/-!
# The support structures are kept

As long as `test` has U-procs to start, each support structure is in the free list, in the hand
of `test`, or with a U-proc that has not given it back (`Conserved`).  So `test` never takes one
from an empty list.
-/

namespace PandosPlus.SupportLevel

open Lts Threaded

variable {u m k : Nat} {cfg : PoolConfig m} {s t : System u m k} {p q : Actor u}
variable {a : Event u k} {i : Instr u m} {code rest : List (Instr u m)} {asid : Int}
variable {j b : Fin u} {mode : SemId → Actor u → TaggedLock.Mode}

/-- The support structure with which an instruction of `test` goes on. -/
def Instr.taken? : Instr u m → Option (Fin u)
  | .listDel _ b | .initSupport _ b | .initPageTable _ b _ | .createProcess _ b => some b
  | _ => none

/-- `test` has the support structure in hand. -/
def InHand (s : System u m k) (b : Fin u) : Prop := ∃ i ∈ (s.proc .test).code, i.taken? = some b

/-- No support structure is lost. -/
def Conserved (s : System u m k) : Prop :=
  (s.proc .test).starting = true → ∀ l, Stack s.mem.next s.mem.prev l →
    ∀ b, b ∈ l ∨ InHand s b ∨ ∃ j, Has s j b

/-! ## What a U-proc has -/

theorem Working.not_leaving (h : Working code) : ¬ Leaving code := by
  rintro (rfl | rfl)
  · exact h.head rfl
  · exact h.head

theorem not_leaving_of_mem (h : .deallocate ∈ code) : ¬ Leaving code := by
  rintro (rfl | rfl) <;> simp at h

/-- A U-proc begins to leave by giving its structure back. -/
theorem not_leaving_rest (h : Working (i :: rest) ∨ Ending asid (i :: rest))
    (hstays : ¬ Leaving (i :: rest)) (hde : i ≠ .deallocate)
    (hadd : ∀ b next, i ≠ .listAdd b next) : ¬ Leaving rest := by
  rcases h with h | h
  · exact h.tail.not_leaving
  · rcases h.cons with ⟨pre, -, rfl⟩ | ⟨rfl, -⟩ | ⟨b, next, rfl, -⟩ | ⟨rfl, rfl⟩ | ⟨rfl, rfl⟩
    · exact not_leaving_of_mem (by simp)
    · exact absurd rfl hde
    · exact absurd rfl (hadd b next)
    · exact absurd (.inl rfl) hstays
    · exact absurd (.inr rfl) hstays

/-- A U-proc keeps its support structure until it has given it back. -/
theorem Has.kept (h : Has s j b) (hf : Frames s) (hr : Running s mode) (hstep : SupStep cfg s a t)
    (htest : (t.proc .test).phase ≠ .dead)
    (hadd : a.actor = some (.uproc j) → ∀ b next rest,
      (s.proc (.uproc j)).code ≠ .listAdd b next :: rest) : Has t j b := by
  have hshape : Working (s.proc (.uproc j)).code ∨ Ending (asidOf j) (s.proc (.uproc j)).code :=
    hr.shapes j h.alive.2
  obtain ⟨halive, hstays, hsupport⟩ := h
  cases hstep.goes hr.placed hr.fresh (.uproc j) with
  | still ha h' => exact ⟨h' ▸ halive, h' ▸ hstays, h' ▸ hsupport⟩
  | blocked c i rest x ha hready hcode hi h' =>
      refine ⟨?_, ?_, ?_⟩ <;> rw [h']
      · exact .asleep
      · exact hstays
      · exact hsupport
  | passed i rest x hphase hcode hi h' =>
      rw [hcode] at hshape hstays
      refine ⟨?_, ?_, ?_⟩ <;> rw [h']
      · exact .ready
      · refine not_leaving_rest hshape hstays ?_ fun b next ↦ ?_ <;> rintro rfl <;> cases hi
      · exact hsupport
  | ran c i rest ha hready hcode h' =>
      have hact : a.actor = some (.uproc j) := by
        rw [ha]
        rfl
      rw [hcode] at hshape hstays
      refine ⟨?_, ?_, h'.support.trans hsupport⟩
      · rcases h'.waiting with ⟨d, w, -, -, he⟩ | ⟨hphase, -⟩
        · rw [he]
          exact .waiting
        · rw [hphase, hready]
          exact .ready
      · rcases hshape with hw | he
        · have hown : i = .terminate → ∀ b, (s.proc (.uproc j)).p_supportStruct = some b →
              (s.mem.support_arr b).sup_asid = asidOf j := fun hi b hb ↦ by
            obtain ⟨hsem, hterm⟩ := h'.not_sem
            exact (hr.owns.has hready hcode hsem hterm hb).2
          rcases h'.working hcode hown hw with hw' | ⟨-, he'⟩
          · exact hw'.not_leaving
          · rw [he']
            exact not_leaving_of_mem (by simp [terminate, signalProcessTermination])
        · rcases h'.ending he with ⟨rfl, b', -, -, he'⟩ | ⟨hi, he'⟩
          · rw [he']
            exact not_leaving_cons rfl (by rintro ⟨⟩)
          · rw [he']
            refine not_leaving_rest (.inr he) hstays ?_ fun b' next ↦ ?_
            · rintro rfl
              exact hi
            · rintro rfl
              exact hadd hact b' next rest hcode
  | left i j' hq hready hcode hcalm hi h' =>
      refine ⟨?_, ?_, ?_⟩ <;> rw [h']
      · exact hready ▸ .ready
      · refine Working.not_leaving (.cons ?_ .nil)
        rcases hi with ⟨b, rfl⟩ | ⟨b, w, rfl⟩ | rfl <;> exact trivial
      · exact hsupport
  | answered d c rest status ha hwaiting hcode h' =>
      rw [hcode] at hshape hstays
      refine ⟨?_, ?_, ?_⟩ <;> rw [h']
      · exact .ready
      · exact not_leaving_rest hshape hstays (by rintro ⟨⟩) (by rintro _ _ ⟨⟩)
      · exact hsupport
  | creates i b' rest ha hready hcode h' => exact absurd trivial (hr.shapes.not_test hready hcode)
  | created i b' p rest hq ha hready hcode hunborn => exact absurd hunborn halive.1
  | killed p i rest ha hready hcode hi hq h' =>
      obtain ⟨-, -, rest', hcode'⟩ := hf.dies hr.owns hr.placed hr.fresh hstep htest
        (by rw [h']) halive.2
      rw [hcode'] at hshape hstays
      rcases hshape with hw | he
      · exact hw.head.elim
      · rcases he.cons with ⟨pre, hpre, -⟩ | ⟨hi, -⟩ | ⟨_, _, hi, -⟩ | ⟨hi, -⟩ | ⟨-, rfl⟩
        · rcases mem_freeFrames (hpre.subset List.mem_cons_self) with h | ⟨_, h⟩ | ⟨_, h⟩ | h <;>
            cases h
        · cases hi
        · cases hi
        · cases hi
        · exact absurd (.inr rfl) hstays

/-! ## A step -/

theorem Conserved.of_test {l' : List (Fin u)} (h : Conserved s)
    (hl : Stack s.mem.next s.mem.prev l') (hstart : (s.proc .test).starting = true) (hne : ∀ q, q ≠ .test → t.proc q = s.proc q)
    {new : List (Instr u m)} (hcode : (s.proc .test).code = i :: rest)
    (ht : (t.proc .test).code = new ++ rest)
    (hnew : ∀ b, i.taken? = some b → ∃ i' ∈ new, i'.taken? = some b) (b : Fin u) :
    b ∈ l' ∨ InHand t b ∨ ∃ j, Has t j b := by
  rcases h hstart l' hl b with hb | ⟨i', hi', hb⟩ | ⟨j, hj⟩
  · exact .inl hb
  · refine .inr (.inl ?_)
    rw [InHand, ht]
    rw [hcode] at hi'
    rcases List.mem_cons.mp hi' with rfl | hi'
    · obtain ⟨i'', hmem, hb⟩ := hnew b hb
      exact ⟨i'', List.mem_append_left _ hmem, hb⟩
    · exact ⟨i', List.mem_append_right _ hi', hb⟩
  · exact .inr (.inr ⟨j, (Has.congr hne).mpr hj⟩)

/-- `test` has what it had in hand while another runs. -/
theorem InHand.other (h : InHand s b) (hr : Running s mode) (hstep : SupStep cfg s a t)
    (ha : a.actor ≠ some .test) : InHand t b := by
  have hrest : ∀ {i rest}, (s.proc .test).code = i :: rest → i.taken? = none →
      ∃ i' ∈ rest, i'.taken? = some b := fun hcode hnone ↦ by
    obtain ⟨i', hi', hb⟩ := h
    rw [hcode] at hi'
    rcases List.mem_cons.mp hi' with rfl | hi'
    · cases hnone.symm.trans hb
    · exact ⟨i', hi', hb⟩
  cases hstep.goes hr.placed hr.fresh .test with
  | still _ h' =>
      rw [InHand, h']
      exact h
  | passed i rest x hphase hcode hi h' =>
      rw [InHand, h']
      refine hrest hcode ?_
      cases i <;> first | rfl | cases hi
  | answered d c rest status hact hwaiting hcode h' =>
      rw [InHand, h']
      exact hrest hcode rfl
  | blocked c i rest x hact => exact absurd (by rw [hact]; rfl) ha
  | ran c i rest hact => exact absurd (by rw [hact]; rfl) ha
  | left i j hq => cases hq
  | creates i b rest hact => exact absurd hact ha
  | created i b p rest hq => cases hq
  | killed p i rest hact hready hcode hi hq =>
      cases p with
      | test => exact absurd hact ha
      | uproc j => cases Actor.eq_of_progeny hq

/-- Nothing is lost while `test` does not run. -/
theorem Conserved.other (h : Conserved s) (hf : Frames s) (hr : Running s mode)
    (hstep : SupStep cfg s a t) (htest : (t.proc .test).phase ≠ .dead) (ha : a.actor ≠ some .test)
    {n : Nat} {hand : Hand u} (hscript : Scripted s n hand) : Conserved t := by
  intro hstart l' hl' b
  obtain ⟨-, -, hstarting⟩ := hscript.woken hr.placed hr.fresh hstep ha
  have hs := hstarting hstart
  have hfree := hscript.free hs
  by_cases hadd : ∃ j b next rest, a.actor = some (.uproc j) ∧
      (s.proc (.uproc j)).code = .listAdd b next :: rest
  · -- the structure that is given back goes to the free list
    obtain ⟨j, b', next, rest, hact, hcode⟩ := hadd
    obtain ⟨hnext, hhas⟩ := hfree.adding j b' next rest hcode
    obtain ⟨hready, c, ⟨hexec, -⟩ | ⟨hexec, -⟩⟩ :=
      hstep.exec hact hcode rfl (by rintro ⟨⟩) (by rintro _ _ ⟨⟩)
    swap
    · cases hexec
    obtain ⟨hmem, -⟩ := Outcome.ok.inj hexec
    obtain ⟨l, hstack, hout, -⟩ := hfree.list
    have hadded : Stack t.mem.next t.mem.prev (b' :: l) := by
      rw [← hmem, hnext]
      exact hstack.add fun hb' ↦ hout b' hb' j hhas
    obtain rfl := hl'.path.unique hadded.path
    rcases h hs l hstack b with hb | hb | ⟨j', hj'⟩
    · exact .inl (List.mem_cons_of_mem _ hb)
    · exact .inr (.inl (hb.other hr hstep ha))
    · by_cases hj : j' = j
      · subst hj
        rw [Option.some.inj (hj'.support.symm.trans hhas.support)]
        exact .inl List.mem_cons_self
      · refine .inr (.inr ⟨j', hj'.kept hf hr hstep htest fun hact' ↦ ?_⟩)
        exact absurd (Actor.uproc.inj (Option.some.inj (hact'.symm.trans hact))) hj
  · have hlist := hstep.list fun p i rest hact hcode ↦ by
      cases p with
      | test => exact absurd hact ha
      | uproc j =>
          refine ⟨fun b next hi ↦ hadd ⟨j, b, next, rest, hact, hi ▸ hcode⟩, fun j' b hi ↦ ?_⟩
          subst hi
          obtain ⟨hready, -⟩ := hstep.exec hact hcode rfl (by rintro ⟨⟩) (by rintro _ _ ⟨⟩)
          exact hr.shapes.not_test hready hcode trivial
    rw [hlist.1, hlist.2] at hl'
    rcases h hs l' hl' b with hb | hb | ⟨j, hj⟩
    · exact .inl hb
    · exact .inr (.inl (hb.other hr hstep ha))
    · exact .inr (.inr ⟨j, hj.kept hf hr hstep htest fun hact b' next rest hcode ↦
        hadd ⟨j, b', next, rest, hact, hcode⟩⟩)

/-- `test` goes on without touching the free list, and keeps what it has in hand. -/
theorem Conserved.goOn (h : Conserved s) (hstep : SupStep cfg s a t) (ha : a.actor = some .test)
    (hne : ∀ q, q ≠ .test → t.proc q = s.proc q) (hcode : (s.proc .test).code = i :: rest)
    (hi : (∀ b next, i ≠ .listAdd b next) ∧ ∀ j b, i ≠ .listDel j b) (new : List (Instr u m))
    (ht : (t.proc .test).code = new ++ rest) (hno : ∀ i ∈ new, ∀ j, i ≠ .allocate j)
    (hnew : ∀ b, i.taken? = some b → ∃ i' ∈ new, i'.taken? = some b) : Conserved t := by
  intro hstart l' hl'
  have hlist := hstep.list fun p i' rest' hact hcode' ↦ by
    obtain rfl := Option.some.inj (hact.symm.trans ha)
    obtain ⟨rfl, -⟩ := List.cons.inj (hcode.symm.trans hcode')
    exact hi
  rw [hlist.1, hlist.2] at hl'
  exact h.of_test hl' (remaining_starting new hcode ht hno hstart) hne hcode ht hnew

/-- The support structure that is taken out of the free list stays in the hand of `test`. -/
theorem Conserved.listDel (h : Conserved s) (hstep : SupStep cfg s a t) (ha : a.actor = some .test)
    (hscript : Scripted s j (.deleting b))
    (hcode : (s.proc .test).code = .listDel j b :: remaining (j + 1)) : Conserved t := by
  obtain ⟨hready, c, ⟨hexec, hne⟩ | ⟨hexec, -⟩⟩ :=
    hstep.exec ha hcode rfl (by rintro ⟨⟩) (by rintro _ _ ⟨⟩)
  swap
  · cases hexec
  obtain ⟨hmem, hproc⟩ := Outcome.ok.inj hexec
  have ht : (t.proc .test).code = [.initSupport j b] ++ remaining (j + 1) := by
    rw [← hproc]
    rfl
  intro hstart l' hl' b'
  have hs := remaining_starting _ hcode ht (fun i hi j' ↦ by
    rw [List.mem_singleton.mp hi]
    rintro ⟨⟩) hstart
  obtain ⟨l, hstack, -, hhead, -⟩ := (hscript.free hs).list
  obtain ⟨l, rfl⟩ := List.head?_eq_some_iff.mp (hhead b rfl)
  have hdel : Stack t.mem.next t.mem.prev l := by
    rw [← hmem, Memory.listDel, hstack.next_none]
    exact hstack.del
  obtain rfl := hl'.path.unique hdel.path
  have htaken : InHand t b := by
    refine ⟨.initSupport j b, ?_, rfl⟩
    rw [ht]
    exact List.mem_cons_self
  have hall := h.of_test hstack hs hne hcode ht
    (fun b' hb' ↦ ⟨_, List.mem_singleton_self _, hb'⟩) b'
  refine hall.elim (fun hb' ↦ ?_) .inr
  rcases List.mem_cons.mp hb' with rfl | hb'
  · exact .inr (.inl htaken)
  · exact .inl hb'

/-- The support structure in hand is given to the new U-proc. -/
theorem Conserved.createProcess (h : Conserved s) (hstep : SupStep cfg s a t)
    (ha : a.actor = some .test) (hscript : Scripted s j (.filled j b))
    (hcode : (s.proc .test).code = .createProcess j b :: remaining (j + 1)) : Conserved t := by
  obtain ⟨hready, hmem, htest, hnewborn, hne⟩ := hstep.creation ha hcode (by rintro ⟨⟩)
  intro hstart l' hl' b'
  have hs := starting_of_tail hcode (by rw [htest]; rfl) hstart
  rw [hmem] at hl'
  rcases h hs l' hl' b' with hb' | ⟨i, hi, hb'⟩ | ⟨j', hj'⟩
  · exact .inl hb'
  · rw [hcode] at hi
    rcases List.mem_cons.mp hi with rfl | hi
    · -- the new U-proc has it
      obtain rfl := Option.some.inj hb'
      refine .inr (.inr ⟨j, ?_, ?_, ?_⟩) <;> rw [hnewborn]
      · exact .ready
      · exact Working.nil.not_leaving
    · refine .inr (.inl ⟨i, ?_, hb'⟩)
      rw [htest]
      exact hi
  · have hj : j' ≠ j := by
      rintro rfl
      exact hj'.alive.1 ((hscript.born j').mpr le_rfl)
    have hsame : t.proc (.uproc j') = s.proc (.uproc j') :=
      hne _ (by rintro ⟨⟩) fun he ↦ hj (Actor.uproc.inj he)
    exact .inr (.inr ⟨j', by rw [hsame]; exact hj'.alive, by rw [hsame]; exact hj'.stays,
      by rw [hsame]; exact hj'.support⟩)

/-- Nothing is lost when `test` runs. -/
theorem Conserved.test (h : Conserved s) (hr : Running s mode) (hstep : SupStep cfg s a t)
    (htest : (t.proc .test).phase ≠ .dead) (ha : a.actor = some .test) {n : Nat} {hand : Hand u}
    (hscript : Scripted s n hand) : Conserved t := by
  obtain ⟨i, rest, hcode⟩ := hstep.test_head ha
  have hheads := hscript.code
  rw [hcode] at hheads
  cases hheads.heads with
  | allocate j =>
      obtain ⟨hready, c, ⟨hexec, hne⟩ | ⟨hexec, -⟩⟩ :=
        hstep.exec ha hcode rfl (by rintro ⟨⟩) (by rintro _ _ ⟨⟩)
      · simp only [exec] at hexec
        split at hexec
        · cases hexec
        · rename_i b hhead
          obtain ⟨-, hproc⟩ := Outcome.ok.inj hexec
          refine h.goOn hstep ha hne hcode ⟨by rintro _ _ ⟨⟩, by rintro _ _ ⟨⟩⟩ [.listDel j b]
            (by rw [← hproc]; rfl) (fun i hi j' ↦ ?_) (by rintro _ ⟨⟩)
          rw [List.mem_singleton.mp hi]
          rintro ⟨⟩
      · simp only [exec] at hexec
        split at hexec <;> cases hexec
  | listDel j b => exact h.listDel hstep ha hscript hcode
  | initSupport j b =>
      obtain ⟨hready, c, ⟨hexec, hne⟩ | ⟨hexec, -⟩⟩ :=
        hstep.exec ha hcode rfl (by rintro ⟨⟩) (by rintro _ _ ⟨⟩)
      swap
      · cases hexec
      obtain ⟨-, hproc⟩ := Outcome.ok.inj hexec
      refine h.goOn hstep ha hne hcode ⟨by rintro _ _ ⟨⟩, by rintro _ _ ⟨⟩⟩
        (backingStoreOperation FLASHREAD (asidOf j) 0 (cfg.tmpFrame s.mem.curr_offset) ++
          [.initPageTable j b (cfg.tmpFrame s.mem.curr_offset)])
        (by rw [← hproc, List.append_assoc]; rfl) (fun i hi j' ↦ ?_) fun b' hb' ↦ ?_
      · rintro rfl
        simp [backingStoreOperation] at hi
      · exact ⟨_, List.mem_append_right _ (List.mem_singleton_self _), hb'⟩
  | read j b hi hrest =>
      rcases hi with ⟨w, rfl⟩ | ⟨w, rfl⟩ | rfl
      · obtain ⟨hready, c, ⟨hexec, hne⟩ | ⟨hexec, -⟩⟩ :=
          hstep.exec ha hcode rfl (by rintro ⟨⟩) (by rintro _ _ ⟨⟩)
        swap
        · cases hexec
        obtain ⟨-, hproc⟩ := Outcome.ok.inj hexec
        exact h.goOn hstep ha hne hcode ⟨by rintro _ _ ⟨⟩, by rintro _ _ ⟨⟩⟩ []
          (by rw [← hproc]; rfl) (fun _ hi ↦ absurd hi List.not_mem_nil) (by rintro _ ⟨⟩)
      · obtain ⟨hready, c, ⟨hexec, hne⟩ | ⟨hexec, -⟩⟩ :=
          hstep.exec ha hcode rfl (by rintro ⟨⟩) (by rintro _ _ ⟨⟩)
        swap
        · cases hexec
        obtain ⟨-, hproc⟩ := Outcome.ok.inj hexec
        refine h.goOn hstep ha hne hcode ⟨by rintro _ _ ⟨⟩, by rintro _ _ ⟨⟩⟩
          [.doIo (.flash (asidOf j - 1)) w] (by rw [← hproc]; exact hcode) (fun i hi j' ↦ ?_)
          (by rintro _ ⟨⟩)
        rw [List.mem_singleton.mp hi]
        rintro ⟨⟩
      · obtain ⟨hready, c, ⟨hexec, hne⟩ | ⟨hexec, -⟩⟩ :=
          hstep.exec ha hcode rfl (by rintro ⟨⟩) (by rintro _ _ ⟨⟩)
        · simp only [exec] at hexec
          split at hexec
          · -- a header that cannot be read is the end of the start
            obtain ⟨-, hproc⟩ := Outcome.ok.inj hexec
            intro hstart
            rw [← hproc] at hstart
            cases hstart.symm.trans (Working.starting .trap)
          · obtain ⟨-, hproc⟩ := Outcome.ok.inj hexec
            exact h.goOn hstep ha hne hcode ⟨by rintro _ _ ⟨⟩, by rintro _ _ ⟨⟩⟩ []
              (by rw [← hproc]; rfl) (fun _ hi ↦ absurd hi List.not_mem_nil) (by rintro _ ⟨⟩)
        · simp only [exec] at hexec
          split at hexec <;> cases hexec
  | initPageTable j b w =>
      obtain ⟨hready, c, ⟨hexec, hne⟩ | ⟨hexec, -⟩⟩ :=
        hstep.exec ha hcode rfl (by rintro ⟨⟩) (by rintro _ _ ⟨⟩)
      swap
      · cases hexec
      obtain ⟨-, hproc⟩ := Outcome.ok.inj hexec
      refine h.goOn hstep ha hne hcode ⟨by rintro _ _ ⟨⟩, by rintro _ _ ⟨⟩⟩ [.createProcess j b]
        (by rw [← hproc]; rfl) (fun i hi j' ↦ ?_) fun b' hb' ↦ ⟨_, List.mem_singleton_self _, hb'⟩
      rw [List.mem_singleton.mp hi]
      rintro ⟨⟩
  | createProcess j b => exact h.createProcess hstep ha hscript hcode
  | release n x rest => exact absurd (hstep.test_traps hr.owns ha hcode) htest
  | passeren n =>
      intro hstart
      have hs : (s.proc .test).starting = true := by
        cases hstep.goes hr.placed hr.fresh .test with
        | still hne => exact absurd ha hne
        | blocked c i rest x _ _ _ _ h' =>
            rw [h'] at hstart
            exact hstart
        | passed i rest x _ hcode' _ h' => exact starting_of_tail hcode' (by rw [h']) hstart
        | ran c i rest _ _ hcode' h' =>
            obtain ⟨rfl, -⟩ := List.cons.inj (hcode.symm.trans hcode')
            cases h'.not_sem.1
        | left i j hq => cases hq
        | answered d c rest status hact => rw [hact] at ha; cases ha
        | creates i b rest _ _ hcode' => cases hcode.symm.trans hcode'
        | created i b p rest hq => cases hq
        | killed p i rest _ _ _ _ _ h' =>
            rw [h'] at htest
            exact absurd rfl htest
      cases hs.symm.trans (awaits_starting (n := n + 1) hcode)
  | termProcess => exact absurd (hstep.terminated hr.placed hr.fresh ha hcode) htest

/-- A step loses no support structure. -/
theorem Conserved.step (h : Conserved s) (hs : Sound s) (hstep : SupStep cfg s a t) :
    Conserved t := by
  obtain ⟨mode, hr⟩ := hs.running
  have hactive := hs.active hstep
  by_cases htest : (t.proc .test).phase = .dead
  · -- whoever is dead has nothing to do
    intro hstart
    cases hstep.goes hr.placed hr.fresh .test with
    | still ha h' => exact absurd (h' ▸ htest) hactive
    | ran c i rest ha hready hcode h' =>
        rcases h'.waiting with ⟨d, w, -, -, he⟩ | ⟨hphase, -⟩
        · rw [he] at htest
          cases htest
        · cases hready.symm.trans (hphase.symm.trans htest)
    | left i j hq => cases hq
    | creates i b rest ha hready hcode h' =>
        rw [h'] at htest
        cases hready.symm.trans htest
    | killed p i rest ha hready hcode hi hq h' =>
        rw [h'] at hstart
        cases hstart
    | _ =>
        rename_i h'
        rw [h'] at htest
        cases htest
  · obtain ⟨n, hand, hscript⟩ := hr.script.resolve_left hactive
    by_cases ha : a.actor = some .test
    · exact h.test hr hstep htest ha hscript
    · exact h.other (hs.frames hactive) hr hstep htest ha hscript

/-! ## Runs -/

theorem foldl_listAdd_stack (l : List (Fin u)) : ∀ (r : Memory u m k) (l₀ : List (Fin u)),
    Stack r.next r.prev l₀ → (l ++ l₀).Nodup →
      Stack (l.foldl (fun s a ↦ s.listAdd a (s.next none)) r).next
        (l.foldl (fun s a ↦ s.listAdd a (s.next none)) r).prev (l.reverse ++ l₀) := by
  induction l with
  | nil => exact fun r l₀ h _ ↦ h
  | cons a l ih =>
      intro r l₀ h hnodup
      have ha : a ∉ l₀ := fun ha ↦ (List.nodup_cons.mp hnodup).1 (List.mem_append_right _ ha)
      rw [List.reverse_cons, List.append_assoc]
      exact ih _ (a :: l₀) (h.add ha) (List.nodup_middle.mpr hnodup)

/-- At first all support structures are in the free list. -/
theorem Booted.conserved (h : Booted s) : Conserved s := by
  obtain ⟨support_arr, ram, flash, dev, hmem, -⟩ := h
  intro _ l hl b
  have hfirst := foldl_listAdd_stack (m := m) (k := k) (List.finRange u)
    { support_arr := support_arr, next := fun _ ↦ none, prev := fun _ ↦ none, curr_offset := 0
      user_asid := fun _ ↦ NOPROC, swap_pool_table := fun _ ↦ .free, to_swap_frame_index := 0
      tlb := fun _ ↦ none, ram := ram, flash := flash
      dev := fun d ↦ { data0 := (dev d).1, command := (dev d).2, waiting := [] } } []
    ⟨.nil, rfl, by rintro _ ⟨⟩⟩ (by rw [List.append_nil]; exact List.nodup_finRange u)
  rw [hmem] at hl
  obtain rfl := hl.path.unique hfirst.path
  rw [List.append_nil, List.mem_reverse]
  exact .inl (List.mem_finRange b)

theorem remaining_taken {n : Nat} (hi : i ∈ (remaining n : List (Instr u m))) :
    i.taken? = none := by
  rw [remaining, awaits] at hi
  rcases List.mem_append.mp hi with hi | hi
  · obtain ⟨j, -, rfl⟩ := List.mem_map.mp hi
    rfl
  · rcases List.mem_append.mp hi with hi | hi
    · rw [List.eq_of_mem_replicate hi]
      rfl
    · rw [List.mem_singleton.mp hi]
      rfl

/-- What holds of the support structures. -/
structure SupportsKept (s : System u m k) : Prop where
  /-- A U-proc has one until it gives it back. -/
  has : ∀ j, (s.proc (.uproc j)).phase.Alive → ¬ Leaving (s.proc (.uproc j)).code → ∃ b, Has s j b
  /-- It has the ASID and the page table of the U-proc, and is nobody else's. -/
  own : ∀ j b, Has s j b → (s.mem.support_arr b).sup_asid = asidOf j ∧ Paged s.mem j b ∧
    ∀ i, Has s i b → i = j
  /-- The others are in the free list, or in the hand of `test`. -/
  list : (s.proc .test).starting = true → ∃ l, Stack s.mem.next s.mem.prev l ∧
    ∀ b, (b ∈ l → ∀ j, ¬ Has s j b) ∧ (b ∈ l ∨ InHand s b ∨ ∃ j, Has s j b)
  /-- `test` finds one when it starts a U-proc. -/
  allocate : ∀ j rest, (s.proc .test).code = .allocate j :: rest → s.mem.next none ≠ none

/-- The U-procs that have been started cannot have all support structures. -/
theorem Conserved.allocate (h : Conserved s) (hr : Running s mode)
    (htest : (s.proc .test).phase ≠ .dead) (hcode : (s.proc .test).code = .allocate j :: rest) :
    s.mem.next none ≠ none := by
  obtain ⟨n, hand, hscript⟩ := hr.script.resolve_left htest
  have hheads := hscript.code
  rw [hcode] at hheads
  cases hheads.heads with
  | allocate j =>
      have hstart : (s.proc .test).starting = true := by
        rw [Proc.starting, hcode]
        rfl
      obtain ⟨l, hstack, -⟩ := (hscript.free hstart).list
      intro hnone
      have hl : l = [] := List.head?_eq_none_iff.mp (hstack.next_none.symm.trans hnone)
      have hall : ∀ b, ∃ i, Has s i b := fun b ↦ by
        rcases h hstart l hstack b with hb | ⟨i, hi, hb⟩ | hb
        · rw [hl] at hb
          exact absurd hb List.not_mem_nil
        · rw [hcode, ← remaining_cons] at hi
          cases (remaining_taken hi).symm.trans hb
        · exact hb
      choose f hf using hall
      -- each U-proc has one, so the one that is to be started has one already
      have hinj : Function.Injective f := fun b b' hb ↦ by
        have hsup := (hf b).support
        rw [hb, (hf b').support] at hsup
        exact (Option.some.inj hsup).symm
      obtain ⟨b, hb⟩ := Finite.injective_iff_surjective.mp hinj j
      have hhas := hf b
      rw [hb] at hhas
      exact hhas.alive.1 ((hscript.born j).mpr le_rfl)
  | read j b hi => rcases hi with ⟨w, hi⟩ | ⟨w, hi⟩ | hi <;> cases hi

variable (cfg) in
/-- In every run from the start of `test` in which no operation on the free list begins in the
middle of another, as long as `test` takes from it: the support structures are kept, none is
lost, and `test` never takes one from an empty list. -/
theorem supports_kept {s₀ : System u m k} {as : List (Event u k)} (hu : u < 64) (h : Booted s₀)
    (hrun : Run (SerialStep cfg) s₀ as s) (htest : (s.proc .test).phase ≠ .dead) :
    SupportsKept s := by
  obtain ⟨hs, hconserved⟩ : Sound s ∧ Conserved s := hrun.invariant
    (I := fun s ↦ Sound s ∧ Conserved s)
    (fun s a t hs hstep ↦ ⟨hs.1.step hu hstep, hs.2.step hs.1 hstep.1⟩) ⟨h.sound, h.conserved⟩
  obtain ⟨mode, hr⟩ := hs.running
  refine ⟨fun j halive hstays ↦ ?_, fun j b hb ↦ ⟨hb.asid hr.owns, (hs.frames htest).tables j b hb,
    fun i hi ↦ hi.unique hb hr.owns⟩, fun hstart ↦ ?_, fun j rest ↦ hconserved.allocate hr htest⟩
  · obtain ⟨b, hb, -⟩ := hr.owns.own j halive hstays
    exact ⟨b, halive, hstays, hb⟩
  · obtain ⟨n, hand, hscript⟩ := hr.script.resolve_left htest
    obtain ⟨l, hstack, hfree, -⟩ := (hscript.free hstart).list
    exact ⟨l, hstack, fun b ↦ ⟨fun hb j ↦ hfree b hb j, hconserved hstart l hstack b⟩⟩

/-- The first U-proc has been started, and the second can be. -/
theorem supports_kept_sample :
    ∃ (s : System 2 0 0) (rest : List (Instr 2 0)), SupportsKept s ∧
      (s.proc .test).code = .allocate 1 :: rest ∧ s.mem.next none ≠ none ∧
      ∃ b, Has s 0 b := by
  let cfg := PoolConfig.sample 0 (by decide)
  let run := fun n ↦ List.replicate n (Event.run .test (⟨Fin.last 0, 0⟩ : Choice 0) : Event 2 0)
  have hruns : ((execute (serialStep cfg) (System.boot 2 0 0)
      (run 5 ++ .complete (.flash 0) 1 :: run 3)).any fun s ↦
        decide ((s.proc .test).phase = .ready ∧ (s.proc .test).code.head? = some (.allocate 1) ∧
          (s.proc (.uproc 0)).phase = .ready ∧ (s.proc (.uproc 0)).code = [])) = true := by
    decide +kernel
  obtain ⟨s, hs, hend⟩ := (Option.any_eq_true _ _).mp hruns
  obtain ⟨hready, hhead, hborn, hcode⟩ := of_decide_eq_true hend
  obtain ⟨rest, hrest⟩ := List.head?_eq_some_iff.mp hhead
  have hkept := supports_kept cfg (by decide) System.boot_booted
    (Run.of_exec serialStep_step hs) (by rw [hready]; rintro ⟨⟩)
  refine ⟨s, rest, hkept, hrest, hkept.allocate 1 rest hrest, hkept.has 0 ?_ ?_⟩
  · rw [hborn]
    exact .ready
  · rw [hcode]
    exact Working.nil.not_leaving

end PandosPlus.SupportLevel
