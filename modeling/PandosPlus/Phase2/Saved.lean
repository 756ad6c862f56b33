import PandosPlus.Phase2.SemSteps

/-!
# The saved states of the processes that wait

`p_s` is written where a process leaves the processor, where it is dispatched, for a new
process, and where a completion stores its status.  None of these happens to a process
that is blocked and stays so.
-/

namespace PandosPlus

variable {n : Nat}

/-- `p_s` of every PCB. -/
def Nucleus.saved (s : Nucleus n) (p : Fin n) : State := (s.pcbFree_table p).p_s

variable {cfg : Config n} {s t u : Nucleus n} {c p q : Fin n} {k full : Word} {e : Exit}
variable {held : List (Fin n)}

namespace Nucleus

theorem charge_saved (cfg : Config n) (c : Fin n) (s : Nucleus n) :
    (s.charge cfg c).saved = s.saved :=
  funext fun q ↦ modifyPcb_field Pcb.p_s (by intro; rfl) (s.flush cfg) c q

theorem block_saved (k : Word) (p : Fin n) (s : Nucleus n) : (s.block k p).saved = s.saved :=
  funext fun q ↦ modifyPcb_field Pcb.p_s (by intro; rfl) _ p q

theorem unblock_saved (k : Word) (p : Fin n) (s : Nucleus n) : (s.unblock k p).saved = s.saved :=
  funext fun q ↦ modifyPcb_field Pcb.p_s (by intro; rfl) _ p q

theorem makeReady_saved (p : Fin n) (s : Nucleus n) : (s.makeReady p).saved = s.saved := by
  funext q
  rw [saved, makeReady_table]
  rfl

theorem wake_saved (p : Fin n) (s : Nucleus n) : (s.wake p).saved = s.saved := by
  funext q
  rw [saved, wake_table]
  rfl

theorem saveState_saved (c : Fin n) (x : State) (s : Nucleus n) (q : Fin n) :
    (s.saveState c x).saved q = if q = c then x else s.saved q := by
  rw [saved, saveState, modifyPcb_table]
  split <;> rfl

theorem wakeClock_saved (k : Word) (p : Fin n) (s : Nucleus n) :
    (s.wakeClock k p).saved = s.saved :=
  (wake_saved p (s.unblock k p)).trans (unblock_saved k p s)

theorem ticked_saved (cfg : Config n) (l : List (Fin n)) (s : Nucleus n) :
    (s.ticked cfg l).saved = s.saved := by
  change (l.foldl (fun s p ↦ s.wakeClock cfg.semaphore_it p) s).saved = s.saved
  induction l generalizing s with
  | nil => rfl
  | cons p l ih => rw [List.foldl_cons, ih, wakeClock_saved]

theorem load_saved (cfg : Config n) (p : Fin n) (s : Nucleus n) (hq : q ≠ p) :
    (s.load cfg p).saved q = s.saved q := by
  unfold load
  split <;> simp [saved, flush, startPLT, modifyPcb, hq]

theorem interrupted_saved (cfg : Config n) (s : Nucleus n) :
    (s.interrupted cfg).saved = s.saved := by
  unfold interrupted
  cases s.curr_process with
  | none => rfl
  | some c => exact charge_saved cfg c s

end Nucleus

/-! ## Where a process stays blocked -/

/-- Only the process dispatched is changed. -/
theorem Scheduled.saved (h : Scheduled cfg s e t) (hq : t.curr_process ≠ some q) :
    t.saved q = s.saved q := by
  cases h with
  | halt => rfl
  | wait => rfl
  | deadlock => rfl
  | dispatch p prio rest hcount hnext hqueue =>
      have hne : q ≠ p := by
        rintro rfl
        refine hq ?_
        unfold Nucleus.load
        split <;> rfl
      rw [Nucleus.load_saved cfg p _ hne]
      exact congrArg (fun f ↦ (f q).p_s) (Nucleus.setReadyQueue_table s rest prio)

theorem Finished.saved {live : Prop} (h : Finished cfg s live e t)
    (hq : t.curr_process ≠ some q) : t.saved q = s.saved q := by
  cases h with
  | resume => rfl
  | schedule hdead hnext => exact hnext.saved hq

/-- The caller's state is saved if it blocks. -/
theorem SemCall.saved (h : SemCall cfg full k c s e t) (hq : t.curr_process ≠ some q) :
    t.saved q = if q = c ∧ s.mem k = full then s.prev else s.saved q := by
  cases h with
  | block hfull hnext =>
      rw [hnext.saved hq, Nucleus.charge_saved, Nucleus.saveState_saved, Nucleus.block_saved]
      simp [hfull]
  | release p rest hfull hqueue =>
      rw [Nucleus.wake_saved, Nucleus.unblock_saved, if_neg fun h ↦ hfull h.2]
  | write hfull hqueue =>
      rw [if_neg fun h ↦ hfull h.2]
      rfl

theorem Torn.saved {D F : List (Fin n)} (h : Torn cfg D F s t) (q : Fin n) :
    t.saved q = s.saved q := by
  rw [Nucleus.saved, h.table]
  rfl

theorem PassedUp.saved {i : Fin 2} (h : PassedUp cfg i c s e t) (hq : t.curr_process ≠ some q) :
    t.saved q = s.saved q := by
  cases h with
  | up a ha => rfl
  | die K u ha hkill hnext =>
      rw [hnext.saved hq]
      exact hkill.torn.saved q

theorem insertChild_saved (s : Nucleus n) (c p q : Fin n) :
    (insertChild c p s).saved q = s.saved q := by
  rw [Nucleus.saved, insertChild, Nucleus.modifyPcb_field Pcb.p_s (by intro; rfl),
    Nucleus.modifyPcb_field Pcb.p_s (by intro; rfl)]
  rfl

/-- CREATEPROCESS fills in a PCB that was free. -/
theorem created_saved {rest : List (Fin n)} {statep : Word} (hs : Core s held)
    (hf : s.pcbFree_h = p :: rest) (hq : s.semAdd q ≠ none) :
    (s.created cfg c p rest statep).saved q = s.saved q := by
  have hne : q ≠ p := by
    rintro rfl
    exact hq (hs.semAdd_free (by rw [hf]; exact List.mem_cons_self))
  refine (insertChild_saved _ c p q).trans ?_
  refine (congrFun (Nucleus.makeReady_saved p _) q).trans ?_
  rw [Nucleus.saved, fillPcb, Nucleus.modifyPcb_table, if_neg hne, Nucleus.enroll_table, if_neg hne]
  rfl

theorem Called.saved {code : Int} (hs : Core s (c :: held)) (h : Called cfg c s code e t)
    (hblocked : s.semAdd q ≠ none) (hq : t.curr_process ≠ some q) : t.saved q = s.saved q := by
  have hc : q ≠ c := by
    rintro rfl
    exact hblocked (hs.of_held List.mem_cons_self).2.2.1
  have hsem : ∀ {full k} {s' : Nucleus n}, SemCall cfg full k c s' e t → s'.saved = s.saved →
      t.saved q = s.saved q := by
    intro full k s' hcall hsaved
    rw [hcall.saved hq, if_neg fun h ↦ hc h.1, hsaved]
  cases h with
  | createFails hfree => rfl
  | create p rest statep hfree hstate => exact created_saved hs hfree hblocked
  | kill p K u htarget hkill hend =>
      rw [hend.saved hq]
      exact hkill.torn.saved q
  | killNone htarget hend => exact hend.saved hq
  | passeren k hk hcall => exact hsem hcall rfl
  | verhogen k hk hcall => exact hsem hcall rfl
  | doIo i hi hcall => exact hsem hcall rfl
  | getTime => exact congrFun (Nucleus.charge_saved cfg c s) q
  | clockWait hcall => exact hsem hcall rfl
  | getSupportPtr => rfl
  | getProcessId => rfl
  | yield hnext =>
      rw [hnext.saved hq]
      change (Nucleus.charge cfg c _).saved q = _
      rw [Nucleus.charge_saved, Nucleus.wake_saved]
      exact (Nucleus.saveState_saved c s.prev s q).trans (if_neg hc)
  | invalid hcode hend => exact hend.saved hq

theorem Nucleus.answered_saved (i : Fin TOTAL_IO_DEVICES) (p : Fin n) (s : Nucleus n) (q : Fin n) :
    (s.answered cfg i p).saved q =
      if q = p then { s.saved q with reg_v0 := s.mem (statusAddr i) } else s.saved q := by
  have hkeep : ∀ q, (((s.store (commandAddr i) ACK).unblock (cfg.devSem i) p).makeReady p).saved q =
      s.saved q := fun q ↦ by
    rw [makeReady_saved, unblock_saved]
    rfl
  rw [← hkeep q, saved, answered, modifyPcb_table]
  split <;> rfl

/-- A completion changes the saved state of the process it wakes. -/
theorem DeviceReturn.saved {i : Fin TOTAL_IO_DEVICES} (h : DeviceReturn cfg i s u)
    (hq : u.semAdd q ≠ none) : u.saved q = s.saved q := by
  cases h with
  | wake p rest hv hqueue hp =>
      have hne : q ≠ p := by
        rintro rfl
        refine hq ?_
        rw [sems_semAdd (answered_sems cfg i q s)]
        exact (congrFun (Nucleus.unblock_semAdd _ _) q).trans (if_pos rfl)
      rw [Nucleus.answered_saved, if_neg hne]
  | drop p rest hv hqueue hp => exact congrFun (Nucleus.unblock_saved _ p _) q
  | late hv hqueue hnull => rfl

theorem Interrupted.saved (h : Interrupted cfg s e t) (hs : Core s (s.curr_process.toList ++ held))
    (hblocked : s.semAdd q ≠ .none) (hstill : t.semAdd q ≠ .none) (hq : t.curr_process ≠ some q) :
    t.saved q = s.saved q := by
  cases h with
  | plt c hc hip hnext =>
      have hne : q ≠ c := by
        rintro rfl
        rw [hc] at hs
        exact hblocked (hs.of_held List.mem_cons_self).2.2.1
      rw [hnext.saved hq]
      change (Nucleus.wake c _).saved q = _
      rw [Nucleus.wake_saved, Nucleus.charge_saved, Nucleus.saveState_saved, if_neg hne]
      rfl
  | clock l hl hip hend =>
      rw [hend.saved hq]
      exact congrFun (Nucleus.ticked_saved cfg l s) q
  | device i u hi hret hend =>
      rw [hend.saved hq]
      refine hret.saved fun hnone ↦ hstill ?_
      rw [sems_semAdd hend.sems.1]
      exact hnone
  | none hi hend => exact hend.saved hq

/-- A process that is blocked and stays so keeps its saved state. -/
theorem Handled.saved (h : Handled cfg s e t) (hs : Core s (s.curr_process.toList ++ held))
    (hblocked : s.semAdd q ≠ none) (hstill : t.semAdd q ≠ none) (hq : t.curr_process ≠ some q) :
    t.saved q = s.saved q := by
  cases h with
  | interrupt hcode hend =>
      have hquiet := Quiet.interrupted cfg s
      have hs' : Core (s.interrupted cfg) ((s.interrupted cfg).curr_process.toList ++ held) := by
        rw [interrupted_curr]
        exact hs.quiet hquiet
      rw [hend.saved hs' (by rwa [hquiet.semAdd]) hstill hq, Nucleus.interrupted_saved]
  | call c code hc hcall hend =>
      rw [hc] at hs
      have hs' : Core s.advanced (c :: held) := hs.quiet ⟨fun _ ↦ rfl, rfl⟩
      have hsaved : t.saved q = s.advanced.saved q := Called.saved hs' hend hblocked hq
      exact hsaved
  | passUp c i hc hcall hcode hend => exact hend.saved hq
  | trap c hc hcall hcode hend =>
      have hsaved : t.saved q = s.invalidated.saved q := hend.saved hq
      exact hsaved

end PandosPlus
