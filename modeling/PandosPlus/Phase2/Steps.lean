import PandosPlus.Phase2.Interrupted
import PandosPlus.Phase2.System

/-!
# How a step of the nucleus ends

One run of `exceptionHandler` is an interrupt, a system call, or an exception passed
up; `Handled` puts the three together.  A run that is none of these stops in an access
to memory that is not there or in a `PANIC`, and is no step of the system.
-/

namespace PandosPlus

open Flow

variable {n : Nat}

/-- The saved program counter is moved past the system call. -/
def Nucleus.advanced (s : Nucleus n) : Nucleus n :=
  { s with prev := { s.prev with pc_epc := s.prev.pc_epc + WORDLEN } }

variable {cfg : Config n} {s : Nucleus n}

/-- A system call the nucleus serves runs the routine of its code. -/
theorem exceptionHandler_call {code : Int} (hcall : IsCall s.prev code) (hneg : code < 1) :
    exceptionHandler cfg s = (systemcall cfg code >>= fun _ ↦ resume) s.advanced := by
  obtain ⟨h8, huser, rfl⟩ := hcall
  have hcodes : ¬ excCode s.prev.cause = 0 ∧ ¬ (excCode s.prev.cause = 1 ∨
      excCode s.prev.cause = 2 ∨ excCode s.prev.cause = 3) := by omega
  have hpos : ¬ s.prev.reg_a0.toInt ≥ 1 := by omega
  simp only [exceptionHandler, bind_run, get_run, ite_run, if_neg hcodes.1, if_neg hcodes.2,
    if_pos h8, systemcallHandler, if_neg hpos, if_neg (not_not.mpr huser), modify_run]
  rfl

variable (cfg) in
/-- How `exceptionHandler` ends. -/
inductive Handled (s : Nucleus n) : Exit → Nucleus n → Prop
  | interrupt {e : Exit} {t : Nucleus n} (hcode : excCode s.prev.cause = 0)
      (hend : Interrupted cfg (s.interrupted cfg) e t) : Handled s e t
  | call {e : Exit} {t : Nucleus n} (c : Fin n) (code : Int) (hc : s.curr_process = some c)
      (hcall : IsCall s.prev code) (hend : Called cfg c s.advanced code e t) : Handled s e t
  | passUp {e : Exit} {t : Nucleus n} (c : Fin n) (i : Fin 2) (hc : s.curr_process = some c)
      (hcall : ∀ code ∈ syscallCodes, ¬ IsCall s.prev code)
      (hcode : excCode s.prev.cause ≠ 0) (hend : PassedUp cfg i c s e t) : Handled s e t
  | trap {e : Exit} {t : Nucleus n} (c : Fin n) (hc : s.curr_process = some c)
      (hcall : ∀ code ∈ syscallCodes, ¬ IsCall s.prev code)
      (hcode : excCode s.prev.cause ≠ 0)
      (hend : PassedUp cfg GENERALEXCEPT c s.invalidated e t) : Handled s e t

/-- The places where the kernel stops. -/
def Exit.Stops (e : Exit) : Prop :=
  e = .nullDeref ∨ e = .busError ∨ e = .panic .noSemaphore ∨ e = .panic .terminal

variable {t : Nucleus n} {held : List (Fin n)} {c : Fin n} {e : Exit}

theorem Exit.Completed.not_stops (h : e.Completed) : ¬ e.Stops := by
  rintro (rfl | rfl | rfl | rfl) <;> exact h

theorem syscallCodes_neg : ∀ code ∈ syscallCodes, code < 1 := by decide

theorem systemcallHandler_ends (hs : Core s (c :: held)) (hc : s.curr_process = some c)
    (hcode : excCode s.prev.cause = 8) (hrun : systemcallHandler cfg s = .error e t) :
    Handled cfg s e t ∨ e = .nullDeref ∨ e = .busError := by
  have hne : excCode s.prev.cause ≠ 0 := by omega
  by_cases ha : s.prev.reg_a0.toInt ≥ 1
  · obtain ⟨e', t', hrun', hend⟩ :=
      passUpOrDieHandler_ends cfg hs.linked hc GENERALEXCEPT
    simp only [systemcallHandler, bind_run, get_run, ite_run, if_pos ha, hrun'] at hrun
    cases hrun
    refine .inl (.passUp c GENERALEXCEPT hc (fun code hmem hcall ↦ ?_) hne hend)
    have := syscallCodes_neg code hmem
    rw [← hcall.2.2] at this
    omega
  by_cases hu : s.prev.status &&& USERPON ≠ 0
  · obtain ⟨e', t', hrun', hend⟩ :=
      generateInvalidSystemCallTrap_ends cfg hs.linked hc
    simp only [systemcallHandler, bind_run, get_run, ite_run, if_neg ha, if_pos hu, hrun'] at hrun
    cases hrun
    exact .inl (.trap c hc (fun code _ hcall ↦ hu hcall.2.1) hne hend)
  · have hcore : Core s.advanced (c :: held) := hs.quiet ⟨fun _ ↦ rfl, rfl⟩
    obtain ⟨e', t', hrun', hend⟩ := systemcall_ends cfg (s := s.advanced) hcore hc
      s.prev.reg_a0.toInt
    have hsame : systemcallHandler cfg s =
        (systemcall cfg s.prev.reg_a0.toInt >>= fun _ ↦ resume) s.advanced := by
      simp only [systemcallHandler, bind_run, get_run, ite_run, if_neg ha, if_neg hu, modify_run]
      rfl
    rw [hsame, hrun'] at hrun
    cases hrun
    rcases hend with hend | rfl | rfl
    · exact .inl (.call c _ hc ⟨hcode, not_not.mp hu, rfl⟩ hend)
    · exact .inr (.inl rfl)
    · exact .inr (.inr rfl)

/-- What a run of the kernel can come to, from a state where every PCB has its place. -/
theorem exceptionHandler_ends (hs : Core s (s.curr_process.toList ++ held))
    (hv : s.mem cfg.semaphore_it ≠ 1)
    (hcurr : excCode s.prev.cause = 0 ∨ s.curr_process ≠ none)
    (hrun : exceptionHandler cfg s = .error e t) : Handled cfg s e t ∨ e.Stops := by
  by_cases h0 : excCode s.prev.cause = 0
  · simp only [exceptionHandler, bind_run, get_run, ite_run, if_pos h0] at hrun
    rcases interruptHandler_ends hs hv hrun with hend | rfl | ⟨rfl, -⟩ | rfl
    · exact .inl (.interrupt h0 hend)
    · exact .inr (.inl rfl)
    · exact .inr (.inr (.inr (.inl rfl)))
    · exact .inr (.inr (.inr (.inr rfl)))
  obtain ⟨c, hc⟩ := Option.ne_none_iff_exists'.mp (hcurr.resolve_left h0)
  have hs' : Core s (c :: held) := by rwa [hc] at hs
  have hup : ∀ i, excCode s.prev.cause ≠ 8 → passUpOrDieHandler cfg i s = .error e t →
      Handled cfg s e t := by
    intro i h8 hrun
    obtain ⟨e', t', hrun', hend⟩ := passUpOrDieHandler_ends cfg hs'.linked hc i
    rw [hrun'] at hrun
    cases hrun
    exact .passUp c i hc (fun code _ hcall ↦ h8 hcall.1) h0 hend
  simp only [exceptionHandler, bind_run, get_run, ite_run, if_neg h0] at hrun
  split at hrun
  · exact .inl (hup _ (by omega) hrun)
  split at hrun
  · rename_i h8
    rcases systemcallHandler_ends hs' hc h8 hrun with hend | rfl | rfl
    · exact .inl hend
    · exact .inr (.inl rfl)
    · exact .inr (.inr (.inl rfl))
  split at hrun
  · exact .inl (hup _ (by omega) hrun)
  · cases hrun

end PandosPlus
