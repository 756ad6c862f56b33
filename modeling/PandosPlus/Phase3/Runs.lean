import PandosPlus.Lib.Run
import PandosPlus.Phase3.Handlers

/-!
# Runs that can be computed

A list of events is run by `sysRun`, from a first state whose memory, drives and support
structures are empty: before the start of the U-procs (`System.boot`) or after it
(`System.start`).
-/

namespace PandosPlus.SupportLevel

open Lts

variable {u m k : Nat}

/-- The events of a list, one after the other. -/
def sysRun (cfg : PoolConfig m) (s : System u m k) (as : List (Event u k)) :
    Option (System u m k) := as.foldlM (sysStep cfg) s

theorem sysRun_run {cfg : PoolConfig m} {as : List (Event u k)} {s t : System u m k}
    (h : sysRun cfg s as = some t) : Run (SupStep cfg) s as t := .of_exec (fun _ _ _ h ↦ h) h

/-- A pool at the start of a megabyte. -/
def PoolConfig.sample (m : Nat) (h : m < 256) : PoolConfig m where
  FRAME_POOL_START := 0x20100000
  RAMTOP := 0x20400000
  aligned := by decide
  fits := by
    change 537919488 + (m + 1) * 4096 ≤ 4294967296
    omega

def emptySupport : SupportStruct :=
  { sup_asid := 0, sup_exceptState := fun _ ↦ State.zero
    sup_privatePgTbl := fun _ ↦ { pte_entryHI := 0, pte_entryLO := 0 } }

/-- A process that has done nothing yet. -/
def Proc.idle (phase : Phase) (code : List (Instr u m)) (support : Option (Fin u)) : Proc u m :=
  { phase := phase, code := code, p_supportStruct := support, status := 0, char := 0 }

variable (u m k) in
/-- `test` is about to start the first U-proc, and every frame and block is empty. -/
def System.boot : System u m k where
  mem := .initial (fun _ ↦ emptySupport) (fun _ _ ↦ 0) (fun _ _ _ ↦ 0) fun _ ↦ (0, 0)
  sem := initialSem
  proc
    | .test => .idle .ready test none
    | .uproc _ => .idle .unborn [] none

theorem System.boot_booted : Booted (System.boot u m k) :=
  ⟨_, _, _, _, rfl, rfl, rfl, rfl, rfl, fun _ ↦ ⟨rfl, rfl⟩⟩

variable (u m k) in
/-- The U-procs have been started, with empty headers. -/
def System.start : System u m k where
  mem := .initial (fun i ↦ { emptySupport with
      sup_asid := asidOf i, sup_privatePgTbl := initPageTable (asidOf i) fun _ ↦ 0 })
    (fun _ _ ↦ 0) (fun _ _ _ ↦ 0) fun _ ↦ (0, 0)
  sem := initialSem
  proc
    | .test => .idle .ready (List.replicate u (.passeren .master) ++ [.termProcess]) none
    | .uproc i => .idle .ready [] (some i)

/-- The free list is all that is not there from the beginning. -/
theorem Memory.initial_eq (support_arr : Fin u → SupportStruct) (ram : Word → Page)
    (flash : Int → Nat → Page) (dev : Dev → Word × Word) :
    ∃ next prev, (Memory.initial support_arr ram flash dev : Memory u m k) =
      { support_arr := support_arr, next := next, prev := prev, curr_offset := 0
        user_asid := fun _ ↦ NOPROC, swap_pool_table := fun _ ↦ .free, to_swap_frame_index := 0
        tlb := fun _ ↦ none, ram := ram, flash := flash
        dev := fun d ↦ { data0 := (dev d).1, command := (dev d).2, waiting := [] } } := by
  have hfold : ∀ (l : List (Fin u)) (s : Memory u m k), ∃ next prev,
      l.foldl (fun s a ↦ s.listAdd a (s.next none)) s = { s with next := next, prev := prev } := by
    intro l
    induction l with
    | nil => exact fun s ↦ ⟨s.next, s.prev, rfl⟩
    | cons a l ih => exact fun s ↦ ih (s.listAdd a (s.next none))
  exact hfold _ _

theorem System.start_started : Started (System.start u m k) := by
  obtain ⟨next, prev, hmem⟩ := Memory.initial_eq (m := m) (k := k) (u := u) (fun i ↦
    { emptySupport with
      sup_asid := asidOf i, sup_privatePgTbl := initPageTable (asidOf i) fun _ ↦ 0 })
    (fun _ _ ↦ 0) (fun _ _ _ ↦ 0) fun _ ↦ (0, 0)
  have hstart : (System.start u m k).mem = _ := hmem
  refine ⟨rfl, ?_, ?_, ?_, fun d ↦ ?_, ⟨rfl, rfl, rfl⟩, fun _ ↦ ⟨rfl, rfl⟩,
    id, Function.injective_id, fun i ↦ ⟨rfl, ?_, fun _ ↦ 0, ?_⟩⟩ <;> rw [hstart] <;> rfl

end PandosPlus.SupportLevel
