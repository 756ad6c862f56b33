import Mathlib.Data.List.FinRange
import PandosPlus.Machine
import PandosPlus.Lib.Flow

/-!
# The state of the nucleus

All the static data of `pcb.c`, `asl.c`, `scheduler.c` and `initial.c`, together
with the machine state their routines reach.

A PCB is named by its index in `pcbFree_table`, a semaphore descriptor by its
index in `semd_table`; the number `n` of both is `MAXPROC`.  A circular list of
the source, threaded through a link field, is the list of the indices met from
its sentinel on: `p_list` threads the free list, the two ready queues and the
queues of the semaphores, `p_sib` the lists of children, `pid_list` the list of
live processes, `s_link` the two lists of descriptors.  The link fields
themselves are not kept.
-/

namespace PandosPlus

/-- `PROCESS_PRIO_LOW`, `PROCESS_PRIO_HIGH` -/
inductive Prio where
  | low
  | high
deriving DecidableEq, Repr

/-- `pcb_t` -/
structure Pcb (n : Nat) where
  p_parent : Option (Fin n)
  p_child : List (Fin n)
  p_s : State
  p_time : Int
  p_semAdd : Option Word
  p_supportStruct : Option Word
  p_prio : Prio
  p_pid : Word

/-- An entry of `pcbFree_table` before `main` runs: static storage starts with null
pointers and zeros. -/
def Pcb.zero (n : Nat) : Pcb n :=
  { p_parent := none, p_child := [], p_s := .zero, p_time := 0, p_semAdd := none,
    p_supportStruct := none, p_prio := .low, p_pid := 0 }

/-- `semd_t` -/
structure Semd (n : Nat) where
  s_key : Word
  s_procq : List (Fin n)

/-- The static data of `asl.c`. -/
structure Asl (n : Nat) where
  semd_table : Fin n → Semd n
  semdFree_h : List (Fin n)
  semd_h : List (Fin n)

/-- The nucleus. -/
structure Nucleus (n : Nat) where
  -- pcb.c
  pcbFree_table : Fin n → Pcb n
  pcbFree_h : List (Fin n)
  pid_list_h : List (Fin n)
  curr_pid : Word
  -- asl.c
  asl : Asl n
  -- initial.c
  curr_process : Option (Fin n)
  process_count : Word
  softblocked_count : Word
  low_readyqueue : List (Fin n)
  high_readyqueue : List (Fin n)
  timer_start : Int
  -- scheduler.c
  process_to_skip : Option (Fin n)
  -- the memory outside this data, the support structures and the device registers
  mem : Word → Word
  support : Word → Support
  -- the state saved by the BIOS, the status register, the two timers
  prev : State
  status : Word
  plt : Int
  it : Int
  -- how many times the clock has been read
  clock : Nat

variable {n : Nat}

/-- The static data before `main` runs: static storage starts with null pointers and
zeros.  Memory is given what the loader leaves there. -/
def Nucleus.boot (mem : Word → Word) (support : Word → Support) : Nucleus n :=
  { pcbFree_table := fun _ ↦ .zero n, pcbFree_h := [], pid_list_h := [], curr_pid := 0
    asl := ⟨fun _ ↦ ⟨0, []⟩, [], []⟩
    curr_process := none, process_count := 0, softblocked_count := 0
    low_readyqueue := [], high_readyqueue := [], timer_start := 0, process_to_skip := none
    mem := mem, support := support, prev := .zero, status := 0, plt := 0, it := 0, clock := 0 }

/-- A machine whose memory holds zeros. -/
def Nucleus.zero : Nucleus n := .boot (fun _ ↦ 0) fun _ ↦ ⟨fun _ ↦ .zero, fun _ ↦ ⟨0, 0, 0⟩⟩

/-- What reading `p_pid` through a `NULL` pointer does. -/
inductive NullRead where
  /-- The access faults and the kernel goes no further. -/
  | faults
  /-- Whatever is read, no process is taken to be there. -/
  | dead
deriving DecidableEq, Repr

/-- What the source leaves to the linker and to the machine. -/
structure Config (n : Nat) where
  /-- The address `NULL` stands for. -/
  NULL : Word
  /-- `&semaphore_it` -/
  semaphore_it : Word
  /-- `&semaphore_devices[0]` -/
  semaphore_devices : Word
  /-- The entry point of the first process. -/
  test : Word
  /-- `RAMTOP` -/
  ramTop : Word
  /-- The `state_t` stored at an address. -/
  readState : (Word → Word) → Word → State
  /-- The successive readings of the clock (`STCK`). -/
  tod : Nat → Int
  nullRead : NullRead
  /-- The PCBs fit in memory. -/
  maxproc_lt : n < 2 ^ 32
  it_ram : RAMSTART ≤ semaphore_it
  devices_ram : RAMSTART ≤ semaphore_devices
  devices_end : semaphore_devices.toNat + 4 * TOTAL_IO_DEVICES ≤ 2 ^ 32
  /-- The two statics do not overlap. -/
  it_notMem : semaphore_it < semaphore_devices ∨
    semaphore_devices + 4 * (47 : Word) < semaphore_it

/-- Kernel code over `n` PCBs. -/
abbrev NucM (n : Nat) := EStateM Exit (Nucleus n)

/-- Follow a pointer. -/
def deref {α : Type} : Option α → NucM n α
  | none => throw .nullDeref
  | some a => pure a

@[simp] theorem deref_some {α : Type} (a : α) (s : Nucleus n) :
    (deref (some a) : NucM n α) s = .ok a s := rfl

@[simp] theorem deref_none {α : Type} (s : Nucleus n) :
    (deref none : NucM n α) s = .error .nullDeref s := rfl

/-- `p->field = ...` -/
def Nucleus.modifyPcb (s : Nucleus n) (p : Fin n) (f : Pcb n → Pcb n) : Nucleus n :=
  { s with pcbFree_table := fun q ↦ if q = p then f (s.pcbFree_table q) else s.pcbFree_table q }

theorem Nucleus.modifyPcb_table (s : Nucleus n) (p : Fin n) (f : Pcb n → Pcb n) (q : Fin n) :
    (s.modifyPcb p f).pcbFree_table q =
      if q = p then f (s.pcbFree_table q) else s.pcbFree_table q := rfl

/-- What `f` leaves alone is left alone everywhere. -/
theorem Nucleus.modifyPcb_field {α : Type} (g : Pcb n → α) {f : Pcb n → Pcb n}
    (hg : ∀ x, g (f x) = g x) (s : Nucleus n) (p q : Fin n) :
    g ((s.modifyPcb p f).pcbFree_table q) = g (s.pcbFree_table q) := by
  rw [Nucleus.modifyPcb_table]
  split
  · exact hg _
  · rfl

/-- `*a = v` -/
def Nucleus.store (s : Nucleus n) (a v : Word) : Nucleus n :=
  { s with mem := fun b ↦ if b = a then v else s.mem b }

/-- `GET_READY_QUEUE` -/
def Nucleus.readyQueue (s : Nucleus n) : Prio → List (Fin n)
  | .low => s.low_readyqueue
  | .high => s.high_readyqueue

/-- Assigning to the queue `GET_READY_QUEUE` points at. -/
def Nucleus.setReadyQueue (s : Nucleus n) (l : List (Fin n)) : Prio → Nucleus n
  | .low => { s with low_readyqueue := l }
  | .high => { s with high_readyqueue := l }

namespace Nucleus

@[simp] theorem readyQueue_setReadyQueue (s : Nucleus n) (l : List (Fin n)) (pr : Prio) :
    (s.setReadyQueue l pr).readyQueue pr = l := by cases pr <;> rfl

theorem readyQueue_setReadyQueue_ne (s : Nucleus n) (l : List (Fin n)) {pr pr' : Prio}
    (h : pr' ≠ pr) : (s.setReadyQueue l pr).readyQueue pr' = s.readyQueue pr' := by
  cases pr <;> cases pr' <;> first | rfl | exact absurd rfl h

@[simp] theorem setReadyQueue_table (s : Nucleus n) (l : List (Fin n)) (pr : Prio) :
    (s.setReadyQueue l pr).pcbFree_table = s.pcbFree_table := by cases pr <;> rfl

@[simp] theorem setReadyQueue_free (s : Nucleus n) (l : List (Fin n)) (pr : Prio) :
    (s.setReadyQueue l pr).pcbFree_h = s.pcbFree_h := by cases pr <;> rfl

@[simp] theorem setReadyQueue_pids (s : Nucleus n) (l : List (Fin n)) (pr : Prio) :
    (s.setReadyQueue l pr).pid_list_h = s.pid_list_h := by cases pr <;> rfl

@[simp] theorem setReadyQueue_asl (s : Nucleus n) (l : List (Fin n)) (pr : Prio) :
    (s.setReadyQueue l pr).asl = s.asl := by cases pr <;> rfl

@[simp] theorem setReadyQueue_count (s : Nucleus n) (l : List (Fin n)) (pr : Prio) :
    (s.setReadyQueue l pr).process_count = s.process_count := by cases pr <;> rfl

@[simp] theorem setReadyQueue_soft (s : Nucleus n) (l : List (Fin n)) (pr : Prio) :
    (s.setReadyQueue l pr).softblocked_count = s.softblocked_count := by cases pr <;> rfl

@[simp] theorem setReadyQueue_mem (s : Nucleus n) (l : List (Fin n)) (pr : Prio) :
    (s.setReadyQueue l pr).mem = s.mem := by cases pr <;> rfl

@[simp] theorem setReadyQueue_prev (s : Nucleus n) (l : List (Fin n)) (pr : Prio) :
    (s.setReadyQueue l pr).prev = s.prev := by cases pr <;> rfl

@[simp] theorem setReadyQueue_curr (s : Nucleus n) (l : List (Fin n)) (pr : Prio) :
    (s.setReadyQueue l pr).curr_process = s.curr_process := by cases pr <;> rfl

@[simp] theorem setReadyQueue_skip (s : Nucleus n) (l : List (Fin n)) (pr : Prio) :
    (s.setReadyQueue l pr).process_to_skip = s.process_to_skip := by cases pr <;> rfl

@[simp] theorem setReadyQueue_plt (s : Nucleus n) (l : List (Fin n)) (pr : Prio) :
    (s.setReadyQueue l pr).plt = s.plt := by cases pr <;> rfl

end Nucleus

/-- The pointer a word stands for. -/
def Config.ptr (cfg : Config n) (a : Word) : Option Word := if a = cfg.NULL then none else some a

/-- The word a pointer is stored as. -/
def Config.addr (cfg : Config n) : Option Word → Word
  | none => cfg.NULL
  | some a => a

/-- The address of an element of `semaphore_devices`. -/
def Config.devSem (cfg : Config n) (i : Fin TOTAL_IO_DEVICES) : Word :=
  cfg.semaphore_devices + BitVec.ofNat 32 (4 * i)

end PandosPlus
