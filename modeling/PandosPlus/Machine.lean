import Mathlib.Algebra.GroupWithZero.Nat
import Mathlib.Order.Defs.LinearOrder
import Mathlib.Tactic.Common

/-!
# Words, processor states and device registers

The parts of the machine the kernel reads and writes: 32-bit words, the processor
state saved at an exception (`state_t`), and the addresses of the device
registers.  Addresses are words; a pointer that may be `NULL` is an `Option`.

The layout of the device area is the one `getIODeviceSemaphore` computes with:
registers of four words from `0x10000054`, eight to an interrupt line, the lines
numbered from 3.
-/

namespace PandosPlus

/-- A 32-bit machine word, ordered as an unsigned number. -/
abbrev Word := BitVec 32

instance : LinearOrder Word where
  le_refl := by intro a; bv_omega
  le_trans := by intro a b c; bv_omega
  lt_iff_le_not_ge := by intro a b; bv_omega
  le_antisymm := by intro a b; bv_omega
  le_total := by intro a b; bv_omega
  toDecidableLE := inferInstance

/-- `state_t`: the processor state saved by the BIOS.  The registers no routine
looks into are kept together in `regs`. -/
structure State where
  entry_hi : Word
  cause : Word
  status : Word
  pc_epc : Word
  reg_v0 : Word
  reg_a0 : Word
  reg_a1 : Word
  reg_a2 : Word
  reg_a3 : Word
  reg_sp : Word
  reg_t9 : Word
  regs : Nat → Word

/-- A state of statically allocated memory. -/
def State.zero : State := ⟨0, 0, 0, 0, 0, 0, 0, 0, 0, 0, 0, fun _ ↦ 0⟩

/-- `context_t` -/
structure Context where
  stackPtr : Word
  status : Word
  pc : Word

/-- The part of `support_t` the nucleus uses: where it saves the state of a passed
up exception, and the contexts it passes control to. -/
structure Support where
  sup_exceptState : Fin 2 → State
  sup_exceptContext : Fin 2 → Context

/-! ## Constants -/

def WORDLEN : Word := 4
def RAMSTART : Word := 0x20000000
def TIMESCALEADDR : Word := 0x10000024
def PGFAULTEXCEPT : Fin 2 := 0
def GENERALEXCEPT : Fin 2 := 1
def PSECOND : Int := 100000
def TIMESLICE : Int := 5000

def CREATEPROCESS : Int := -1
def TERMPROCESS : Int := -2
def PASSEREN : Int := -3
def VERHOGEN : Int := -4
def DOIO : Int := -5
def GETTIME : Int := -6
def CLOCKWAIT : Int := -7
def GETSUPPORTPTR : Int := -8
def GETPROCESSID : Int := -9
def YIELD : Int := -10

def USERPON : Word := 0x00000008
def IEPON : Word := 0x00000004
def IECON : Word := 0x00000001
def IMON : Word := 0x0000FF00
def TEBITON : Word := 0x08000000

def LOCALTIMERINT : Word := 0x00000200
def TIMERINTERRUPT : Word := 0x00000400
def DISKINTERRUPT : Word := 0x00000800
def FLASHINTERRUPT : Word := 0x00001000
def NETINTERRUPT : Word := 0x00002000
def PRINTINTERRUPT : Word := 0x00004000
def TERMINTERRUPT : Word := 0x00008000
def CAUSE_IP_MASK : Word := 0x0000FF00

def TERM0ADDR : Word := 0x10000254
def ACK : Word := 1
def DEV_READY : Word := 1
def CHAR_RECEIVED : Word := 5
def CHAR_TRANSMITTED : Word := 5

/-- `CAUSE_GET_EXCCODE` -/
def excCode (cause : Word) : Nat := ((cause &&& 0x7C) >>> 2).toNat

/-- `TERMINAL_STATUS`: the status code is the low byte. -/
def TERMINAL_STATUS (status : Word) : Word := status &&& 0xFF

/-! ## Device registers -/

def IL_DISK : Nat := 3
def IL_FLASH : Nat := 4
def IL_ETHERNET : Nat := 5
def IL_PRINTER : Nat := 6
def IL_TERMINAL : Nat := 7
def N_DEV_PER_IL : Nat := 8
def DEV_REG_START : Word := 0x10000054
def DEV_REG_SIZE : Word := 0x10

/-- `DEV_REG_ADDR`: the first word of a device register. -/
def devRegAddr (line dev : Nat) : Word :=
  DEV_REG_START + BitVec.ofNat 32 (((line - 3) * N_DEV_PER_IL + dev) * 0x10)

/-- `interrupt_dev[line - 3]`: the bitmap of the devices of a line with an interrupt
pending. -/
def bitmapAddr (line : Nat) : Word := 0x10000040 + BitVec.ofNat 32 ((line - 3) * 4)

/-- `TOTAL_IO_DEVICES`: every device register has one command field, those of the
terminals have two. -/
abbrev TOTAL_IO_DEVICES : Nat := 48

instance totalIoDevices_neZero : NeZero TOTAL_IO_DEVICES := ⟨by decide⟩

instance fin_lawfulBEq (n : Nat) : LawfulBEq (Fin n) := inferInstance

/-- The address of the command field that the `i`-th device semaphore stands for.
The first forty are the command fields of the registers in address order (for a
terminal the one of its receiver), the last eight those of the transmitters. -/
def commandAddr (i : Fin TOTAL_IO_DEVICES) : Word :=
  if i.val < 40 then DEV_REG_START + BitVec.ofNat 32 (i.val * 0x10) + 0x4
  else DEV_REG_START + BitVec.ofNat 32 ((i.val - 8) * 0x10) + 0xC

/-- The status field read together with the `i`-th command field. -/
def statusAddr (i : Fin TOTAL_IO_DEVICES) : Word := commandAddr i - 0x4

/-- The registers of the bus, below the first address of the RAM. -/
def IsBusAddr (a : Word) : Prop := 0x10000000 ≤ a ∧ a < RAMSTART

instance (a : Word) : Decidable (IsBusAddr a) := inferInstanceAs (Decidable (_ ∧ _))

theorem commandAddr_bus (i : Fin TOTAL_IO_DEVICES) : IsBusAddr (commandAddr i) := by
  revert i; decide

theorem commandAddr_injective : Function.Injective commandAddr := by
  intro i j; revert i j; decide

/-! ## Leaving the kernel -/

/-- The places where the kernel gives up. -/
inductive Panic where
  /-- No semaphore descriptor is free (`semP`, `semV`). -/
  | noSemaphore
  /-- A terminal interrupts with no character received or transmitted. -/
  | terminal
  /-- Processes are alive, none is ready and none waits for a device. -/
  | deadlock
  /-- `scheduler` came back to `main`. -/
  | main
deriving DecidableEq, Repr

/-- The ways in which control leaves the kernel code. -/
inductive Exit where
  /-- `LDST`: a processor state is loaded. -/
  | ldst (state : State)
  /-- `LDCXT`: a context is loaded. -/
  | ldcxt (context : Context)
  /-- `WAIT`: the processor idles until the next interrupt. -/
  | wait
  /-- `HALT` -/
  | halt
  /-- `PANIC` -/
  | panic (site : Panic)
  /-- An access through a `NULL` pointer. -/
  | nullDeref
  /-- A store to an address that is no command field. -/
  | busError
  /-- A loop that does not come to its end. -/
  | diverges

/-- The kernel has done its work and handed over the processor, or waits. -/
def Exit.Completed : Exit → Prop
  | .ldst _ | .ldcxt _ | .wait => True
  | _ => False

instance : DecidablePred Exit.Completed
  | .ldst _ | .ldcxt _ | .wait => .isTrue trivial
  | .halt | .panic _ | .nullDeref | .busError | .diverges => .isFalse id

end PandosPlus
