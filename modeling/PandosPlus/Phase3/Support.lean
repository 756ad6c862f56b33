import PandosPlus.Machine
import PandosPlus.Phase3.PageTable

/-!
# The support level

The static data of `vmSupport.c`, `sysSupport.c` and `initProc.c`, with the memory, the
flash drives and the TLB their routines reach, and the routines as lists of instructions.

An instruction is what a process does without being interrupted as far as the others can
see: a call of the nucleus, an access to shared data, a section with interrupts disabled,
a choice that depends on what is read.  What a process has still to do is a list of them,
empty in user mode; a page fault puts the instructions of its handler in front of the
instruction that faulted.

There are `u` U-procs (`UPROCMAX` in the source, which also writes it 8), with the ASIDs 1
to `u`, a pool of `m + 1` frames and a TLB of `k + 1` entries.  The stack pointers and the
contexts of the support structures are not kept.
-/

namespace PandosPlus.SupportLevel

def WORD_SIZE : Word := 4
def GETTOD : Int := 1
def TERMINATE : Int := 2
def WRITEPRINTER : Int := 3
def WRITETERMINAL : Int := 4
def READTERMINAL : Int := 5

def FLASHREAD : Word := 2
def FLASHWRITE : Word := 3
def FLASH_READ_ERROR : Word := 4
def FLASH_WRITE_ERROR : Word := 5
def PRINTERWRITE : Word := 2
def TERMINALWRITE : Word := 2
def TERMINALREAD : Word := 2
def MAXSTRLENG : Int := 128

def TLBMOD : Nat := 1
def TLBINVLDL : Nat := 2
def TLBINVLDS : Nat := 3

/-- The cause register for an exception code. -/
def causeOf (code : Nat) : Word := BitVec.ofNat 32 code <<< 2

/-! ## Data -/

/-- The processes: `test` and the U-procs it starts. -/
inductive Actor (u : Nat) where
  | test
  | uproc (i : Fin u)
deriving DecidableEq

variable {u m k : Nat}

/-- `sup_asid` of a U-proc. -/
def asidOf (i : Fin u) : Int := i + 1

/-- The semaphores of the support level, by their place in the arrays of the source. -/
inductive SemId where
  | printer (i : Int)
  | terminal (i : Int)
  | swapPool
  | master
deriving DecidableEq

/-- The parts of the device registers that a DOIO can name. -/
inductive Dev where
  | flash (i : Int)
  | printer (i : Int)
  | transm (i : Int)
  | recv (i : Int)
deriving DecidableEq

/-- A device that characters are written to. -/
inductive Port where
  | printer
  | terminal
deriving DecidableEq

/-- `DEVICE_OF` -/
def DEVICE_OF (asid : Int) : Int := asid - 1

def Port.sem (asid : Int) : Port → SemId
  | .printer => .printer (DEVICE_OF asid)
  | .terminal => .terminal (DEVICE_OF asid)

/-- `support_t` -/
structure SupportStruct where
  sup_asid : Int
  sup_exceptState : Fin 2 → State
  sup_privatePgTbl : Fin 32 → PteEntry

/-- `swap_t` -/
structure Swap (u : Nat) where
  sw_asid : Int
  sw_pageNo : Nat
  /-- A support structure and an entry of its page table. -/
  sw_pte : Option (Fin u × Fin 32)
deriving DecidableEq

/-- An entry of `initSwapStructs`. -/
def Swap.free : Swap u := { sw_asid := NOPROC, sw_pageNo := 0, sw_pte := none }

/-- The register of a device, with the processes that wait for it to complete. -/
structure DevReg (u : Nat) where
  data0 : Word
  command : Word
  waiting : List (Actor u)

/-- What a process has still to do. -/
inductive Instr (u m : Nat) where
  -- utilities.c
  | passeren (s : SemId)
  | setUser (s : SemId) (asid : Int)
  | verhogen (s : SemId)
  -- sysSupport.c
  | generalException
  | release (s : SemId)
  | terminate
  | writeChars (port : Port) (asid : Int) (string : Word) (left : Nat) (sent : Int)
  | sendChar (port : Port) (asid : Int)
  | checkSent (port : Port) (asid : Int) (string : Word) (left : Nat) (sent : Int)
  | readChar (asid : Int) (buffer : Word) (received : Int)
  | checkRead (asid : Int) (buffer : Word) (received : Int)
  | nextRead (asid : Int) (buffer : Word) (received : Int) (read : BitVec 8)
  | sysReturn (v : Word)
  | ldst (i : Fin 2)
  -- accesses to the memory of a U-proc
  | load (a : Word)
  | store (a : Word) (v : BitVec 8)
  -- vmSupport.c
  | tlbException
  | tlbInvalid
  | storePage (f : Fin (m + 1))
  | writePageToFlash (f : Fin (m + 1))
  | loadPage (e : Fin u × Fin 32) (f : Fin (m + 1))
  | recordFrame (f : Fin (m + 1)) (asid : Int) (page_num : Nat) (e : Fin u × Fin 32)
  | mapPage (e : Fin u × Fin 32) (f : Fin (m + 1))
  | setData0 (d : Dev) (v : Word)
  | doIo (d : Dev) (command : Word)
  | checkStatus
  | freeFrame (asid : Int) (f : Fin (m + 1))
  -- initProc.c
  | deallocate
  | listAdd (a : Fin u) (next : Option (Fin u))
  | termProcess
  | allocate (i : Fin u)
  | listDel (i a : Fin u)
  | initSupport (i a : Fin u)
  | initPageTable (i a : Fin u) (tmp_frame : Word)
  | createProcess (i a : Fin u)
deriving DecidableEq

/-- What the nucleus does with a process. -/
inductive Phase where
  /-- It has not been created. -/
  | unborn
  /-- It is running or in a ready queue. -/
  | ready
  /-- It is blocked in the PASSEREN or VERHOGEN its code begins with. -/
  | asleep
  /-- It waits for a device, in the DOIO its code begins with. -/
  | waiting
  | dead
deriving DecidableEq

structure Proc (u m : Nat) where
  phase : Phase
  code : List (Instr u m)
  p_supportStruct : Option (Fin u)
  /-- The status that the last DOIO has returned. -/
  status : Word
  /-- The character loaded last from the memory of the U-proc. -/
  char : BitVec 8

/-- The memory the processes share. -/
structure Memory (u m k : Nat) where
  -- initProc.c: `free_support`, a list threaded through `p_list`; `none` is its head
  support_arr : Fin u → SupportStruct
  next : Option (Fin u) → Option (Fin u)
  prev : Option (Fin u) → Option (Fin u)
  curr_offset : Nat
  -- sysSupport.c and vmSupport.c
  user_asid : SemId → Int
  swap_pool_table : Fin (m + 1) → Swap u
  to_swap_frame_index : Fin (m + 1)
  -- the machine; `ram` gives the page at the address of a frame
  tlb : Fin (k + 1) → Option PteEntry
  ram : Word → Page
  flash : Int → Nat → Page
  dev : Dev → DevReg u

/-- A semaphore as the nucleus sees it, with the processes blocked on it. -/
structure NucSem (u : Nat) where
  val : Int
  queue : List (Actor u)

structure System (u m k : Nat) where
  mem : Memory u m k
  sem : SemId → NucSem u
  proc : Actor u → Proc u m

/-- What the source leaves to the linker and to the machine.  The pool is page-aligned and
fits in memory. -/
structure PoolConfig (m : Nat) where
  FRAME_POOL_START : Word
  RAMTOP : Word
  aligned : FRAME_POOL_START &&& 0xFFF = 0
  fits : FRAME_POOL_START.toNat + (m + 1) * 4096 ≤ 2 ^ 32

/-- `FRAME_ADDRESS` -/
def PoolConfig.frameAddress (cfg : PoolConfig m) (f : Fin (m + 1)) : Word :=
  cfg.FRAME_POOL_START + BitVec.ofNat 32 (f * PAGESIZE)

/-! ## Routines -/

/-- `P` -/
def P (s : SemId) (asid : Int) : List (Instr u m) := [.passeren s, .setUser s asid]

/-- `V` -/
def V (s : SemId) : List (Instr u m) := [.setUser s NOPROC, .verhogen s]

/-- `trapExceptionHandler`: the semaphores the process holds are released, that of the swap
pool by `releaseSwapPoolSem`. -/
def trapExceptionHandler : List (Instr u m) :=
  (List.range u).flatMap (fun i ↦ [.release (.printer i), .release (.terminal i)]) ++
    [.release .swapPool, .terminate]

/-- `freeFrames` -/
def freeFrames (asid : Int) : List (Instr u m) :=
  P .swapPool asid ++ (List.finRange (m + 1)).map (.freeFrame asid) ++ V .swapPool

/-- `signalProcessTermination` -/
def signalProcessTermination : List (Instr u m) := [.deallocate, .verhogen .master]

/-- `_terminate` of the U-proc with an ASID -/
def terminate (asid : Int) : List (Instr u m) :=
  freeFrames asid ++ signalProcessTermination ++ [.termProcess]

/-- `_backingStoreOperation` -/
def backingStoreOperation (operation_command : Word) (asid : Int) (page_num : Nat)
    (frame_address : Word) : List (Instr u m) :=
  [.setData0 (.flash (asid - 1)) frame_address,
    .doIo (.flash (asid - 1)) ((BitVec.ofNat 32 page_num <<< 8) + operation_command),
    .checkStatus]

/-- `_TLBInvalidHandler` -/
def TLBInvalidHandler (asid : Int) : List (Instr u m) := P .swapPool asid ++ [.tlbInvalid]

/-- `_writePrinter`, `_writeTerminal` -/
def writePort (port : Port) (asid : Int) (string : Word) (length : Int) : List (Instr u m) :=
  if length < 0 ∨ length > MAXSTRLENG ∨ string < KUSEG then [.terminate]
  else P (port.sem asid) asid ++ [.writeChars port asid string length.toNat 0, .ldst GENERALEXCEPT]

/-- `_readTerminal` -/
def readTerminal (asid : Int) (buffer : Word) : List (Instr u m) :=
  if buffer < KUSEG then [.terminate]
  else P (.terminal (DEVICE_OF asid)) asid ++ [.readChar asid buffer 0, .ldst GENERALEXCEPT]

/-- `test`, after the data has been initialised: the U-procs are started one by one, and
`test` waits for as many signals. -/
def test : List (Instr u m) :=
  (List.finRange u).map .allocate ++ List.replicate u (.passeren .master) ++ [.termProcess]

end PandosPlus.SupportLevel
