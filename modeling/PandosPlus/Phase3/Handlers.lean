import PandosPlus.Phase3.Support

/-!
# What the support level does

The effect of each instruction, and the steps of the support level: an instruction of a
ready process, something a U-proc does in user mode, or the completion of a device
operation.  Any ready process may go on at any moment; nothing is assumed of the scheduler.

PASSEREN and VERHOGEN are those of the nucleus.  An access through a `NULL` support
structure faults, and the nucleus kills the process with its progeny.
-/

namespace PandosPlus.SupportLevel

variable {u m k : Nat}

/-! ## Memory -/

def Memory.setSupport (s : Memory u m k) (a : Fin u) (f : SupportStruct → SupportStruct) :
    Memory u m k :=
  { s with support_arr := Function.update s.support_arr a (f (s.support_arr a)) }

/-- An entry of a page table. -/
def Memory.pte (s : Memory u m k) (e : Fin u × Fin 32) : PteEntry :=
  (s.support_arr e.1).sup_privatePgTbl e.2

def Memory.setPte (s : Memory u m k) (e : Fin u × Fin 32) (lo : Word) : Memory u m k :=
  s.setSupport e.1 fun x ↦ { x with
    sup_privatePgTbl := Function.update x.sup_privatePgTbl e.2
      { s.pte e with pte_entryLO := lo } }

def Memory.setDev (s : Memory u m k) (d : Dev) (f : DevReg u → DevReg u) : Memory u m k :=
  { s with dev := Function.update s.dev d (f (s.dev d)) }

/-- `TLBP`: the slot of the TLB with a value of EntryHi. -/
def Memory.tlbp (s : Memory u m k) (hi : Word) : Option (Fin (k + 1)) :=
  (List.finRange (k + 1)).find? fun j ↦ (s.tlb j).any fun e ↦ e.pte_entryHI = hi

/-- The entry of the TLB that the hardware finds. -/
def Memory.tlbHit (s : Memory u m k) (hi : Word) : Option PteEntry := (s.tlbp hi).bind s.tlb

/-- `TLBWI`, `TLBWR` -/
def Memory.tlbWrite (s : Memory u m k) (j : Fin (k + 1)) (e : PteEntry) : Memory u m k :=
  { s with tlb := Function.update s.tlb j (some e) }

/-- `_updateTLB` -/
def Memory.updateTLB (s : Memory u m k) (e : Fin u × Fin 32) : Memory u m k :=
  match s.tlbp (s.pte e).pte_entryHI with
  | some j => s.tlbWrite j (s.pte e)
  | none => s

/-- The slot of the page table for a value of EntryHi, if it is in the table. -/
def tableSlot (entry_hi : Word) : Option (Fin 32) :=
  let page_index := getPageIndex (GET_VPN entry_hi)
  if h : page_index < 32 then some ⟨page_index, h⟩ else none

/-- The slot of the page an address lies in.  What happens at the other addresses of kuseg
is in `PageTable.lean`. -/
def slotOf (a : Word) : Option (Fin 32) := (List.finRange 32).find? fun i ↦ pageNumber i = a >>> 12

/-- The place of an address in its page. -/
def pageOffset (a : Word) : Nat := (a &&& 0xFFF).toNat

def Memory.setRam (s : Memory u m k) (a : Word) (page : Page) : Memory u m k :=
  { s with ram := Function.update s.ram a page }

/-! ## The frames -/

/-- `IS_FREE_FRAME` -/
def Memory.IsFree (s : Memory u m k) (f : Fin (m + 1)) : Prop :=
  (s.swap_pool_table f).sw_asid = NOPROC

instance (s : Memory u m k) (f : Fin (m + 1)) : Decidable (s.IsFree f) :=
  inferInstanceAs (Decidable (_ = _))

/-- The loop of `_getFrame`: the counter after as many turns at most. -/
def Memory.nextFrame (s : Memory u m k) : Nat → Fin (m + 1) → Fin (m + 1)
  | 0, f => f
  | turns + 1, f => if s.IsFree f then f else s.nextFrame turns (f + 1)

/-- `_getFrame` -/
def Memory.getFrame (s : Memory u m k) : Fin (m + 1) × Memory u m k :=
  let to_swap_frame := s.nextFrame (m + 1) s.to_swap_frame_index
  (to_swap_frame, { s with to_swap_frame_index := to_swap_frame + 1 })

def Memory.setFrame (s : Memory u m k) (f : Fin (m + 1)) (x : Swap u) : Memory u m k :=
  { s with swap_pool_table := Function.update s.swap_pool_table f x }

/-! ## The free support structures -/

/-- `__list_add(a, free_support, next)` -/
def Memory.listAdd (s : Memory u m k) (a : Fin u) (next : Option (Fin u)) : Memory u m k :=
  { s with
    prev := Function.update (Function.update s.prev next (some a)) (some a) none
    next := Function.update (Function.update s.next (some a) next) none (some a) }

/-- `list_del(free_support.next)` -/
def Memory.listDel (s : Memory u m k) : Memory u m k :=
  let entry := s.next none
  { s with
    prev := Function.update s.prev (s.next entry) (s.prev entry)
    next := Function.update s.next (s.prev entry) (s.next entry) }

/-- `_getStackFrame` -/
def PoolConfig.stackFrame (cfg : PoolConfig m) (curr_offset : Nat) : Word :=
  cfg.RAMTOP - BitVec.ofNat 32 PAGESIZE - BitVec.ofNat 32 (curr_offset * PAGESIZE)

/-- `tmp_frame` of `_initSupportStructure`, in the second of the two frames it takes. -/
def PoolConfig.tmpFrame (cfg : PoolConfig m) (curr_offset : Nat) : Word :=
  cfg.stackFrame (curr_offset + 1) - BitVec.ofNat 32 PAGESIZE + WORDLEN

/-! ## Instructions -/

/-- What is left to what happens outside the code: the entry of the TLB that `TLBWR`
replaces, and the clock. -/
structure Choice (k : Nat) where
  slot : Fin (k + 1)
  time : Word

/-- What an instruction leads to. -/
inductive Outcome (u m k : Nat) where
  | ok (s : Memory u m k) (p : Proc u m)
  /-- An access through `NULL`. -/
  | fault
  /-- Nothing the source says. -/
  | stuck

def Proc.goto (p : Proc u m) (code : List (Instr u m)) : Proc u m := { p with code := code }

/-- A PCB passes an exception up to its support structure: the state saved and the handler. -/
def passUp (s : Memory u m k) (p : Proc u m) (i : Fin 2) (state : State)
    (handler : List (Instr u m)) : Outcome u m k :=
  match p.p_supportStruct with
  | none => .fault
  | some a => .ok (s.setSupport a fun x ↦
      { x with sup_exceptState := Function.update x.sup_exceptState i state }) (p.goto handler)

/-- An access of a U-proc to the page `j` of its table, at the address `a`: `TLBRefillHandler`
when the TLB has no entry for the page, a page fault when it has an invalid one or one that
forbids the access, and else `go`, with the address of the frame.  After the first two the
instruction `i` is tried again. -/
def access (s : Memory u m k) (p : Proc u m) (c : Choice k) (asid : Int) (a : Word)
    (writes : Bool) (i : Instr u m) (rest : List (Instr u m)) (go : Word → Outcome u m k) :
    Outcome u m k :=
  let entry_hi := entryHi (a >>> 12) asid
  match s.tlbHit entry_hi with
  | none =>
      match p.p_supportStruct, tableSlot entry_hi with
      | none, _ => .fault
      | some _, none => .stuck
      | some b, some page_index => .ok (s.tlbWrite c.slot (s.pte (b, page_index))) p
  | some e =>
      let page_fault := fun code ↦ passUp s p PGFAULTEXCEPT
        { State.zero with entry_hi := entry_hi, cause := causeOf code } (.tlbException :: i :: rest)
      if e.pte_entryLO &&& VALIDON = 0 then
        page_fault (if writes then TLBINVLDS else TLBINVLDL)
      else if writes ∧ e.pte_entryLO &&& ENTRYLO_DIRTY = 0 then page_fault TLBMOD
      else go (e.pte_entryLO &&& ENTRYLO_PFN_MASK)

/-- The status is not that of a character written. -/
def Port.failed (status : Word) : Port → Bool
  | .printer => status ≠ DEV_READY
  | .terminal => TERMINAL_STATUS status ≠ CHAR_TRANSMITTED

/-- `_systemcallHandler`, for the support structure `a`. -/
def systemcallHandler (s : Memory u m k) (p : Proc u m) (c : Choice k) (a : Fin u) :
    Outcome u m k :=
  let state := (s.support_arr a).sup_exceptState GENERALEXCEPT
  let asid := (s.support_arr a).sup_asid
  let advance := fun (x : SupportStruct) (r : State → State) ↦
    { x with
      sup_exceptState := Function.update x.sup_exceptState GENERALEXCEPT
        (r { state with pc_epc := state.pc_epc + WORD_SIZE }) }
  let call := fun code ↦ .ok (s.setSupport a fun x ↦ advance x id) (p.goto code)
  if state.reg_a0.toInt = GETTOD then
    .ok (s.setSupport a fun x ↦ advance x fun r ↦ { r with reg_v0 := c.time })
      (p.goto [.ldst GENERALEXCEPT])
  else if state.reg_a0.toInt = TERMINATE then call [.terminate]
  else if state.reg_a0.toInt = WRITEPRINTER then
    call (writePort .printer asid state.reg_a1 state.reg_a2.toInt)
  else if state.reg_a0.toInt = WRITETERMINAL then
    call (writePort .terminal asid state.reg_a1 state.reg_a2.toInt)
  else if state.reg_a0.toInt = READTERMINAL then call (readTerminal asid state.reg_a1)
  else call trapExceptionHandler

variable (cfg : PoolConfig m)

/-- The instructions that leave the other processes and the semaphores of the nucleus alone,
for the process `id`.  An access to an address that no page of the table holds is a bus
error, which `generalExceptionHandler` takes to `trapExceptionHandler`. -/
def exec (c : Choice k) (id : Actor u) (s : Memory u m k) (p : Proc u m) :
    Instr u m → List (Instr u m) → Outcome u m k
  | .setUser x asid, rest =>
      .ok { s with user_asid := Function.update s.user_asid x asid } (p.goto rest)
  | .generalException, _ =>
      match p.p_supportStruct with
      | none => .fault
      | some a =>
          if excCode ((s.support_arr a).sup_exceptState GENERALEXCEPT).cause = 8 then
            systemcallHandler s p c a
          else .ok s (p.goto trapExceptionHandler)
  | .release x, rest =>
      match p.p_supportStruct with
      | none => .fault
      | some a =>
          if s.user_asid x = (s.support_arr a).sup_asid then .ok s (p.goto (V x ++ rest))
          else .ok s (p.goto rest)
  | .terminate, _ =>
      match p.p_supportStruct with
      | none => .fault
      | some a => .ok s (p.goto (terminate (s.support_arr a).sup_asid))
  | .writeChars port asid string left sent, rest =>
      match left with
      | 0 => .ok s (p.goto (V (port.sem asid) ++ .sysReturn (BitVec.ofInt 32 sent) :: rest))
      | left + 1 => .ok s (p.goto
          (.load string :: .sendChar port asid :: .checkSent port asid string left sent :: rest))
  | .sendChar .printer asid, rest =>
      .ok s (p.goto (.setData0 (.printer (DEVICE_OF asid)) (p.char.signExtend 32) ::
        .doIo (.printer (DEVICE_OF asid)) PRINTERWRITE :: rest))
  | .sendChar .terminal asid, rest =>
      .ok s (p.goto (.doIo (.transm (DEVICE_OF asid))
        (TERMINALWRITE + (p.char.signExtend 32 <<< 8)) :: rest))
  | .checkSent port asid string left sent, rest =>
      if port.failed p.status then
        .ok s (p.goto (.sysReturn (-p.status) :: V (port.sem asid) ++
          .sysReturn (BitVec.ofInt 32 sent) :: rest))
      else .ok s (p.goto (.writeChars port asid (string + 1) left (sent + 1) :: rest))
  | .readChar asid buffer received, rest =>
      .ok s (p.goto (.doIo (.recv (DEVICE_OF asid)) TERMINALREAD ::
        .checkRead asid buffer received :: rest))
  | .checkRead asid buffer received, rest =>
      if TERMINAL_STATUS p.status ≠ CHAR_RECEIVED then
        .ok s (p.goto (.sysReturn (-p.status) :: V (.terminal (DEVICE_OF asid)) ++
          .sysReturn (BitVec.ofInt 32 received) :: rest))
      else
        let read := (p.status >>> 8).setWidth 8
        .ok s (p.goto (.store (buffer + BitVec.ofInt 32 received) read ::
          .nextRead asid buffer (received + 1) read :: rest))
  | .nextRead asid buffer received read, rest =>
      if read = 10 then
        .ok s (p.goto (V (.terminal (DEVICE_OF asid)) ++
          .sysReturn (BitVec.ofInt 32 received) :: rest))
      else .ok s (p.goto (.readChar asid buffer received :: rest))
  | .sysReturn v, rest =>
      match p.p_supportStruct with
      | none => .fault
      | some a => .ok (s.setSupport a fun x ↦ { x with
          sup_exceptState := Function.update x.sup_exceptState GENERALEXCEPT
            { x.sup_exceptState GENERALEXCEPT with reg_v0 := v } }) (p.goto rest)
  | .ldst _, rest => .ok s (p.goto rest)
  | .load a, rest =>
      match id, slotOf a with
      | .uproc i, some _ => access s p c (asidOf i) a false (.load a) rest fun frame ↦
          .ok s { p with char := s.ram frame (pageOffset a), code := rest }
      | _, _ => passUp s p GENERALEXCEPT { State.zero with cause := causeOf 7 } trapExceptionHandler
  | .store a v, rest =>
      match id, slotOf a with
      | .uproc i, some _ => access s p c (asidOf i) a true (.store a v) rest fun frame ↦
          .ok (s.setRam frame (Function.update (s.ram frame) (pageOffset a) v)) (p.goto rest)
      | _, _ => passUp s p GENERALEXCEPT { State.zero with cause := causeOf 7 } trapExceptionHandler
  | .tlbException, rest =>
      match p.p_supportStruct with
      | none => .fault
      | some a =>
          let code := excCode ((s.support_arr a).sup_exceptState PGFAULTEXCEPT).cause
          if code = TLBMOD then .ok s (p.goto trapExceptionHandler)
          else if code = TLBINVLDL ∨ code = TLBINVLDS then
            .ok s (p.goto (TLBInvalidHandler (s.support_arr a).sup_asid ++ rest))
          else .stuck
  | .tlbInvalid, rest =>
      match p.p_supportStruct with
      | none => .fault
      | some a =>
          match tableSlot ((s.support_arr a).sup_exceptState PGFAULTEXCEPT).entry_hi with
          | none => .stuck
          | some missing_page_index =>
              let (new_frame, s') := s.getFrame
              .ok s' (p.goto ((if s.IsFree new_frame then []
                else [.storePage new_frame, .writePageToFlash new_frame]) ++
                .loadPage (a, missing_page_index) new_frame :: V .swapPool ++
                .ldst PGFAULTEXCEPT :: rest))
  | .storePage f, rest =>
      match (s.swap_pool_table f).sw_pte with
      | none => .fault
      | some e => .ok ((s.setPte e ((s.pte e).pte_entryLO &&& ~~~VALIDON)).updateTLB e) (p.goto rest)
  | .writePageToFlash f, rest =>
      .ok s (p.goto (backingStoreOperation FLASHWRITE (s.swap_pool_table f).sw_asid
        (s.swap_pool_table f).sw_pageNo (cfg.frameAddress f) ++ rest))
  | .loadPage e f, rest =>
      let asid := ENTRYHI_GET_ASID (s.pte e).pte_entryHI
      let page_num := getPageIndex (GET_VPN (s.pte e).pte_entryHI)
      .ok s (p.goto (backingStoreOperation FLASHREAD asid page_num (cfg.frameAddress f) ++
        .recordFrame f asid page_num e :: .mapPage e f :: rest))
  | .recordFrame f asid page_num e, rest =>
      .ok (s.setFrame f { sw_asid := asid, sw_pageNo := page_num, sw_pte := some e }) (p.goto rest)
  | .mapPage e f, rest =>
      .ok ((s.setPte e (((s.pte e).pte_entryLO &&& ~~~ENTRYLO_PFN_MASK) ||| cfg.frameAddress f |||
        VALIDON)).updateTLB e) (p.goto rest)
  | .setData0 d v, rest => .ok (s.setDev d fun r ↦ { r with data0 := v }) (p.goto rest)
  | .doIo d command, _ =>
      .ok (s.setDev d fun r ↦ { r with command := command, waiting := r.waiting ++ [id] })
        { p with phase := .waiting }
  | .checkStatus, rest =>
      if p.status = FLASH_WRITE_ERROR ∨ p.status = FLASH_READ_ERROR then
        .ok s (p.goto trapExceptionHandler)
      else .ok s (p.goto rest)
  | .freeFrame asid f, rest =>
      if (s.swap_pool_table f).sw_asid = asid then .ok (s.setFrame f .free) (p.goto rest)
      else .ok s (p.goto rest)
  | .deallocate, rest =>
      match p.p_supportStruct with
      | none => .fault
      | some a => .ok s (p.goto (.listAdd a (s.next none) :: rest))
  | .listAdd a next, rest => .ok (s.listAdd a next) (p.goto rest)
  | .allocate i, rest =>
      match s.next none with
      | none => .stuck
      | some a => .ok s (p.goto (.listDel i a :: rest))
  | .listDel i a, rest => .ok s.listDel (p.goto (.initSupport i a :: rest))
  | .initSupport i a, rest =>
      let tmp_frame := cfg.tmpFrame s.curr_offset
      .ok { s.setSupport a fun x ↦ { x with sup_asid := asidOf i } with
          curr_offset := s.curr_offset + 2 }
        (p.goto (backingStoreOperation FLASHREAD (asidOf i) 0 tmp_frame ++
          .initPageTable i a tmp_frame :: rest))
  | .initPageTable i a tmp_frame, rest =>
      .ok (s.setSupport a fun x ↦ { x with
          sup_privatePgTbl := initPageTable (asidOf i) (s.ram tmp_frame) })
        (p.goto (.createProcess i a :: rest))
  -- calls of the nucleus that reach the other processes
  | .passeren _, _ | .verhogen _, _ | .termProcess, _ | .createProcess _ _, _ => .stuck

/-! ## Steps -/

def System.setProc (s : System u m k) (p : Actor u) (x : Proc u m) : System u m k :=
  { s with proc := Function.update s.proc p x }

def System.setSem (s : System u m k) (x : SemId) (sem : NucSem u) : System u m k :=
  { s with sem := Function.update s.sem x sem }

/-- The process leaves the call its code begins with. -/
def System.resume (s : System u m k) (p : Actor u) : System u m k :=
  s.setProc p { s.proc p with phase := .ready, code := (s.proc p).code.tail }

/-- The call of PASSEREN (`full` is 0) or VERHOGEN (`full` is 1) on `x`, by `p`. -/
def System.semCall (s : System u m k) (full : Int) (p : Actor u) (x : SemId) : System u m k :=
  let sem := s.sem x
  if sem.val = full then
    (s.setProc p { s.proc p with phase := .asleep }).setSem x
      { sem with queue := sem.queue ++ [p] }
  else match sem.queue with
    | q :: rest => ((s.resume p).resume q).setSem x { sem with queue := rest }
    | [] => (s.resume p).setSem x { sem with val := 1 - sem.val }

/-- Processes are killed; `_killProcess` takes them out of every queue. -/
def System.kill (s : System u m k) (dies : Actor u → Bool) : System u m k :=
  { mem := { s.mem with
      dev := fun d ↦ { s.mem.dev d with waiting := (s.mem.dev d).waiting.filter fun q ↦ !dies q } }
    sem := fun x ↦ { s.sem x with queue := (s.sem x).queue.filter fun q ↦ !dies q }
    proc := fun q ↦ if dies q then { s.proc q with phase := .dead, code := [] } else s.proc q }

/-- The process and its progeny: all U-procs are children of `test`. -/
def Actor.progeny : Actor u → Actor u → Bool
  | .test, _ => true
  | .uproc i, q => q = .uproc i

/-- A ready process goes on. -/
def run (s : System u m k) (p : Actor u) (c : Choice k) : Option (System u m k) :=
  if (s.proc p).phase = .ready then
    match (s.proc p).code with
    | [] => none
    | .passeren x :: _ => some (s.semCall 0 p x)
    | .verhogen x :: _ => some (s.semCall 1 p x)
    | .termProcess :: _ => some (s.kill p.progeny)
    | .createProcess i a :: rest =>
        some ((s.setProc p ((s.proc p).goto rest)).setProc (.uproc i)
          { s.proc (.uproc i) with phase := .ready, code := [], p_supportStruct := some a })
    | i :: rest =>
        match exec cfg c p s.mem (s.proc p) i rest with
        | .ok mem x => some { s.setProc p x with mem := mem }
        | .fault => some (s.kill p.progeny)
        | .stuck => none
  else none

/-- What a U-proc does in user mode. -/
inductive UserOp where
  | load (a : Word)
  | store (a : Word) (v : BitVec 8)
  /-- A system call or a trap, with the state saved. -/
  | exception (state : State)

def userOp (s : Memory u m k) (p : Proc u m) : UserOp → Outcome u m k
  | .load a => .ok s (p.goto [.load a])
  | .store a v => .ok s (p.goto [.store a v])
  | .exception state =>
      if excCode state.cause ≤ 3 then .stuck
      else passUp s p GENERALEXCEPT state [.generalException]

/-- The U-proc `i` goes on in user mode. -/
def user (s : System u m k) (i : Fin u) (op : UserOp) : Option (System u m k) :=
  let p := s.proc (.uproc i)
  if p.phase = .ready ∧ p.code = [] then
    match userOp s.mem p op with
    | .ok mem x => some { s.setProc (.uproc i) x with mem := mem }
    | _ => none
  else none

/-- A flash drive transfers a page between its block and the frame in `data0`. -/
def Memory.transfer (s : Memory u m k) (i : Int) : Memory u m k :=
  let r := s.dev (.flash i)
  let block := (r.command >>> 8).toNat
  if r.command &&& 0xFF = FLASHREAD then s.setRam r.data0 (s.flash i block)
  else if r.command &&& 0xFF = FLASHWRITE then
    { s with
      flash := Function.update s.flash i (Function.update (s.flash i) block (s.ram r.data0)) }
  else s

/-- What the operation of a device leaves in memory.  Only one that ends ready has
transferred a page. -/
def Memory.completed (s : Memory u m k) (status : Word) : Dev → Memory u m k
  | .flash i => if status = DEV_READY then s.transfer i else s
  | _ => s

/-- The operation of a device completes with a status, which its requester `p` is woken
with. -/
def System.completed (s : System u m k) (d : Dev) (status : Word) (p : Actor u)
    (rest : List (Actor u)) : System u m k :=
  { s.setProc p { s.proc p with
      phase := .ready, code := (s.proc p).code.tail, status := status } with
    mem := (s.mem.completed status d).setDev d fun r ↦ { r with waiting := rest } }

def complete (s : System u m k) (d : Dev) (status : Word) : Option (System u m k) :=
  match (s.mem.dev d).waiting with
  | [] => none
  | p :: rest => some (s.completed d status p rest)

/-- What can happen. -/
inductive Event (u k : Nat) where
  | run (p : Actor u) (c : Choice k)
  | user (i : Fin u) (op : UserOp)
  | complete (d : Dev) (status : Word)

/-- The process whose code goes on. -/
def Event.actor : Event u k → Option (Actor u)
  | .run p _ => some p
  | .user i _ => some (.uproc i)
  | .complete _ _ => none

def sysStep (s : System u m k) : Event u k → Option (System u m k)
  | .run p c => run cfg s p c
  | .user i op => user s i op
  | .complete d status => complete s d status

/-- The steps of the support level. -/
def SupStep (s : System u m k) (a : Event u k) (t : System u m k) : Prop :=
  sysStep cfg s a = some t

/-! ## The first states -/

/-- The data of the support level before `test` starts the first U-proc: `initSwapStructs`,
`initSysStructs`, `_initFreeSupportStack`. -/
def Memory.initial (support_arr : Fin u → SupportStruct) (ram : Word → Page)
    (flash : Int → Nat → Page) (dev : Dev → Word × Word) : Memory u m k :=
  (List.finRange u).foldl (fun s a ↦ s.listAdd a (s.next none))
    { support_arr := support_arr, next := fun _ ↦ none, prev := fun _ ↦ none, curr_offset := 0
      user_asid := fun _ ↦ NOPROC, swap_pool_table := fun _ ↦ .free, to_swap_frame_index := 0
      tlb := fun _ ↦ none, ram := ram, flash := flash
      dev := fun d ↦ { data0 := (dev d).1, command := (dev d).2, waiting := [] } }

/-- The semaphores as `initSwapStructs`, `initSysStructs` and `test` initialise them. -/
def initialSem (x : SemId) : NucSem u := { val := if x = .master then 0 else 1, queue := [] }

/-- `test` is about to start the first U-proc. -/
def Booted (s : System u m k) : Prop :=
  ∃ support_arr ram flash dev, s.mem = Memory.initial support_arr ram flash dev ∧
    s.sem = initialSem ∧
    (s.proc .test).phase = .ready ∧ (s.proc .test).code = test ∧
    (s.proc .test).p_supportStruct = none ∧
    ∀ i, (s.proc (.uproc i)).phase = .unborn ∧ (s.proc (.uproc i)).code = []

/-- `test` has started the U-procs, each with a support structure of its own, a page table
made by `initPageTable` and the ASID it goes by; none has run yet. -/
structure Started (s : System u m k) : Prop where
  sem : s.sem = initialSem
  user_asid : s.mem.user_asid = fun _ ↦ NOPROC
  swap_pool_table : s.mem.swap_pool_table = fun _ ↦ .free
  tlb : s.mem.tlb = fun _ ↦ none
  idle : ∀ d, (s.mem.dev d).waiting = []
  waits : (s.proc .test).phase = .ready ∧
    (s.proc .test).code = List.replicate u (.passeren .master) ++ [.termProcess] ∧
    (s.proc .test).p_supportStruct = none
  born : ∀ i, (s.proc (.uproc i)).phase = .ready ∧ (s.proc (.uproc i)).code = []
  support : ∃ f : Fin u → Fin u, Function.Injective f ∧ ∀ i,
    (s.proc (.uproc i)).p_supportStruct = some (f i) ∧
    (s.mem.support_arr (f i)).sup_asid = asidOf i ∧
    ∃ tmp_frame, (s.mem.support_arr (f i)).sup_privatePgTbl = initPageTable (asidOf i) tmp_frame

end PandosPlus.SupportLevel
