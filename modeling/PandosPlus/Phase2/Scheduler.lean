import PandosPlus.Phase1.Asl

/-!
# Timers, the scheduler and the semaphore operations

`initial.c` up to `startPLT`, `scheduler.c`, and the operations `semP` and `semV`
of `asl.c`, which call the scheduler.  `scheduler` never returns: a routine that
calls it in the middle leaves there.
-/

namespace PandosPlus

variable {n : Nat} (cfg : Config n)

/-! ## Auxiliary routines (`initial.c`) -/

/-- `isSoftBlocked` -/
def isSoftBlocked (p : Fin n) (s : Nucleus n) : Bool :=
  match (s.pcbFree_table p).p_semAdd with
  | none => false
  | some a =>
      a = cfg.semaphore_it ∨
        (a ≥ cfg.devSem 0 ∧ a ≤ cfg.devSem (Fin.last (TOTAL_IO_DEVICES - 1)))

/-- `getIODeviceSemaphore`: the address computed from the index. -/
def getIODeviceSemaphore (command_address : Word) : Word :=
  let dev_register_address :=
    if command_address ≥ TERM0ADDR then
      if command_address &&& 0b1000 = 0b1000 then command_address - 0x4
      else command_address - 0xC
    else command_address - 0x4
  let offset : Word :=
    if command_address ≥ TERM0ADDR then
      if command_address &&& 0b1000 = 0b1000 then 0 else 8
    else 0
  let sem_index := (dev_register_address - DEV_REG_START) / DEV_REG_SIZE + offset
  cfg.semaphore_devices + 4 * sem_index

/-- `STCK` -/
def stck : NucM n Int := do
  let s ← get
  set { s with clock := s.clock + 1 }
  return cfg.tod s.clock

/-- `resetIntervalTimer`: `%` rounds towards zero. -/
def resetIntervalTimer : NucM n Unit := do
  let curr_time ← stck cfg
  modify fun s ↦ { s with it := PSECOND - curr_time.tmod PSECOND }

/-- `timerFlush` -/
def timerFlush : NucM n Int := do
  let curr_time ← stck cfg
  let s ← get
  let diff := curr_time - s.timer_start
  let start ← stck cfg
  modify fun s ↦ { s with timer_start := start }
  return diff

/-- `updateProcessCPUTime` -/
def updateProcessCPUTime : NucM n Unit := do
  let s ← get
  let c ← deref s.curr_process
  let diff ← timerFlush cfg
  modify fun s ↦ s.modifyPcb c fun x ↦ { x with p_time := x.p_time + diff }

/-- `startPLT` -/
def startPLT (s : Nucleus n) : Nucleus n :=
  { s with plt := TIMESLICE * (s.mem TIMESCALEADDR).toInt }

/-! ## The scheduler (`scheduler.c`) -/

/-- `IS_ALIVE`; on `NULL` the access does what `nullRead` says. -/
def isAlive (p : Option (Fin n)) : NucM n Bool := do
  let s ← get
  match p with
  | some p => return (s.pcbFree_table p).p_pid ≠ FREE_PCB_PID
  | none => if cfg.nullRead = .dead then return false else throw .nullDeref

/-- `_getNextProcess` -/
def getNextProcess (s : Nucleus n) : Option (Fin n) × Nucleus n :=
  let (next, s) :=
    if s.high_readyqueue ≠ [] ∧
        (headProcQ s.high_readyqueue ≠ s.process_to_skip ∨ s.low_readyqueue = []) then
      let (p, l) := removeProcQ s.high_readyqueue
      (p, { s with high_readyqueue := l })
    else
      let (p, l) := removeProcQ s.low_readyqueue
      (p, { s with low_readyqueue := l })
  (next, { s with process_to_skip := none })

/-- The last lines of `scheduler`: the process takes the processor, its timer
running only at low priority. -/
def dispatch (p : Fin n) : NucM n Unit := do
  let s ← get
  if (s.pcbFree_table p).p_prio = .low then
    modify fun s ↦ startPLT <| s.modifyPcb p fun x ↦
      { x with p_s := { x.p_s with status := x.p_s.status ||| TEBITON } }
  else
    modify fun s ↦ s.modifyPcb p fun x ↦
      { x with p_s := { x.p_s with status := x.p_s.status &&& ~~~TEBITON } }
  let _ ← timerFlush cfg
  let s ← get
  throw (.ldst (s.pcbFree_table p).p_s)

/-- `scheduler` -/
def scheduler : NucM n Unit := do
  let s ← get
  if s.process_count = 0 then throw .halt
  let (next, s) := getNextProcess s
  set { s with curr_process := next }
  match next with
  | none =>
      if s.softblocked_count > 0 then
        modify fun s ↦ { s with status := (s.status ||| IECON ||| IMON) &&& ~~~TEBITON }
        throw .wait
      else throw (.panic .deadlock)
  | some p => dispatch cfg p

/-- `setProcessBlocked`: the process is always the current one. -/
def setProcessBlocked (state : State) : NucM n Unit := do
  let s ← get
  let c ← deref s.curr_process
  modify fun s ↦ s.modifyPcb c fun x ↦ { x with p_s := state }
  updateProcessCPUTime cfg

/-- `setProcessReady` -/
def setProcessReady (p : Option (Fin n)) : NucM n Unit := do
  if ← isAlive cfg p then
    let p ← deref p
    modify fun s ↦
      let prio := (s.pcbFree_table p).p_prio
      s.setReadyQueue (insertProcQ (s.readyQueue prio) p) prio

/-! ## P and V (`asl.c`) -/

/-- The common text of `semP` and `semV`: the call blocks when the word holds
`full`, and otherwise releases the first waiter or, without one, writes `full`. -/
def semOp (full : Word) (sem : Option Word) (process : Option (Fin n)) (state : State) :
    NucM n (Option (Fin n)) := do
  let sem ← deref sem
  let s ← get
  if s.mem sem = full then
    if ← insertBlocked sem process then throw (.panic .noSemaphore)
    setProcessBlocked cfg state
    scheduler cfg
    return none
  else if headBlocked sem s ≠ none then
    let ready_proc ← removeBlocked sem
    setProcessReady cfg ready_proc
    return ready_proc
  else
    modify fun s ↦ s.store sem full
    return none

/-- `semP` -/
def semP (sem : Option Word) (process : Option (Fin n)) (state : State) :
    NucM n (Option (Fin n)) := semOp cfg 0 sem process state

/-- `semV` -/
def semV (sem : Option Word) (process : Option (Fin n)) (state : State) :
    NucM n (Option (Fin n)) := semOp cfg 1 sem process state

end PandosPlus
