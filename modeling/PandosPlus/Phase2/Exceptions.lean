import PandosPlus.Phase2.Interrupts

/-!
# System calls and the exception handler (`exceptions.c`)

The parameters of a system call are read from the saved registers, and its result
is written there.  Each handler ends where the source does: in `LDST` on the saved
state, in `LDCXT`, or in the scheduler.
-/

namespace PandosPlus

variable {n : Nat} (cfg : Config n)

/-- `SYSTEMCALL_RETURN` -/
def systemcallReturn (ret : Word) (s : Nucleus n) : Nucleus n :=
  { s with prev := { s.prev with reg_v0 := ret } }

/-- The fields of the new process that `_createProcess` fills in. -/
def fillPcb (new_proc : Fin n) (state : State) (prio : Prio) (supportp : Option Word)
    (s : Nucleus n) : Nucleus n :=
  s.modifyPcb new_proc fun x ↦
    { x with p_s := state, p_prio := prio, p_supportStruct := supportp }

/-- `_createProcess` -/
def createProcess : NucM n Unit := do
  let s ← get
  let prio := if s.prev.reg_a2 = 0 then Prio.low else Prio.high
  match allocPcb s with
  | none => modify (systemcallReturn (-1))
  | some (new_proc, s') =>
      set { s' with process_count := s'.process_count + 1 }
      let statep ← deref (cfg.ptr s.prev.reg_a1)
      modify (fillPcb new_proc (cfg.readState s.mem statep) prio (cfg.ptr s.prev.reg_a3))
      modify fun s ↦ s.setReadyQueue (insertProcQ (s.readyQueue prio) new_proc) prio
      let c ← deref s.curr_process
      modify (insertChild c new_proc)
      modify fun s ↦ systemcallReturn (s.pcbFree_table new_proc).p_pid s

/-- The lines of `_killProcess` on semaphores. -/
def releaseProcess (process : Fin n) : NucM n Unit := do
  let s ← get
  if (s.pcbFree_table process).p_semAdd ≠ none then
    if isSoftBlocked cfg process s then
      modify fun s ↦ { s with softblocked_count := s.softblocked_count - 1 }
    let _ ← outBlocked process

/-- The lines of `_killProcess` before the loop over the children. -/
def detachProcess (process : Fin n) : NucM n Unit := do
  modify fun s ↦ (outChild process s).2
  modify fun s ↦ { s with process_count := s.process_count - 1 }
  releaseProcess cfg process
  modify fun s ↦
    let prio := (s.pcbFree_table process).p_prio
    s.setReadyQueue (outProcQ (s.readyQueue prio) process).2 prio

mutual

/-- `_killProcess`, to a depth of at most `fuel`. -/
def killProcess : Nat → Fin n → NucM n Unit
  | 0, _ => throw .diverges
  | fuel + 1, process => do
      detachProcess cfg process
      killChildren fuel process
      modify (freePcb process)

/-- The loop of `_killProcess`, for at most `fuel` turns. -/
def killChildren : Nat → Fin n → NucM n Unit
  | 0, _ => throw .diverges
  | fuel + 1, process => do
      let s ← get
      match removeChild process s with
      | (none, _) => return
      | (some child, s) =>
          set s
          killProcess fuel child
          killChildren fuel process

end

/-- `_termProcess`: each turn of `_killProcess` and of its loop meets another PCB. -/
def termProcess : NucM n Unit := do
  let s ← get
  let pid := s.prev.reg_a1
  if pid = 0 then
    let c ← deref s.curr_process
    killProcess cfg (2 * n + 2) c
    scheduler cfg
  else
    match getProcessByPid pid s with
    | none => pure ()
    | some p => killProcess cfg (2 * n + 2) p
    let s ← get
    if !(← isAlive cfg s.curr_process) then scheduler cfg

/-- `_passeren` -/
def passeren : NucM n Unit := do
  let s ← get
  let _ ← semP cfg (cfg.ptr s.prev.reg_a1) s.curr_process s.prev

/-- `_verhogen` -/
def verhogen : NucM n Unit := do
  let s ← get
  let _ ← semV cfg (cfg.ptr s.prev.reg_a1) s.curr_process s.prev

/-- `*command_address = command_value`: the device takes the command. -/
def storeCommand (command_address command_value : Word) : NucM n Unit := do
  if ∃ i, commandAddr i = command_address then
    modify fun s ↦ s.store command_address command_value
  else throw .busError

/-- `_doIO` -/
def doIo : NucM n Unit := do
  let s ← get
  let command_address := s.prev.reg_a1
  storeCommand command_address s.prev.reg_a2
  modify fun s ↦ { s with softblocked_count := s.softblocked_count + 1 }
  let _ ← semP cfg (some (getIODeviceSemaphore cfg command_address)) s.curr_process s.prev

/-- `_getCPUTime` -/
def getCPUTime : NucM n Unit := do
  updateProcessCPUTime cfg
  let s ← get
  let c ← deref s.curr_process
  modify (systemcallReturn (BitVec.ofInt 32 (s.pcbFree_table c).p_time))

/-- `_clockWait` -/
def clockWait : NucM n Unit := do
  modify fun s ↦ { s with softblocked_count := s.softblocked_count + 1 }
  let s ← get
  let _ ← semP cfg (some cfg.semaphore_it) s.curr_process s.prev

/-- `_getSupportPtr` -/
def getSupportPtr : NucM n Unit := do
  let s ← get
  let c ← deref s.curr_process
  modify (systemcallReturn (cfg.addr (s.pcbFree_table c).p_supportStruct))

/-- `_getProcessId` -/
def getProcessId : NucM n Unit := do
  let s ← get
  let c ← deref s.curr_process
  if s.prev.reg_a1 = 0 then modify (systemcallReturn (s.pcbFree_table c).p_pid)
  else
    match (s.pcbFree_table c).p_parent with
    | none => modify (systemcallReturn 0)
    | some parent => modify (systemcallReturn (s.pcbFree_table parent).p_pid)

/-- `_yield` -/
def yield : NucM n Unit := do
  let s ← get
  let c ← deref s.curr_process
  modify fun s ↦ s.modifyPcb c fun x ↦ { x with p_s := s.prev }
  modify fun s ↦ { s with process_to_skip := s.curr_process }
  setProcessReady cfg (some c)
  updateProcessCPUTime cfg
  modify fun s ↦ { s with curr_process := none }
  scheduler cfg

/-- `_passUpOrDieHandler` -/
def passUpOrDieHandler (index : Fin 2) : NucM n Unit := do
  let s ← get
  let c ← deref s.curr_process
  match (s.pcbFree_table c).p_supportStruct with
  | none =>
      killProcess cfg (2 * n + 2) c
      scheduler cfg
  | some a =>
      set { s with support := fun b ↦
        if b = a then
          { s.support a with sup_exceptState := fun i ↦
              if i = index then s.prev else (s.support a).sup_exceptState i }
        else s.support b }
      throw (.ldcxt ((s.support a).sup_exceptContext index))

/-- `_generateInvalidSystemCallTrap` -/
def generateInvalidSystemCallTrap : NucM n Unit := do
  modify fun s ↦
    { s with prev := { s.prev with cause := (s.prev.cause &&& 0xFFFFFF83) ||| 0x28 } }
  passUpOrDieHandler cfg GENERALEXCEPT

/-- The `switch` of `_systemcallHandler`. -/
def systemcall (code : Int) : NucM n Unit :=
  if code = CREATEPROCESS then createProcess cfg
  else if code = TERMPROCESS then termProcess cfg
  else if code = PASSEREN then passeren cfg
  else if code = VERHOGEN then verhogen cfg
  else if code = DOIO then doIo cfg
  else if code = GETTIME then getCPUTime cfg
  else if code = CLOCKWAIT then clockWait cfg
  else if code = GETSUPPORTPTR then getSupportPtr cfg
  else if code = GETPROCESSID then getProcessId
  else if code = YIELD then yield cfg
  else generateInvalidSystemCallTrap cfg

/-- `_systemcallHandler` -/
def systemcallHandler : NucM n Unit := do
  let s ← get
  if s.prev.reg_a0.toInt ≥ 1 then passUpOrDieHandler cfg GENERALEXCEPT
  if s.prev.status &&& USERPON ≠ 0 then generateInvalidSystemCallTrap cfg
  modify fun s ↦ { s with prev := { s.prev with pc_epc := s.prev.pc_epc + WORDLEN } }
  systemcall cfg s.prev.reg_a0.toInt
  resume

/-- `exceptionHandler` -/
def exceptionHandler : NucM n Unit := do
  let s ← get
  let code := excCode s.prev.cause
  if code = 0 then interruptHandler cfg
  else if code = 1 ∨ code = 2 ∨ code = 3 then passUpOrDieHandler cfg PGFAULTEXCEPT
  else if code = 8 then systemcallHandler cfg
  else if 4 ≤ code ∧ code ≤ 12 then passUpOrDieHandler cfg GENERALEXCEPT

end PandosPlus
