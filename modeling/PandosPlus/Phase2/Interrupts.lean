import PandosPlus.Phase2.Scheduler

/-!
# The interrupt handler (`interrupts.c`)
-/

namespace PandosPlus

variable {n : Nat} (cfg : Config n)

/-- `setSTATUS(getSTATUS() | TEBITON)` -/
def enableTimer (s : Nucleus n) : Nucleus n := { s with status := s.status ||| TEBITON }

/-- `setSTATUS(getSTATUS() & ~TEBITON)` -/
def disableTimer (s : Nucleus n) : Nucleus n := { s with status := s.status &&& ~~~TEBITON }

/-- `LDST(PREV_PROCESSOR_STATE)` -/
def resume : NucM n Unit := do
  let s ← get
  throw (.ldst s.prev)

/-- `_interruptHandlerExit` -/
def interruptHandlerExit : NucM n Unit := do
  modify enableTimer
  let _ ← timerFlush cfg
  let s ← get
  if s.curr_process ≠ none then resume else scheduler cfg

/-- `_PLTHandler` -/
def pltHandler : NucM n Unit := do
  modify startPLT
  let s ← get
  let c ← deref s.curr_process
  modify fun s ↦ s.modifyPcb c fun x ↦ { x with p_s := s.prev }
  updateProcessCPUTime cfg
  setProcessReady cfg (some c)
  modify fun s ↦ { s with curr_process := none }
  scheduler cfg

/-- The loop of `_ITHandler`, for at most `fuel` turns. -/
def wakeClockWaiters : Nat → NucM n Unit
  | 0 => throw .diverges
  | fuel + 1 => do
      let s ← get
      if headBlocked cfg.semaphore_it s ≠ none then
        let _ ← semV cfg (some cfg.semaphore_it) none .zero
        modify fun s ↦ { s with softblocked_count := s.softblocked_count - 1 }
        wakeClockWaiters fuel

/-- `_ITHandler`: no more than `MAXPROC` processes wait. -/
def itHandler : NucM n Unit := do
  wakeClockWaiters cfg (n + 1)
  modify fun s ↦ s.store cfg.semaphore_it 0
  resetIntervalTimer cfg
  interruptHandlerExit cfg

/-- `_getDeviceBitmap` -/
def getDeviceBitmap (line : Nat) (s : Nucleus n) : Word := s.mem (bitmapAddr line)

/-- `_deviceInterruptReturn` -/
def deviceInterruptReturn (status : Word) (command : Word) : NucM n Unit := do
  modify fun s ↦ s.store command ACK
  let ready_proc ← semV cfg (some (getIODeviceSemaphore cfg command)) none .zero
  if ← isAlive cfg ready_proc then
    let p ← deref ready_proc
    modify fun s ↦
      ({ s with softblocked_count := s.softblocked_count - 1 }).modifyPcb p
        fun x ↦ { x with p_s := { x.p_s with reg_v0 := status } }

/-- `_nonTerminalHandler`: a register is `status`, `command`, `data0`, `data1`. -/
def nonTerminalHandler (line device_number : Nat) : NucM n Unit := do
  let s ← get
  let device_register := devRegAddr line device_number
  deviceInterruptReturn cfg (s.mem device_register) (device_register + 0x4)

/-- `_terminalHandler`: a register is `recv_status`, `recv_command`,
`transm_status`, `transm_command`. -/
def terminalHandler (device_number : Nat) : NucM n Unit := do
  let s ← get
  let device_register := devRegAddr IL_TERMINAL device_number
  if TERMINAL_STATUS (s.mem device_register) = CHAR_RECEIVED then
    deviceInterruptReturn cfg (s.mem device_register) (device_register + 0x4)
  else if TERMINAL_STATUS (s.mem (device_register + 0x8)) = CHAR_TRANSMITTED then
    deviceInterruptReturn cfg (s.mem (device_register + 0x8)) (device_register + 0xC)
  else throw (.panic .terminal)

/-- One turn of the loop of `_deviceHandler`. -/
def deviceTurn (line : Nat) (bitmap : Word) (i : Nat) : NucM n Unit := do
  if bitmap &&& ((1 : Word) <<< i) ≠ 0 then
    if line ≠ IL_TERMINAL then nonTerminalHandler cfg line i
    else terminalHandler cfg i
    interruptHandlerExit cfg

/-- `_deviceHandler`: the lowest device of the line with an interrupt pending is
served, and the loop is left there. -/
def deviceHandler (line : Nat) : NucM n Unit := do
  let s ← get
  (List.range N_DEV_PER_IL).forM (deviceTurn cfg line (getDeviceBitmap line s))

/-- `interruptHandler` -/
def interruptHandler : NucM n Unit := do
  let s ← get
  if s.curr_process ≠ none then updateProcessCPUTime cfg
  modify disableTimer
  let s ← get
  let ip := s.prev.cause &&& CAUSE_IP_MASK
  if ip &&& LOCALTIMERINT ≠ 0 then pltHandler cfg
  else if ip &&& TIMERINTERRUPT ≠ 0 then itHandler cfg
  else if ip &&& DISKINTERRUPT ≠ 0 then deviceHandler cfg IL_DISK
  else if ip &&& FLASHINTERRUPT ≠ 0 then deviceHandler cfg IL_FLASH
  else if ip &&& NETINTERRUPT ≠ 0 then deviceHandler cfg IL_ETHERNET
  else if ip &&& PRINTINTERRUPT ≠ 0 then deviceHandler cfg IL_PRINTER
  else if ip &&& TERMINTERRUPT ≠ 0 then deviceHandler cfg IL_TERMINAL
  else interruptHandlerExit cfg

end PandosPlus
