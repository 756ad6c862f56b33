import PandosPlus.Lib.Rings
import PandosPlus.Phase1.Asl

/-!
# The lists in memory

The routines of `listx.h`, and those of `pcb.c` and of `asl.c` below `semP`, in the order of
the source, on the link fields their lists are threaded through.

Every `struct list_head` is a node: the sentinel of a list, or a link field of a PCB or of a
descriptor.  `container_of` leads from a link field back to what it is a field of; what it
makes of another node is no PCB and no descriptor, and there the routine goes astray.
-/

namespace PandosPlus

open Circular

variable {n : Nat}

/-- The sentinels: those of `pcb.c`, `asl.c` and `initial.c`, and those in the PCBs and the
descriptors themselves. -/
inductive Sentinel (n : Nat) where
  | pcbFree_h
  | pid_list_h
  | readyqueue (prio : Prio)
  | p_child (p : Fin n)
  | semdFree_h
  | semd_h
  | s_procq (sem : Fin n)
deriving DecidableEq

/-- The link fields of a PCB, and the one of a descriptor. -/
inductive Member where
  | p_list
  | p_sib
  | pid_list
  | s_link
deriving DecidableEq

/-- `struct list_head` -/
abbrev ListHead (n : Nat) := Node (Sentinel n) (Member × Fin n)

/-- `&p->member` -/
abbrev field (member : Member) (p : Fin n) : ListHead n := .elem (member, p)

/-- `pcb_t` without its links. -/
structure PcbFields (n : Nat) where
  p_parent : Option (Fin n)
  p_s : State
  p_time : Int
  p_semAdd : Option Word
  p_supportStruct : Option Word
  p_prio : Prio
  p_pid : Word

/-- The static data of `pcb.c` and `asl.c`, the links of the ready queues, and the two counters
that go with the lists. -/
structure Heap (n : Nat) where
  links : Links (ListHead n)
  pcbFree_table : Fin n → PcbFields n
  /-- `s_key` in `semd_table` -/
  s_key : Fin n → Word
  curr_pid : Word
  process_count : Word
  softblocked_count : Word

/-- How a routine goes astray. -/
inductive Stray where
  /-- A pointer is followed that points at no PCB or descriptor. -/
  | wild
  /-- A loop over a list does not come back to its sentinel. -/
  | endless
deriving DecidableEq

/-- Routines on the lists in memory. -/
abbrev HeapM (n : Nat) := EStateM Stray (Heap n)

namespace Heap

/-- Follow a pointer. -/
def follow {α : Type} : Option α → HeapM n α
  | none => throw .wild
  | some a => pure a

/-! ## Lists (`listx.h`) -/

/-- `container_of` -/
def containerOf (member : Member) : ListHead n → HeapM n (Fin n)
  | .head _ => throw .wild
  | .elem (m, p) => if m = member then pure p else throw .wild

/-- `INIT_LIST_HEAD` -/
def initListHead (list : ListHead n) (H : Heap n) : Heap n :=
  { H with links := H.links.close list }

/-- `__list_add` -/
def listInsert (new prev next : ListHead n) (H : Heap n) : Heap n :=
  { H with links := H.links.link new prev next }

/-- `list_add` -/
def listAdd (new head : ListHead n) (H : Heap n) : Heap n :=
  H.listInsert new head (H.links.next head)

/-- `list_add_tail` -/
def listAddTail (new head : ListHead n) (H : Heap n) : Heap n :=
  H.listInsert new (H.links.prev head) head

/-- `list_del` -/
def listDel (entry : ListHead n) (H : Heap n) : Heap n :=
  { H with links := H.links.unlink entry }

/-- `list_empty` -/
def listEmpty (head : ListHead n) (H : Heap n) : Bool := H.links.next head = head

/-- The loop of `list_for_each_entry`, or with the links turned round that of
`list_for_each_entry_reverse`, for at most `fuel` turns.  The body says with what the loop is
left, if it is. -/
def forEachEntry {α : Type} (turn : Links (ListHead n) → Links (ListHead n)) (member : Member)
    (head : ListHead n) (body : Fin n → HeapM n (Option α)) :
    Nat → ListHead n → HeapM n (Option α)
  | 0, _ => throw .endless
  | fuel + 1, ptr =>
      if ptr = head then return none
      else do
        let pos ← containerOf member ptr
        match ← body pos with
        | some a => return some a
        | none =>
            let H ← get
            forEachEntry turn member head body fuel ((turn H.links).next (field member pos))

/-- `list_for_each_entry`: no list has more than `MAXPROC` entries. -/
def listForEachEntry {α : Type} (member : Member) (head : ListHead n)
    (body : Fin n → HeapM n (Option α)) : HeapM n (Option α) := do
  let H ← get
  forEachEntry id member head body (n + 1) (H.links.next head)

/-- `list_for_each_entry_reverse` -/
def listForEachEntryReverse {α : Type} (member : Member) (head : ListHead n)
    (body : Fin n → HeapM n (Option α)) : HeapM n (Option α) := do
  let H ← get
  forEachEntry Links.flip member head body (n + 1) (H.links.prev head)

/-! ## Process control blocks (`pcb.c`) -/

/-- `p->field = ...` -/
def modifyPcb (p : Fin n) (f : PcbFields n → PcbFields n) (H : Heap n) : Heap n :=
  { H with pcbFree_table := fun q ↦ if q = p then f (H.pcbFree_table q) else H.pcbFree_table q }

/-- `initPcbs` -/
def initPcbs (H : Heap n) : Heap n :=
  (List.finRange n).foldr
    (fun i H ↦ (H.listAdd (field .p_list i) (.head .pcbFree_h)).modifyPcb i
      fun x ↦ { x with p_pid := FREE_PCB_PID })
    { (H.initListHead (.head .pcbFree_h)).initListHead (.head .pid_list_h) with curr_pid := 1 }

/-- `freePcb` -/
def freePcb (p : Fin n) (H : Heap n) : Heap n :=
  ((H.listAdd (field .p_list p) (.head .pcbFree_h)).listDel (field .pid_list p)).modifyPcb p
    fun x ↦ { x with p_pid := FREE_PCB_PID }

/-- `getProcessByPid` -/
def getProcessByPid (pid : Word) : HeapM n (Option (Fin n)) := do
  let found ← listForEachEntry .pid_list (.head .pid_list_h) fun iter ↦ do
    let H ← get
    if (H.pcbFree_table iter).p_pid = pid then return some (some iter)
    else if pid < (H.pcbFree_table iter).p_pid then return some none
    else return none
  return found.join

/-- The loop of `_generatePid` that steps over the pids in use, for at most `fuel` turns. -/
def skipUsedPids : Nat → HeapM n Unit
  | 0 => throw .endless
  | fuel + 1 => do
      let H ← get
      if (← getProcessByPid H.curr_pid).isSome then
        modify fun H ↦ { H with curr_pid := H.curr_pid + 1 }
        skipUsedPids fuel

/-- `_generatePid`: of `MAXPROC + 1` pids one is not in use. -/
def generatePid : HeapM n Word := do
  modify fun H ↦ if H.curr_pid ≤ 0 then { H with curr_pid := 1 } else H
  let H ← get
  if !H.listEmpty (.head .pid_list_h) then
    let last ← containerOf .pid_list (H.links.prev (.head .pid_list_h))
    if H.curr_pid ≤ (H.pcbFree_table last).p_pid then skipUsedPids (n + 1)
  let H ← get
  set { H with curr_pid := H.curr_pid + 1 }
  return H.curr_pid

/-- `_initPcb` -/
def initPcb (pcb : Fin n) : HeapM n Unit := do
  modify (initListHead (field .p_list pcb))
  modify (modifyPcb pcb fun x ↦ { x with p_parent := none })
  modify (initListHead (.head (.p_child pcb)))
  modify (initListHead (field .p_sib pcb))
  modify (modifyPcb pcb fun x ↦
    { x with p_time := 0, p_semAdd := none, p_supportStruct := none })
  let pid ← generatePid
  modify (modifyPcb pcb fun x ↦ { x with p_pid := pid, p_s := { x.p_s with entry_hi := pid } })

/-- `_addPid` -/
def addPid (p : Fin n) : HeapM n Unit := do
  let inserted ← listForEachEntryReverse .pid_list (.head .pid_list_h) fun iter ↦ do
    let H ← get
    if (H.pcbFree_table iter).p_pid ≤ (H.pcbFree_table p).p_pid then
      set (H.listInsert (field .pid_list p) (field .pid_list iter)
        (H.links.next (field .pid_list iter)))
      return some ()
    else return none
  if inserted = none then modify (listAdd (field .pid_list p) (.head .pid_list_h))

/-- `allocPcb` -/
def allocPcb : HeapM n (Option (Fin n)) := do
  let H ← get
  if H.listEmpty (.head .pcbFree_h) then return none
  else
    let out ← containerOf .p_list (H.links.next (.head .pcbFree_h))
    modify (listDel (field .p_list out))
    initPcb out
    addPid out
    return some out

/-- `mkEmptyProcQ` -/
def mkEmptyProcQ (head : ListHead n) (H : Heap n) : Heap n := H.initListHead head

/-- `emptyProcQ` -/
def emptyProcQ (head : ListHead n) (H : Heap n) : Bool := H.listEmpty head

/-- `insertProcQ` -/
def insertProcQ (head : ListHead n) (p : Fin n) (H : Heap n) : Heap n :=
  H.listAddTail (field .p_list p) head

/-- `headProcQ` -/
def headProcQ (head : ListHead n) : HeapM n (Option (Fin n)) := do
  let H ← get
  if H.emptyProcQ head then return none
  else return some (← containerOf .p_list (H.links.next head))

/-- `removeProcQ` -/
def removeProcQ (head : ListHead n) : HeapM n (Option (Fin n)) := do
  let H ← get
  if H.emptyProcQ head then return none
  else
    let out ← follow (← headProcQ head)
    modify (listDel (field .p_list out))
    return some out

/-- `outProcQ` -/
def outProcQ (head : ListHead n) (p : Fin n) : HeapM n (Option (Fin n)) :=
  listForEachEntry .p_list head fun pos ↦ do
    if pos = p then
      modify (listDel (field .p_list p))
      return some p
    else return none

/-- `emptyChild` -/
def emptyChild (p : Fin n) (H : Heap n) : Bool := H.listEmpty (.head (.p_child p))

/-- `insertChild` -/
def insertChild (prnt p : Fin n) (H : Heap n) : Heap n :=
  (H.listAddTail (field .p_sib p) (.head (.p_child prnt))).modifyPcb p
    fun x ↦ { x with p_parent := some prnt }

/-- `_removeFromTree` -/
def removeFromTree (pcb : Fin n) (H : Heap n) : Heap n :=
  (H.listDel (field .p_sib pcb)).modifyPcb pcb fun x ↦ { x with p_parent := none }

/-- `removeChild` -/
def removeChild (p : Fin n) : HeapM n (Option (Fin n)) := do
  let H ← get
  if H.emptyChild p then return none
  else
    let out ← containerOf .p_sib (H.links.next (.head (.p_child p)))
    modify (removeFromTree out)
    return some out

/-- `outChild` -/
def outChild (p : Fin n) : HeapM n (Option (Fin n)) := do
  let H ← get
  if (H.pcbFree_table p).p_parent = none then return none
  else
    modify (removeFromTree p)
    return some p

/-! ## The active semaphore list (`asl.c`) -/

/-- `_addFreeSemaphore` -/
def addFreeSemaphore (sem : Fin n) (H : Heap n) : Heap n :=
  H.listAdd (field .s_link sem) (.head .semdFree_h)

/-- `_getFreeSemaphore` -/
def getFreeSemaphore : HeapM n (Option (Fin n)) := do
  let H ← get
  if H.listEmpty (.head .semdFree_h) then return none
  else
    let sem ← containerOf .s_link (H.links.next (.head .semdFree_h))
    modify (listDel (field .s_link sem))
    return some sem

/-- `_addActiveSemaphore` -/
def addActiveSemaphore (new_sem : Fin n) : HeapM n Unit := do
  let inserted ← listForEachEntry .s_link (.head .semd_h) fun iter ↦ do
    let H ← get
    if H.s_key new_sem < H.s_key iter then
      set (H.listInsert (field .s_link new_sem) (H.links.prev (field .s_link iter))
        (field .s_link iter))
      return some ()
    else return none
  if inserted = none then modify (listAddTail (field .s_link new_sem) (.head .semd_h))

/-- `_peekActiveSemaphore` -/
def peekActiveSemaphore (s_key : Word) : HeapM n (Option (Fin n)) := do
  let found ← listForEachEntry .s_link (.head .semd_h) fun iter ↦ do
    let H ← get
    if H.s_key iter = s_key then return some (some iter)
    else if s_key < H.s_key iter then return some none
    else return none
  return found.join

/-- `_initSemaphore` -/
def initSemaphore (s_key : Word) : HeapM n (Option (Fin n)) := do
  match ← getFreeSemaphore with
  | none => return none
  | some new_sem =>
      modify fun H ↦ { H with s_key := fun d ↦ if d = new_sem then s_key else H.s_key d }
      modify (mkEmptyProcQ (.head (.s_procq new_sem)))
      addActiveSemaphore new_sem
      return some new_sem

/-- `_updateActiveSemaphore` -/
def updateActiveSemaphore (toCheckSem : Fin n) (H : Heap n) : Heap n :=
  if H.emptyProcQ (.head (.s_procq toCheckSem)) then
    (H.listDel (field .s_link toCheckSem)).addFreeSemaphore toCheckSem
  else H

/-- `initASL` -/
def initASL (H : Heap n) : Heap n :=
  (List.finRange n).foldr addFreeSemaphore
    ((H.initListHead (.head .semdFree_h)).initListHead (.head .semd_h))

/-- `insertBlocked` -/
def insertBlocked (semAdd : Word) (p : Fin n) : HeapM n Bool := do
  let sem ← match ← peekActiveSemaphore semAdd with
    | some sem => pure (some sem)
    | none => initSemaphore semAdd
  match sem with
  | none => return true
  | some sem =>
      modify (insertProcQ (.head (.s_procq sem)) p)
      modify (modifyPcb p fun x ↦ { x with p_semAdd := some semAdd })
      return false

/-- The last lines of `removeBlocked` and `outBlocked`. -/
def unblocked (sem : Fin n) (pcb : Option (Fin n)) : HeapM n (Option (Fin n)) := do
  let pcb ← follow pcb
  modify (modifyPcb pcb fun x ↦ { x with p_semAdd := none })
  modify (updateActiveSemaphore sem)
  return some pcb

/-- `removeBlocked` -/
def removeBlocked (semAdd : Word) : HeapM n (Option (Fin n)) := do
  match ← peekActiveSemaphore semAdd with
  | none => return none
  | some sem => unblocked sem (← removeProcQ (.head (.s_procq sem)))

/-- `outBlocked`: no semaphore has the key `NULL`. -/
def outBlocked (p : Fin n) : HeapM n (Option (Fin n)) := do
  let H ← get
  match (H.pcbFree_table p).p_semAdd with
  | none => return none
  | some semAdd =>
      match ← peekActiveSemaphore semAdd with
      | none => return none
      | some sem => unblocked sem (← outProcQ (.head (.s_procq sem)) p)

/-- `headBlocked` -/
def headBlocked (semAdd : Word) : HeapM n (Option (Fin n)) := do
  match ← peekActiveSemaphore semAdd with
  | none => return none
  | some sem => headProcQ (.head (.s_procq sem))

end Heap

end PandosPlus
