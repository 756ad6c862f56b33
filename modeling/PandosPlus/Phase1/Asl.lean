import PandosPlus.Phase1.Pcb

/-!
# The active semaphore list (`asl.c`)

The routines of `asl.c` below `semP` and `semV`, in the order of the source.
Those on descriptors alone act on `Asl`; those that also touch PCBs act on the
nucleus.  Where the source writes through the result of a queue operation without
looking at it, the model follows the pointer, and leaves if it is `NULL`.
-/

namespace PandosPlus

variable {n : Nat}

/-- `_addFreeSemaphore` -/
def addFreeSemaphore (sem : Fin n) (a : Asl n) : Asl n :=
  { a with semdFree_h := sem :: a.semdFree_h }

/-- `_getFreeSemaphore` -/
def getFreeSemaphore (a : Asl n) : Option (Fin n × Asl n) :=
  match a.semdFree_h with
  | [] => none
  | sem :: rest => some (sem, { a with semdFree_h := rest })

/-- `_addActiveSemaphore` -/
def addActiveSemaphore (sem : Fin n) (a : Asl n) : Asl n :=
  { a with semd_h := SortedList.insertFront (fun d ↦ (a.semd_table d).s_key) sem a.semd_h }

/-- `_peekActiveSemaphore` -/
def peekActiveSemaphore (key : Word) (a : Asl n) : Option (Fin n) :=
  SortedList.search (fun d ↦ (a.semd_table d).s_key) key a.semd_h

/-- `sem->s_procq = ...`, and the same for the key. -/
def Asl.setSemd (a : Asl n) (sem : Fin n) (x : Semd n) : Asl n :=
  { a with semd_table := fun d ↦ if d = sem then x else a.semd_table d }

/-- `_initSemaphore` -/
def initSemaphore (key : Word) (a : Asl n) : Option (Fin n × Asl n) :=
  match getFreeSemaphore a with
  | none => none
  | some (sem, a) => some (sem, addActiveSemaphore sem (a.setSemd sem ⟨key, []⟩))

/-- `_updateActiveSemaphore` -/
def updateActiveSemaphore (sem : Fin n) (a : Asl n) : Asl n :=
  if (a.semd_table sem).s_procq = [] then
    addFreeSemaphore sem { a with semd_h := a.semd_h.erase sem }
  else a

/-- `initASL` -/
def initASL (a : Asl n) : Asl n :=
  (List.finRange n).foldr addFreeSemaphore { a with semdFree_h := [], semd_h := [] }

/-- The queue of a descriptor, with `l` in its place. -/
def Asl.setProcQ (a : Asl n) (sem : Fin n) (l : List (Fin n)) : Asl n :=
  a.setSemd sem { a.semd_table sem with s_procq := l }

/-- The last lines of `insertBlocked`, once the descriptor is known. -/
def enqueueBlocked (sem : Fin n) (semAdd : Word) (p : Fin n) (s : Nucleus n) : Nucleus n :=
  ({ s with asl := s.asl.setProcQ sem (insertProcQ (s.asl.semd_table sem).s_procq p) }).modifyPcb p
    fun x ↦ { x with p_semAdd := some semAdd }

/-- `insertBlocked`: `true` when the semaphore is not active and no descriptor is
free. -/
def insertBlocked (semAdd : Word) (p : Option (Fin n)) : NucM n Bool := do
  let s ← get
  match peekActiveSemaphore semAdd s.asl with
  | some sem =>
      let p ← deref p
      modify (enqueueBlocked sem semAdd p)
      return false
  | none =>
      match initSemaphore semAdd s.asl with
      | none => return true
      | some (sem, a) =>
          set { s with asl := a }
          let p ← deref p
          modify (enqueueBlocked sem semAdd p)
          return false

/-- The last lines of `removeBlocked` and `outBlocked`: what the queue routine
returned is written to before it is looked at. -/
def dequeueBlocked (sem : Fin n) (out : Option (Fin n) × List (Fin n)) :
    NucM n (Option (Fin n)) := do
  modify fun s ↦ { s with asl := s.asl.setProcQ sem out.2 }
  let pcb ← deref out.1
  modify fun s ↦
    let s := s.modifyPcb pcb fun x ↦ { x with p_semAdd := none }
    { s with asl := updateActiveSemaphore sem s.asl }
  return some pcb

/-- `removeBlocked` -/
def removeBlocked (semAdd : Word) : NucM n (Option (Fin n)) := do
  let s ← get
  match peekActiveSemaphore semAdd s.asl with
  | none => return none
  | some sem => dequeueBlocked sem (removeProcQ (s.asl.semd_table sem).s_procq)

/-- `outBlocked`: no semaphore has the key `NULL`, since `semP` and `semV` read the
word at the key. -/
def outBlocked (p : Fin n) : NucM n (Option (Fin n)) := do
  let s ← get
  match (s.pcbFree_table p).p_semAdd with
  | none => return none
  | some semAdd =>
      match peekActiveSemaphore semAdd s.asl with
      | none => return none
      | some sem => dequeueBlocked sem (outProcQ (s.asl.semd_table sem).s_procq p)

/-- `headBlocked` -/
def headBlocked (semAdd : Word) (s : Nucleus n) : Option (Fin n) :=
  match peekActiveSemaphore semAdd s.asl with
  | none => none
  | some sem => headProcQ (s.asl.semd_table sem).s_procq

end PandosPlus
