import PandosPlus.State
import PandosPlus.Lib.SortedList

/-!
# Process control blocks (`pcb.c`)

The routines of `pcb.c`, in the order of the source.  A queue routine takes the
list its `head` argument points at and returns the list left there.
-/

namespace PandosPlus

variable {n : Nat}

/-- `-1`, read as the unsigned number a pid is. -/
def FREE_PCB_PID : Word := 0xFFFFFFFF

/-- `initPcbs`: the loop pushes the entries from the last to the first. -/
def initPcbs (s : Nucleus n) : Nucleus n :=
  (List.finRange n).foldr
    (fun i s ↦ ({ s with pcbFree_h := i :: s.pcbFree_h }).modifyPcb i
      fun x ↦ { x with p_pid := FREE_PCB_PID })
    { s with pcbFree_h := [], pid_list_h := [], curr_pid := 1 }

/-- `freePcb` -/
def freePcb (p : Fin n) (s : Nucleus n) : Nucleus n :=
  ({ s with pcbFree_h := p :: s.pcbFree_h, pid_list_h := s.pid_list_h.erase p }).modifyPcb p
    fun x ↦ { x with p_pid := FREE_PCB_PID }

/-- `getProcessByPid`: the scan gives up at the first larger pid. -/
def getProcessByPid (pid : Word) (s : Nucleus n) : Option (Fin n) :=
  SortedList.search (fun p ↦ (s.pcbFree_table p).p_pid) pid s.pid_list_h

/-- The loop of `_generatePid` that steps over the pids in use, for at most `fuel`
turns. -/
def skipUsedPids (s : Nucleus n) : Nat → Word → Word
  | 0, pid => pid
  | fuel + 1, pid =>
      if (getProcessByPid pid s).isSome then skipUsedPids s fuel (pid + 1) else pid

/-- The value of `curr_pid` that `_generatePid` hands out: both sides of `>=` are
compared as unsigned numbers, since `curr_pid` is unsigned. -/
def nextPid (s : Nucleus n) : Word :=
  let curr := if s.curr_pid ≤ 0 then 1 else s.curr_pid
  match s.pid_list_h.getLast? with
  | none => curr
  | some last =>
      if curr ≤ (s.pcbFree_table last).p_pid then skipUsedPids s (n + 1) curr else curr

/-- `_generatePid` -/
def generatePid (s : Nucleus n) : Word × Nucleus n :=
  (nextPid s, { s with curr_pid := nextPid s + 1 })

/-- `_initPcb`: `p_prio` is left to the caller. -/
def initPcb (pcb : Fin n) (s : Nucleus n) : Nucleus n :=
  (generatePid s).2.modifyPcb pcb fun x ↦
    { x with
      p_parent := none
      p_child := []
      p_time := 0
      p_semAdd := none
      p_supportStruct := none
      p_pid := (generatePid s).1
      p_s := { x.p_s with entry_hi := (generatePid s).1 } }

/-- `_addPid` -/
def addPid (p : Fin n) (s : Nucleus n) : Nucleus n :=
  { s with pid_list_h :=
      SortedList.insertBack (fun q ↦ (s.pcbFree_table q).p_pid) p s.pid_list_h }

/-- `allocPcb` -/
def allocPcb (s : Nucleus n) : Option (Fin n × Nucleus n) :=
  match s.pcbFree_h with
  | [] => none
  | out :: rest => some (out, addPid out (initPcb out { s with pcbFree_h := rest }))

/-! ## Queues -/

/-- `insertProcQ` -/
def insertProcQ (head : List (Fin n)) (p : Fin n) : List (Fin n) := head ++ [p]

/-- `headProcQ` -/
def headProcQ (head : List (Fin n)) : Option (Fin n) := head.head?

/-- `removeProcQ` -/
def removeProcQ : List (Fin n) → Option (Fin n) × List (Fin n)
  | [] => (none, [])
  | out :: rest => (some out, rest)

/-- `outProcQ` -/
def outProcQ (head : List (Fin n)) (p : Fin n) : Option (Fin n) × List (Fin n) :=
  if p ∈ head then (some p, head.erase p) else (none, head)

/-! ## The process tree -/

/-- `insertChild` -/
def insertChild (prnt p : Fin n) (s : Nucleus n) : Nucleus n :=
  (s.modifyPcb prnt fun x ↦ { x with p_child := x.p_child ++ [p] }).modifyPcb p
    fun x ↦ { x with p_parent := some prnt }

/-- `_removeFromTree`: `list_del` unlinks the node from the list it is threaded in,
whichever PCB that list belongs to. -/
def removeFromTree (pcb : Fin n) (s : Nucleus n) : Nucleus n :=
  ({ s with pcbFree_table := fun q ↦
      { s.pcbFree_table q with p_child := (s.pcbFree_table q).p_child.erase pcb } }).modifyPcb pcb
    fun x ↦ { x with p_parent := none }

/-- `removeChild` -/
def removeChild (p : Fin n) (s : Nucleus n) : Option (Fin n) × Nucleus n :=
  match (s.pcbFree_table p).p_child with
  | [] => (none, s)
  | out :: _ => (some out, removeFromTree out s)

/-- `outChild` -/
def outChild (p : Fin n) (s : Nucleus n) : Option (Fin n) × Nucleus n :=
  match (s.pcbFree_table p).p_parent with
  | none => (none, s)
  | some _ => (some p, removeFromTree p s)

end PandosPlus
