import PandosPlus.Lib.TaggedLock
import PandosPlus.Phase3.Shapes

/-!
# The discipline of the locks

The semaphores of the devices and that of the swap pool are used as locks.  What a process
has still to do can be checked against where it is between its P and its V: `Instr.shift`
says where an instruction may begin and where it leaves the process, and `shifts` runs
through a list of them.  Code that is in order ends outside every lock, and what an
instruction is replaced by is in order when the instruction was (`Expands.shifts`).

The lock of a device is taken only by a process that holds nothing, so that of two locks
that a process holds the second is that of the swap pool.

A process may trap wherever the mode is settled, for `trapExceptionHandler` releases what
the process holds by the tags.
-/

namespace PandosPlus.SupportLevel

open TaggedLock

variable {u m k : Nat}

/-- The semaphores that `trapExceptionHandler` releases. -/
def sems (u : Nat) : List SemId :=
  (List.range u).flatMap (fun i ↦ [.printer i, .terminal i]) ++ [.swapPool]

/-- The tag that a process writes. -/
def Actor.asid : Actor u → Int
  | .test => 0
  | .uproc i => asidOf i

/-- The process may fault on a page of its own, or trap. -/
def MayFault (x : SemId) (μ : Mode) : Prop := if x = .swapPool then μ = .out else μ.Settled

/-- The process may use the swap pool table, or trap. -/
def InPool (x : SemId) (μ : Mode) : Prop := if x = .swapPool then μ = .owner else μ.Settled

instance (x : SemId) (μ : Mode) : Decidable (MayFault x μ) :=
  inferInstanceAs (Decidable (if x = .swapPool then μ = .out else μ.Settled))

instance (x : SemId) (μ : Mode) : Decidable (InPool x μ) :=
  inferInstanceAs (Decidable (if x = .swapPool then μ = .owner else μ.Settled))

/-- An instruction that leaves the process where it is, if it may be there. -/
def keep (ok : Prop) [Decidable ok] (μ : Mode) : Option Mode := if ok then some μ else none

/-- An instruction at whose end the process that holds the lock `y` has given it back. -/
def giveBack (x y : SemId) (μ : Mode) : Option Mode :=
  if x = y then (if μ = .owner then some .out else none) else keep (MayFault x μ) μ

/-- Where an instruction takes the process `id` with respect to the lock `x`. -/
def Instr.shift (id : Actor u) (x : SemId) (μ : Mode) : Instr u m → Option Mode
  | .passeren y =>
      if y = x then (if μ = .out ∧ x ∈ sems u then some .entered else none)
      else keep ((y = .master → id = .test) ∧ (y ≠ .swapPool → μ = .out)) μ
  | .setUser y asid =>
      if y = x then
        (if asid = NOPROC ∧ μ = .owner then some .leaving
        else if asid = id.asid ∧ μ = .entered then some .owner else none)
      else some μ
  | .verhogen y =>
      if y = x then (if μ = .leaving then some .out else none)
      else keep (y = .master → id ≠ .test ∧ μ = .out) μ
  | .release y =>
      if y = x then (if μ.Settled then some .out else none) else keep (y ≠ .master) μ
  | .writeChars port asid _ _ _ | .checkSent port asid _ _ _ => giveBack x (port.sem asid) μ
  | .readChar asid _ _ | .checkRead asid _ _ | .nextRead asid _ _ _ =>
      giveBack x (.terminal (DEVICE_OF asid)) μ
  | .sendChar _ _ | .sysReturn _ | .ldst _ => some μ
  | .load _ | .store _ _ | .tlbException => keep (MayFault x μ) μ
  | .tlbInvalid =>
      if x = .swapPool then (if μ = .owner then some .out else none) else keep μ.Settled μ
  | .storePage _ | .writePageToFlash _ | .loadPage _ _ | .recordFrame _ _ _ _ | .mapPage _ _ |
      .freeFrame _ _ => keep (InPool x μ) μ
  | .setData0 (.flash _) _ | .doIo (.flash _) _ => keep (InPool x μ ∨ id = .test ∧ μ = .out) μ
  | .setData0 _ _ | .doIo _ _ => some μ
  | .checkStatus => keep μ.Settled μ
  | .generalException | .terminate => keep (μ = .out) μ
  | .deallocate | .listAdd _ _ => keep (id ≠ .test ∧ μ = .out) μ
  | .termProcess => keep (μ = .out) μ
  | .allocate _ | .listDel _ _ | .initSupport _ _ | .initPageTable _ _ _ | .createProcess _ _ =>
      keep (id = .test ∧ μ = .out) μ

/-- Where a list of instructions takes the process. -/
def shifts (id : Actor u) (x : SemId) (code : List (Instr u m)) (μ : Mode) : Option Mode :=
  code.foldlM (Instr.shift id x) μ

variable {id : Actor u} {x y : SemId} {μ ν ξ : Mode} {code rest : List (Instr u m)} {i : Instr u m}
variable {asid : Int} {ok : Prop} [Decidable ok]

/-! ## Lists of instructions -/

theorem keep_some : keep ok μ = some ν ↔ ok ∧ μ = ν := by
  unfold keep
  split
  · exact ⟨fun h ↦ ⟨‹_›, Option.some.inj h⟩, fun h ↦ congrArg some h.2⟩
  · exact ⟨fun h ↦ (nomatch h), fun h ↦ absurd h.1 ‹_›⟩

theorem keep_of (h : ok) : keep ok μ = some μ := keep_some.mpr ⟨h, rfl⟩

@[simp] theorem shifts_nil : shifts id x ([] : List (Instr u m)) μ = some μ := rfl

theorem shifts_cons : shifts id x (i :: code) μ = some ν ↔
    ∃ ξ, i.shift id x μ = some ξ ∧ shifts id x code ξ = some ν := by
  rw [shifts, List.foldlM_cons]
  exact Option.bind_eq_some_iff

theorem shifts_append : shifts id x (code ++ rest) μ = some ν ↔
    ∃ ξ, shifts id x code μ = some ξ ∧ shifts id x rest ξ = some ν := by
  rw [shifts, List.foldlM_append]
  exact Option.bind_eq_some_iff

theorem MayFault.settled (h : MayFault x μ) : μ.Settled := by
  unfold MayFault at h
  split at h
  · exact .inl h
  · exact h

theorem InPool.settled (h : InPool x μ) : μ.Settled := by
  unfold InPool at h
  split at h
  · exact .inr h
  · exact h

theorem inPool_owner : InPool .swapPool .owner := by rw [InPool, if_pos rfl]

theorem mayFault_out : MayFault x .out := by
  unfold MayFault
  split
  · rfl
  · exact .inl rfl

theorem MayFault.of_ne (h : μ.Settled) (hx : x ≠ .swapPool) : MayFault x μ := by
  rwa [MayFault, if_neg hx]

theorem giveBack_eq : giveBack x x .owner = some .out := by rw [giveBack, if_pos rfl, if_pos rfl]

theorem giveBack_ne (hy : x ≠ y) : giveBack x y μ = some ν ↔ MayFault x μ ∧ μ = ν := by
  rw [giveBack, if_neg hy, keep_some]

/-- To see that code is in order, its head may be run. -/
theorem shifts_step (hi : i.shift id x μ = some ξ) (h : shifts id x rest ξ = some ν) :
    shifts id x (i :: rest) μ = some ν := shifts_cons.mpr ⟨ξ, hi, h⟩

/-! ## Routines -/

theorem asidOf_ne_NOPROC (j : Fin u) : asidOf j ≠ NOPROC := by
  change (j : Int) + 1 ≠ -1
  omega

theorem asid_ne_NOPROC (id : Actor u) : id.asid ≠ NOPROC := by
  cases id with
  | test => exact fun h : (0 : Int) = -1 ↦ nomatch h
  | uproc j => exact asidOf_ne_NOPROC j

theorem asid_injective : Function.Injective (Actor.asid : Actor u → Int) := by
  rintro (_ | i) (_ | j) h
  · rfl
  · change (0 : Int) = j + 1 at h
    omega
  · change (i : Int) + 1 = 0 at h
    omega
  · change (i : Int) + 1 = j + 1 at h
    exact congrArg Actor.uproc (Fin.ext (by omega))

/-- The semaphores of the devices of a U-proc are in the arrays. -/
theorem port_sem_mem (port : Port) (j : Fin u) : port.sem (asidOf j) ∈ sems u := by
  refine List.mem_append_left _ (List.mem_flatMap.mpr ⟨j, List.mem_range.mpr j.isLt, ?_⟩)
  have hdev : DEVICE_OF (asidOf j) = j := Int.add_sub_cancel ..
  cases port with
  | printer =>
      rw [Port.sem, hdev]
      exact List.mem_cons_self
  | terminal =>
      rw [Port.sem, hdev]
      exact List.mem_cons_of_mem _ List.mem_cons_self

theorem swapPool_mem : SemId.swapPool ∈ sems u := List.mem_append_right _ List.mem_cons_self

theorem master_not_mem : SemId.master ∉ sems u := by
  intro h
  rcases List.mem_append.mp h with h | h
  · obtain ⟨j, -, h⟩ := List.mem_flatMap.mp h
    rcases List.mem_pair.mp h with h | h <;> cases h
  · cases List.mem_singleton.mp h

variable (id) in
theorem shifts_P_self (hx : x ∈ sems u) (h : shifts id x rest .owner = some ν) :
    shifts id x (P x id.asid ++ rest) .out = some ν := by
  refine shifts_step (ξ := .entered) ?_ (shifts_step (ξ := .owner) ?_ h)
  · rw [Instr.shift, if_pos rfl, if_pos ⟨rfl, hx⟩]
  · rw [Instr.shift, if_pos rfl, if_neg fun hn ↦ asid_ne_NOPROC id hn.1, if_pos ⟨rfl, rfl⟩]

theorem shifts_P_ne (hy : y ≠ x) (hmaster : y ≠ .master) (horder : y ≠ .swapPool → μ = .out)
    (h : shifts id x rest μ = some ν) : shifts id x (P y asid ++ rest) μ = some ν := by
  refine shifts_step (ξ := μ) ?_ (shifts_step (ξ := μ) ?_ h)
  · rw [Instr.shift, if_neg hy, keep_of ⟨fun h ↦ absurd h hmaster, horder⟩]
  · rw [Instr.shift, if_neg hy]

theorem shifts_V_self (h : shifts id x rest .out = some ν) :
    shifts id x (V x ++ rest) .owner = some ν := by
  refine shifts_step (ξ := .leaving) ?_ (shifts_step (ξ := .out) ?_ h)
  · rw [Instr.shift, if_pos rfl, if_pos ⟨rfl, rfl⟩]
  · rw [Instr.shift, if_pos rfl, if_pos rfl]

theorem shifts_V_ne (hy : y ≠ x) (hmaster : y ≠ .master) (h : shifts id x rest μ = some ν) :
    shifts id x (V y ++ rest) μ = some ν := by
  refine shifts_step (ξ := μ) ?_ (shifts_step (ξ := μ) ?_ h)
  · rw [Instr.shift, if_neg hy]
  · rw [Instr.shift, if_neg hy, keep_of fun h ↦ absurd h hmaster]

/-- The semaphores of a list are released. -/
theorem shifts_release {l : List SemId} (hμ : μ.Settled) (hl : SemId.master ∉ l) :
    shifts id x (l.map (Instr.release (m := m))) μ = some (if x ∈ l then .out else μ) := by
  induction l generalizing μ with
  | nil =>
      rw [if_neg List.not_mem_nil]
      rfl
  | cons y l ih =>
      obtain ⟨hy, hl⟩ := List.ne_and_not_mem_of_not_mem_cons hl
      by_cases hx : y = x
      · subst hx
        refine shifts_step (ξ := .out) ?_ ?_
        · rw [Instr.shift, if_pos rfl, if_pos hμ]
        · rw [ih (.inl rfl) hl, ite_self, if_pos List.mem_cons_self]
      · refine shifts_step (ξ := μ) ?_ ?_
        · rw [Instr.shift, if_neg hx, keep_of (Ne.symm hy)]
        · simp only [ih hμ hl, List.mem_cons, Ne.symm hx, false_or]

theorem trapExceptionHandler_eq : (trapExceptionHandler : List (Instr u m)) =
    (sems u).map .release ++ [.terminate] := by
  rw [trapExceptionHandler, sems, List.map_append, List.map_flatMap, List.append_assoc]
  rfl

/-- A process that traps ends outside every lock. -/
theorem shifts_trap (hμ : μ.Settled) (hx : μ ≠ .out → x ∈ sems u) :
    shifts id x (trapExceptionHandler : List (Instr u m)) μ = some .out := by
  have hout : (if x ∈ sems u then Mode.out else μ) = .out := by
    split
    · rfl
    · by_contra hne
      exact ‹x ∉ sems u› (hx hne)
  rw [trapExceptionHandler_eq, shifts_append]
  refine ⟨_, shifts_release hμ master_not_mem, ?_⟩
  rw [hout]
  exact shifts_step (keep_of rfl) rfl

theorem shifts_freeFrame (hμ : InPool x μ) : ∀ l : List (Fin (m + 1)),
    shifts id x (l.map (Instr.freeFrame (u := u) asid)) μ = some μ
  | [] => rfl
  | _ :: l => shifts_step (keep_of hμ) (shifts_freeFrame hμ l)

variable (id) in
/-- A process that terminates takes the lock of the swap pool and gives it back. -/
theorem shifts_terminate (hid : id ≠ .test) (hx : x ≠ .master) :
    shifts id x (terminate id.asid : List (Instr u m)) .out = some .out := by
  have hend : shifts id x (signalProcessTermination ++ [.termProcess] : List (Instr u m)) .out =
      some .out := by
    refine shifts_step (keep_of ⟨hid, rfl⟩) (shifts_step (ξ := .out) ?_ (shifts_step (keep_of rfl) rfl))
    rw [Instr.shift, if_neg hx.symm, keep_of fun _ ↦ ⟨hid, rfl⟩]
  rw [terminate, freeFrames, List.append_assoc, List.append_assoc, List.append_assoc]
  by_cases hpool : x = .swapPool
  · subst hpool
    exact shifts_P_self id swapPool_mem (shifts_append.mpr ⟨.owner, shifts_freeFrame inPool_owner _,
      shifts_V_self hend⟩)
  · have hin : InPool x .out := by
      rw [InPool, if_neg hpool]
      exact .inl rfl
    exact shifts_P_ne (Ne.symm hpool) (by decide) (fun h ↦ absurd rfl h) (shifts_append.mpr ⟨.out, shifts_freeFrame hin _,
      shifts_V_ne (Ne.symm hpool) (by decide) hend⟩)

/-- An operation on a flash drive, by the owner of the swap pool or by `test`. -/
theorem shifts_backingStoreOperation {operation_command : Word} {page_num : Nat}
    {frame_address : Word} (hμ : InPool x μ ∨ id = .test ∧ μ = .out)
    (h : shifts id x rest μ = some ν) :
    shifts id x (backingStoreOperation operation_command asid page_num frame_address ++ rest) μ =
      some ν := by
  have hset : μ.Settled := hμ.elim InPool.settled fun h ↦ .inl h.2
  exact shifts_step (keep_of hμ) (shifts_step (keep_of hμ) (shifts_step (keep_of hset) h))

variable (id) in
/-- A process takes the lock for a routine that gives it back. -/
theorem shifts_locked (hy : y ∈ sems u) (hi : ∀ {μ}, i.shift id x μ = giveBack x y μ)
    (hrest : ∀ {μ}, shifts id x rest μ = some μ) :
    shifts id x (P y id.asid ++ i :: rest) .out = some .out := by
  by_cases hx : y = x
  · subst hx
    exact shifts_P_self id hy (shifts_step (hi.trans giveBack_eq) hrest)
  · exact shifts_P_ne hx (fun h ↦ master_not_mem (h ▸ hy)) (fun _ ↦ rfl)
      (shifts_step (hi.trans ((giveBack_ne (Ne.symm hx)).mpr ⟨mayFault_out, rfl⟩)) hrest)

/-- The routine of a system call begins and ends outside every lock. -/
theorem CallCode.shifts {j : Fin u} (h : CallCode (asidOf j) code) :
    shifts (.uproc j) x code .out = some .out := by
  have hterm : SupportLevel.shifts (.uproc j) x ([.terminate] : List (Instr u m)) .out =
      some .out := shifts_step (keep_of rfl) rfl
  cases h with
  | getTOD => rfl
  | terminate => exact hterm
  | writePort port string length =>
      unfold SupportLevel.writePort
      split
      · exact hterm
      · exact shifts_locked (.uproc j) (port_sem_mem port j) rfl rfl
  | readTerminal buffer =>
      unfold SupportLevel.readTerminal
      split
      · exact hterm
      · exact shifts_locked (.uproc j) (port_sem_mem .terminal j) rfl rfl
  | trap => exact shifts_trap (.inl rfl) fun h ↦ absurd rfl h

/-! ## Instructions that expand -/

theorem giveBack_some (h : giveBack x y μ = some ν) :
    x = y ∧ μ = .owner ∧ ν = .out ∨ x ≠ y ∧ MayFault x μ ∧ ν = μ := by
  by_cases hy : x = y
  · rw [giveBack, if_pos hy] at h
    split at h <;> cases h
    exact .inl ⟨hy, ‹_›, rfl⟩
  · obtain ⟨hfault, rfl⟩ := (giveBack_ne hy).mp h
    exact .inr ⟨hy, hfault, rfl⟩

/-- A lock that is given back may be given back here. -/
theorem shifts_giveBack (h : giveBack x y μ = some ν) (hy : y ≠ .master)
    (hrest : shifts id x rest ν = some ξ) : shifts id x (V y ++ rest) μ = some ξ := by
  rcases giveBack_some h with ⟨rfl, rfl, rfl⟩ | ⟨hne, -, rfl⟩
  · exact shifts_V_self hrest
  · exact shifts_V_ne (Ne.symm hne) hy hrest

/-- Before a lock that is not of the swap pool is given back, the process may fault. -/
theorem mayFault_of_giveBack (h : giveBack x y μ = some ν) (hy : y ≠ .swapPool) :
    MayFault x μ := by
  rcases giveBack_some h with ⟨rfl, rfl, -⟩ | ⟨-, hfault, -⟩
  · exact .of_ne (.inr rfl) hy
  · exact hfault

variable {cfg : PoolConfig m} {r : Memory u m k} {v : Proc u m} {port : Port}

theorem port_sem_ne_swapPool : port.sem asid ≠ .swapPool := by cases port <;> exact nofun

/-- What replaces an instruction is in order, for a process whose support structure has its
ASID. -/
theorem Expands.shifts (h : Expands cfg r v i rest code) (hx : x ≠ .master)
    (hreal : μ ≠ .out → x ∈ sems u) (huser : r.user_asid x = id.asid ↔ μ = .owner)
    (hown : ∀ b, v.p_supportStruct = some b →
      ∃ j, id = .uproc j ∧ (r.support_arr b).sup_asid = asidOf j)
    (hall : shifts id x (i :: rest) μ = some .out) : shifts id x code μ = some .out := by
  obtain ⟨ξ, hi, hrest⟩ := shifts_cons.mp hall
  cases h with
  | call b hsupport h =>
      obtain ⟨rfl, rfl⟩ := keep_some.mp hi
      obtain ⟨j, rfl, hasid⟩ := hown b hsupport
      rw [hasid] at h
      exact h.shifts
  | trap h =>
      refine shifts_trap ?_ hreal
      rcases h with rfl | rfl | rfl | ⟨a, rfl⟩ | ⟨a, w, rfl⟩
      · exact .inl (keep_some.mp hi).1
      · exact (keep_some.mp hi).1.settled
      · exact (keep_some.mp hi).1
      · exact (keep_some.mp hi).1.settled
      · exact (keep_some.mp hi).1.settled
  | held y b hsupport hheld =>
      obtain ⟨j, rfl, hasid⟩ := hown b hsupport
      rw [Instr.shift] at hi
      by_cases hy : y = x
      · subst hy
        rw [if_pos rfl] at hi
        split at hi <;> cases hi
        rw [huser.mp (hheld.trans hasid)]
        exact shifts_V_self hrest
      · rw [if_neg hy] at hi
        obtain ⟨hmaster, rfl⟩ := keep_some.mp hi
        exact shifts_V_ne hy hmaster hrest
  | notHeld y b hsupport hheld =>
      obtain ⟨j, rfl, hasid⟩ := hown b hsupport
      rw [Instr.shift] at hi
      by_cases hy : y = x
      · subst hy
        rw [if_pos rfl] at hi
        split at hi <;> cases hi
        rename_i hset
        rw [hset.resolve_right fun ho ↦ hheld ((huser.mpr ho).trans hasid.symm)]
        exact hrest
      · rw [if_neg hy] at hi
        obtain ⟨-, rfl⟩ := keep_some.mp hi
        exact hrest
  | terminate b hsupport =>
      obtain ⟨rfl, rfl⟩ := keep_some.mp hi
      obtain ⟨j, rfl, hasid⟩ := hown b hsupport
      rw [hasid]
      exact shifts_terminate (.uproc j) nofun hx
  | written port asid string sent =>
      exact shifts_giveBack hi port_sem_ne_master (shifts_step rfl hrest)
  | write port asid string left sent =>
      exact shifts_step (keep_of (mayFault_of_giveBack hi port_sem_ne_swapPool))
        (shifts_step rfl (shifts_step hi hrest))
  | print asid w =>
      cases hi
      exact shifts_step rfl (shifts_step rfl hrest)
  | transmit asid w =>
      cases hi
      exact shifts_step rfl hrest
  | writeFailed port asid string left sent w =>
      exact shifts_step rfl (shifts_giveBack hi port_sem_ne_master (shifts_step rfl hrest))
  | sent port asid string left sent => exact shifts_step hi hrest
  | receive asid buffer received => exact shifts_step rfl (shifts_step hi hrest)
  | readFailed asid buffer received w =>
      exact shifts_step rfl (shifts_giveBack hi nofun (shifts_step rfl hrest))
  | received asid buffer received read =>
      exact shifts_step (keep_of (mayFault_of_giveBack hi nofun)) (shifts_step hi hrest)
  | newline asid buffer received read =>
      exact shifts_giveBack hi nofun (shifts_step rfl hrest)
  | readOn asid buffer received read => exact shifts_step hi hrest
  | done h =>
      have hkeep : ξ = μ := by
        rcases h with ⟨w, rfl⟩ | ⟨j, rfl⟩ | ⟨rfl, -⟩ | ⟨asid, f, rfl, -⟩
        · exact (Option.some.inj hi).symm
        · exact (Option.some.inj hi).symm
        · exact (keep_some.mp hi).2.symm
        · exact (keep_some.mp hi).2.symm
      rw [← hkeep]
      exact hrest
  | invalid b hsupport hcause =>
      obtain ⟨hfault, rfl⟩ := keep_some.mp hi
      obtain ⟨j, rfl, hasid⟩ := hown b hsupport
      rw [hasid, TLBInvalidHandler, List.append_assoc]
      by_cases hpool : x = .swapPool
      · subst hpool
        obtain rfl : μ = .out := by rwa [MayFault, if_pos rfl] at hfault
        exact shifts_P_self (.uproc j) swapPool_mem (shifts_step rfl hrest)
      · refine shifts_P_ne (Ne.symm hpool) (by rintro ⟨⟩) (fun h ↦ absurd rfl h) (shifts_step ?_ hrest)
        rw [Instr.shift, if_neg hpool, keep_of hfault.settled]
  | frame b hsupport page_index hslot =>
      rw [Instr.shift] at hi
      have hin : InPool x μ := by
        unfold InPool
        split
        · rw [if_pos ‹_›] at hi
          split at hi
          · assumption
          · cases hi
        · rw [if_neg ‹_›] at hi
          exact (keep_some.mp hi).1
      have hkeep : SupportLevel.shifts id x ((if r.IsFree r.getFrame.1 then [] else
          [.storePage r.getFrame.1, .writePageToFlash r.getFrame.1]) ++
            [.loadPage (b, page_index) r.getFrame.1]) μ = some μ := by
        split
        · exact shifts_step (keep_of hin) rfl
        · exact shifts_step (keep_of hin) (shifts_step (keep_of hin) (shifts_step (keep_of hin) rfl))
      have hend : SupportLevel.shifts id x (V .swapPool ++ .ldst PGFAULTEXCEPT :: rest) μ =
          some .out := by
        by_cases hpool : x = .swapPool
        · subst hpool
          rw [if_pos rfl] at hi
          split at hi <;> cases hi
          rename_i howner
          rw [howner]
          exact shifts_V_self (shifts_step rfl hrest)
        · rw [if_neg hpool] at hi
          obtain ⟨-, rfl⟩ := keep_some.mp hi
          exact shifts_V_ne (Ne.symm hpool) (by rintro ⟨⟩) (shifts_step rfl hrest)
      have happ := shifts_append.mpr ⟨μ, hkeep, hend⟩
      rwa [List.append_assoc] at happ ⊢
  | writePage f =>
      obtain ⟨hin, rfl⟩ := keep_some.mp hi
      exact shifts_backingStoreOperation (.inl hin) hrest
  | readPage e f =>
      obtain ⟨hin, rfl⟩ := keep_some.mp hi
      exact shifts_backingStoreOperation (.inl hin)
        (shifts_step (keep_of hin) (shifts_step (keep_of hin) hrest))
  | deallocate b hsupport =>
      obtain ⟨hok, rfl⟩ := keep_some.mp hi
      exact shifts_step (keep_of hok) hrest
  | allocate j b hhead =>
      obtain ⟨hok, rfl⟩ := keep_some.mp hi
      exact shifts_step (keep_of hok) hrest

end PandosPlus.SupportLevel
