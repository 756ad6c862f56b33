import PandosPlus.Lib.Pager
import PandosPlus.Phase3.Coherence
import PandosPlus.Phase3.Drives

/-!
# Page faults

Once `_TLBInvalidHandler` has chosen a frame, what the U-proc has still to do is known to the
last instruction (`Fault`): the page in the frame is invalidated and written back, the
missing page is read, recorded and mapped.  All this is done under the lock of the swap pool,
so that one U-proc does it at a time, and nothing it relies on changes in between.
Everything else that a U-proc does leaves the frames alone, but for `freeFrames`.
-/

namespace PandosPlus.SupportLevel

open TaggedLock

variable {u m k : Nat} {cfg : PoolConfig m} {s t : System u m k} {p q : Actor u} {x : SemId}
variable {a : Event u k} {mode : SemId → Actor u → Mode} {c : Choice k} {i : Instr u m}
variable {rest pre : List (Instr u m)} {j b : Fin u} {f : Fin (m + 1)} {e : Fin u × Fin 32}

/-! ## The state that is saved -/

/-- A process saves states in its own support structure only. -/
theorem exec_saved {id : Actor u} {r s' : Memory u m k} {v v' : Proc u m}
    (h : exec cfg c id r v i rest = .ok s' v') (hb : v.p_supportStruct ≠ some b) :
    (s'.support_arr b).sup_exceptState = (r.support_arr b).sup_exceptState := by
  have hfield : ∀ b' (g : SupportStruct → SupportStruct),
      (∀ x, (g x).sup_exceptState = x.sup_exceptState) →
      ((r.setSupport b' g).support_arr b).sup_exceptState = (r.support_arr b).sup_exceptState :=
    fun b' g hg ↦ setSupport_field (·.sup_exceptState) r b' hg b
  have hother : ∀ b' (g : SupportStruct → SupportStruct), v.p_supportStruct = some b' →
      ((r.setSupport b' g).support_arr b).sup_exceptState = (r.support_arr b).sup_exceptState := by
    intro b' g hb'
    have hne : b ≠ b' := by
      rintro rfl
      exact hb hb'
    rw [setSupport_ne r hne]
  have hpass : ∀ {n state handler}, passUp r v n state handler = .ok s' v' →
      (s'.support_arr b).sup_exceptState = (r.support_arr b).sup_exceptState := fun h ↦ by
    obtain ⟨b', hb', -, rfl⟩ := passUp_ok h
    exact hother b' _ hb'
  have hentry : ∀ e lo, (((r.setPte e lo).updateTLB e).support_arr b).sup_exceptState =
      (r.support_arr b).sup_exceptState := fun e lo ↦ by
    have htlb : ((r.setPte e lo).updateTLB e).support_arr = (r.setPte e lo).support_arr := by
      obtain ⟨tlb, he⟩ := updateTLB_eq (r.setPte e lo) e
      rw [he]
    rw [htlb]
    exact hfield e.1 _ fun _ ↦ rfl
  have hcall : ∀ {b'}, v.p_supportStruct = some b' → systemcallHandler r v c b' = .ok s' v' →
      (s'.support_arr b).sup_exceptState = (r.support_arr b).sup_exceptState := fun hb' h ↦ by
    unfold systemcallHandler at h
    dsimp only at h
    repeat' split at h
    all_goals
      cases h
      exact hother _ _ hb'
  have haccess : ∀ {asid w writes go}, (∀ w, go w = .ok s' v' →
      (s'.support_arr b).sup_exceptState = (r.support_arr b).sup_exceptState) →
      access r v c asid w writes i rest go = .ok s' v' →
      (s'.support_arr b).sup_exceptState = (r.support_arr b).sup_exceptState := fun hgo h ↦ by
    unfold access at h
    dsimp only at h
    split at h
    · split at h <;> cases h
      rfl
    · split at h
      · exact hpass h
      · split at h
        · exact hpass h
        · exact hgo _ h
  cases i with
  | generalException =>
      simp only [exec] at h
      split at h
      · cases h
      · split at h
        · exact hcall ‹_› h
        · cases h
          rfl
  | release x =>
      simp only [exec] at h
      split at h
      · cases h
      · split at h <;> cases h <;> rfl
  | terminate =>
      simp only [exec] at h
      split at h <;> cases h
      rfl
  | writeChars port asid string left sent => cases left <;> cases h <;> rfl
  | sendChar port asid => cases port <;> cases h <;> rfl
  | checkSent port asid string left sent =>
      simp only [exec] at h
      split at h <;> cases h <;> rfl
  | checkRead asid buffer received =>
      simp only [exec] at h
      split at h <;> cases h <;> rfl
  | nextRead asid buffer received read =>
      simp only [exec] at h
      split at h <;> cases h <;> rfl
  | sysReturn w =>
      simp only [exec] at h
      split at h <;> cases h
      exact hother _ _ ‹_›
  | load w =>
      simp only [exec] at h
      split at h
      · refine haccess (fun w hgo ↦ ?_) h
        cases hgo
        rfl
      · exact hpass h
  | store w x =>
      simp only [exec] at h
      split at h
      · refine haccess (fun w hgo ↦ ?_) h
        cases hgo
        rfl
      · exact hpass h
  | tlbException =>
      simp only [exec] at h
      split at h
      · cases h
      · split at h
        · cases h
          rfl
        · split at h <;> cases h
          rfl
  | tlbInvalid =>
      simp only [exec] at h
      split at h
      · cases h
      · split at h <;> cases h
        rfl
  | storePage f =>
      simp only [exec] at h
      split at h <;> cases h
      exact hentry _ _
  | mapPage e f =>
      cases h
      exact hentry _ _
  | checkStatus =>
      simp only [exec] at h
      split at h <;> cases h <;> rfl
  | freeFrame asid f =>
      simp only [exec] at h
      split at h <;> cases h <;> rfl
  | deallocate =>
      simp only [exec] at h
      split at h <;> cases h
      rfl
  | allocate n =>
      simp only [exec] at h
      split at h <;> cases h
      rfl
  | initSupport n b' =>
      cases h
      exact hfield b' (fun x ↦ { x with sup_asid := asidOf n }) fun _ ↦ rfl
  | initPageTable n b' w =>
      cases h
      exact hfield b' (fun x ↦ { x with
        sup_privatePgTbl := PandosPlus.initPageTable (asidOf n) (r.ram w) }) fun _ ↦ rfl
  | passeren x => cases h
  | verhogen x => cases h
  | termProcess => cases h
  | createProcess n b' => cases h
  | _ =>
      cases h
      rfl

/-- What a U-proc has saved stays until it goes on. -/
theorem SupStep.saved (hstep : SupStep cfg s a t) (ho : Owns s) (hj : Has s j b)
    (hown : a.actor = some (.uproc j) →
      ∃ i rest, (s.proc (.uproc j)).code = i :: rest ∧ i.sem? ≠ none) :
    (t.mem.support_arr b).sup_exceptState = (s.mem.support_arr b).sup_exceptState := by
  -- another process has another support structure
  have hother : ∀ {p}, a.actor = some p → (s.proc p).phase = .ready →
      ((s.proc p).code = [] ∨ ∃ i rest, (s.proc p).code = i :: rest ∧ i.sem? = none ∧
        i ≠ .termProcess) → (s.proc p).p_supportStruct ≠ some b := by
    intro p ha hready hcode hb
    cases p with
    | test => cases ho.test.symm.trans hb
    | uproc i =>
        have hstays : ¬ Leaving (s.proc (.uproc i)).code := by
          rcases hcode with hcode | ⟨i', rest, hcode, hsem, hterm⟩ <;> rw [hcode]
          · rintro (h | h) <;> cases h
          · exact not_leaving_cons hsem hterm
        obtain rfl := Has.unique ⟨hready ▸ .ready, hstays, hb⟩ hj ho
        obtain ⟨i', rest, hcode', hsem⟩ := hown ha
        rcases hcode with hcode | ⟨i'', rest', hcode, hsem', -⟩
        · cases hcode.symm.trans hcode'
        · obtain ⟨rfl, -⟩ := List.cons.inj (hcode.symm.trans hcode')
          exact hsem hsem'
  cases hstep.moved with
  | passeren hready hcode hc => rw [hc.mem]
  | verhogen hready hcode hc => rw [hc.mem]
  | terminated => rfl
  | created => rfl
  | @ran p c i rest mem v t hready hcode hexec ht =>
      rw [ht.mem]
      obtain ⟨hsem, hterm⟩ := (exec_executed hcode hexec).not_sem
      exact exec_saved hexec (hother rfl hready (.inr ⟨i, rest, hcode, hsem, hterm⟩))
  | faulted => rfl
  | @left i op mem v t hready hcode hop ht =>
      rw [ht.mem]
      have hb := hother rfl hready (.inl hcode)
      cases op with
      | load w =>
          cases hop
          rfl
      | store w x =>
          cases hop
          rfl
      | exception state =>
          simp only [userOp] at hop
          split at hop
          · cases hop
          · obtain ⟨b', hb', -, rfl⟩ := passUp_ok hop
            have hne : b ≠ b' := by
              rintro rfl
              exact hb hb'
            rw [setSupport_ne s.mem hne]
  | @completed d status p rest t hwaiting ht =>
      obtain ⟨ram, flash, he⟩ := completed_eq s.mem status d
      rw [ht.mem, he]
      rfl

/-- The page of the address that faulted is not mapped. -/
def Missing (r : Memory u m k) (b : Fin u) : Prop :=
  ∀ n, tableSlot ((r.support_arr b).sup_exceptState PGFAULTEXCEPT).entry_hi = some n →
    ¬ (r.pte (b, n)).Valid

/-- A page that is missing is missing until its U-proc has loaded it. -/
theorem Missing.step (h : Missing s.mem b) (hu : u < 64) (hr : Running s mode) (hf : Frames s)
    (hstep : SupStep cfg s a t) (hj : Has s j b)
    (hown : a.actor = some (.uproc j) →
      ∃ i rest, (s.proc (.uproc j)).code = i :: rest ∧ i.sem? ≠ none) : Missing t.mem b := by
  intro n hslot
  rw [hstep.saved hr.owns hj hown] at hslot
  rcases hstep.entry hu hr hf hj n with he | he | ⟨f, ha, -, ⟨rest, hcode⟩, -⟩
  · rw [he]
    exact h n hslot
  · rw [he]
    exact PteEntry.unmapped_invalid _
  · obtain ⟨i, rest', hcode', hsem⟩ := hown ha
    obtain ⟨rfl, -⟩ := List.cons.inj (hcode.symm.trans hcode')
    exact absurd rfl hsem

/-! ## Where a U-proc is -/

/-- It touches no frame and no drive, and no page fault is on its way. -/
def Quiet (code : List (Instr u m)) : Prop := ∀ i ∈ code, ¬ i.Handling

/-- The points of a page fault, by the instruction that comes next.  The status is that of
the last transfer. -/
inductive Point where
  | storePage
  | writePage
  | writeData0
  | writeCommand
  | checkWrite (status : Word)
  | loadPage
  | readData0
  | readCommand
  | checkRead (status : Word)
  | recordFrame
  | mapPage
deriving DecidableEq

namespace Point

/-- How far the page is in its way into the frame. -/
def stage : Point → Pager.Stage
  | storePage => .chosen
  | writePage | writeData0 | writeCommand => .unmapped
  | checkWrite _ | loadPage | readData0 | readCommand => .saved
  | checkRead _ | recordFrame => .loaded
  | mapPage => .recorded

/-- The status that is checked next. -/
def status? : Point → Option Word
  | checkWrite status | checkRead status => some status
  | _ => none

/-- What the U-proc `j` has still to do from a point on, to bring the page `e` of its table
into the frame `f`, which is listed as `v`; `rest` comes after it. -/
def code (cfg : PoolConfig m) (j : Fin u) (e : Fin u × Fin 32) (f : Fin (m + 1)) (v : Swap u)
    (rest : List (Instr u m)) : Point → List (Instr u m)
  | storePage => .storePage f :: .writePageToFlash f :: .loadPage e f :: rest
  | writePage => .writePageToFlash f :: .loadPage e f :: rest
  | writeData0 => .setData0 (.flash (v.sw_asid - 1)) (cfg.frameAddress f) ::
      .doIo (.flash (v.sw_asid - 1)) ((BitVec.ofNat 32 v.sw_pageNo <<< 8) + FLASHWRITE) ::
      .checkStatus :: .loadPage e f :: rest
  | writeCommand =>
      .doIo (.flash (v.sw_asid - 1)) ((BitVec.ofNat 32 v.sw_pageNo <<< 8) + FLASHWRITE) ::
      .checkStatus :: .loadPage e f :: rest
  | checkWrite _ => .checkStatus :: .loadPage e f :: rest
  | loadPage => .loadPage e f :: rest
  | readData0 => .setData0 (.flash (asidOf j - 1)) (cfg.frameAddress f) ::
      .doIo (.flash (asidOf j - 1)) ((BitVec.ofNat 32 e.2 <<< 8) + FLASHREAD) ::
      .checkStatus :: .recordFrame f (asidOf j) e.2 e :: .mapPage e f :: rest
  | readCommand => .doIo (.flash (asidOf j - 1)) ((BitVec.ofNat 32 e.2 <<< 8) + FLASHREAD) ::
      .checkStatus :: .recordFrame f (asidOf j) e.2 e :: .mapPage e f :: rest
  | checkRead _ => .checkStatus :: .recordFrame f (asidOf j) e.2 e :: .mapPage e f :: rest
  | recordFrame => .recordFrame f (asidOf j) e.2 e :: .mapPage e f :: rest
  | mapPage => .mapPage e f :: rest

end Point

/-- The instructions that a point can be at. -/
def Instr.OfFault : Instr u m → Prop
  | .storePage _ | .writePageToFlash _ | .loadPage _ _ | .recordFrame _ _ _ _ | .mapPage _ _ |
      .setData0 (.flash _) _ | .doIo (.flash _) _ | .checkStatus => True
  | _ => False

theorem Point.code_cons (cfg : PoolConfig m) (j : Fin u) (e : Fin u × Fin 32) (f : Fin (m + 1))
    (v : Swap u) (rest : List (Instr u m)) (pt : Point) :
    ∃ i rest', pt.code cfg j e f v rest = i :: rest' ∧ i.OfFault := by
  cases pt <;> exact ⟨_, _, rfl, trivial⟩

/-- A page fault calls on no semaphore. -/
theorem Instr.OfFault.sem (h : i.OfFault) : i.sem? = none := by
  cases i <;> first | rfl | exact h.elim

theorem Instr.OfFault.ne_termProcess (h : i.OfFault) : i ≠ .termProcess := by
  rintro rfl
  exact h

/-- The end of a U-proc is no page fault. -/
theorem Ending.not_fault {asid : Int} (h : Ending asid (i :: rest)) : ¬ i.OfFault := by
  rcases h.cons with ⟨pre, hpre, -⟩ | ⟨rfl, -⟩ | ⟨b, next, rfl, -⟩ | ⟨rfl, -⟩ | ⟨rfl, -⟩
  · rcases mem_freeFrames (hpre.subset List.mem_cons_self) with rfl | ⟨n, rfl⟩ | ⟨f, rfl⟩ | rfl <;>
      exact fun h ↦ h
  all_goals exact fun h ↦ h

variable (cfg) in
/-- The U-proc `j` is at a point of a page fault, in which the page `e` of its table is
brought into the frame `f`. -/
structure Fault (s : System u m k) (j : Fin u) (e : Fin u × Fin 32) (f : Fin (m + 1))
    (pt : Point) : Prop where
  code : ∃ rest, (s.proc (.uproc j)).code = pt.code cfg j e f (s.mem.swap_pool_table f) rest ∧
    Quiet rest
  has : Has s j e.1
  taken : pt.stage = .chosen ∨ pt.stage = .unmapped → ¬ s.mem.IsFree f
  status : ∀ w, pt.status? = some w → (s.proc (.uproc j)).status = w
  operation : ∀ d c rest, (s.proc (.uproc j)).code = .doIo (.flash d) c :: rest →
    Operation s d (.uproc j) (cfg.frameAddress f)

/-- Where a U-proc is with respect to page faults. -/
inductive Spot (u m : Nat) where
  | quiet
  | ending
  /-- A page fault has been raised. -/
  | raised
  /-- The lock of the swap pool is taken. -/
  | locking
  | fault (e : Fin u × Fin 32) (f : Fin (m + 1)) (pt : Point)

/-- The page that is brought into a frame. -/
def Spot.task (j : Fin u) : Spot u m → Option (Pager.Task (Fin u × Fin 32) (Fin (m + 1)))
  | .fault e f pt => some ⟨(j, e.2), f, pt.stage⟩
  | _ => none

/-- The status that is checked next. -/
def Spot.status? : Spot u m → Option Word
  | .fault _ _ pt => pt.status?
  | _ => none

variable (cfg) in
/-- The U-proc `j` is there. -/
inductive At (s : System u m k) (j : Fin u) : Spot u m → Prop
  | quiet (h : Quiet (s.proc (.uproc j)).code) : At s j .quiet
  | ending (h : Ending (asidOf j) (s.proc (.uproc j)).code) : At s j .ending
  | raised (b : Fin u) (rest : List (Instr u m))
      (hcode : (s.proc (.uproc j)).code = .tlbException :: rest) (hrest : Quiet rest)
      (hhas : Has s j b)
      (hmissing : excCode ((s.mem.support_arr b).sup_exceptState PGFAULTEXCEPT).cause ≠ TLBMOD →
        Missing s.mem b) : At s j .raised
  | locking (b : Fin u) (pre rest : List (Instr u m))
      (hcode : (s.proc (.uproc j)).code = pre ++ .tlbInvalid :: rest)
      (hpre : pre <:+ P .swapPool (asidOf j)) (hrest : Quiet rest) (hhas : Has s j b)
      (hmissing : Missing s.mem b) : At s j .locking
  | fault {e : Fin u × Fin 32} {f : Fin (m + 1)} {pt : Point} (h : Fault cfg s j e f pt) :
      At s j (.fault e f pt)

/-! ## Quiet code -/

theorem Quiet.nil : Quiet ([] : List (Instr u m)) := fun _ h ↦ absurd h List.not_mem_nil

theorem Quiet.cons (hi : ¬ i.Handling) (h : Quiet rest) : Quiet (i :: rest) :=
  List.forall_mem_cons.mpr ⟨hi, h⟩

theorem Quiet.head (h : Quiet (i :: rest)) : ¬ i.Handling := h i List.mem_cons_self

theorem Quiet.tail (h : Quiet (i :: rest)) : Quiet rest := (List.forall_mem_cons.mp h).2

theorem Quiet.trap : Quiet (trapExceptionHandler : List (Instr u m)) := by
  intro i hi
  rw [trapExceptionHandler_eq] at hi
  rcases List.mem_append.mp hi with hi | hi
  · obtain ⟨x, -, rfl⟩ := List.mem_map.mp hi
    exact fun h ↦ h
  · rw [List.mem_singleton.mp hi]
    exact fun h ↦ h

/-- Quiet code goes on quietly, or comes to its end. -/
theorem Expands.quiet {r : Memory u m k} {v : Proc u m} {code : List (Instr u m)}
    (h : Expands cfg r v i rest code) (hall : Quiet (i :: rest)) (hi : i ≠ .terminate) :
    Quiet code := by
  have hhead := hall.head
  refine h.every hall.tail (fun _ h ↦ h) ?_ (fun _ _ he ↦ absurd he hi) ?_ ?_ ?_
  · rintro rfl
    exact absurd trivial hhead
  · rintro b page_index rfl
    exact absurd trivial hhead
  · rintro f w w' rfl
    exact absurd trivial hhead
  · rintro e f w w' rfl
    exact absurd trivial hhead

/-! ## A page fault -/

/-- A U-proc in a page fault owns the swap pool. -/
theorem Fault.owner {pt : Point} (h : Fault cfg s j e f pt) (hl : Locks s mode) :
    mode .swapPool (.uproc j) = .owner := by
  obtain ⟨rest, hcode, -⟩ := h.code
  have hall := hl.follows (.uproc j) h.has.alive.2 .swapPool (by rintro ⟨⟩)
  rw [hcode] at hall
  have hpool : ∀ {μ}, InPool .swapPool μ → μ = .owner := fun h ↦ by rwa [InPool, if_pos rfl] at h
  have hdrive : ∀ {μ}, InPool .swapPool μ ∨ Actor.uproc j = .test ∧ μ = .out → μ = .owner :=
    fun h ↦ hpool (h.resolve_right (by rintro ⟨⟨⟩, -⟩))
  cases pt with
  | writeData0 | writeCommand | readData0 | readCommand =>
      obtain ⟨ξ, hshift, -⟩ := shifts_cons.mp hall
      exact hdrive (keep_some.mp hshift).1
  | checkWrite | checkRead =>
      obtain ⟨ξ, hshift, hrest⟩ := shifts_cons.mp hall
      obtain ⟨-, rfl⟩ := keep_some.mp hshift
      obtain ⟨ξ, hshift, -⟩ := shifts_cons.mp hrest
      exact hpool (keep_some.mp hshift).1
  | _ =>
      obtain ⟨ξ, hshift, -⟩ := shifts_cons.mp hall
      exact hpool (keep_some.mp hshift).1

/-- The swap pool is in use during a page fault. -/
theorem Fault.val {pt : Point} (h : Fault cfg s j e f pt) (hl : Locks s mode) :
    (s.sem .swapPool).val = 0 := by
  refine (hl.lock .swapPool (by rintro ⟨⟩)).val_of_held (p := .uproc j) ?_
  rw [h.owner hl]
  rintro ⟨⟩

/-- A U-proc in a page fault has work to do. -/
theorem Fault.working {pt : Point} (h : Fault cfg s j e f pt) (hs : Shapes s) :
    Working (s.proc (.uproc j)).code := by
  obtain ⟨rest, hcode, -⟩ := h.code
  refine (hs j h.has.alive.2).resolve_right fun hend ↦ ?_
  obtain ⟨i, rest', hcons, hi⟩ := pt.code_cons cfg j e f (s.mem.swap_pool_table f) rest
  rw [hcode, hcons] at hend
  exact hend.not_fault hi

/-! ## What happens to a page fault -/

/-- Who is woken by a device. -/
theorem SupStep.answers {d : Dev} {status : Word} (hstep : SupStep cfg s (.complete d status) t)
    (hp : Placed s) : ∃ p w rest, (s.proc p).phase = .waiting ∧
      (s.proc p).code = .doIo d w :: rest ∧
      t.proc p = { s.proc p with phase := .ready, code := rest, status := status } ∧
      (∀ q, q ≠ p → t.proc q = s.proc q) ∧ ∃ g, t.mem = (s.mem.completed status d).setDev d g := by
  cases hstep.moved with
  | @completed _ _ p l _ hwaiting ht =>
      have hmem : p ∈ (s.mem.dev d).waiting := by
        rw [hwaiting]
        exact List.mem_cons_self
      obtain ⟨hphase, w, rest, hcode⟩ := Proc.of_waitsFor ((hp.waiting.mem_iff p d).mp hmem)
      refine ⟨p, w, rest, hphase, hcode, ?_, ht.ne, _, ht.mem⟩
      rw [ht.self, hcode]
      rfl

/-- Who operates a drive is the one that it wakes. -/
theorem Operation.answered {d : Int} {status w : Word} (h : Operation s d p w) (hd : Drives s)
    (hr : Running s mode) (hstep : SupStep cfg s (.complete (.flash d) status) t) :
    ∃ rest, (s.proc p).code = .doIo (.flash d) (s.mem.dev (.flash d)).command :: rest ∧
      t.proc p = { s.proc p with phase := .ready, code := rest, status := status } ∧
      ∃ g, t.mem = (s.mem.completed status (.flash d)).setDev (.flash d) g := by
  obtain ⟨q, c, rest, hphase, hcode, hproc, -, hmem⟩ := hstep.answers hr.placed
  obtain rfl := hd.alone hr h.operates ⟨.inr hphase, _, rest, hcode, rfl⟩
  obtain ⟨c', rest', hcode', hready | ⟨-, hcommand⟩⟩ := h.head
  · cases hready.symm.trans hphase
  · obtain ⟨hi, rfl⟩ := List.cons.inj (hcode.symm.trans hcode')
    rw [(Instr.doIo.inj hi).2, ← hcommand] at hcode
    exact ⟨rest, hcode, hproc, hmem⟩

/-- An instruction that changes what is mapped where. -/
def Instr.Maps : Instr u m → Prop
  | .storePage _ | .recordFrame _ _ _ _ | .mapPage _ _ => True
  | _ => False

theorem Instr.Maps.touching (h : i.Maps) : i.Touching := by
  cases i <;> first | exact trivial | exact h.elim

theorem Instr.Maps.fault (h : i.Maps) : i.OfFault := by
  cases i <;> first | exact trivial | exact h.elim

variable (cfg) in
/-- What a step means for the page fault of the U-proc `j`.  Where it `keeps` its task there is
nothing new to check. -/
inductive Shift (s : System u m k) (a : Event u k) (t : System u m k) (j : Fin u) :
    Spot u m → Spot u m → Prop
  | keeps {w w' : Spot u m} (htask : w'.task j = w.task j)
      (hstatus : ∀ v, w'.status? = some v → w.status? = some v)
      (hactor : a.actor = some (.uproc j) → ∀ i rest, (s.proc (.uproc j)).code = i :: rest →
        ¬ i.Maps)
      (hanswer : ∀ d status, a = .complete (.flash d) status →
        t.proc (.uproc j) = s.proc (.uproc j)) : Shift s a t j w w'
  | chooses (b : Fin u) (n : Fin 32) (rest : List (Instr u m)) (ha : a.actor = some (.uproc j))
      (hcode : (s.proc (.uproc j)).code = .tlbInvalid :: rest) (hhas : Has s j b)
      (hmissing : ¬ (s.mem.pte (b, n)).Valid) (hmem : t.mem = s.mem.getFrame.2) :
      Shift s a t j .locking (.fault (b, n) s.mem.getFrame.1
        (if s.mem.IsFree s.mem.getFrame.1 then .loadPage else .storePage))
  | stores {e : Fin u × Fin 32} {f : Fin (m + 1)} (e' : Fin u × Fin 32)
      (ha : a.actor = some (.uproc j)) (hpte : (s.mem.swap_pool_table f).sw_pte = some e')
      (hmem : t.mem = (s.mem.setPte e' (s.mem.pte e').unmapped.pte_entryLO).updateTLB e') :
      Shift s a t j (.fault e f .storePage) (.fault e f .writePage)
  | saves {e : Fin u × Fin 32} {f : Fin (m + 1)} (d : Int) (n : Nat) (status : Word)
      (g : DevReg u → DevReg u) (ha : a = .complete (.flash d) status)
      (hd : d = (s.mem.swap_pool_table f).sw_asid - 1)
      (hn : n = (s.mem.swap_pool_table f).sw_pageNo)
      (hmem : t.mem = (if status = DEV_READY then { s.mem with
            flash := Function.update s.mem.flash d
              (Function.update (s.mem.flash d) n (s.mem.ram (cfg.frameAddress f))) }
          else s.mem).setDev (.flash d) g) :
      Shift s a t j (.fault e f .writeCommand) (.fault e f (.checkWrite status))
  | loads {e : Fin u × Fin 32} {f : Fin (m + 1)} (status : Word) (g : DevReg u → DevReg u)
      (ha : a = .complete (.flash (asidOf j - 1)) status)
      (hmem : t.mem = (if status = DEV_READY then
          s.mem.setRam (cfg.frameAddress f) (s.mem.flash (asidOf j - 1) e.2)
        else s.mem).setDev (.flash (asidOf j - 1)) g) :
      Shift s a t j (.fault e f .readCommand) (.fault e f (.checkRead status))
  | quits {e : Fin u × Fin 32} {f : Fin (m + 1)} {pt : Point} (status : Word)
      (ha : a.actor = some (.uproc j)) (hpt : pt = .checkWrite status ∨ pt = .checkRead status)
      (hstatus : status = FLASH_WRITE_ERROR ∨ status = FLASH_READ_ERROR)
      (hmem : t.mem = s.mem) : Shift s a t j (.fault e f pt) .quiet
  | records {e : Fin u × Fin 32} {f : Fin (m + 1)} (ha : a.actor = some (.uproc j))
      (hmem : t.mem = s.mem.setFrame f
        { sw_asid := asidOf j, sw_pageNo := e.2, sw_pte := some e }) :
      Shift s a t j (.fault e f .recordFrame) (.fault e f .mapPage)
  | maps {e : Fin u × Fin 32} {f : Fin (m + 1)} (ha : a.actor = some (.uproc j))
      (hmem : t.mem = (s.mem.setPte e
        ((s.mem.pte e).mapped (cfg.frameAddress f)).pte_entryLO).updateTLB e) :
      Shift s a t j (.fault e f .mapPage) .quiet

/-- The status that is checked next has been checked already, or is that of the drive. -/
theorem Shift.status {w w' : Spot u m} (h : Shift cfg s a t j w w') {v : Word}
    (hv : w'.status? = some v) : w.status? = some v ∨ ∃ d, a = .complete (.flash d) v := by
  cases h with
  | keeps htask hstatus => exact .inl (hstatus v hv)
  | chooses =>
      change Point.status? (ite _ _ _) = some v at hv
      split at hv <;> cases hv
  | saves d n status g ha =>
      obtain rfl := Option.some.inj hv
      exact .inr ⟨d, ha⟩
  | loads status g ha =>
      obtain rfl := Option.some.inj hv
      exact .inr ⟨_, ha⟩
  | stores => cases hv
  | quits => cases hv
  | records => cases hv
  | maps => cases hv

/-- A U-proc that is at a point of a page fault has its support structure. -/
theorem Has.of_point {pt : Point} {v : Swap u} (halive : (t.proc (.uproc j)).phase.Alive)
    (hcode : (t.proc (.uproc j)).code = pt.code cfg j e f v rest)
    (hsup : (t.proc (.uproc j)).p_supportStruct = some e.1) : Has t j e.1 := by
  obtain ⟨i, rest', hcons, hi⟩ := pt.code_cons cfg j e f v rest
  exact ⟨halive, (hcode.trans hcons) ▸ not_leaving_cons hi.sem hi.ne_termProcess, hsup⟩

/-- In a page fault a U-proc does what it has to do. -/
theorem Fault.exec {pt : Point} (h : Fault cfg s j e f pt) (hr : Running s mode) (hf : Frames s)
    (hstep : SupStep cfg s a t) (ha : a.actor = some (.uproc j))
    (hcode : (s.proc (.uproc j)).code = i :: rest) : (s.proc (.uproc j)).phase = .ready ∧ ∃ c,
      SupportLevel.exec cfg c (.uproc j) s.mem (s.proc (.uproc j)) i rest =
        .ok t.mem (t.proc (.uproc j)) := by
  obtain ⟨rest', hcode', -⟩ := h.code
  obtain ⟨i', rest'', hcons, hi⟩ := pt.code_cons cfg j e f (s.mem.swap_pool_table f) rest'
  obtain ⟨rfl, -⟩ := List.cons.inj (hcode.symm.trans (hcode'.trans hcons))
  obtain ⟨hready, c, ⟨hexec, -⟩ | ⟨hexec, -⟩⟩ := hstep.exec ha hcode hi.sem hi.ne_termProcess (by
    rintro n b rfl
    exact hi)
  · exact ⟨hready, c, hexec⟩
  · exact absurd hexec (hf.no_fault hr.owns hready hcode)

/-- The next step of a page fault. -/
theorem Fault.turn {pt : Point} (h : Fault cfg s j e f pt) (hu : u < 64) (hr : Running s mode)
    (hf : Frames s) (hd : Drives s) (hstep : SupStep cfg s a t)
    (htest : (t.proc .test).phase ≠ .dead) (ha : a.actor = some (.uproc j)) :
    ∃ w, At cfg t j w ∧ Shift cfg s a t j (.fault e f pt) w := by
  obtain ⟨rest, hcode, hrest⟩ := h.code
  obtain ⟨i, rest', hcons, hi⟩ := pt.code_cons cfg j e f (s.mem.swap_pool_table f) rest
  obtain ⟨hready, c, hexec⟩ := h.exec hr hf hstep ha (hcode.trans hcons)
  have hne : ∀ d status, a = .complete d status → False := by
    rintro d status rfl
    cases ha
  -- the same frame at a later point, which nobody waits for
  have hnext : ∀ (pt' : Point) {v : Proc u m}, t.proc (.uproc j) = v →
      v.phase = (s.proc (.uproc j)).phase →
      v.p_supportStruct = (s.proc (.uproc j)).p_supportStruct →
      v.code = pt'.code cfg j e f (t.mem.swap_pool_table f) rest →
      (pt'.stage = .chosen ∨ pt'.stage = .unmapped → ¬ t.mem.IsFree f) → pt'.status? = none →
      (∀ d c rest', v.code = .doIo (.flash d) c :: rest' →
        Operation t d (.uproc j) (cfg.frameAddress f)) → Fault cfg t j e f pt' := by
    rintro pt' v rfl hphase hsup hcode' htaken hstatus hop
    refine ⟨⟨rest, hcode', hrest⟩, .of_point ?_ hcode' (hsup.trans h.has.support), htaken, ?_, hop⟩
    · rw [hphase, hready]
      exact .ready
    · intro w hw
      cases hstatus.symm.trans hw
  have hkeeps : ∀ {w : Spot u m}, w.task j = (Spot.fault e f pt).task j → w.status? = none →
      ¬ i.Maps → Shift cfg s a t j (.fault e f pt) w := fun htask hstatus hno ↦ by
    refine .keeps htask (fun v hv ↦ by cases hstatus.symm.trans hv)
      (fun _ i' rest'' hcode' ↦ ?_) fun d status he ↦ (hne _ _ he).elim
    obtain ⟨rfl, -⟩ := List.cons.inj (hcode'.symm.trans (hcode.trans hcons))
    exact hno
  cases pt with
  | storePage =>
      obtain ⟨rfl, rfl⟩ := List.cons.inj hcons
      obtain ⟨e', he'⟩ := hf.sw_pte (h.taken (.inl rfl))
      simp only [SupportLevel.exec, he'] at hexec
      obtain ⟨hmem, hproc⟩ := Outcome.ok.inj hexec
      have hpool : t.mem.swap_pool_table = s.mem.swap_pool_table := by
        obtain ⟨tlb, htlb⟩ := updateTLB_eq
          (s.mem.setPte e' ((s.mem.pte e').pte_entryLO &&& ~~~VALIDON)) e'
        rw [← hmem, htlb]
        rfl
      refine ⟨_, .fault (hnext .writePage hproc.symm rfl rfl rfl (fun _ ↦ ?_) rfl ?_),
        .stores e' ha he' hmem.symm⟩
      · rw [Memory.IsFree, hpool]
        exact h.taken (.inl rfl)
      · rintro d c rest' hdoIo
        cases hdoIo
  | writePage =>
      obtain ⟨rfl, rfl⟩ := List.cons.inj hcons
      obtain ⟨hmem, hproc⟩ := Outcome.ok.inj hexec
      refine ⟨_, .fault (hnext .writeData0 hproc.symm rfl rfl ?_ (fun _ ↦ ?_) rfl ?_),
        hkeeps rfl rfl fun h ↦ h⟩
      · rw [← hmem]
        rfl
      · rw [← hmem]
        exact h.taken (.inr rfl)
      · rintro d c rest' hdoIo
        cases hdoIo
  | writeData0 =>
      have hbegin := Operation.begin hd hr hstep ha hcode
      obtain ⟨rfl, rfl⟩ := List.cons.inj hcons
      obtain ⟨hmem, hproc⟩ := Outcome.ok.inj hexec
      refine ⟨_, .fault (hnext .writeCommand hproc.symm rfl rfl ?_ (fun _ ↦ ?_) rfl ?_),
        hkeeps rfl rfl fun h ↦ h⟩
      · rw [← hmem]
        rfl
      · rw [← hmem]
        exact h.taken (.inr rfl)
      · rintro d c rest' hdoIo
        cases hdoIo
        exact hbegin
  | writeCommand =>
      have hop := (h.operation _ _ _ hcode).step hd hr hstep htest fun status he ↦ hne _ _ he
      obtain ⟨rfl, rfl⟩ := List.cons.inj hcons
      obtain ⟨hmem, hproc⟩ := Outcome.ok.inj hexec
      have hcode' : (t.proc (.uproc j)).code = Point.writeCommand.code cfg j e f
          (t.mem.swap_pool_table f) rest := by
        rw [← hproc, ← hmem]
        exact hcode
      refine ⟨_, .fault ⟨⟨rest, hcode', hrest⟩, .of_point ?_ hcode' ?_, fun _ ↦ ?_, ?_, ?_⟩,
        hkeeps rfl rfl fun h ↦ h⟩
      · rw [← hproc]
        exact .waiting
      · rw [← hproc]
        exact h.has.support
      · rw [← hmem]
        exact h.taken (.inr rfl)
      · intro w hw
        cases hw
      · intro d c rest' hdoIo
        obtain ⟨hi, -⟩ := List.cons.inj (hdoIo.symm.trans hcode')
        rw [← hmem] at hi
        obtain ⟨hd, -⟩ := Instr.doIo.inj hi
        obtain rfl := Dev.flash.inj hd
        exact hop
  | checkWrite status =>
      obtain ⟨rfl, rfl⟩ := List.cons.inj hcons
      simp only [SupportLevel.exec] at hexec
      split at hexec
      · rename_i hbad
        obtain ⟨hmem, hproc⟩ := Outcome.ok.inj hexec
        refine ⟨_, .quiet ?_, .quits status ha (.inl rfl) ?_ hmem.symm⟩
        · rw [← hproc]
          exact .trap
        · rwa [h.status status rfl] at hbad
      · obtain ⟨hmem, hproc⟩ := Outcome.ok.inj hexec
        refine ⟨_, .fault (hnext .loadPage hproc.symm rfl rfl rfl ?_ rfl ?_),
          hkeeps rfl rfl fun h ↦ h⟩
        · rintro (h | h) <;> cases h
        · rintro d c rest' hdoIo
          cases hdoIo
  | loadPage =>
      obtain ⟨rfl, rfl⟩ := List.cons.inj hcons
      obtain ⟨hmem, hproc⟩ := Outcome.ok.inj hexec
      obtain ⟨hasid, hpage⟩ := (hf.tables j e.1 h.has).page hu e.2
      refine ⟨_, .fault (hnext .readData0 hproc.symm rfl rfl ?_ ?_ rfl ?_),
        hkeeps rfl rfl fun h ↦ h⟩
      · change backingStoreOperation FLASHREAD (ENTRYHI_GET_ASID (s.mem.pte (e.1, e.2)).pte_entryHI)
            (getPageIndex (GET_VPN (s.mem.pte (e.1, e.2)).pte_entryHI)) (cfg.frameAddress f) ++
          .recordFrame f (ENTRYHI_GET_ASID (s.mem.pte (e.1, e.2)).pte_entryHI)
              (getPageIndex (GET_VPN (s.mem.pte (e.1, e.2)).pte_entryHI)) e ::
            .mapPage e f :: rest = _
        rw [hasid, hpage]
        rfl
      · rintro (h | h) <;> cases h
      · rintro d c rest' hdoIo
        cases hdoIo
  | readData0 =>
      have hbegin := Operation.begin hd hr hstep ha hcode
      obtain ⟨rfl, rfl⟩ := List.cons.inj hcons
      obtain ⟨hmem, hproc⟩ := Outcome.ok.inj hexec
      refine ⟨_, .fault (hnext .readCommand hproc.symm rfl rfl rfl ?_ rfl ?_),
        hkeeps rfl rfl fun h ↦ h⟩
      · rintro (h | h) <;> cases h
      · rintro d c rest' hdoIo
        cases hdoIo
        exact hbegin
  | readCommand =>
      have hop := (h.operation _ _ _ hcode).step hd hr hstep htest fun status he ↦ hne _ _ he
      obtain ⟨rfl, rfl⟩ := List.cons.inj hcons
      obtain ⟨hmem, hproc⟩ := Outcome.ok.inj hexec
      have hcode' : (t.proc (.uproc j)).code = Point.readCommand.code cfg j e f
          (t.mem.swap_pool_table f) rest := by
        rw [← hproc]
        exact hcode
      refine ⟨_, .fault ⟨⟨rest, hcode', hrest⟩, .of_point ?_ hcode' ?_, ?_, ?_, ?_⟩,
        hkeeps rfl rfl fun h ↦ h⟩
      · rw [← hproc]
        exact .waiting
      · rw [← hproc]
        exact h.has.support
      · rintro (h | h) <;> cases h
      · intro w hw
        cases hw
      · intro d c rest' hdoIo
        obtain ⟨hi, -⟩ := List.cons.inj (hdoIo.symm.trans hcode')
        obtain ⟨hd, -⟩ := Instr.doIo.inj hi
        obtain rfl := Dev.flash.inj hd
        exact hop
  | checkRead status =>
      obtain ⟨rfl, rfl⟩ := List.cons.inj hcons
      simp only [SupportLevel.exec] at hexec
      split at hexec
      · rename_i hbad
        obtain ⟨hmem, hproc⟩ := Outcome.ok.inj hexec
        refine ⟨_, .quiet ?_, .quits status ha (.inr rfl) ?_ hmem.symm⟩
        · rw [← hproc]
          exact .trap
        · rwa [h.status status rfl] at hbad
      · obtain ⟨hmem, hproc⟩ := Outcome.ok.inj hexec
        refine ⟨_, .fault (hnext .recordFrame hproc.symm rfl rfl rfl ?_ rfl ?_),
          hkeeps rfl rfl fun h ↦ h⟩
        · rintro (h | h) <;> cases h
        · rintro d c rest' hdoIo
          cases hdoIo
  | recordFrame =>
      obtain ⟨rfl, rfl⟩ := List.cons.inj hcons
      obtain ⟨hmem, hproc⟩ := Outcome.ok.inj hexec
      refine ⟨_, .fault (hnext .mapPage hproc.symm rfl rfl rfl ?_ rfl ?_),
        .records ha hmem.symm⟩
      · rintro (h | h) <;> cases h
      · rintro d c rest' hdoIo
        cases hdoIo
  | mapPage =>
      obtain ⟨rfl, rfl⟩ := List.cons.inj hcons
      obtain ⟨hmem, hproc⟩ := Outcome.ok.inj hexec
      refine ⟨_, .quiet ?_, .maps ha hmem.symm⟩
      rw [← hproc]
      exact hrest

/-- The parts of the command of a drive. -/
theorem command_parts {n : Nat} (hn : n < 32) {w : Word} (hw : w.toNat < 256) :
    (((BitVec.ofNat 32 n <<< 8) + w) >>> 8).toNat = n ∧
      ((BitVec.ofNat 32 n <<< 8) + w) &&& 0xFF = w := by
  have hsum : ((BitVec.ofNat 32 n <<< 8) + w).toNat = n * 2 ^ 8 + w.toNat := by
    rw [BitVec.toNat_add, BitVec.toNat_shiftLeft, BitVec.toNat_ofNat, Nat.shiftLeft_eq]
    omega
  refine ⟨?_, BitVec.eq_of_toNat_eq ?_⟩
  · rw [BitVec.toNat_ushiftRight, hsum, Nat.shiftRight_eq_div_pow]
    omega
  · rw [BitVec.toNat_and, hsum]
    refine (Nat.and_two_pow_sub_one_eq_mod _ 8).trans ?_
    omega

/-- A drive reads a block. -/
theorem transfer_read {r : Memory u m k} {d : Int} {n : Nat} (hn : n < 32)
    (h : (r.dev (.flash d)).command = (BitVec.ofNat 32 n <<< 8) + FLASHREAD) :
    r.transfer d = r.setRam (r.dev (.flash d)).data0 (r.flash d n) := by
  obtain ⟨hpage, hop⟩ := command_parts hn (w := FLASHREAD) (by decide)
  unfold Memory.transfer
  dsimp only
  rw [h, if_pos hop, hpage]

/-- A drive writes a block. -/
theorem transfer_write {r : Memory u m k} {d : Int} {n : Nat} (hn : n < 32)
    (h : (r.dev (.flash d)).command = (BitVec.ofNat 32 n <<< 8) + FLASHWRITE) :
    r.transfer d = { r with
      flash := Function.update r.flash d
        (Function.update (r.flash d) n (r.ram (r.dev (.flash d)).data0)) } := by
  obtain ⟨hpage, hop⟩ := command_parts hn (w := FLASHWRITE) (by decide)
  have hne : FLASHWRITE ≠ FLASHREAD := by decide
  unfold Memory.transfer
  dsimp only
  rw [h, hop, if_neg hne, if_pos rfl, hpage]

/-- The transfer of a page fault ends. -/
theorem Fault.answered {pt : Point} {d : Int} {c status : Word} (h : Fault cfg s j e f pt)
    (hr : Running s mode) (hf : Frames s) (hd : Drives s)
    (hstep : SupStep cfg s (.complete (.flash d) status) t)
    (hcode : (s.proc (.uproc j)).code = .doIo (.flash d) c :: rest) :
    ∃ w, At cfg t j w ∧ Shift cfg s (.complete (.flash d) status) t j (.fault e f pt) w := by
  have hop := h.operation d c rest hcode
  obtain ⟨rest₁, hcode₁, hproc, g, hmem⟩ := hop.answered hd hr hstep
  obtain ⟨rest₂, hcode₂, hrest⟩ := h.code
  have hpool : t.mem.swap_pool_table = s.mem.swap_pool_table := by
    obtain ⟨ram, flash, he⟩ := completed_eq s.mem status (.flash d)
    rw [hmem, he]
    rfl
  have hcompleted : s.mem.completed status (.flash d) =
      if status = DEV_READY then s.mem.transfer d else s.mem := rfl
  -- the next point, with the status that has been returned
  have hnext : ∀ (pt' : Point),
      (t.proc (.uproc j)).code = pt'.code cfg j e f (t.mem.swap_pool_table f) rest₂ →
      pt'.stage ≠ .chosen → pt'.stage ≠ .unmapped → pt'.status? = some status →
      (∀ d c rest, (t.proc (.uproc j)).code ≠ .doIo (.flash d) c :: rest) →
      Fault cfg t j e f pt' := by
    intro pt' hcode' hchosen hunmapped hstatus hno
    refine ⟨⟨rest₂, hcode', hrest⟩, .of_point ?_ hcode' ?_, ?_, fun w hw ↦ ?_,
      fun d c rest he ↦ absurd he (hno d c rest)⟩
    · rw [hproc]
      exact .ready
    · rw [hproc]
      exact h.has.support
    · rintro (h | h)
      · exact absurd h hchosen
      · exact absurd h hunmapped
    · rw [hproc]
      exact Option.some.inj (hstatus.symm.trans hw)
  have hcons := hcode₁.symm.trans hcode₂
  cases pt with
  | writeCommand =>
      obtain ⟨hi, rfl⟩ := List.cons.inj hcons
      obtain ⟨hd, hcommand⟩ := Instr.doIo.inj hi
      obtain rfl := Dev.flash.inj hd
      have hn : (s.mem.swap_pool_table f).sw_pageNo < 32 := by
        rcases hf.pool f with hfree | ⟨i, b, n, hlisted, -⟩
        · exact absurd (congrArg Swap.sw_asid hfree) (h.taken (.inr rfl))
        · rw [hlisted]
          exact n.isLt
      refine ⟨_, .fault (hnext (.checkWrite status) ?_ ?_ ?_ rfl ?_), .saves _ _ status g rfl
        rfl rfl ?_⟩
      · rw [hproc]
        rfl
      · rintro ⟨⟩
      · rintro ⟨⟩
      · intro d c rest he
        rw [hproc] at he
        cases he
      · rw [hmem, hcompleted, transfer_write hn hcommand, hop.data0]
  | readCommand =>
      obtain ⟨hi, rfl⟩ := List.cons.inj hcons
      obtain ⟨hd, hcommand⟩ := Instr.doIo.inj hi
      obtain rfl := Dev.flash.inj hd
      refine ⟨_, .fault (hnext (.checkRead status) ?_ ?_ ?_ rfl ?_), .loads status g rfl ?_⟩
      · rw [hproc]
        rfl
      · rintro ⟨⟩
      · rintro ⟨⟩
      · intro d c rest he
        rw [hproc] at he
        cases he
      · rw [hmem, hcompleted, transfer_read e.2.isLt hcommand, hop.data0]
  | _ => cases hcons

/-- The others do not change the entry of the frame that a page is brought into. -/
theorem Fault.pool {pt : Point} (h : Fault cfg s j e f pt) (hr : Running s mode)
    (hstep : SupStep cfg s a t) (ha : a.actor ≠ some (.uproc j)) :
    t.mem.swap_pool_table f = s.mem.swap_pool_table f := by
  refine (hstep.frames f).resolve_right ?_
  rintro ⟨p, i, rest, hact, hready, hcode, -, -, -, hi⟩
  have hp : mode .swapPool p = .owner := by
    refine hr.locks.owner_of_frame (by rw [hready]; rintro ⟨⟩) hcode fun μ ↦ ?_
    rcases hi with ⟨_, _, _, rfl, -⟩ | ⟨_, rfl, -⟩ <;> rfl
  obtain rfl := (hr.locks.lock .swapPool (by rintro ⟨⟩)).alone p (.uproc j)
    (by rw [hp]; rintro ⟨⟩) (by rw [h.owner hr.locks]; rintro ⟨⟩)
  exact ha hact

theorem Fault.still {pt : Point} (h : Fault cfg s j e f pt) (hr : Running s mode) (hd : Drives s)
    (hstep : SupStep cfg s a t) (htest : (t.proc .test).phase ≠ .dead)
    (ha : a.actor ≠ some (.uproc j)) (hsame : t.proc (.uproc j) = s.proc (.uproc j)) :
    Fault cfg t j e f pt := by
  have hpool := h.pool hr hstep ha
  obtain ⟨rest, hcode, hrest⟩ := h.code
  refine ⟨⟨rest, ?_, hrest⟩, ⟨?_, ?_, ?_⟩, fun hpt ↦ ?_, fun w hw ↦ ?_, fun d c rest' hdoIo ↦ ?_⟩
  · rw [hsame, hpool]
    exact hcode
  · rw [hsame]
    exact h.has.alive
  · rw [hsame]
    exact h.has.stays
  · rw [hsame]
    exact h.has.support
  · rw [Memory.IsFree, hpool]
    exact h.taken hpt
  · rw [hsame]
    exact h.status w hw
  · rw [hsame] at hdoIo
    refine (h.operation d c rest' hdoIo).step hd hr hstep htest ?_
    rintro status rfl
    -- the drive would have woken it
    obtain ⟨rest'', hcode'', hproc, -⟩ := (h.operation d c rest' hdoIo).answered hd hr hstep
    rw [hsame] at hproc
    have hlength := congrArg (fun v : Proc u m ↦ v.code.length) hproc
    rw [hcode''] at hlength
    exact absurd hlength (Nat.succ_ne_self _)

/-- A U-proc stays where it is. -/
theorem At.keep {w : Spot u m} (h : At cfg s j w)
    (hcode : (t.proc (.uproc j)).code = (s.proc (.uproc j)).code)
    (hhas : ∀ b, Has s j b → Has t j b)
    (hsaved : ∀ b, Has s j b →
      (t.mem.support_arr b).sup_exceptState = (s.mem.support_arr b).sup_exceptState)
    (hmissing : ∀ b, Has s j b → Missing s.mem b → Missing t.mem b)
    (hfault : ∀ e f pt, Fault cfg s j e f pt → Fault cfg t j e f pt) : At cfg t j w := by
  cases h with
  | quiet h => exact .quiet (hcode ▸ h)
  | ending h => exact .ending (hcode ▸ h)
  | raised b rest hcode' hrest hb hm =>
      refine .raised b rest (hcode.trans hcode') hrest (hhas b hb) fun hcause ↦ ?_
      rw [hsaved b hb] at hcause
      exact hmissing b hb (hm hcause)
  | locking b pre rest hcode' hpre hrest hb hm =>
      exact .locking b pre rest (hcode.trans hcode') hpre hrest (hhas b hb) (hmissing b hb hm)
  | fault h => exact .fault (hfault _ _ _ h)

/-! ## The other spots -/

/-- What quiet code does: it stays quiet, or the U-proc comes to its end or to a page fault. -/
theorem Executed.of_quiet {r s' : Memory u m k} {v v' : Proc u m}
    (h : Executed cfg c (.uproc j) r v i rest s' v') (hcode : v.code = i :: rest)
    (hall : Quiet (i :: rest)) (hno : ¬ i.OfTest) : Quiet v'.code ∨
    (i = .terminate ∧ ∃ b, v.p_supportStruct = some b ∧
      v'.code = SupportLevel.terminate (r.support_arr b).sup_asid) ∨
    ∃ (w : Word) (b : Fin u) (e : PteEntry) (n : Nat) (state : State),
      v.p_supportStruct = some b ∧ r.tlbHit (entryHi (w >>> 12) (asidOf j)) = some e ∧
      (n ≠ TLBMOD → ¬ e.Valid) ∧ v' = v.goto (.tlbException :: i :: rest) ∧
      state.entry_hi = entryHi (w >>> 12) (asidOf j) ∧ state.cause = causeOf n ∧
      s' = r.setSupport b fun x ↦ { x with
        sup_exceptState := Function.update x.sup_exceptState PGFAULTEXCEPT state } := by
  have hrest := hall.tail
  have hhead := hall.head
  cases h with
  | expand hcalm hexp hv =>
      rw [hv.2.2]
      by_cases hi : i = .terminate
      · subst hi
        cases hexp with
        | terminate b hb => exact .inr (.inl ⟨rfl, b, hb, rfl⟩)
        | trap hi => rcases hi with h | h | h | ⟨_, h⟩ | ⟨_, _, h⟩ <;> cases h
        | done hi => rcases hi with ⟨_, h⟩ | ⟨_, h⟩ | ⟨h, -⟩ | ⟨_, _, h, -⟩ <;> cases h
      · exact .inl (hexp.quiet hall hi)
  | refill => exact .inl hall
  | pageFault j' w hid hi b hb e hhit n hn hvalid =>
      obtain rfl := Actor.uproc.inj hid
      exact .inr (.inr ⟨w, b, e, n, _, hb, hhit, fun hne ↦ not_not.mpr (hvalid hne), rfl, rfl, rfl,
        rfl⟩)
  | doIo d w =>
      change Quiet v.code ∨ _
      rw [hcode]
      exact .inl hall
  | listDel => exact absurd trivial hno
  | initSupport => exact absurd trivial hno
  | initPageTable => exact absurd trivial hno
  | _ => exact .inl hrest

/-- The page number of an address, and whose it is. -/
theorem entryHi_address (hu : u < 64) {w : Word} {n : Fin 32}
    (h : entryHi (w >>> 12) (asidOf j) = entryHi (pageNumber n) (asidOf b)) :
    w >>> 12 = pageNumber n := by
  obtain ⟨hj₀, hj₁⟩ := asidOf_lt hu j
  obtain ⟨hb₀, hb₁⟩ := asidOf_lt hu b
  have hlt : (w >>> 12).toNat < 2 ^ 20 := by
    rw [BitVec.toNat_ushiftRight, Nat.shiftRight_eq_div_pow]
    omega
  rw [← entryHi_page hlt hj₀ hj₁, h, entryHi_page (pageNumber_lt n) hb₀ hb₁]

/-- What the hardware finds invalid is not mapped. -/
theorem Coherent.missing (h : Coherent s) (hu : u < 64) (hj : Has s j b) {w : Word} {e : PteEntry}
    (he : s.mem.tlbHit (entryHi (w >>> 12) (asidOf j)) = some e) (hinvalid : ¬ e.Valid)
    {n : Fin 32} (hslot : tableSlot (entryHi (w >>> 12) (asidOf j)) = some n) :
    ¬ (s.mem.pte (b, n)).Valid := by
  obtain ⟨hhi, l, hl⟩ := tlbHit_some he
  obtain ⟨i, n', -, hhi'⟩ := h.tagged l e hl
  have hpage := entryHi_address hu (hhi.symm.trans hhi')
  rw [hpage] at hslot he
  obtain rfl := Option.some.inj ((tableSlot_page hu n' j).symm.trans hslot)
  rwa [← h.hit hj he]

/-- The step of a U-proc that is in no page fault. -/
theorem Quiet.turn (hall : Quiet (s.proc (.uproc j)).code) (hu : u < 64) (hr : Running s mode)
    (hc : Coherent s) (ha : a = .run (.uproc j) c) (hready : (s.proc (.uproc j)).phase = .ready)
    (hcode : (s.proc (.uproc j)).code = i :: rest)
    (h : Executed cfg c (.uproc j) s.mem (s.proc (.uproc j)) i rest t.mem (t.proc (.uproc j))) :
    ∃ w, At cfg t j w ∧ Shift cfg s a t j .quiet w := by
  rw [hcode] at hall
  have hkeeps : ∀ {w : Spot u m}, w.task j = none → w.status? = none →
      Shift cfg s a t j .quiet w := fun hw hstatus ↦ by
    refine .keeps hw (fun v hv ↦ by cases hstatus.symm.trans hv)
      (fun _ i' rest' hcode' hmaps ↦ ?_) fun d status he ↦ by cases ha.symm.trans he
    obtain ⟨rfl, -⟩ := List.cons.inj (hcode'.symm.trans hcode)
    exact hall.head (Instr.handling_of_touching hmaps.touching)
  obtain ⟨hsem, hterm⟩ := h.not_sem
  have hown : ∀ {b}, (s.proc (.uproc j)).p_supportStruct = some b → Has s j b ∧ _ := fun hb ↦
    hr.owns.has hready hcode hsem hterm hb
  rcases h.of_quiet hcode hall (hr.shapes.not_test hready hcode) with
    hquiet | ⟨-, b, hb, hend⟩ | ⟨w, b, e, n, state, hb, hhit, hinvalid, hproc, hhi, hn, hmem⟩
  · exact ⟨_, .quiet hquiet, hkeeps rfl rfl⟩
  · rw [(hown hb).2] at hend
    exact ⟨_, .ending (hend ▸ .terminate), hkeeps rfl rfl⟩
  · have hhas := (hown hb).1
    refine ⟨_, .raised b (i :: rest) ?_ hall ⟨?_, ?_, ?_⟩ fun hcause n' hslot ↦ ?_, hkeeps rfl rfl⟩
    · rw [hproc]
      rfl
    · rw [hproc]
      exact hhas.alive
    · rw [hproc]
      exact not_leaving_cons rfl (by rintro ⟨⟩)
    · rw [hproc]
      exact hb
    · have hstate : (t.mem.support_arr b).sup_exceptState PGFAULTEXCEPT = state := by
        rw [hmem, setSupport_self]
        change Function.update (s.mem.support_arr b).sup_exceptState PGFAULTEXCEPT state
          PGFAULTEXCEPT = state
        rw [Function.update_self]
      have hpte : t.mem.pte (b, n') = s.mem.pte (b, n') := by
        rw [hmem]
        exact setSupport_pte s.mem b _ (by exact fun _ ↦ rfl) (b, n')
      rw [hstate, hn] at hcause
      rw [hstate, hhi] at hslot
      rw [hpte]
      refine hc.missing hu hhas hhit (hinvalid ?_) hslot
      rintro rfl
      exact hcause (by decide)

/-- The handler of page faults takes the lock of the swap pool, unless the page is read-only. -/
theorem At.raised_turn (hr : Running s mode) (hf : Frames s)
    (hstep : SupStep cfg s a t) (ha : a.actor = some (.uproc j))
    (hcode : (s.proc (.uproc j)).code = .tlbException :: rest) (hrest : Quiet rest)
    (hhas : Has s j b)
    (hmissing : excCode ((s.mem.support_arr b).sup_exceptState PGFAULTEXCEPT).cause ≠ TLBMOD →
      Missing s.mem b) : ∃ w, At cfg t j w ∧ Shift cfg s a t j .raised w := by
  have hkeeps : ∀ {w : Spot u m}, w.task j = none → w.status? = none →
      Shift cfg s a t j .raised w := fun hw hstatus ↦ by
    refine .keeps hw (fun v hv ↦ by cases hstatus.symm.trans hv)
      (fun _ i' rest' hcode' hmaps ↦ ?_) fun d status he ↦ ?_
    · obtain ⟨rfl, -⟩ := List.cons.inj (hcode'.symm.trans hcode)
      exact hmaps
    · rw [he] at ha
      cases ha
  obtain ⟨hready, c, ⟨hexec, -⟩ | ⟨hexec, -⟩⟩ := hstep.exec ha hcode rfl (by rintro ⟨⟩)
    (by rintro _ _ ⟨⟩)
  swap
  · exact absurd hexec (hf.no_fault hr.owns hready hcode)
  simp only [exec, hhas.support] at hexec
  split at hexec
  · obtain ⟨-, hproc⟩ := Outcome.ok.inj hexec
    refine ⟨_, .quiet ?_, hkeeps rfl rfl⟩
    rw [← hproc]
    exact .trap
  · split at hexec
    · rename_i hcause hinvalid
      obtain ⟨hmem, hproc⟩ := Outcome.ok.inj hexec
      refine ⟨_, .locking b (P .swapPool (asidOf j)) rest ?_ (List.suffix_refl _) hrest
        ⟨?_, ?_, ?_⟩ ?_, hkeeps rfl rfl⟩
      · rw [← hproc, hhas.asid hr.owns]
        rfl
      · rw [← hproc]
        exact hhas.alive
      · rw [← hproc]
        rintro (h | h) <;> cases h
      · rw [← hproc]
        exact hhas.support
      · rw [← hmem]
        exact hmissing hcause
    · cases hexec

/-- How far the P of the swap pool has come. -/
theorem P_suffix {x : SemId} {asid : Int} (h : pre <:+ P x asid) :
    pre = P x asid ∨ pre = [.setUser x asid] ∨ pre = [] := by
  rcases List.suffix_cons_iff.mp h with h | h
  · exact .inl h
  rcases List.suffix_cons_iff.mp h with h | h
  · exact .inr (.inl h)
  · exact .inr (.inr (List.suffix_nil.mp h))

/-- A free frame is taken at once, and the page in another is invalidated first. -/
theorem Fault.begin {v : Proc u m} {n : Fin 32} (hv : t.proc (.uproc j) = v)
    (hhas : v.phase.Alive ∧ v.p_supportStruct = some b) (hrest : Quiet rest)
    (hmem : t.mem = s.mem.getFrame.2)
    (hcode : v.code = (if s.mem.IsFree s.mem.getFrame.1 then []
      else [.storePage s.mem.getFrame.1, .writePageToFlash s.mem.getFrame.1]) ++
      .loadPage (b, n) s.mem.getFrame.1 :: rest) :
    Fault cfg t j (b, n) s.mem.getFrame.1
      (if s.mem.IsFree s.mem.getFrame.1 then .loadPage else .storePage) := by
  subst hv
  by_cases hfree : s.mem.IsFree s.mem.getFrame.1
  · rw [if_pos hfree] at hcode ⊢
    have hcode' : (t.proc (.uproc j)).code = Point.loadPage.code cfg j (b, n) s.mem.getFrame.1
        (t.mem.swap_pool_table s.mem.getFrame.1) rest := hcode
    refine ⟨⟨rest, hcode', hrest⟩, .of_point hhas.1 hcode' hhas.2, ?_, ?_, fun d c rest' he ↦ ?_⟩
    · rintro (h | h) <;> cases h
    · rintro w ⟨⟩
    · cases hcode'.symm.trans he
  · rw [if_neg hfree] at hcode ⊢
    have hcode' : (t.proc (.uproc j)).code = Point.storePage.code cfg j (b, n) s.mem.getFrame.1
        (t.mem.swap_pool_table s.mem.getFrame.1) rest := hcode
    refine ⟨⟨rest, hcode', hrest⟩, .of_point hhas.1 hcode' hhas.2, fun _ ↦ ?_, ?_,
      fun d c rest' he ↦ ?_⟩
    · rw [Memory.IsFree, hmem]
      exact hfree
    · rintro w ⟨⟩
    · cases hcode'.symm.trans he

/-- When the lock has been taken a frame is chosen. -/
theorem At.locking_turn (hr : Running s mode) (hf : Frames s) (hstep : SupStep cfg s a t)
    (ha : a = .run (.uproc j) c) (hready : (s.proc (.uproc j)).phase = .ready)
    (hcode : (s.proc (.uproc j)).code = pre ++ .tlbInvalid :: rest)
    (hpre : pre <:+ P .swapPool (asidOf j)) (hrest : Quiet rest) (hhas : Has s j b)
    (hmissing : Missing s.mem b)
    (hran : ∃ i rest', (s.proc (.uproc j)).code = i :: rest' ∧ i.sem? = none) :
    ∃ w, At cfg t j w ∧ Shift cfg s a t j .locking w := by
  have hact : a.actor = some (.uproc j) := by rw [ha]; rfl
  rcases P_suffix hpre with rfl | rfl | rfl
  · obtain ⟨i, rest', hcode', hsem⟩ := hran
    obtain ⟨rfl, -⟩ := List.cons.inj (hcode.symm.trans hcode')
    cases hsem
  · obtain ⟨-, c', ⟨hexec, -⟩ | ⟨hexec, -⟩⟩ := hstep.exec hact hcode rfl (by rintro ⟨⟩)
      (by rintro _ _ ⟨⟩)
    swap
    · cases hexec
    obtain ⟨hmem, hproc⟩ := Outcome.ok.inj hexec
    refine ⟨_, .locking b [] rest ?_ (List.nil_suffix) hrest ⟨?_, ?_, ?_⟩ ?_,
      .keeps rfl (fun _ hv ↦ hv) (fun _ i' rest' hcode' hmaps ↦ ?_)
        fun d status he ↦ by cases ha.symm.trans he⟩
    · rw [← hproc]
      rfl
    · rw [← hproc]
      exact hhas.alive
    · rw [← hproc]
      exact not_leaving_cons rfl (by rintro ⟨⟩)
    · rw [← hproc]
      exact hhas.support
    · rw [← hmem]
      exact hmissing
    · obtain ⟨rfl, -⟩ := List.cons.inj (hcode'.symm.trans hcode)
      exact hmaps
  · obtain ⟨-, c', ⟨hexec, -⟩ | ⟨hexec, -⟩⟩ := hstep.exec hact hcode rfl (by rintro ⟨⟩)
      (by rintro _ _ ⟨⟩)
    swap
    · exact absurd hexec (hf.no_fault hr.owns hready hcode)
    simp only [exec, hhas.support] at hexec
    split at hexec
    · cases hexec
    · rename_i n hslot
      obtain ⟨hmem, hproc⟩ := Outcome.ok.inj hexec
      have hquiet : Quiet (V .swapPool ++ .ldst PGFAULTEXCEPT :: rest) :=
        .cons (fun h ↦ h) (.cons (fun h ↦ h) (.cons (fun h ↦ h) hrest))
      refine ⟨_, .fault (.begin hproc.symm ⟨hhas.alive, hhas.support⟩ hquiet hmem.symm ?_),
        .chooses b n rest hact hcode hhas (hmissing n hslot) hmem.symm⟩
      change _ ++ _ ++ _ = _
      rw [List.append_assoc]
      rfl

/-! ## A step -/

/-- A U-proc gets past the lock it has been waiting for. -/
theorem At.passed {w : Spot u m} (h : At cfg s j w) (hj : ∀ b, Has s j b → ∀ rest,
      (t.proc (.uproc j)).code = .setUser .swapPool (asidOf j) :: .tlbInvalid :: rest → Has t j b)
    (hcode : (s.proc (.uproc j)).code = i :: rest) (hi : i.sem? = some x)
    (hcode' : (t.proc (.uproc j)).code = rest)
    (hmissing : ∀ b, Has s j b → Missing s.mem b → Missing t.mem b) :
    At cfg t j w ∧ w.task j = none := by
  have hno : ∀ {i' : Instr u m} {rest'}, (s.proc (.uproc j)).code = i' :: rest' →
      i'.sem? ≠ none := by
    rintro i' rest' he hsem
    obtain ⟨rfl, -⟩ := List.cons.inj (hcode.symm.trans he)
    cases hsem.symm.trans hi
  cases h with
  | quiet h =>
      rw [hcode] at h
      exact ⟨.quiet (hcode'.symm ▸ h.tail), rfl⟩
  | ending h =>
      rw [hcode] at h
      exact ⟨.ending (hcode'.symm ▸ h.tail (.inr (by rw [hi]; rintro ⟨⟩))), rfl⟩
  | raised b rest' he => exact absurd rfl (hno he)
  | locking b pre rest' he hpre hrest hb hm =>
      rcases P_suffix hpre with rfl | rfl | rfl
      · obtain ⟨rfl, rfl⟩ := List.cons.inj (hcode.symm.trans he)
        exact ⟨.locking b _ rest' hcode' (List.suffix_cons _ _) hrest (hj b hb rest' hcode')
          (hmissing b hb hm), rfl⟩
      · exact absurd rfl (hno he)
      · exact absurd rfl (hno he)
  | fault h =>
      obtain ⟨rest', he, -⟩ := h.code
      obtain ⟨i', rest'', hcons, hi'⟩ := Point.code_cons cfg j _ _ (s.mem.swap_pool_table _) rest' _
      exact absurd hi'.sem (hno (he.trans hcons))

/-- What the handlers of page faults rely on. -/
structure Paging (s : System u m k) (mode : SemId → Actor u → Mode) : Prop where
  running : Running s mode
  frames : Frames s
  drives : Drives s
  coherent : Coherent s
  waits : Waits s

/-- Nobody is created any more. -/
theorem Waits.not_creates {n b : Fin u} (hw : Waits s) (hs : Shapes s)
    (hready : (s.proc p).phase = .ready) : (s.proc p).code ≠ .createProcess n b :: rest := by
  intro hcode
  cases p with
  | test =>
      rcases hw with hw | ⟨n, hw⟩
      · cases hcode.symm.trans hw
      · rcases awaits_cons (hw.symm.trans hcode) with hi | ⟨hi, -⟩ <;> cases hi
  | uproc j => exact hs.not_test hready hcode trivial

/-- A step takes each U-proc from one spot to another. -/
theorem At.step {w : Spot u m} (h : At cfg s j w) (hp : Paging s mode) (hu : u < 64)
    (hstep : SupStep cfg s a t) (htest : (t.proc .test).phase ≠ .dead) :
    ∃ w', At cfg t j w' ∧ Shift cfg s a t j w w' := by
  obtain ⟨hr, hf, hd, hc, hw⟩ := hp
  -- the state that is saved, and the missing page, as long as the U-proc does not go on
  have hsaved : (a.actor = some (.uproc j) →
      ∃ i rest, (s.proc (.uproc j)).code = i :: rest ∧ i.sem? ≠ none) → ∀ b, Has s j b →
      (t.mem.support_arr b).sup_exceptState = (s.mem.support_arr b).sup_exceptState :=
    fun hown b hb ↦ hstep.saved hr.owns hb hown
  have hmissing : (a.actor = some (.uproc j) →
      ∃ i rest, (s.proc (.uproc j)).code = i :: rest ∧ i.sem? ≠ none) → ∀ b, Has s j b →
      Missing s.mem b → Missing t.mem b := fun hown b hb hm ↦ hm.step hu hr hf hstep hb hown
  have hdone : ∀ {c : Choice k}, a = .run (.uproc j) c →
      ∀ d status, a = .complete (.flash d) status → t.proc (.uproc j) = s.proc (.uproc j) :=
    fun ha d status he ↦ by cases ha.symm.trans he
  -- the code of a page fault
  have hnot : ∀ {e f pt}, Fault cfg s j e f pt → ∀ {i rest}, (s.proc (.uproc j)).code = i :: rest →
      i.OfFault := by
    intro e f pt hfault i rest hcode
    obtain ⟨rest', hcode', -⟩ := hfault.code
    obtain ⟨i', rest'', hcons, hi⟩ := pt.code_cons cfg j e f (s.mem.swap_pool_table f) rest'
    obtain ⟨rfl, -⟩ := List.cons.inj (hcode.symm.trans (hcode'.trans hcons))
    exact hi
  cases hstep.goes hr.placed hr.fresh (.uproc j) with
  | still ha hsame =>
      refine ⟨w, h.keep (by rw [hsame]) (fun b hb ↦ ?_) (hsaved fun he ↦ absurd he ha)
        (hmissing fun he ↦ absurd he ha) fun e f pt hfault ↦
        hfault.still hr hd hstep htest ha hsame,
        .keeps rfl (fun _ hv ↦ hv) (fun he ↦ absurd he ha) fun _ _ _ ↦ hsame⟩
      exact ⟨by rw [hsame]; exact hb.alive, by rw [hsame]; exact hb.stays,
        by rw [hsame]; exact hb.support⟩
  | blocked c i rest y ha hready hcode hi hproc =>
      have hown : a.actor = some (.uproc j) →
          ∃ i rest, (s.proc (.uproc j)).code = i :: rest ∧ i.sem? ≠ none := fun _ ↦
        ⟨i, rest, hcode, by rw [hi]; rintro ⟨⟩⟩
      refine ⟨w, h.keep (by rw [hproc]) (fun b hb ↦ ?_) (hsaved hown) (hmissing hown)
        fun e f pt hfault ↦ ?_,
        .keeps rfl (fun _ hv ↦ hv) (fun _ i' rest' hcode' hmaps ↦ ?_) (hdone ha)⟩
      · exact ⟨by rw [hproc]; exact .asleep, by rw [hproc]; exact hb.stays,
          by rw [hproc]; exact hb.support⟩
      · cases (hnot hfault hcode).sem.symm.trans hi
      · obtain ⟨rfl, -⟩ := List.cons.inj (hcode'.symm.trans hcode)
        cases hmaps.fault.sem.symm.trans hi
  | passed i rest y hphase hcode hi hproc =>
      have hown : a.actor = some (.uproc j) →
          ∃ i rest, (s.proc (.uproc j)).code = i :: rest ∧ i.sem? ≠ none := fun _ ↦
        ⟨i, rest, hcode, by rw [hi]; rintro ⟨⟩⟩
      have hhas : ∀ b, Has s j b → ∀ rest, (t.proc (.uproc j)).code =
          .setUser .swapPool (asidOf j) :: .tlbInvalid :: rest → Has t j b := by
        intro b hb rest' hcode'
        refine ⟨?_, hcode' ▸ not_leaving_cons rfl (by rintro ⟨⟩), ?_⟩
        · rw [hproc]
          exact .ready
        · rw [hproc]
          exact hb.support
      obtain ⟨hat, htask⟩ := h.passed hhas hcode hi (by rw [hproc]) (hmissing hown)
      refine ⟨w, hat, .keeps rfl (fun _ hv ↦ hv) (fun _ i' rest' hcode' hmaps ↦ ?_)
        fun d status he ↦ ?_⟩
      · obtain ⟨rfl, -⟩ := List.cons.inj (hcode'.symm.trans hcode)
        cases hmaps.fault.sem.symm.trans hi
      · subst he
        obtain ⟨q, w, rest', hwaiting, -, -, hne, -⟩ := hstep.answers hr.placed
        refine hne _ ?_
        rintro rfl
        rcases hphase with ⟨-, he⟩ | ⟨hphase, -⟩
        · cases he
        · cases hwaiting.symm.trans hphase
  | ran c i rest ha hready hcode hexec =>
      have hact : a.actor = some (.uproc j) := by rw [ha]; rfl
      cases h with
      | quiet h => exact h.turn hu hr hc ha hready hcode hexec
      | ending h =>
          rw [hcode] at h
          refine ⟨.ending, .ending ?_,
            .keeps rfl (fun _ hv ↦ hv) (fun _ i' rest' hcode' hmaps ↦ ?_) (hdone ha)⟩
          · rcases hexec.ending h with ⟨rfl, b, -, -, hb⟩ | ⟨hi, hrest⟩
            · rw [hb]
              exact .returning b _
            · rw [hrest]
              exact h.tail (.inl hi)
          · obtain ⟨rfl, -⟩ := List.cons.inj (hcode'.symm.trans hcode)
            exact h.not_fault hmaps.fault
      | raised b rest' hcode' hrest hb hm =>
          exact At.raised_turn hr hf hstep hact hcode' hrest hb hm
      | locking b pre rest' hcode' hpre hrest hb hm =>
          exact At.locking_turn hr hf hstep ha hready hcode' hpre hrest hb hm
            ⟨i, rest, hcode, hexec.not_sem.1⟩
      | fault h => exact h.turn hu hr hf hd hstep htest hact
  | left i j' hq hready hcode hcalm hi hproc =>
      have hnil : ∀ {i' rest'}, (s.proc (.uproc j)).code = i' :: rest' → False := fun he ↦ by
        cases hcode.symm.trans he
      refine ⟨.quiet, .quiet ?_, .keeps ?_ (by rintro _ ⟨⟩) (fun _ i' rest' he ↦ (hnil he).elim)
        fun d status he ↦ ?_⟩
      · rw [hproc]
        refine .cons ?_ .nil
        rcases hi with ⟨_, rfl⟩ | ⟨_, _, rfl⟩ | rfl <;> exact fun h ↦ h
      · cases h with
        | fault h =>
            obtain ⟨rest', he, -⟩ := h.code
            obtain ⟨i', rest'', hcons, -⟩ := Point.code_cons cfg j _ _ (s.mem.swap_pool_table _)
              rest' _
            exact (hnil (he.trans hcons)).elim
        | _ => rfl
      · subst he
        obtain ⟨q, w, rest', hwaiting, -, -, hne, -⟩ := hstep.answers hr.placed
        refine hne _ ?_
        rintro rfl
        cases hwaiting.symm.trans hready
  | answered d c rest status ha hwaiting hcode hproc =>
      subst ha
      cases h with
      | quiet h =>
          rw [hcode] at h
          refine ⟨.quiet, .quiet ?_, .keeps rfl (fun _ hv ↦ hv) (fun he ↦ by cases he)
            fun d' status' he ↦ ?_⟩
          · rw [hproc]
            exact h.tail
          · obtain ⟨rfl, -⟩ := Event.complete.inj he
            exact absurd trivial h.head
      | ending h =>
          rw [hcode] at h
          rcases h.head with h | h | h | h
          · exact absurd rfl h
          · cases h
          · cases h
          · cases h
      | raised b rest' hcode' => cases hcode.symm.trans hcode'
      | locking b pre rest' hcode' hpre =>
          rcases P_suffix hpre with rfl | rfl | rfl <;> cases hcode.symm.trans hcode'
      | fault h =>
          have hi := hnot h hcode
          cases d with
          | flash d => exact h.answered hr hf hd hstep hcode
          | _ => exact hi.elim
  | creates n b rest ha hready hcode hproc => exact absurd hcode (hw.not_creates hr.shapes hready)
  | created n b p rest hq ha hready hcode => exact absurd hcode (hw.not_creates hr.shapes hready)
  | killed p i rest ha hready hcode hi hq hproc hall =>
      have hphase : (s.proc (.uproc j)).phase ≠ .dead := by
        cases p with
        | test => exact absurd (hall .test rfl) htest
        | uproc j' =>
            obtain rfl := Actor.uproc.inj (Actor.eq_of_progeny hq)
            rw [hready]
            rintro ⟨⟩
      obtain ⟨hact, -, rest', hcode'⟩ := hf.dies hr.owns hr.placed hr.fresh hstep htest
        (by rw [hproc]) hphase
      refine ⟨.quiet, .quiet ?_, .keeps ?_ (by rintro _ ⟨⟩) (fun _ i' rest'' hcode'' hmaps ↦ ?_)
        fun d status he ↦ ?_⟩
      · rw [hproc]
        exact .nil
      · cases h with
        | fault h => exact absurd rfl (hnot h hcode').ne_termProcess
        | _ => rfl
      · obtain ⟨rfl, -⟩ := List.cons.inj (hcode''.symm.trans hcode')
        exact hmaps
      · rw [he] at hact
        cases hact

end PandosPlus.SupportLevel
