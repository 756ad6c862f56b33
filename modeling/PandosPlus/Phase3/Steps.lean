import PandosPlus.Phase3.Handlers

/-!
# The steps of the support level, case by case

One inversion lemma for a step (`SupStep.moved`) and one for each routine that instructions
share; later modules look at the cases only.  The processes that sleep or wait are where
their phase says (`Placed`), in every reachable state.
-/

namespace PandosPlus.SupportLevel

variable {u m k : Nat} {cfg : PoolConfig m} {s t : System u m k} {p q : Actor u} {x y : SemId}
variable {a : Event u k} {full : Int} {c : Choice k} {d : Dev}

/-! ## Processes and semaphores -/

@[simp] theorem setProc_self (s : System u m k) (p : Actor u) (x : Proc u m) :
    (s.setProc p x).proc p = x := Function.update_self ..

theorem setProc_ne (s : System u m k) {p q : Actor u} (h : q ≠ p) (x : Proc u m) :
    (s.setProc p x).proc q = s.proc q := Function.update_of_ne h ..

@[simp] theorem setProc_sem (s : System u m k) (p : Actor u) (x : Proc u m) :
    (s.setProc p x).sem = s.sem := rfl

@[simp] theorem setProc_mem (s : System u m k) (p : Actor u) (x : Proc u m) :
    (s.setProc p x).mem = s.mem := rfl

@[simp] theorem setSem_self (s : System u m k) (x : SemId) (v : NucSem u) :
    (s.setSem x v).sem x = v := Function.update_self ..

theorem setSem_ne (s : System u m k) {x y : SemId} (h : y ≠ x) (v : NucSem u) :
    (s.setSem x v).sem y = s.sem y := Function.update_of_ne h ..

@[simp] theorem setSem_proc (s : System u m k) (x : SemId) (v : NucSem u) :
    (s.setSem x v).proc = s.proc := rfl

@[simp] theorem setSem_mem (s : System u m k) (x : SemId) (v : NucSem u) :
    (s.setSem x v).mem = s.mem := rfl

@[simp] theorem resume_sem (s : System u m k) (p : Actor u) : (s.resume p).sem = s.sem := rfl

@[simp] theorem resume_mem (s : System u m k) (p : Actor u) : (s.resume p).mem = s.mem := rfl

theorem resume_self (s : System u m k) (p : Actor u) : (s.resume p).proc p =
    { s.proc p with phase := .ready, code := (s.proc p).code.tail } := setProc_self ..

theorem resume_ne (s : System u m k) (h : q ≠ p) : (s.resume p).proc q = s.proc q :=
  setProc_ne s h _

theorem kill_dead (s : System u m k) {dies : Actor u → Bool} (h : dies q = true) :
    (s.kill dies).proc q = { s.proc q with phase := .dead, code := [] } := if_pos h

theorem kill_alive (s : System u m k) {dies : Actor u → Bool} (h : dies q = false) :
    (s.kill dies).proc q = s.proc q := if_neg (by rw [h]; decide)

/-- The ways in which a call of PASSEREN or VERHOGEN ends. -/
inductive SemCalled (s : System u m k) (full : Int) (p : Actor u) (x : SemId) :
    System u m k → Prop
  | block (hval : (s.sem x).val = full) :
      SemCalled s full p x ((s.setProc p { s.proc p with phase := .asleep }).setSem x
        { s.sem x with queue := (s.sem x).queue ++ [p] })
  | wake (q : Actor u) (rest : List (Actor u)) (hval : (s.sem x).val ≠ full)
      (hqueue : (s.sem x).queue = q :: rest) :
      SemCalled s full p x (((s.resume p).resume q).setSem x { s.sem x with queue := rest })
  | change (hval : (s.sem x).val ≠ full) (hqueue : (s.sem x).queue = []) :
      SemCalled s full p x ((s.resume p).setSem x { s.sem x with val := 1 - (s.sem x).val })

theorem semCall_called (s : System u m k) (full : Int) (p : Actor u) (x : SemId) :
    SemCalled s full p x (s.semCall full p x) := by
  unfold System.semCall
  dsimp only
  split
  · exact .block ‹_›
  · split
    · exact .wake _ _ ‹_› ‹_›
    · exact .change ‹_› ‹_›

/-! ## Steps -/

/-- The process `p` and the memory become `v` and `mem`, and nothing else changes. -/
structure Alters (s : System u m k) (p : Actor u) (v : Proc u m) (mem : Memory u m k)
    (t : System u m k) : Prop where
  sem : t.sem = s.sem
  mem : t.mem = mem
  self : t.proc p = v
  ne : ∀ q, q ≠ p → t.proc q = s.proc q

theorem setProc_alters (s : System u m k) (p : Actor u) (v : Proc u m) (mem : Memory u m k) :
    Alters s p v mem { s.setProc p v with mem := mem } :=
  ⟨rfl, rfl, setProc_self s p v, fun _ hq ↦ setProc_ne s hq v⟩

variable (cfg) in
/-- What a step does. -/
inductive Moved (s : System u m k) : Event u k → System u m k → Prop
  | passeren {p : Actor u} {c : Choice k} {x : SemId} {rest : List (Instr u m)}
      {t : System u m k} (hready : (s.proc p).phase = .ready)
      (hcode : (s.proc p).code = .passeren x :: rest) (h : SemCalled s 0 p x t) :
      Moved s (.run p c) t
  | verhogen {p : Actor u} {c : Choice k} {x : SemId} {rest : List (Instr u m)}
      {t : System u m k} (hready : (s.proc p).phase = .ready)
      (hcode : (s.proc p).code = .verhogen x :: rest) (h : SemCalled s 1 p x t) :
      Moved s (.run p c) t
  | terminated {p : Actor u} {c : Choice k} {rest : List (Instr u m)}
      (hready : (s.proc p).phase = .ready) (hcode : (s.proc p).code = .termProcess :: rest) :
      Moved s (.run p c) (s.kill p.progeny)
  | created {p : Actor u} {c : Choice k} {i b : Fin u} {rest : List (Instr u m)}
      (hready : (s.proc p).phase = .ready)
      (hcode : (s.proc p).code = .createProcess i b :: rest) :
      Moved s (.run p c) ((s.setProc p ((s.proc p).goto rest)).setProc (.uproc i)
        { s.proc (.uproc i) with phase := .ready, code := [], p_supportStruct := some b })
  | ran {p : Actor u} {c : Choice k} {i : Instr u m} {rest : List (Instr u m)}
      {mem : Memory u m k} {v : Proc u m} {t : System u m k}
      (hready : (s.proc p).phase = .ready) (hcode : (s.proc p).code = i :: rest)
      (hexec : exec cfg c p s.mem (s.proc p) i rest = .ok mem v) (h : Alters s p v mem t) :
      Moved s (.run p c) t
  | faulted {p : Actor u} {c : Choice k} {i : Instr u m} {rest : List (Instr u m)}
      (hready : (s.proc p).phase = .ready) (hcode : (s.proc p).code = i :: rest)
      (hexec : exec cfg c p s.mem (s.proc p) i rest = .fault) :
      Moved s (.run p c) (s.kill p.progeny)
  | left {i : Fin u} {op : UserOp} {mem : Memory u m k} {v : Proc u m} {t : System u m k}
      (hready : (s.proc (.uproc i)).phase = .ready) (hcode : (s.proc (.uproc i)).code = [])
      (hop : userOp s.mem (s.proc (.uproc i)) op = .ok mem v)
      (h : Alters s (.uproc i) v mem t) : Moved s (.user i op) t
  | completed {d : Dev} {status : Word} {p : Actor u} {rest : List (Actor u)} {t : System u m k}
      (hwaiting : (s.mem.dev d).waiting = p :: rest)
      (h : Alters s p { s.proc p with
          phase := .ready, code := (s.proc p).code.tail, status := status }
        ((s.mem.completed status d).setDev d fun r ↦ { r with waiting := rest }) t) :
      Moved s (.complete d status) t

theorem run_moved (h : run cfg s p c = some t) : Moved cfg s (.run p c) t := by
  unfold run at h
  split at h
  · split at h
    · cases h
    · cases h
      exact .passeren ‹_› ‹_› (semCall_called ..)
    · cases h
      exact .verhogen ‹_› ‹_› (semCall_called ..)
    · cases h
      exact .terminated ‹_› ‹_›
    · cases h
      exact .created ‹_› ‹_›
    · split at h <;> cases h
      · exact .ran ‹_› ‹_› ‹_› (setProc_alters ..)
      · exact .faulted ‹_› ‹_› ‹_›
  · cases h

theorem SupStep.moved (h : SupStep cfg s a t) : Moved cfg s a t := by
  cases a with
  | run p c => exact run_moved h
  | user i op =>
      change user s i op = some t at h
      unfold user at h
      dsimp only at h
      split at h
      · rename_i hready
        split at h <;> cases h
        exact .left hready.1 hready.2 ‹_› (setProc_alters ..)
      · cases h
  | complete d status =>
      change complete s d status = some t at h
      unfold complete at h
      split at h <;> cases h
      exact .completed ‹_› (setProc_alters ..)

/-! ## Instructions -/

section Instructions

variable {id : Actor u} {r : Memory u m k} {v : Proc u m}

/-- Only saved states and counters differ. -/
structure Calm (r r' : Memory u m k) : Prop where
  next : r'.next = r.next
  prev : r'.prev = r.prev
  user_asid : r'.user_asid = r.user_asid
  swap_pool_table : r'.swap_pool_table = r.swap_pool_table
  tlb : r'.tlb = r.tlb
  ram : r'.ram = r.ram
  flash : r'.flash = r.flash
  dev : r'.dev = r.dev
  sup_asid : ∀ b, (r'.support_arr b).sup_asid = (r.support_arr b).sup_asid
  pgTbl : ∀ b, (r'.support_arr b).sup_privatePgTbl = (r.support_arr b).sup_privatePgTbl

theorem Calm.refl (r : Memory u m k) : Calm r r :=
  ⟨rfl, rfl, rfl, rfl, rfl, rfl, rfl, rfl, fun _ ↦ rfl, fun _ ↦ rfl⟩

/-- The code of a system call that has been passed up. -/
inductive CallCode (asid : Int) : List (Instr u m) → Prop
  | getTOD : CallCode asid [.ldst GENERALEXCEPT]
  | terminate : CallCode asid [.terminate]
  | writePort (port : Port) (string : Word) (length : Int) :
      CallCode asid (writePort port asid string length)
  | readTerminal (buffer : Word) : CallCode asid (readTerminal asid buffer)
  | trap : CallCode asid trapExceptionHandler

variable (cfg r v) in
/-- What replaces an instruction that writes no shared data, with what it depends on. -/
inductive Expands : Instr u m → List (Instr u m) → List (Instr u m) → Prop
  | call {rest code} (b : Fin u) (hsupport : v.p_supportStruct = some b)
      (h : CallCode (r.support_arr b).sup_asid code) : Expands .generalException rest code
  | trap {i rest} (hi : i = .generalException ∨ i = .tlbException ∨ i = .checkStatus ∨
      (∃ a, i = .load a) ∨ ∃ a w, i = .store a w) : Expands i rest trapExceptionHandler
  | held {rest} (x : SemId) (b : Fin u) (hsupport : v.p_supportStruct = some b)
      (huser : r.user_asid x = (r.support_arr b).sup_asid) : Expands (.release x) rest (V x ++ rest)
  | notHeld {rest} (x : SemId) (b : Fin u) (hsupport : v.p_supportStruct = some b)
      (huser : r.user_asid x ≠ (r.support_arr b).sup_asid) : Expands (.release x) rest rest
  | terminate {rest} (b : Fin u) (hsupport : v.p_supportStruct = some b) :
      Expands .terminate rest (SupportLevel.terminate (r.support_arr b).sup_asid)
  | written {rest} (port : Port) (asid : Int) (string : Word) (sent : Int) :
      Expands (.writeChars port asid string 0 sent) rest
        (V (port.sem asid) ++ .sysReturn (BitVec.ofInt 32 sent) :: rest)
  | write {rest} (port : Port) (asid : Int) (string : Word) (left : Nat) (sent : Int) :
      Expands (.writeChars port asid string (left + 1) sent) rest
        (.load string :: .sendChar port asid :: .checkSent port asid string left sent :: rest)
  | print {rest} (asid : Int) (w : Word) : Expands (.sendChar .printer asid) rest
      (.setData0 (.printer (DEVICE_OF asid)) w ::
        .doIo (.printer (DEVICE_OF asid)) PRINTERWRITE :: rest)
  | transmit {rest} (asid : Int) (w : Word) : Expands (.sendChar .terminal asid) rest
      (.doIo (.transm (DEVICE_OF asid)) w :: rest)
  | writeFailed {rest} (port : Port) (asid : Int) (string : Word) (left : Nat) (sent : Int) (w : Word) :
      Expands (.checkSent port asid string left sent) rest
        (.sysReturn w :: V (port.sem asid) ++ .sysReturn (BitVec.ofInt 32 sent) :: rest)
  | sent {rest} (port : Port) (asid : Int) (string : Word) (left : Nat) (sent : Int) :
      Expands (.checkSent port asid string left sent) rest
        (.writeChars port asid (string + 1) left (sent + 1) :: rest)
  | receive {rest} (asid : Int) (buffer : Word) (received : Int) :
      Expands (.readChar asid buffer received) rest
        (.doIo (.recv (DEVICE_OF asid)) TERMINALREAD :: .checkRead asid buffer received :: rest)
  | readFailed {rest} (asid : Int) (buffer : Word) (received : Int) (w : Word) :
      Expands (.checkRead asid buffer received) rest
        (.sysReturn w :: V (.terminal (DEVICE_OF asid)) ++
          .sysReturn (BitVec.ofInt 32 received) :: rest)
  | received {rest} (asid : Int) (buffer : Word) (received : Int) (read : BitVec 8) :
      Expands (.checkRead asid buffer received) rest
        (.store (buffer + BitVec.ofInt 32 received) read ::
          .nextRead asid buffer (received + 1) read :: rest)
  | newline {rest} (asid : Int) (buffer : Word) (received : Int) (read : BitVec 8) :
      Expands (.nextRead asid buffer received read) rest
        (V (.terminal (DEVICE_OF asid)) ++ .sysReturn (BitVec.ofInt 32 received) :: rest)
  | readOn {rest} (asid : Int) (buffer : Word) (received : Int) (read : BitVec 8) :
      Expands (.nextRead asid buffer received read) rest (.readChar asid buffer received :: rest)
  | done {i rest} (hi : (∃ w, i = .sysReturn w) ∨ (∃ j, i = .ldst j) ∨
      i = .checkStatus ∧ v.status ≠ FLASH_WRITE_ERROR ∧ v.status ≠ FLASH_READ_ERROR ∨
      ∃ asid f, i = .freeFrame asid f ∧ (r.swap_pool_table f).sw_asid ≠ asid) : Expands i rest rest
  | invalid {rest} (b : Fin u) (hsupport : v.p_supportStruct = some b)
      (hcause : excCode ((r.support_arr b).sup_exceptState PGFAULTEXCEPT).cause ≠ TLBMOD) :
      Expands .tlbException rest (TLBInvalidHandler (r.support_arr b).sup_asid ++ rest)
  | frame {rest} (b : Fin u) (hsupport : v.p_supportStruct = some b) (page_index : Fin 32)
      (hslot : tableSlot ((r.support_arr b).sup_exceptState PGFAULTEXCEPT).entry_hi =
        some page_index) :
      Expands .tlbInvalid rest
        ((if r.IsFree r.getFrame.1 then [] else
          [.storePage r.getFrame.1, .writePageToFlash r.getFrame.1]) ++
          .loadPage (b, page_index) r.getFrame.1 :: V .swapPool ++ .ldst PGFAULTEXCEPT :: rest)
  | writePage {rest} (f : Fin (m + 1)) : Expands (.writePageToFlash f) rest
      (backingStoreOperation FLASHWRITE (r.swap_pool_table f).sw_asid
        (r.swap_pool_table f).sw_pageNo (cfg.frameAddress f) ++ rest)
  | readPage {rest} (e : Fin u × Fin 32) (f : Fin (m + 1)) : Expands (.loadPage e f) rest
      (backingStoreOperation FLASHREAD (ENTRYHI_GET_ASID (r.pte e).pte_entryHI)
          (getPageIndex (GET_VPN (r.pte e).pte_entryHI)) (cfg.frameAddress f) ++
        .recordFrame f (ENTRYHI_GET_ASID (r.pte e).pte_entryHI)
          (getPageIndex (GET_VPN (r.pte e).pte_entryHI)) e :: .mapPage e f :: rest)
  | deallocate {rest} (b : Fin u) (hsupport : v.p_supportStruct = some b) :
      Expands .deallocate rest (.listAdd b (r.next none) :: rest)
  | allocate {rest} (j b : Fin u) (hhead : r.next none = some b) :
      Expands (.allocate j) rest (.listDel j b :: rest)

variable (cfg c id r v) in
/-- What an instruction does. -/
inductive Executed : Instr u m → List (Instr u m) → Memory u m k → Proc u m → Prop
  | expand {i rest s' code v'} (hcalm : Calm r s') (hcode : Expands cfg r v i rest code)
      (hv : v'.phase = v.phase ∧ v'.p_supportStruct = v.p_supportStruct ∧ v'.code = code) :
      Executed i rest s' v'
  | setUser {rest} (x : SemId) (asid : Int) : Executed (.setUser x asid) rest
      { r with user_asid := Function.update r.user_asid x asid } (v.goto rest)
  | refill {i rest} (j : Fin u) (b : Word) (hid : id = .uproc j)
      (hi : i = .load b ∨ ∃ w, i = .store b w) (a : Fin u) (page_index : Fin 32)
      (hsupport : v.p_supportStruct = some a)
      (hslot : tableSlot (entryHi (b >>> 12) (asidOf j)) = some page_index)
      (hmiss : r.tlbHit (entryHi (b >>> 12) (asidOf j)) = none) :
      Executed i rest (r.tlbWrite c.slot (r.pte (a, page_index))) (v.goto (i :: rest))
  | pageFault {i rest} (j : Fin u) (b : Word) (hid : id = .uproc j)
      (hi : i = .load b ∨ ∃ w, i = .store b w) (a : Fin u) (hsupport : v.p_supportStruct = some a)
      (e : PteEntry) (hhit : r.tlbHit (entryHi (b >>> 12) (asidOf j)) = some e) (code : Nat)
      (hcode : code = TLBINVLDL ∨ code = TLBINVLDS ∨ code = TLBMOD)
      (hvalid : code ≠ TLBMOD → e.pte_entryLO &&& VALIDON = 0) :
      Executed i rest (r.setSupport a fun x ↦ { x with
          sup_exceptState := Function.update x.sup_exceptState PGFAULTEXCEPT
            { State.zero with entry_hi := entryHi (b >>> 12) (asidOf j), cause := causeOf code } })
        (v.goto (.tlbException :: i :: rest))
  | loaded {rest} (j : Fin u) (b : Word) (hid : id = .uproc j) (e : PteEntry)
      (hhit : r.tlbHit (entryHi (b >>> 12) (asidOf j)) = some e)
      (hvalid : e.pte_entryLO &&& VALIDON ≠ 0) : Executed (.load b) rest r
        { v with char := r.ram (e.pte_entryLO &&& ENTRYLO_PFN_MASK) (pageOffset b), code := rest }
  | stored {rest} (j : Fin u) (b : Word) (w : BitVec 8) (hid : id = .uproc j) (e : PteEntry)
      (hhit : r.tlbHit (entryHi (b >>> 12) (asidOf j)) = some e)
      (hvalid : e.pte_entryLO &&& VALIDON ≠ 0) (hdirty : e.pte_entryLO &&& ENTRYLO_DIRTY ≠ 0) :
      Executed (.store b w) rest (r.setRam (e.pte_entryLO &&& ENTRYLO_PFN_MASK)
        (Function.update (r.ram (e.pte_entryLO &&& ENTRYLO_PFN_MASK)) (pageOffset b) w))
        (v.goto rest)
  | storePage {rest} (f : Fin (m + 1)) (e : Fin u × Fin 32)
      (hpte : (r.swap_pool_table f).sw_pte = some e) : Executed (.storePage f) rest
        ((r.setPte e ((r.pte e).pte_entryLO &&& ~~~VALIDON)).updateTLB e) (v.goto rest)
  | mapPage {rest} (e : Fin u × Fin 32) (f : Fin (m + 1)) : Executed (.mapPage e f) rest
      ((r.setPte e (((r.pte e).pte_entryLO &&& ~~~ENTRYLO_PFN_MASK) ||| cfg.frameAddress f |||
        VALIDON)).updateTLB e) (v.goto rest)
  | recordFrame {rest} (f : Fin (m + 1)) (asid : Int) (page_num : Nat) (e : Fin u × Fin 32) :
      Executed (.recordFrame f asid page_num e) rest
        (r.setFrame f { sw_asid := asid, sw_pageNo := page_num, sw_pte := some e }) (v.goto rest)
  | freeFrame {rest} (asid : Int) (f : Fin (m + 1)) (hasid : (r.swap_pool_table f).sw_asid = asid) :
      Executed (.freeFrame asid f) rest (r.setFrame f .free) (v.goto rest)
  | setData0 {rest} (d : Dev) (w : Word) : Executed (.setData0 d w) rest
      (r.setDev d fun x ↦ { x with data0 := w }) (v.goto rest)
  | doIo {rest} (d : Dev) (w : Word) : Executed (.doIo d w) rest
      (r.setDev d fun x ↦ { x with command := w, waiting := x.waiting ++ [id] })
      { v with phase := .waiting }
  | listAdd {rest} (b : Fin u) (next : Option (Fin u)) :
      Executed (.listAdd b next) rest (r.listAdd b next) (v.goto rest)
  | listDel {rest} (j b : Fin u) :
      Executed (.listDel j b) rest r.listDel (v.goto (.initSupport j b :: rest))
  | initSupport {rest} (j b : Fin u) : Executed (.initSupport j b) rest
      { r.setSupport b fun x ↦ { x with sup_asid := asidOf j } with curr_offset := r.curr_offset + 2 }
      (v.goto (backingStoreOperation FLASHREAD (asidOf j) 0 (cfg.tmpFrame r.curr_offset) ++
        .initPageTable j b (cfg.tmpFrame r.curr_offset) :: rest))
  | initPageTable {rest} (j b : Fin u) (w : Word) : Executed (.initPageTable j b w) rest
      (r.setSupport b fun x ↦
        { x with sup_privatePgTbl := initPageTable (asidOf j) (r.ram w) })
      (v.goto (.createProcess j b :: rest))

variable {s' : Memory u m k} {v' : Proc u m} {i : Instr u m} {rest : List (Instr u m)}

theorem setSupport_self (r : Memory u m k) (b : Fin u) (f : SupportStruct → SupportStruct) :
    (r.setSupport b f).support_arr b = f (r.support_arr b) := Function.update_self ..

theorem setSupport_ne (r : Memory u m k) {b b' : Fin u} (h : b' ≠ b)
    (f : SupportStruct → SupportStruct) :
    (r.setSupport b f).support_arr b' = r.support_arr b' := Function.update_of_ne h ..

theorem setDev_self (r : Memory u m k) (d : Dev) (f : DevReg u → DevReg u) :
    (r.setDev d f).dev d = f (r.dev d) := Function.update_self ..

theorem setDev_ne (r : Memory u m k) {d e : Dev} (h : e ≠ d) (f : DevReg u → DevReg u) :
    (r.setDev d f).dev e = r.dev e := Function.update_of_ne h ..

/-- What `f` leaves alone is left alone everywhere. -/
theorem setSupport_field {α : Type} (g : SupportStruct → α) {f : SupportStruct → SupportStruct}
    (r : Memory u m k) (b : Fin u) (hg : ∀ x, g (f x) = g x) (b' : Fin u) :
    g ((r.setSupport b f).support_arr b') = g (r.support_arr b') := by
  by_cases hb : b' = b
  · rw [hb, setSupport_self, hg]
  · rw [setSupport_ne r hb]

/-- A state is saved. -/
theorem Calm.save (r : Memory u m k) (b : Fin u) {f : SupportStruct → SupportStruct}
    (hasid : ∀ x, (f x).sup_asid = x.sup_asid)
    (htable : ∀ x, (f x).sup_privatePgTbl = x.sup_privatePgTbl) : Calm r (r.setSupport b f) :=
  ⟨rfl, rfl, rfl, rfl, rfl, rfl, rfl, rfl, setSupport_field _ r b hasid,
    setSupport_field _ r b htable⟩

theorem systemcallHandler_ok {b : Fin u} (h : systemcallHandler r v c b = .ok s' v') :
    Calm r s' ∧ ∃ code, v' = v.goto code ∧ CallCode (r.support_arr b).sup_asid code := by
  unfold systemcallHandler at h
  dsimp only at h
  split at h
  · cases h
    exact ⟨.save r b (fun _ ↦ rfl) fun _ ↦ rfl, _, rfl, .getTOD⟩
  split at h
  · cases h
    exact ⟨.save r b (fun _ ↦ rfl) fun _ ↦ rfl, _, rfl, .terminate⟩
  split at h
  · cases h
    exact ⟨.save r b (fun _ ↦ rfl) fun _ ↦ rfl, _, rfl, .writePort ..⟩
  split at h
  · cases h
    exact ⟨.save r b (fun _ ↦ rfl) fun _ ↦ rfl, _, rfl, .writePort ..⟩
  split at h
  · cases h
    exact ⟨.save r b (fun _ ↦ rfl) fun _ ↦ rfl, _, rfl, .readTerminal ..⟩
  · cases h
    exact ⟨.save r b (fun _ ↦ rfl) fun _ ↦ rfl, _, rfl, .trap⟩

theorem passUp_ok {j : Fin 2} {state : State} {handler : List (Instr u m)}
    (h : passUp r v j state handler = .ok s' v') :
    ∃ b, v.p_supportStruct = some b ∧ v' = v.goto handler ∧ s' = r.setSupport b fun x ↦
      { x with sup_exceptState := Function.update x.sup_exceptState j state } := by
  unfold passUp at h
  split at h <;> cases h
  exact ⟨_, ‹_›, rfl, rfl⟩

/-- The ways in which an access can end. -/
theorem access_ok {j : Fin u} {b : Word} {writes : Bool} {go : Word → Outcome u m k}
    (hi : i = .load b ∨ ∃ w, i = .store b w) (hid : id = .uproc j)
    (hgo : ∀ e, r.tlbHit (entryHi (b >>> 12) (asidOf j)) = some e → e.pte_entryLO &&& VALIDON ≠ 0 →
      (writes = true → e.pte_entryLO &&& ENTRYLO_DIRTY ≠ 0) →
      go (e.pte_entryLO &&& ENTRYLO_PFN_MASK) = .ok s' v' → Executed cfg c id r v i rest s' v')
    (hcode : v.code = i :: rest)
    (h : access r v c (asidOf j) b writes i rest go = .ok s' v') :
    Executed cfg c id r v i rest s' v' := by
  unfold access at h
  dsimp only at h
  split at h
  · split at h <;> cases h
    have hsame : v = v.goto (i :: rest) := by rw [← hcode]; rfl
    nth_rewrite 2 [hsame]
    exact .refill j b hid hi _ _ ‹_› ‹_› ‹_›
  · rename_i e hhit
    split at h
    · rename_i hinvalid
      obtain ⟨a, ha, rfl, rfl⟩ := passUp_ok h
      refine .pageFault j b hid hi a ha e hhit _ ?_ fun _ ↦ hinvalid
      cases writes
      · exact .inl rfl
      · exact .inr (.inl rfl)
    · split at h
      · obtain ⟨a, ha, rfl, rfl⟩ := passUp_ok h
        exact .pageFault j b hid hi a ha e hhit _ (.inr (.inr rfl)) fun hne ↦ absurd rfl hne
      · rename_i hvalid hdirty
        exact hgo e hhit hvalid (fun hw hd ↦ hdirty ⟨hw, hd⟩) h

theorem exec_executed (hcode : v.code = i :: rest) (h : exec cfg c id r v i rest = .ok s' v') :
    Executed cfg c id r v i rest s' v' := by
  have hbus : ∀ {i : Instr u m}, (∃ a, i = .load a) ∨ (∃ a w, i = .store a w) →
      passUp r v GENERALEXCEPT { State.zero with cause := causeOf 7 } trapExceptionHandler =
        .ok s' v' → Executed cfg c id r v i rest s' v' := by
    intro i hi h
    obtain ⟨a, -, rfl, rfl⟩ := passUp_ok h
    exact .expand (.save r a (fun _ ↦ rfl) fun _ ↦ rfl) (.trap (.inr (.inr (.inr hi))))
      ⟨rfl, rfl, rfl⟩
  -- an instruction that writes no shared data
  have hcalm : ∀ {i code}, Expands cfg r v i rest code → Outcome.ok r (v.goto code) = .ok s' v' →
      Executed cfg c id r v i rest s' v' := by
    intro i code hi h
    cases h
    exact .expand (.refl r) hi ⟨rfl, rfl, rfl⟩
  cases i with
  | passeren x => cases h
  | setUser x asid =>
      cases h
      exact .setUser x asid
  | verhogen x => cases h
  | generalException =>
      simp only [exec] at h
      split at h
      · cases h
      · split at h
        · obtain ⟨hsave, code, rfl, hcall⟩ := systemcallHandler_ok h
          exact .expand hsave (.call _ ‹_› hcall) ⟨rfl, rfl, rfl⟩
        · exact hcalm (.trap (.inl rfl)) h
  | release x =>
      simp only [exec] at h
      split at h
      · cases h
      · split at h
        · exact hcalm (.held x _ ‹_› ‹_›) h
        · exact hcalm (.notHeld x _ ‹_› ‹_›) h
  | terminate =>
      simp only [exec] at h
      split at h
      · cases h
      · exact hcalm (.terminate _ ‹_›) h
  | writeChars port asid string left sent =>
      cases left with
      | zero => exact hcalm (.written ..) h
      | succ left => exact hcalm (.write ..) h
  | sendChar port asid =>
      cases port with
      | printer => exact hcalm (.print ..) h
      | terminal => exact hcalm (.transmit ..) h
  | checkSent port asid string left sent =>
      simp only [exec] at h
      split at h
      · exact hcalm (.writeFailed ..) h
      · exact hcalm (.sent ..) h
  | readChar asid buffer received => exact hcalm (.receive ..) h
  | checkRead asid buffer received =>
      simp only [exec] at h
      split at h
      · exact hcalm (.readFailed ..) h
      · exact hcalm (.received ..) h
  | nextRead asid buffer received read =>
      simp only [exec] at h
      split at h
      · exact hcalm (.newline ..) h
      · exact hcalm (.readOn ..) h
  | sysReturn w =>
      simp only [exec] at h
      split at h <;> cases h
      exact .expand (.save r _ (fun _ ↦ rfl) fun _ ↦ rfl) (.done (.inl ⟨w, rfl⟩)) ⟨rfl, rfl, rfl⟩
  | ldst j => exact hcalm (.done (.inr (.inl ⟨j, rfl⟩))) h
  | load a =>
      simp only [exec] at h
      split at h
      · rename_i j page _
        refine access_ok (.inl rfl) rfl (fun e hhit hvalid _ hgo ↦ ?_) hcode h
        cases hgo
        exact .loaded j a rfl e hhit hvalid
      · exact hbus (.inl ⟨a, rfl⟩) h
  | store a w =>
      simp only [exec] at h
      split at h
      · rename_i j page _
        refine access_ok (.inr ⟨w, rfl⟩) rfl (fun e hhit hvalid hdirty hgo ↦ ?_) hcode h
        cases hgo
        exact .stored j a w rfl e hhit hvalid (hdirty rfl)
      · exact hbus (.inr ⟨a, w, rfl⟩) h
  | tlbException =>
      simp only [exec] at h
      split at h
      · cases h
      · split at h
        · exact hcalm (.trap (.inr (.inl rfl))) h
        · split at h
          · exact hcalm (.invalid _ ‹_› ‹_›) h
          · cases h
  | tlbInvalid =>
      simp only [exec] at h
      split at h
      · cases h
      · split at h
        · cases h
        · cases h
          exact .expand ⟨rfl, rfl, rfl, rfl, rfl, rfl, rfl, rfl, fun _ ↦ rfl, fun _ ↦ rfl⟩
            (.frame _ ‹_› _ ‹_›) ⟨rfl, rfl, rfl⟩
  | storePage f =>
      simp only [exec] at h
      split at h <;> cases h
      exact .storePage f _ ‹_›
  | writePageToFlash f => exact hcalm (.writePage f) h
  | loadPage e f => exact hcalm (.readPage e f) h
  | recordFrame f asid page_num e =>
      cases h
      exact .recordFrame f asid page_num e
  | mapPage e f =>
      cases h
      exact .mapPage e f
  | setData0 d w =>
      cases h
      exact .setData0 d w
  | doIo d w =>
      cases h
      exact .doIo d w
  | checkStatus =>
      simp only [exec] at h
      split at h
      · exact hcalm (.trap (.inr (.inr (.inl rfl)))) h
      · rename_i hok
        exact hcalm (.done (.inr (.inr (.inl ⟨rfl, not_or.mp hok⟩)))) h
  | freeFrame asid f =>
      simp only [exec] at h
      split at h
      · cases h
        exact .freeFrame asid f ‹_›
      · exact hcalm (.done (.inr (.inr (.inr ⟨asid, f, rfl, ‹_›⟩)))) h
  | deallocate =>
      simp only [exec] at h
      split at h
      · cases h
      · exact hcalm (.deallocate _ ‹_›) h
  | listAdd b next =>
      cases h
      exact .listAdd b next
  | termProcess => cases h
  | allocate j =>
      simp only [exec] at h
      split at h
      · cases h
      · exact hcalm (.allocate j _ ‹_›) h
  | listDel j b =>
      cases h
      exact .listDel j b
  | initSupport j b =>
      cases h
      exact .initSupport j b
  | initPageTable j b w =>
      cases h
      exact .initPageTable j b w
  | createProcess j b => cases h

/-- `_updateTLB` changes the TLB only. -/
theorem updateTLB_eq (r : Memory u m k) (e : Fin u × Fin 32) :
    ∃ tlb, r.updateTLB e = { r with tlb := tlb } := by
  unfold Memory.updateTLB
  split
  · exact ⟨_, rfl⟩
  · exact ⟨r.tlb, rfl⟩

/-- An instruction leaves the queues of the devices alone, unless it is a DOIO. -/
theorem Executed.waiting (h : Executed cfg c id r v i rest s' v') :
    (∃ d w, i = .doIo d w ∧
      s' = r.setDev d (fun x ↦ { x with command := w, waiting := x.waiting ++ [id] }) ∧
      v' = { v with phase := .waiting }) ∨
    v'.phase = v.phase ∧ ∀ d, (s'.dev d).waiting = (r.dev d).waiting := by
  have htlb : ∀ (r : Memory u m k) e, (r.updateTLB e).dev = r.dev := fun r e ↦ by
    obtain ⟨tlb, he⟩ := updateTLB_eq r e
    rw [he]
  cases h with
  | expand hcalm hcode hv => exact .inr ⟨hv.1, fun d ↦ by rw [hcalm.dev]⟩
  | storePage f e hpte => exact .inr ⟨rfl, fun d ↦ by rw [htlb]; rfl⟩
  | mapPage e f => exact .inr ⟨rfl, fun d ↦ by rw [htlb]; rfl⟩
  | setData0 d w =>
      refine .inr ⟨rfl, fun e ↦ ?_⟩
      by_cases he : e = d
      · rw [he, setDev_self]
      · rw [setDev_ne r he]
  | doIo d w => exact .inl ⟨d, w, rfl, rfl, rfl⟩
  | _ => exact .inr ⟨rfl, fun _ ↦ rfl⟩

/-- A device that completes changes frames and blocks only. -/
theorem completed_eq (r : Memory u m k) (status : Word) (d : Dev) :
    ∃ ram flash, r.completed status d = { r with ram := ram, flash := flash } := by
  unfold Memory.completed
  split
  · split
    · unfold Memory.transfer
      dsimp only
      split
      · exact ⟨_, _, rfl⟩
      · split
        · exact ⟨_, _, rfl⟩
        · exact ⟨_, _, rfl⟩
    · exact ⟨_, _, rfl⟩
  · exact ⟨_, _, rfl⟩

@[simp] theorem completed_dev (r : Memory u m k) (status : Word) (d : Dev) :
    (r.completed status d).dev = r.dev := by
  obtain ⟨ram, flash, h⟩ := completed_eq r status d
  rw [h]

@[simp] theorem completed_user_asid (r : Memory u m k) (status : Word) (d : Dev) :
    (r.completed status d).user_asid = r.user_asid := by
  obtain ⟨ram, flash, h⟩ := completed_eq r status d
  rw [h]

/-- In user mode a U-proc uses its memory or causes an exception. -/
theorem userOp_ok {op : UserOp} (h : userOp r v op = .ok s' v') :
    Calm r s' ∧ ∃ i, v' = v.goto [i] ∧
      ((∃ a, i = .load a) ∨ (∃ a w, i = .store a w) ∨ i = .generalException) := by
  cases op with
  | load a =>
      cases h
      exact ⟨.refl r, _, rfl, .inl ⟨a, rfl⟩⟩
  | store a w =>
      cases h
      exact ⟨.refl r, _, rfl, .inr (.inl ⟨a, w, rfl⟩)⟩
  | exception state =>
      simp only [userOp] at h
      split at h
      · cases h
      · obtain ⟨b, -, rfl, rfl⟩ := passUp_ok h
        exact ⟨.save r b (fun _ ↦ rfl) fun _ ↦ rfl, _, rfl, .inr (.inr rfl)⟩

end Instructions

end PandosPlus.SupportLevel
