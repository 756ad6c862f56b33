import PandosPlus.Phase3.Owners
import PandosPlus.Phase3.Runs

/-!
# The header reads of test

`_readPageFromFlash` leaves through `trapExceptionHandler` when the drive fails, whoever has
called it.  A U-proc has a support structure to pass the trap up to.  `test` has none: it
reads the headers of the drives with the same routine, and a header read that fails takes it
down with all the U-procs it has started.
-/

namespace PandosPlus.SupportLevel

open Lts

variable {u m k : Nat} {cfg : PoolConfig m} {s t : System u m k} {p q : Actor u}
variable {a : Event u k} {i : Instr u m} {code rest : List (Instr u m)} {x : SemId} {d : Dev}

/-- The instructions that only `trapExceptionHandler` and `_terminate` have. -/
def Instr.Terminating : Instr u m → Prop
  | .release _ | .terminate | .freeFrame _ _ | .deallocate | .listAdd _ _ | .verhogen .master => True
  | _ => False

/-- The instructions of `test`. -/
def Instr.Starting : Instr u m → Prop
  | .allocate _ | .listDel _ _ | .initSupport _ _ | .setData0 _ _ | .doIo _ _ | .checkStatus
  | .initPageTable _ _ _ | .createProcess _ _ | .passeren _ | .termProcess => True
  | _ => False

/-- The process is in `trapExceptionHandler` or in `_terminate`. -/
def Proc.Terminating (v : Proc u m) : Prop := ∃ i ∈ v.code, i.Terminating

/-- Only processes with a support structure are in `trapExceptionHandler` or `_terminate`. -/
def TrapsSupported (s : System u m k) : Prop :=
  ∀ p, (s.proc p).Terminating → (s.proc p).p_supportStruct ≠ none

/-- A process dies alone, unless `test` has come to its TERMPROCESS. -/
def Spared (s : System u m k) (a : Event u k) (t : System u m k) : Prop :=
  ∀ q, (s.proc q).phase ≠ .dead → (t.proc q).phase = .dead →
    (∃ j, q = .uproc j ∧ a.actor = some q) ∨
      a.actor = some .test ∧ (s.proc .test).code.head? = some .termProcess

/-- `test` goes on from a header read that has failed. -/
def HeaderFails (s : System u m k) (a : Event u k) : Prop :=
  a.actor = some .test ∧ (s.proc .test).code.head? = some .checkStatus ∧
    ((s.proc .test).status = FLASH_WRITE_ERROR ∨ (s.proc .test).status = FLASH_READ_ERROR)

instance (s : System u m k) (a : Event u k) : Decidable (HeaderFails s a) :=
  inferInstanceAs (Decidable (_ ∧ _ ∧ (_ ∨ _)))

theorem Instr.Starting.not_terminating (h : i.Starting) : ¬ i.Terminating := by
  cases i <;> first | exact id | cases h

/-! ## Who may go on without a support structure -/

/-- The process is in the queue of a semaphore or of a device. -/
def InQueue (s : System u m k) (q : Actor u) : Prop :=
  (∃ x, q ∈ (s.sem x).queue) ∨ ∃ d, q ∈ (s.mem.dev d).waiting

/-- `test` has no support structure and does what `test` does; a U-proc that has none has
not been created, and so is in no queue and has nothing to do. -/
structure Supported (s : System u m k) : Prop where
  test : (s.proc .test).p_supportStruct = none
  starting : ∀ i ∈ (s.proc .test).code, i.Starting
  unborn : ∀ j, (s.proc (.uproc j)).p_supportStruct = none →
    (s.proc (.uproc j)).phase ≠ .ready ∧ (s.proc (.uproc j)).code = [] ∧ ¬ InQueue s (.uproc j)

theorem Supported.traps (h : Supported s) : TrapsSupported s := by
  rintro p ⟨i, hi, hterm⟩ hnone
  cases p with
  | test => exact (h.starting i hi).not_terminating hterm
  | uproc j =>
      rw [(h.unborn j hnone).2.1] at hi
      exact absurd hi List.not_mem_nil

theorem Booted.supported (h : Booted s) : Supported s := by
  obtain ⟨support_arr, ram, flash, dev, hmem, hsem, -, hcode, hsupport, hborn⟩ := h
  obtain ⟨next, prev, hinit⟩ := Memory.initial_eq (m := m) (k := k) support_arr ram flash dev
  refine ⟨hsupport, fun i hi ↦ ?_, fun j _ ↦ ?_⟩
  · rw [hcode, SupportLevel.test] at hi
    rcases List.mem_append.mp hi with hi | hi
    · rcases List.mem_append.mp hi with hi | hi
      · obtain ⟨j, -, rfl⟩ := List.mem_map.mp hi
        trivial
      · obtain rfl := List.eq_of_mem_replicate hi
        trivial
    · obtain rfl := List.mem_singleton.mp hi
      trivial
  · obtain ⟨hphase, hcode⟩ := hborn j
    refine ⟨by rw [hphase]; exact nofun, hcode, ?_⟩
    rintro (⟨x, hx⟩ | ⟨d, hd⟩)
    · rw [hsem] at hx
      exact absurd hx List.not_mem_nil
    · rw [hmem, hinit] at hd
      exact absurd hd List.not_mem_nil

/-! ## A step -/

variable (cfg) in
/-- What becomes of a process in a step. -/
inductive Becomes (s : System u m k) (a : Event u k) (t : System u m k) (q : Actor u) : Prop
  | still (h : t.proc q = s.proc q)
  | slept (h : t.proc q = { s.proc q with phase := .asleep })
  | goesOn (hphase : (s.proc q).phase = .ready ∨ InQueue s q)
      (hcode : (t.proc q).code ⊆ (s.proc q).code) (hready : (t.proc q).phase = .ready)
      (hsupport : (t.proc q).p_supportStruct = (s.proc q).p_supportStruct)
  | ran (c : Choice k) (i : Instr u m) (rest : List (Instr u m)) (ha : a.actor = some q)
      (hready : (s.proc q).phase = .ready) (hcode : (s.proc q).code = i :: rest)
      (h : exec cfg c q s.mem (s.proc q) i rest = .ok t.mem (t.proc q))
  | left (j : Fin u) (hq : q = .uproc j) (hready : (s.proc q).phase = .ready)
      (hphase : (t.proc q).phase = .ready)
      (hsupport : (t.proc q).p_supportStruct = (s.proc q).p_supportStruct)
  | created (j : Fin u) (hq : q = .uproc j) (hphase : (t.proc q).phase = .ready)
      (hsupport : (t.proc q).p_supportStruct ≠ none)
  | killed (p : Actor u) (i : Instr u m) (rest : List (Instr u m)) (ha : a.actor = some p)
      (hcode : (s.proc p).code = i :: rest)
      (hi : i = .termProcess ∨ ∃ c, exec cfg c p s.mem (s.proc p) i rest = .fault)
      (hq : p.progeny q = true) (h : t.proc q = { s.proc q with phase := .dead, code := [] })

theorem SemCalled.becomes {full : Int} {c : Choice k} (h : SemCalled s full p x t)
    (hready : (s.proc p).phase = .ready) (q : Actor u) : Becomes cfg s (.run p c) t q := by
  -- who leaves the call its code begins with
  have hresume : ∀ {r : System u m k}, r.proc q = s.proc q →
      ((s.proc q).phase = .ready ∨ InQueue s q) → t.proc q = (r.resume q).proc q →
      Becomes cfg s (.run p c) t q := by
    intro r hr hphase ht
    rw [resume_self, hr] at ht
    refine .goesOn hphase ?_ ?_ ?_ <;> rw [ht]
    exact (List.tail_sublist _).subset
  cases h with
  | block hval =>
      by_cases hq : q = p
      · subst hq
        exact .slept (setProc_self ..)
      · exact .still (setProc_ne s hq _)
  | wake r rest hval hqueue =>
      have hmem : InQueue s r := .inl ⟨x, by rw [hqueue]; exact List.mem_cons_self⟩
      by_cases hr : q = r
      · subst hr
        by_cases hq : q = p
        · subst hq
          refine .goesOn (.inl hready) ?_ ?_ ?_ <;> rw [setSem_proc, resume_self]
          · rw [resume_self]
            exact ((List.tail_sublist _).trans (List.tail_sublist _)).subset
          · rw [resume_self]
        · exact hresume (resume_ne s hq) (.inr hmem) rfl
      · by_cases hq : q = p
        · subst hq
          exact hresume (r := s) rfl (.inl hready) (resume_ne _ hr)
        · exact .still ((resume_ne _ hr).trans (resume_ne s hq))
  | change hval hqueue =>
      by_cases hq : q = p
      · subst hq
        exact hresume (r := s) rfl (.inl hready) rfl
      · exact .still (resume_ne s hq)

theorem SupStep.becomes (h : SupStep cfg s a t) (q : Actor u) : Becomes cfg s a t q := by
  have hkill : ∀ {p c i rest}, a = .run p c → (s.proc p).code = i :: rest →
      (i = .termProcess ∨ ∃ c, SupportLevel.exec cfg c p s.mem (s.proc p) i rest = .fault) →
      t = s.kill p.progeny → Becomes cfg s a t q := by
    rintro p c i rest rfl hcode hi rfl
    cases hd : p.progeny q with
    | true => exact .killed p i rest rfl hcode hi hd (kill_dead s hd)
    | false => exact .still (kill_alive s hd)
  cases h.moved with
  | passeren hready hcode hc => exact hc.becomes hready q
  | verhogen hready hcode hc => exact hc.becomes hready q
  | terminated hready hcode => exact hkill rfl hcode (.inl rfl) rfl
  | @created p c i b rest hready hcode =>
      by_cases hqi : q = .uproc i
      · subst hqi
        refine .created i rfl ?_ ?_ <;> rw [setProc_self]
        exact nofun
      · by_cases hqp : q = p
        · subst hqp
          refine .goesOn (.inl hready) ?_ ?_ ?_ <;> rw [setProc_ne _ hqi, setProc_self]
          · rw [hcode]
            exact List.subset_cons_self _ _
          · exact hready
          · rfl
        · exact .still ((setProc_ne _ hqi _).trans (setProc_ne _ hqp _))
  | @ran p c i rest mem v t hready hcode hexec ht =>
      by_cases hqp : q = p
      · subst hqp
        refine .ran c i rest rfl hready hcode ?_
        rw [ht.mem, ht.self]
        exact hexec
      · exact .still (ht.ne q hqp)
  | faulted hready hcode hexec => exact hkill rfl hcode (.inr ⟨_, hexec⟩) rfl
  | @left i op mem v t hready hcode hop ht =>
      by_cases hqi : q = .uproc i
      · subst hqi
        obtain ⟨-, j, rfl, -⟩ := userOp_ok hop
        refine .left i rfl hready ?_ ?_ <;> rw [ht.self]
        · exact hready
        · rfl
      · exact .still (ht.ne q hqi)
  | @completed d status p rest t hwaiting ht =>
      by_cases hqp : q = p
      · subst hqp
        have hmem : InQueue s q := .inr ⟨d, by rw [hwaiting]; exact List.mem_cons_self⟩
        refine .goesOn (.inr hmem) ?_ ?_ ?_ <;> rw [ht.self]
        exact (List.tail_sublist _).subset
      · exact .still (ht.ne q hqp)

/-- A process that has a support structure keeps one. -/
theorem Becomes.support (h : Becomes cfg s a t q) (hnone : (t.proc q).p_supportStruct = none) :
    (s.proc q).p_supportStruct = none := by
  cases h with
  | ran c i rest ha hready hcode h => exact (exec_executed hcode h).support.symm.trans hnone
  | goesOn hphase hcode hready hsupport => exact hsupport.symm.trans hnone
  | left j hq hready hphase hsupport => exact hsupport.symm.trans hnone
  | created j hq hphase hsupport => exact absurd hnone hsupport
  | _ =>
      rename_i h
      rw [h] at hnone
      exact hnone

/-- Only a ready process comes into a queue. -/
theorem SupStep.inQueue (h : SupStep cfg s a t) (hq : InQueue t q) :
    InQueue s q ∨ (s.proc q).phase = .ready := by
  have hmem : ∀ {d}, (∀ d, (t.mem.dev d).waiting = (s.mem.dev d).waiting) →
      q ∈ (t.mem.dev d).waiting → InQueue s q := fun h hq ↦ .inr ⟨_, by rw [← h]; exact hq⟩
  have hsem : ∀ {x}, t.sem = s.sem → q ∈ (t.sem x).queue → InQueue s q :=
    fun h hq ↦ .inl ⟨_, by rw [← h]; exact hq⟩
  have hcall : ∀ {full p x}, SemCalled s full p x t → (s.proc p).phase = .ready →
      InQueue s q ∨ (s.proc q).phase = .ready := by
    intro full p x hc hready
    rcases hq with ⟨y, hy⟩ | ⟨d, hd⟩
    swap
    · exact .inl (hmem (fun d ↦ by rw [hc.mem]) hd)
    by_cases hyx : y = x
    swap
    · rw [hc.sem_ne hyx] at hy
      exact .inl (.inl ⟨y, hy⟩)
    subst hyx
    rcases hc.ends with ⟨-, hend, -⟩ | ⟨r, rest, -, hqueue, hend, -⟩ | ⟨-, hqueue, hend, -⟩ <;>
      rw [hend] at hy
    · rcases List.mem_append.mp hy with hy | hy
      · exact .inl (.inl ⟨y, hy⟩)
      · obtain rfl := List.mem_singleton.mp hy
        exact .inr hready
    · exact .inl (.inl ⟨y, by rw [hqueue]; exact List.mem_cons_of_mem _ hy⟩)
    · exact .inl (.inl ⟨y, hy⟩)
  have hkill : ∀ {dies}, t = s.kill dies → InQueue s q ∨ (s.proc q).phase = .ready := by
    rintro dies rfl
    rcases hq with ⟨y, hy⟩ | ⟨d, hd⟩
    · exact .inl (.inl ⟨y, (List.mem_filter.mp hy).1⟩)
    · exact .inl (.inr ⟨d, (List.mem_filter.mp hd).1⟩)
  cases h.moved with
  | passeren hready hcode hc => exact hcall hc hready
  | verhogen hready hcode hc => exact hcall hc hready
  | terminated => exact hkill rfl
  | created => exact .inl hq
  | @ran p c i rest mem v t hready hcode hexec ht =>
      rcases hq with ⟨y, hy⟩ | ⟨d, hd⟩
      · exact .inl (hsem ht.sem hy)
      rcases (exec_executed hcode hexec).waiting with ⟨e, w, -, rfl, -⟩ | ⟨-, hdev⟩
      · rw [ht.mem] at hd
        by_cases he : d = e
        · rw [he, setDev_self] at hd
          rcases List.mem_append.mp hd with hd | hd
          · exact .inl (.inr ⟨e, hd⟩)
          · obtain rfl := List.mem_singleton.mp hd
            exact .inr hready
        · rw [setDev_ne _ he] at hd
          exact .inl (.inr ⟨d, hd⟩)
      · exact .inl (hmem (fun d ↦ by rw [ht.mem, hdev]) hd)
  | faulted => exact hkill rfl
  | @left i op mem v t hready hcode hop ht =>
      rcases hq with ⟨y, hy⟩ | ⟨d, hd⟩
      · exact .inl (hsem ht.sem hy)
      · exact .inl (hmem (fun d ↦ by rw [ht.mem, (userOp_ok hop).1.dev]) hd)
  | @completed d status p rest t hwaiting ht =>
      rcases hq with ⟨y, hy⟩ | ⟨e, he⟩
      · exact .inl (hsem ht.sem hy)
      rw [ht.mem] at he
      by_cases hed : e = d
      · rw [hed, setDev_self] at he
        exact .inl (.inr ⟨d, by rw [hwaiting]; exact List.mem_cons_of_mem _ he⟩)
      · rw [setDev_ne _ hed, completed_dev] at he
        exact .inl (.inr ⟨e, he⟩)

/-! ## The start-up -/

/-- What `test` does leaves it in its own routine, unless a header read has failed. -/
theorem exec_starting {c : Choice k} {r s' : Memory u m k} {v v' : Proc u m}
    (hcode : v.code = i :: rest) (hall : ∀ i ∈ v.code, i.Starting)
    (hok : ¬ (i = .checkStatus ∧ (v.status = FLASH_WRITE_ERROR ∨ v.status = FLASH_READ_ERROR)))
    (h : exec cfg c .test r v i rest = .ok s' v') : ∀ i ∈ v'.code, i.Starting := by
  rw [hcode] at hall
  obtain ⟨hhead, hrest⟩ := List.forall_mem_cons.mp hall
  have hcons : ∀ {j : Instr u m} {code}, j.Starting → (∀ i ∈ code, i.Starting) →
      ∀ i ∈ j :: code, i.Starting := fun hj hcode ↦ List.forall_mem_cons.mpr ⟨hj, hcode⟩
  cases i with
  | allocate j =>
      simp only [exec] at h
      split at h <;> cases h
      exact hcons trivial hrest
  | listDel j b =>
      cases h
      exact hcons trivial hrest
  | initSupport j b =>
      cases h
      exact hcons trivial (hcons trivial (hcons trivial (hcons trivial hrest)))
  | setData0 d w =>
      cases h
      exact hrest
  | doIo d w =>
      cases h
      change ∀ i ∈ v.code, i.Starting
      rw [hcode]
      exact hall
  | checkStatus =>
      simp only [exec] at h
      rw [if_neg fun he ↦ hok ⟨rfl, he⟩] at h
      cases h
      exact hrest
  | initPageTable j b w =>
      cases h
      exact hcons trivial hrest
  | createProcess j b => cases h
  | passeren x => cases h
  | termProcess => cases h
  | _ => cases hhead

/-- Nothing that `test` does goes through its support structure. -/
theorem exec_ne_fault {c : Choice k} {r : Memory u m k} {v : Proc u m} (hi : i.Starting) :
    exec cfg c p r v i rest ≠ .fault := by
  cases i with
  | allocate j =>
      simp only [exec]
      split <;> rintro ⟨⟩
  | checkStatus =>
      simp only [exec]
      split <;> rintro ⟨⟩
  | _ =>
      intro h
      first | cases h | cases hi

theorem Supported.step (h : Supported s) (hstep : SupStep cfg s a t) (hok : ¬ HeaderFails s a) :
    Supported t := by
  refine ⟨?_, fun i hi ↦ ?_, fun j hnone ↦ ?_⟩
  · cases hstep.becomes .test with
    | ran c i rest ha hready hcode hexec => exact (exec_executed hcode hexec).support.trans h.test
    | goesOn hphase hcode hready hsupport => exact hsupport.trans h.test
    | left j hq => cases hq
    | created j hq => cases hq
    | _ =>
        rename_i hsame
        rw [hsame]
        exact h.test
  · cases hstep.becomes .test with
    | goesOn hphase hcode hready hsupport => exact h.starting i (hcode hi)
    | ran c j rest ha hready hcode hexec =>
        refine exec_starting hcode h.starting (fun ⟨hj, hstatus⟩ ↦ hok ?_) hexec i hi
        exact ⟨ha, by rw [hcode, hj]; rfl, hstatus⟩
    | left j hq => cases hq
    | created j hq => cases hq
    | killed p j rest ha hcode hj hq hsame =>
        rw [hsame] at hi
        exact absurd hi List.not_mem_nil
    | _ =>
        rename_i hsame
        rw [hsame] at hi
        exact h.starting i hi
  · have hturn := hstep.becomes (.uproc j)
    obtain ⟨hphase, hcode, hqueue⟩ := h.unborn j (hturn.support hnone)
    refine ⟨?_, ?_, fun hq ↦ (hstep.inQueue hq).elim hqueue hphase⟩
    · cases hturn with
      | still hsame =>
          rw [hsame]
          exact hphase
      | slept hsame =>
          rw [hsame]
          exact nofun
      | killed p i rest ha hcode hi hq hsame =>
          rw [hsame]
          exact nofun
      | goesOn hgo => exact absurd hgo (not_or.mpr ⟨hphase, hqueue⟩)
      | ran c i rest ha hready => exact absurd hready hphase
      | left i hi hready => exact absurd hready hphase
      | created i hi hready hsupport => exact absurd hnone hsupport
    · cases hturn with
      | still hsame =>
          rw [hsame]
          exact hcode
      | slept hsame =>
          rw [hsame]
          exact hcode
      | killed p i rest ha hcode hi hq hsame => rw [hsame]
      | goesOn hgo => exact absurd hgo (not_or.mpr ⟨hphase, hqueue⟩)
      | ran c i rest ha hready => exact absurd hready hphase
      | left i hi hready => exact absurd hready hphase
      | created i hi hready hsupport => exact absurd hnone hsupport

/-- Nobody is taken down while no header read fails. -/
theorem Supported.spared (h : Supported s) (hstep : SupStep cfg s a t) : Spared s a t := by
  intro q hs ht
  cases hstep.becomes q with
  | still hsame => exact absurd (hsame ▸ ht) hs
  | slept hsame =>
      rw [hsame] at ht
      cases ht
  | goesOn hphase hcode hready => cases hready.symm.trans ht
  | ran c i rest ha hready hcode hexec =>
      rcases (exec_executed hcode hexec).waiting with ⟨d, w, -, -, hsame⟩ | ⟨hphase, -⟩
      · rw [hsame] at ht
        cases ht
      · exact absurd (hphase.symm.trans ht) hs
  | left j hq hready hphase => cases hphase.symm.trans ht
  | created j hq hphase => cases hphase.symm.trans ht
  | killed p i rest ha hcode hi hq hsame =>
      cases p with
      | uproc j =>
          obtain rfl := Actor.eq_of_progeny hq
          exact .inl ⟨j, rfl, ha⟩
      | test =>
          refine .inr ⟨ha, ?_⟩
          rcases hi with rfl | ⟨c, hfault⟩
          · rw [hcode]
            rfl
          · have hstarting := h.starting i (by rw [hcode]; exact List.mem_cons_self)
            exact absurd hfault (exec_ne_fault hstarting)

/-- A header read that fails makes a handler of `test`. -/
theorem HeaderFails.not_traps (h : HeaderFails s a) (hs : Supported s) (hstep : SupStep cfg s a t) :
    ¬ TrapsSupported t := by
  obtain ⟨ha, hhead, hstatus⟩ := h
  obtain ⟨rest, hcode⟩ := List.head?_eq_some_iff.mp hhead
  obtain ⟨-, c, ⟨hexec, -⟩ | ⟨hfault, -⟩⟩ := hstep.exec ha hcode rfl nofun fun _ _ ↦ nofun
  swap
  · exact absurd hfault (exec_ne_fault trivial)
  have hsupport := (exec_executed hcode hexec).support
  simp only [exec, if_pos hstatus] at hexec
  obtain ⟨-, hv⟩ := Outcome.ok.inj hexec
  refine fun htraps ↦ htraps .test ⟨.terminate, ?_, trivial⟩ (hsupport.trans hs.test)
  rw [← hv]
  exact List.mem_append_right _ (List.mem_cons_of_mem _ List.mem_cons_self)

/-! ## Runs -/

variable (cfg) in
/-- In the runs in which `test` goes on from no header read that has failed, and only in
these, `trapExceptionHandler` and `_terminate` are left to processes with a support
structure, and nobody is taken down by another before `test` is done. -/
theorem trapsSupported_iff {s₀ : System u m k} {as : List (Event u k)} (hs : Booted s₀) :
    Run (fun s a t ↦ SupStep cfg s a t ∧ TrapsSupported t ∧ Spared s a t) s₀ as s ↔
      Run (fun s a t ↦ SupStep cfg s a t ∧ ¬ HeaderFails s a) s₀ as s := by
  have hok : ∀ (s : System u m k) a t, Supported s → SupStep cfg s a t → TrapsSupported t ∧ Spared s a t →
      ¬ HeaderFails s a := fun s a t hs hstep hend hfails ↦ hfails.not_traps hs hstep hend.1
  refine Run.congr (I := Supported) (fun s a t hs hstep hend ↦ ?_) (fun s a t hs hstep ↦ ?_)
    hs.supported
  · exact hs.step hstep (hok s a t hs hstep hend)
  · exact ⟨hok s a t hs hstep, fun hfails ↦ ⟨(hs.step hstep hfails).traps, hs.spared hstep⟩⟩

/-- The first U-proc is started, and `test` waits for the header of the second. -/
theorem trapsSupported_iff_sample :
    ∃ s as, (s.proc (.uproc (0 : Fin 2))).phase = .ready ∧
      Run (fun s a t ↦ SupStep (.sample 3 (by decide)) s a t ∧ TrapsSupported t ∧ Spared s a t)
        (System.boot 2 3 0) as s := by
  let cfg := PoolConfig.sample 3 (by decide)
  let run : Nat → List (Event 2 0) := fun n ↦ List.replicate n (.run .test ⟨0, 0⟩)
  let as := run 5 ++ .complete (.flash 0) 1 :: run 8
  let f := fun (s : System 2 3 0) a ↦ if HeaderFails s a then none else sysStep cfg s a
  have hruns : ((execute f (System.boot 2 3 0) as).any fun s ↦
      decide ((s.proc (.uproc 0)).phase = .ready)) = true := by decide +kernel
  obtain ⟨s, hs, hphase⟩ := (Option.any_eq_true _ _).mp hruns
  refine ⟨s, as, of_decide_eq_true hphase, (trapsSupported_iff cfg System.boot_booted).mpr ?_⟩
  refine Run.of_exec (fun s a t hstep ↦ ?_) hs
  obtain ⟨hok, hstep⟩ := Option.ite_none_left_eq_some.mp hstep
  exact ⟨hstep, hok⟩

/-- The header of the second U-proc cannot be read: `test` goes to `trapExceptionHandler`,
and its first access there kills it and the first U-proc. -/
theorem header_not_read :
    (¬ ∀ (u m k : Nat) (cfg : PoolConfig m) (s₀ s : System u m k) (as : List (Event u k)),
      Booted s₀ → Run (SupStep cfg) s₀ as s → TrapsSupported s) ∧
    ¬ ∀ (u m k : Nat) (cfg : PoolConfig m) (s₀ s t : System u m k) (as : List (Event u k))
      (a : Event u k), Booted s₀ → Run (SupStep cfg) s₀ as s → SupStep cfg s a t →
      Spared s a t := by
  let cfg := PoolConfig.sample 3 (by decide)
  let run : Nat → List (Event 2 0) := fun n ↦ List.replicate n (.run .test ⟨0, 0⟩)
  let as := run 5 ++ .complete (.flash 0) 1 :: run 8 ++ .complete (.flash 1) 4 :: run 1
  have hruns : ((sysRun cfg (System.boot 2 3 0) as).any fun s ↦
      decide ((s.proc .test).p_supportStruct = none ∧ .terminate ∈ (s.proc .test).code ∧
        (s.proc (.uproc 0)).phase = .ready ∧ (s.proc .test).code.head? ≠ some .termProcess) &&
      (sysStep cfg s (.run .test ⟨0, 0⟩)).any fun t ↦
        decide ((t.proc (.uproc 0)).phase = .dead)) = true := by decide +kernel
  obtain ⟨s, hs, hcases⟩ := (Option.any_eq_true _ _).mp hruns
  obtain ⟨hbefore, hafter⟩ := Bool.and_eq_true_iff.mp hcases
  obtain ⟨hnone, hmem, hready, hhead⟩ := of_decide_eq_true hbefore
  obtain ⟨t, ht, hdead⟩ := (Option.any_eq_true _ _).mp hafter
  constructor
  · exact fun h ↦ h 2 3 0 cfg _ s as System.boot_booted (sysRun_run hs) .test
      ⟨.terminate, hmem, trivial⟩ hnone
  · intro h
    rcases h 2 3 0 cfg _ s t as _ System.boot_booted (sysRun_run hs) ht (.uproc 0)
      (by rw [hready]; exact nofun) (of_decide_eq_true hdead) with ⟨j, -, ha⟩ | ⟨-, ha⟩
    · cases ha
    · exact hhead ha

end PandosPlus.SupportLevel
