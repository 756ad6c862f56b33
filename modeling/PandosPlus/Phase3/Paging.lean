import PandosPlus.Phase3.Faults

/-!
# The pager

What the swap pool table, the page tables, the frames and the drives are together: an
abstract pager, in which pages are mapped to frames or on the disk (`Views`).  Each step of
the support level is a step of that pager, or leaves it as it is (`Views.step`).
-/

namespace PandosPlus.SupportLevel

open TaggedLock

variable {u m k : Nat} {cfg : PoolConfig m} {s t : System u m k} {p : Actor u}
variable {a : Event u k} {mode : SemId → Actor u → Mode} {c : Choice k} {i : Instr u m}
variable {rest : List (Instr u m)} {j b : Fin u} {f g : Fin (m + 1)} {n : Fin 32}

/-! ## The end of a U-proc -/

theorem Ending.not_working {asid : Int} {code : List (Instr u m)} (h : Ending asid code) :
    ¬ Working code := by
  have hlast : .termProcess ∈ code := by
    cases h with
    | freeing h => exact List.mem_append_right _ (by simp only [List.mem_cons, true_or, or_true])
    | _ => simp only [List.mem_cons, true_or, or_true]
  exact fun hw ↦ hw _ hlast

/-- A frame is freed once. -/
theorem Ending.frees_once {asid : Int} (h : Ending asid (.freeFrame asid f :: rest)) :
    .freeFrame asid f ∉ rest := by
  rcases h.cons with ⟨pre, hpre, rfl⟩ | ⟨he, -⟩ | ⟨b, next, he, -⟩ | ⟨he, -⟩ | ⟨he, -⟩
  · have hcount : (freeFrames asid : List (Instr u m)).count (.freeFrame asid f) ≤ 1 := by
      rw [freeFrames, List.count_append, List.count_append]
      have hmap : ((List.finRange (m + 1)).map (Instr.freeFrame (u := u) asid)).count
          (.freeFrame asid f) ≤ 1 := by
        refine List.nodup_iff_count_le_one.mp (List.Nodup.map ?_ (List.nodup_finRange _)) _
        intro x y hxy
        exact (Instr.freeFrame.inj hxy).2
      have hP : (P .swapPool asid : List (Instr u m)).count (.freeFrame asid f) = 0 :=
        List.count_eq_zero.mpr (by simp only [P, List.mem_cons, List.not_mem_nil, reduceCtorEq,
          or_self, not_false_eq_true])
      have hV : (V .swapPool : List (Instr u m)).count (.freeFrame asid f) = 0 :=
        List.count_eq_zero.mpr (by simp only [V, List.mem_cons, List.not_mem_nil, reduceCtorEq,
          or_self, not_false_eq_true])
      omega
    have hle := (hpre.sublist.count_le (.freeFrame asid f)).trans hcount
    rw [List.count_cons_self] at hle
    have hpre : .freeFrame asid f ∉ pre := List.count_eq_zero.mp (by omega)
    simp only [List.mem_append, hpre, List.mem_cons, List.not_mem_nil, reduceCtorEq, or_self,
      not_false_eq_true]
  all_goals cases he

/-- The end of a U-proc goes on. -/
theorem SupStep.ending (hstep : SupStep cfg s a t) (hr : Running s mode) (hw : Waits s)
    (h : Ending (asidOf j) (s.proc (.uproc j)).code) (ht : (t.proc (.uproc j)).phase ≠ .dead) :
    Ending (asidOf j) (t.proc (.uproc j)).code ∧
      ∀ f, .freeFrame (asidOf j) f ∈ (t.proc (.uproc j)).code →
        .freeFrame (asidOf j) f ∈ (s.proc (.uproc j)).code := by
  have htail : ∀ {i rest}, (s.proc (.uproc j)).code = i :: rest → (t.proc (.uproc j)).code = rest →
      i.Plain ∨ i.sem? ≠ none → Ending (asidOf j) (t.proc (.uproc j)).code ∧
      ∀ f, .freeFrame (asidOf j) f ∈ (t.proc (.uproc j)).code →
        .freeFrame (asidOf j) f ∈ (s.proc (.uproc j)).code := by
    intro i rest hcode hcode' hi
    rw [hcode] at h ⊢
    rw [hcode']
    exact ⟨h.tail hi, fun f hf ↦ List.mem_cons_of_mem _ hf⟩
  cases hstep.goes hr.placed hr.fresh (.uproc j) with
  | still ha hsame =>
      rw [hsame]
      exact ⟨h, fun _ hf ↦ hf⟩
  | blocked c i rest x ha hready hcode hi hproc =>
      rw [hproc]
      exact ⟨h, fun _ hf ↦ hf⟩
  | passed i rest x hphase hcode hi hproc =>
      exact htail hcode (by rw [hproc]) (.inr (by rw [hi]; rintro ⟨⟩))
  | ran c i rest ha hready hcode hexec =>
      have hend := h
      rw [hcode] at hend
      rcases hexec.ending hend with ⟨rfl, b, -, -, hb⟩ | ⟨hi, hrest⟩
      · rw [hb]
        refine ⟨.returning b _, fun f hf ↦ ?_⟩
        simp only [List.mem_cons, List.not_mem_nil, reduceCtorEq, or_self] at hf
      · exact htail hcode hrest (.inl hi)
  | left i j' hq hready hcode =>
      rw [hcode] at h
      exact absurd .nil h.not_working
  | answered d c rest status ha hwaiting hcode =>
      rw [hcode] at h
      rcases h.head with h | h | h | h
      · exact absurd rfl h
      · cases h
      · cases h
      · cases h
  | creates n b rest ha hready hcode => exact absurd hcode (hw.not_creates hr.shapes hready)
  | created n b p rest hq ha hready hcode => exact absurd hcode (hw.not_creates hr.shapes hready)
  | killed p i rest ha hready hcode hi hq hproc =>
      rw [hproc] at ht
      exact absurd rfl ht

/-- Who has work to do has had it before. -/
theorem Working.before (h : Working (t.proc (.uproc j)).code) (hr : Running s mode) (hw : Waits s)
    (hstep : SupStep cfg s a t) (ht : (t.proc (.uproc j)).phase ≠ .dead) :
    Working (s.proc (.uproc j)).code := by
  refine (hr.shapes j fun hdead ↦ ht (hstep.dead hr.placed hr.fresh hdead)).resolve_right ?_
  exact fun hend ↦ (hstep.ending hr hw hend ht).1.not_working h

/-- Who has to free a frame has had to before. -/
theorem Frees.before (h : Frees t j f) (hr : Running s mode) (hw : Waits s)
    (hstep : SupStep cfg s a t) (ht : (t.proc (.uproc j)).phase ≠ .dead) : Frees s j f := by
  refine (hr.shapes j fun hdead ↦ ht (hstep.dead hr.placed hr.fresh hdead)).imp_right fun hend ↦ ?_
  obtain ⟨hend', hmem⟩ := hstep.ending hr hw hend ht
  exact hmem f (h.resolve_left hend'.not_working)

/-! ## What is left alone -/

/-- The page tables, the swap pool table, the frames and the drives are left alone. -/
structure Same (r r' : Memory u m k) : Prop where
  pte : ∀ e, r'.pte e = r.pte e
  swap_pool_table : r'.swap_pool_table = r.swap_pool_table
  ram : r'.ram = r.ram
  flash : r'.flash = r.flash

theorem Calm.same {r r' : Memory u m k} (h : Calm r r') : Same r r' :=
  ⟨fun e ↦ congrFun (h.pgTbl e.1) e.2, h.swap_pool_table, h.ram, h.flash⟩

/-- What else changes them than the handler of page faults: a U-proc writes to its memory, or
frees its frames. -/
theorem Executed.untouched {r s' : Memory u m k} {v v' : Proc u m}
    (h : Executed cfg c (.uproc j) r v i rest s' v') (hmaps : ¬ i.Maps) (hno : ¬ i.OfTest) :
    Same r s' ∨
    (∃ w x e, i = .store w x ∧ r.tlbHit (entryHi (w >>> 12) (asidOf j)) = some e ∧
      v'.code = rest) ∨
    ∃ asid f, i = .freeFrame asid f ∧ (r.swap_pool_table f).sw_asid = asid ∧ v'.code = rest ∧
      s' = r.setFrame f .free := by
  have hsame : ∀ {r' : Memory u m k}, r'.support_arr = r.support_arr →
      r'.swap_pool_table = r.swap_pool_table → r'.ram = r.ram → r'.flash = r.flash → Same r r' :=
    fun hsup hpool hram hflash ↦ ⟨fun e ↦ by rw [Memory.pte, hsup]; rfl, hpool, hram, hflash⟩
  cases h with
  | expand hcalm hexp hv => exact .inl hcalm.same
  | pageFault j' w hid hi b =>
      exact .inl ⟨setSupport_pte r b _ (by exact fun _ ↦ rfl), rfl, rfl, rfl⟩
  | stored j' w x hid e hhit =>
      obtain rfl := Actor.uproc.inj hid
      exact .inr (.inl ⟨w, x, e, rfl, hhit, rfl⟩)
  | freeFrame asid f hasid => exact .inr (.inr ⟨asid, f, rfl, hasid, rfl, rfl⟩)
  | storePage => exact absurd trivial hmaps
  | recordFrame => exact absurd trivial hmaps
  | mapPage => exact absurd trivial hmaps
  | initSupport => exact absurd trivial hno
  | initPageTable => exact absurd trivial hno
  | _ => exact .inl (hsame rfl rfl rfl rfl)

theorem slotOf_eq_some {w : Word} : slotOf w = some n ↔ w >>> 12 = pageNumber n := by
  refine ⟨slotOf_page, fun h ↦ ?_⟩
  cases hfound : slotOf w with
  | none =>
      have hall := List.find?_eq_none.mp hfound n (List.mem_finRange n)
      exact absurd (decide_eq_true h.symm) hall
  | some n' => exact congrArg some (pageNumber_injective ((slotOf_page hfound).symm.trans h))

/-- An access that has been completed has found a valid entry. -/
theorem access_done {r s' : Memory u m k} {v v' : Proc u m} {asid : Int} {w : Word} {writes : Bool}
    {go : Word → Outcome u m k} (h : access r v c asid w writes i rest go = .ok s' v')
    (hcode : v.code = i :: rest) (hdone : v'.code = rest) :
    ∃ e, r.tlbHit (entryHi (w >>> 12) asid) = some e ∧ e.Valid ∧
      (writes = true → e.pte_entryLO &&& ENTRYLO_DIRTY ≠ 0) ∧ go e.frame = .ok s' v' := by
  have hne : ∀ {i' : Instr u m}, i' :: rest ≠ rest := fun he ↦
    absurd (congrArg List.length he) (Nat.succ_ne_self _)
  have hpass : ∀ {n state}, passUp r v n state (.tlbException :: i :: rest) ≠ .ok s' v' := by
    intro n state hp
    obtain ⟨b, -, rfl, -⟩ := passUp_ok hp
    have hlength := congrArg List.length hdone
    change rest.length + 2 = rest.length at hlength
    omega
  unfold access at h
  dsimp only at h
  split at h
  · split at h <;> cases h
    exact absurd (hcode.symm.trans hdone) hne
  · rename_i e hhit
    split at h
    · exact absurd h hpass
    · rename_i hvalid
      split at h
      · exact absurd h hpass
      · rename_i hdirty
        exact ⟨e, hhit, hvalid, fun hw hd ↦ hdirty ⟨hw, hd⟩, h⟩

/-! ## The abstract pager -/

/-- A page: that of a U-proc in a slot of its page table. -/
abbrev PageId (u : Nat) := Fin u × Fin 32

variable (cfg) in
/-- The page is mapped to a frame that its U-proc has still to free. -/
def Mapped (s : System u m k) (q : PageId u) (f : Fin (m + 1)) : Prop :=
  ∃ b, Has s q.1 b ∧ Frees s q.1 f ∧ (s.mem.pte (b, q.2)).Valid ∧
    (s.mem.pte (b, q.2)).frame = cfg.frameAddress f

/-- The swap pool table has the page in an entry. -/
def Lists (s : System u m k) (f : Fin (m + 1)) (q : PageId u) : Prop :=
  (s.mem.swap_pool_table f).sw_asid = asidOf q.1 ∧ (s.mem.swap_pool_table f).sw_pageNo = q.2

variable (cfg) in
/-- The abstract pager is what the support level is for its pages. -/
structure Views (s : System u m k) (w : Fin u → Spot u m)
    (A : Pager.State (PageId u) (Fin (m + 1)) Page) : Prop where
  spots : ∀ j, At cfg s j (w j)
  map : ∀ q f, A.map q = some f ↔ Mapped cfg s q f
  list : ∀ f q, A.list f = some q ↔ Lists s f q
  ram : ∀ f, A.ram f = s.mem.ram (cfg.frameAddress f)
  disk : ∀ q, A.disk q = s.mem.flash (asidOf q.1 - 1) q.2
  task : ∀ τ, A.task = some τ ↔ ∃ j, (w j).task j = some τ

/-- A U-proc has written a byte to a page of its own. -/
def Stores (s : System u m k) (a : Event u k) (t : System u m k) (q : PageId u) (b : Word)
    (x : BitVec 8) : Prop :=
  a.actor = some (.uproc q.1) ∧ slotOf b = some q.2 ∧
    ∃ rest, (s.proc (.uproc q.1)).code = .store b x :: rest ∧ (t.proc (.uproc q.1)).code = rest

/-- What an action of the abstract pager is at the support level. -/
def Means (s : System u m k) (w : Fin u → Spot u m) (a : Event u k) (t : System u m k)
    (A : Pager.State (PageId u) (Fin (m + 1)) Page) :
    Pager.Action (PageId u) (Fin (m + 1)) Page → Prop
  | .write q page => ∃ b x f, Stores s a t q b x ∧ A.map q = some f ∧
      page = Function.update (A.ram f) (pageOffset b) x
  | .save ok | .load ok => ∃ d status, a = .complete (.flash d) status ∧
      (ok = true ↔ status = DEV_READY)
  | .quit => ∃ j e f pt status, a.actor = some (.uproc j) ∧ w j = .fault e f pt ∧
      (pt = .checkWrite status ∨ pt = .checkRead status) ∧
      (status = FLASH_WRITE_ERROR ∨ status = FLASH_READ_ERROR)
  | .free f => ∃ j rest, a.actor = some (.uproc j) ∧
      (s.proc (.uproc j)).code = .freeFrame (asidOf j) f :: rest ∧
      (t.proc (.uproc j)).code = rest ∧ (s.mem.swap_pool_table f).sw_asid = asidOf j
  | _ => True

variable {w w' : Fin u → Spot u m} {A B : Pager.State (PageId u) (Fin (m + 1)) Page}
variable {q : PageId u}

/-- An entry that is not free lists a page. -/
theorem Frames.lists (h : Frames s) (hf : ¬ s.mem.IsFree f) : ∃ q b, Lists s f q ∧ Has s q.1 b ∧
    Frees s q.1 f ∧ (s.mem.swap_pool_table f).sw_pte = some (b, q.2) := by
  rcases h.pool f with hfree | ⟨i, b, n, hlisted, hhas, hfrees⟩
  · exact absurd (congrArg Swap.sw_asid hfree) hf
  · exact ⟨(i, n), b, ⟨by rw [hlisted], by rw [hlisted]⟩, hhas, hfrees, by rw [hlisted]⟩

theorem Lists.not_free (h : Lists s f q) : ¬ s.mem.IsFree f := fun hfree ↦
  asidOf_ne_NOPROC q.1 (h.1.symm.trans hfree)

theorem Views.list_none (hv : Views cfg s w A) (hf : Frames s) :
    A.list f = none ↔ s.mem.IsFree f := by
  refine ⟨fun hnone ↦ ?_, fun hfree ↦ ?_⟩
  · by_contra hne
    obtain ⟨q, -, hq, -⟩ := hf.lists hne
    cases hnone.symm.trans ((hv.list f q).mpr hq)
  · cases hlist : A.list f with
    | none => rfl
    | some q => exact absurd hfree ((hv.list f q).mp hlist).not_free

/-- A page whose entry has not changed has been mapped before. -/
theorem Mapped.before (h : Mapped cfg t q f) (hp : Paging s mode) (hstep : SupStep cfg s a t)
    (hpte : ∀ b, Has s q.1 b → t.mem.pte (b, q.2) = s.mem.pte (b, q.2)) : Mapped cfg s q f := by
  obtain ⟨b, hhas, hfrees, hvalid, hframe⟩ := h
  have hb := hp.waits.has hhas hp.running hstep
  rw [hpte b hb] at hvalid hframe
  exact ⟨b, hb, hfrees.before hp.running hp.waits hstep hhas.alive.2, hvalid, hframe⟩

/-- Whether a page is mapped depends on its entry and on that of the frame. -/
theorem Views.mapped_iff (hv : Views cfg s w A) (hi : Pager.Isolated A) (hp : Paging s mode)
    (hstep : SupStep cfg s a t) (htest : (t.proc .test).phase ≠ .dead)
    (hpool : t.mem.swap_pool_table f = s.mem.swap_pool_table f)
    (hpte : ∀ b, Has s q.1 b → t.mem.pte (b, q.2) = s.mem.pte (b, q.2)) :
    Mapped cfg t q f ↔ Mapped cfg s q f := by
  refine ⟨fun h ↦ h.before hp hstep hpte, fun h ↦ ?_⟩
  obtain ⟨b, hb, hfrees, hvalid, hframe⟩ := id h
  have hlist := (hv.list f q).mp (hi.listed q f ((hv.map q f).mpr h))
  obtain ⟨hhas, hfrees'⟩ := hp.frames.frees hp.running hstep htest hb hfrees (hpool ▸ hlist.1)
  exact ⟨b, hhas, hfrees', by rwa [hpte b hb], by rwa [hpte b hb]⟩

/-- Nothing that the abstract pager is about changes, but for the page that is brought in. -/
theorem Views.same (hv : Views cfg s w A) (hi : Pager.Isolated A) (hp : Paging s mode)
    (hstep : SupStep cfg s a t) (htest : (t.proc .test).phase ≠ .dead)
    (hspots : ∀ j, At cfg t j (w' j)) (hsame : Same s.mem t.mem)
    {task : Option (Pager.Task (PageId u) (Fin (m + 1)))}
    (htask : ∀ τ, task = some τ ↔ ∃ j, (w' j).task j = some τ) :
    Views cfg t w' { A with task := task } where
  spots := hspots
  map q f := (hv.map q f).trans (hv.mapped_iff hi hp hstep htest (by rw [hsame.swap_pool_table])
    fun b _ ↦ hsame.pte (b, q.2)).symm
  list f q := by
    rw [Lists, hsame.swap_pool_table]
    exact hv.list f q
  ram f := by
    rw [hsame.ram]
    exact hv.ram f
  disk q := by
    rw [hsame.flash]
    exact hv.disk q
  task := htask

/-! ## Who brings in a page -/

/-- A U-proc that is about to choose a frame owns the swap pool. -/
theorem Locks.owner_of_invalid (h : Locks s mode) (hp : (s.proc p).phase ≠ .dead)
    (hcode : (s.proc p).code = .tlbInvalid :: rest) : mode .swapPool p = .owner := by
  have hall := h.follows p hp .swapPool (by rintro ⟨⟩)
  rw [hcode] at hall
  obtain ⟨ξ, hshift, -⟩ := shifts_cons.mp hall
  change (if mode .swapPool p = .owner then some Mode.out else none) = some ξ at hshift
  by_contra hne
  rw [if_neg hne] at hshift
  cases hshift

/-- Only the owner of the swap pool brings in a page. -/
theorem Views.sole (hv : Views cfg s w A) (hl : Locks s mode)
    (hown : mode .swapPool (.uproc j) = .owner) {j' : Fin u} (hne : j' ≠ j) :
    (w j').task j' = none := by
  cases hat : w j' with
  | fault e f pt =>
      have hspot := hv.spots j'
      rw [hat] at hspot
      cases hspot with
      | fault h =>
          refine absurd (Actor.uproc.inj ((hl.lock .swapPool (by rintro ⟨⟩)).alone _ _ ?_ ?_)) hne
          · rw [h.owner hl]
            rintro ⟨⟩
          · rw [hown]
            rintro ⟨⟩
  | _ => rfl

theorem Views.sole_step (hv : Views cfg s w A) (hl : Locks s mode)
    (hshift : ∀ j, Shift cfg s a t j (w j) (w' j))
    (hown : mode .swapPool (.uproc j) = .owner) {j' : Fin u} (hne : j' ≠ j) :
    (w' j').task j' = none := by
  have hnone := hv.sole hl hown hne
  generalize hx : w j' = x, hx' : w' j' = x' at hnone
  have hs := hshift j'
  rw [hx, hx'] at hs
  cases hs with
  | keeps htask => exact htask.trans hnone
  | chooses b n rest ha hcode hhas =>
      refine absurd (Actor.uproc.inj ((hl.lock .swapPool (by rintro ⟨⟩)).alone _ _ ?_ ?_)) hne
      · rw [hl.owner_of_invalid hhas.alive.2 hcode]
        rintro ⟨⟩
      · rw [hown]
        rintro ⟨⟩
  | quits => rfl
  | maps => rfl
  | stores => cases hnone
  | saves => cases hnone
  | loads => cases hnone
  | records => cases hnone

/-- The page that is brought in is that of the one who does. -/
theorem task_of_sole {o : Option (Pager.Task (PageId u) (Fin (m + 1)))}
    (hself : (w' j).task j = o) (hother : ∀ j', j' ≠ j → (w' j').task j' = none)
    (τ : Pager.Task (PageId u) (Fin (m + 1))) : o = some τ ↔ ∃ j, (w' j).task j = some τ := by
  refine ⟨fun h ↦ ⟨j, hself.trans h⟩, ?_⟩
  rintro ⟨j', h⟩
  by_cases hj : j' = j
  · subst hj
    exact hself.symm.trans h
  · cases (hother j' hj).symm.trans h

/-- Nobody brings in a page. -/
theorem task_of_none (hall : ∀ j, (w' j).task j = none)
    (τ : Pager.Task (PageId u) (Fin (m + 1))) : none = some τ ↔ ∃ j, (w' j).task j = some τ := by
  refine ⟨fun h ↦ (by cases h), ?_⟩
  rintro ⟨j', h⟩
  cases (hall j').symm.trans h

/-! ## The steps of the abstract pager -/

/-- The abstract pager takes a step, or nothing has happened to it. -/
inductive Follows (s : System u m k) (w : Fin u → Spot u m) (a : Event u k) (t : System u m k)
    (A : Pager.State (PageId u) (Fin (m + 1)) Page) :
    Pager.State (PageId u) (Fin (m + 1)) Page → Prop
  | idle (hno : ∀ q b x, ¬ Stores s a t q b x) : Follows s w a t A A
  | acts {B : Pager.State (PageId u) (Fin (m + 1)) Page}
      (act : Pager.Action (PageId u) (Fin (m + 1)) Page) (h : Pager.Step A act B)
      (hmeans : Means s w a t A act)
      (hst : (∃ q page, act = .write q page) ∨ ∀ q b x, ¬ Stores s a t q b x) : Follows s w a t A B

theorem not_stores (ha : a.actor = some (.uproc j)) (hcode : (s.proc (.uproc j)).code = i :: rest)
    (hi : ∀ b x, i ≠ .store b x) (q : PageId u) (b : Word) (x : BitVec 8) :
    ¬ Stores s a t q b x := by
  rintro ⟨ha', -, rest', hcode', -⟩
  obtain rfl := Actor.uproc.inj (Option.some.inj (ha.symm.trans ha'))
  exact hi b x (List.cons.inj (hcode.symm.trans hcode')).1

/-- A frame is chosen. -/
theorem Views.chooses (hv : Views cfg s w A) (hi : Pager.Isolated A) (hp : Paging s mode)
    (hstep : SupStep cfg s a t) (htest : (t.proc .test).phase ≠ .dead)
    (hspots : ∀ j, At cfg t j (w' j)) (hshift : ∀ j, Shift cfg s a t j (w j) (w' j))
    (ha : a.actor = some (.uproc j)) (hcode : (s.proc (.uproc j)).code = .tlbInvalid :: rest)
    (hw : w j = .locking) (hhas : Has s j b) (hmissing : ¬ (s.mem.pte (b, n)).Valid)
    (hmem : t.mem = s.mem.getFrame.2)
    (hw' : w' j = .fault (b, n) s.mem.getFrame.1
      (if s.mem.IsFree s.mem.getFrame.1 then .loadPage else .storePage)) :
    
    ∃ B, Views cfg t w' B ∧ Follows s w a t A B := by
  have hown := hp.running.locks.owner_of_invalid hhas.alive.2 hcode
  have hother : ∀ j', j' ≠ j → (w' j').task j' = none := fun _ hj ↦
    hv.sole_step hp.running.locks hshift hown hj
  have hidle : A.task = none := by
    cases htask : A.task with
    | none => rfl
    | some τ =>
        obtain ⟨j', hj'⟩ := (hv.task τ).mp htask
        by_cases hj : j' = j
        · rw [hj, hw] at hj'
          cases hj'
        · cases (hv.sole hp.running.locks hown hj).symm.trans hj'
  have hmap : A.map (j, n) = none := by
    cases hmap : A.map (j, n) with
    | none => rfl
    | some f =>
        obtain ⟨b', hb', -, hvalid, -⟩ := (hv.map _ _).mp hmap
        obtain rfl := Option.some.inj (hb'.support.symm.trans hhas.support)
        exact absurd hvalid hmissing
  have hself : (w' j).task j = some ⟨(j, n), s.mem.getFrame.1,
      if A.list s.mem.getFrame.1 = none then .saved else .chosen⟩ := by
    rw [hw']
    by_cases hfree : s.mem.IsFree s.mem.getFrame.1
    · rw [if_pos hfree, if_pos ((hv.list_none hp.frames).mpr hfree)]
      rfl
    · rw [if_neg hfree, if_neg fun he ↦ hfree ((hv.list_none hp.frames).mp he)]
      rfl
  have hsame : Same s.mem t.mem := by
    rw [hmem]
    exact ⟨fun _ ↦ rfl, rfl, rfl, rfl⟩
  refine ⟨_, hv.same hi hp hstep htest hspots hsame (task_of_sole hself hother),
    .acts _ (.choose hidle hmap) trivial (.inr (not_stores ha hcode (by rintro _ _ ⟨⟩)))⟩

/-- The page in the frame is unmapped. -/
theorem Views.stores (hv : Views cfg s w A) (hi : Pager.Isolated A) (hp : Paging s mode)
    (hstep : SupStep cfg s a t) (htest : (t.proc .test).phase ≠ .dead)
    (hspots : ∀ j, At cfg t j (w' j)) (hshift : ∀ j, Shift cfg s a t j (w j) (w' j))
    {e e' : PageId u} (ha : a.actor = some (.uproc j)) (hw : w j = .fault e f .storePage)
    (hpte : (s.mem.swap_pool_table f).sw_pte = some e')
    (hmem : t.mem = (s.mem.setPte e' (s.mem.pte e').unmapped.pte_entryLO).updateTLB e')
    (hw' : w' j = .fault e f .writePage) :
    ∃ B, Views cfg t w' B ∧ Follows s w a t A B := by
  have hat := hv.spots j
  rw [hw] at hat
  cases hat with
  | fault h =>
      obtain ⟨rest, hcode, -⟩ := h.code
      have hown := h.owner hp.running.locks
      have hother : ∀ j', j' ≠ j → (w' j').task j' = none := fun _ hj ↦
    hv.sole_step hp.running.locks hshift hown hj
      have htask : A.task = some ⟨(j, e.2), f, .chosen⟩ := (hv.task _).mpr ⟨j, by rw [hw]; rfl⟩
      obtain ⟨q, b, hq, hb, -, hsw⟩ := hp.frames.lists (h.taken (.inl rfl))
      obtain rfl := Option.some.inj (hsw.symm.trans hpte)
      have hentry : ∀ e, t.mem.pte e =
          if e = (b, q.2) then (s.mem.pte (b, q.2)).unmapped else s.mem.pte e := fun e ↦ by
        rw [hmem, updateTLB_pte, setPte_pte]
        rfl
      have hsame : t.mem.swap_pool_table = s.mem.swap_pool_table ∧ t.mem.ram = s.mem.ram ∧
          t.mem.flash = s.mem.flash := by
        obtain ⟨tlb, htlb⟩ := updateTLB_eq
          (s.mem.setPte (b, q.2) (s.mem.pte (b, q.2)).unmapped.pte_entryLO) (b, q.2)
        rw [hmem, htlb]
        exact ⟨rfl, rfl, rfl⟩
      obtain ⟨hpool, hram, hflash⟩ := hsame
      refine ⟨_, ⟨hspots, fun q' g ↦ ?_, fun g q' ↦ ?_, fun g ↦ ?_, fun q' ↦ ?_,
        task_of_sole (by rw [hw']; rfl) hother⟩,
        .acts _ (.unmap htask ((hv.list f q).mpr hq)) trivial
          (.inr (not_stores ha hcode (by rintro _ _ ⟨⟩)))⟩
      · change Function.update A.map q none q' = some g ↔ _
        by_cases hq' : q' = q
        · rw [hq', Function.update_self]
          refine iff_of_false (by rintro ⟨⟩) ?_
          rintro ⟨b', hb', -, hvalid, -⟩
          have hb'' := hp.waits.has hb' hp.running hstep
          obtain rfl := Option.some.inj (hb''.support.symm.trans hb.support)
          rw [hentry, if_pos rfl] at hvalid
          exact (s.mem.pte _).unmapped_invalid hvalid
        · rw [Function.update_of_ne hq', hv.map]
          refine (hv.mapped_iff hi hp hstep htest (by rw [hpool]) fun b' hb' ↦ ?_).symm
          rw [hentry, if_neg]
          intro he
          obtain ⟨rfl, hn⟩ := Prod.mk.inj he
          exact hq' (Prod.ext (hb'.unique hb hp.running.owns) hn)
      · rw [Lists, hpool]
        exact hv.list g q'
      · rw [hram]
        exact hv.ram g
      · rw [hflash]
        exact hv.disk q'

theorem not_stores_complete {d : Dev} {status : Word} (ha : a = .complete d status)
    (q : PageId u) (b : Word) (x : BitVec 8) : ¬ Stores s a t q b x := by
  rintro ⟨ha', -⟩
  rw [ha] at ha'
  cases ha'

/-- A page is written to its drive. -/
theorem Views.saves (hv : Views cfg s w A) (hi : Pager.Isolated A) (hp : Paging s mode)
    (hstep : SupStep cfg s a t) (htest : (t.proc .test).phase ≠ .dead)
    (hspots : ∀ j, At cfg t j (w' j)) (hshift : ∀ j, Shift cfg s a t j (w j) (w' j))
    {e : PageId u} {d : Int} {n : Nat} {status : Word} {g : DevReg u → DevReg u}
    (ha : a = .complete (.flash d) status) (hw : w j = .fault e f .writeCommand)
    (hd : d = (s.mem.swap_pool_table f).sw_asid - 1) (hn : n = (s.mem.swap_pool_table f).sw_pageNo)
    (hmem : t.mem = (if status = DEV_READY then { s.mem with
        flash := Function.update s.mem.flash d
          (Function.update (s.mem.flash d) n (s.mem.ram (cfg.frameAddress f))) }
      else s.mem).setDev (.flash d) g)
    (hw' : w' j = .fault e f (.checkWrite status)) :
    ∃ B, Views cfg t w' B ∧ Follows s w a t A B := by
  have hat := hv.spots j
  rw [hw] at hat
  cases hat with
  | fault h =>
      have hown := h.owner hp.running.locks
      have hother : ∀ j', j' ≠ j → (w' j').task j' = none := fun _ hj ↦
    hv.sole_step hp.running.locks hshift hown hj
      have htask : A.task = some ⟨(j, e.2), f, .unmapped⟩ := (hv.task _).mpr ⟨j, by rw [hw]; rfl⟩
      obtain ⟨q, -, hq, -⟩ := hp.frames.lists (h.taken (.inr rfl))
      rw [hq.1] at hd
      rw [hq.2] at hn
      subst hd hn
      have hsame : (∀ e, t.mem.pte e = s.mem.pte e) ∧
          t.mem.swap_pool_table = s.mem.swap_pool_table ∧ t.mem.ram = s.mem.ram := by
        rw [hmem]
        split <;> exact ⟨fun _ ↦ rfl, rfl, rfl⟩
      obtain ⟨hpte, hpool, hram⟩ := hsame
      have hflash : ∀ q', t.mem.flash (asidOf q'.1 - 1) q'.2 =
          if status = DEV_READY ∧ q' = q then s.mem.ram (cfg.frameAddress f)
          else s.mem.flash (asidOf q'.1 - 1) q'.2 := by
        intro q'
        rw [hmem]
        by_cases hok : status = DEV_READY
        · rw [if_pos hok]
          change Function.update s.mem.flash (asidOf q.1 - 1) _ (asidOf q'.1 - 1) q'.2 = _
          by_cases hj : q'.1 = q.1
          · rw [hj, Function.update_self]
            by_cases hn : q'.2 = q.2
            · rw [hn, Function.update_self, if_pos ⟨hok, Prod.ext hj hn⟩]
            · rw [Function.update_of_ne fun he ↦ hn (Fin.ext he),
                if_neg fun he ↦ hn (congrArg Prod.snd he.2)]
          · have hne : asidOf q'.1 - 1 ≠ asidOf q.1 - 1 := fun he ↦
              hj (asidOf_injective (by omega))
            rw [Function.update_of_ne hne, if_neg fun he ↦ hj (congrArg Prod.fst he.2)]
        · rw [if_neg hok, if_neg fun he ↦ hok he.1]
          rfl
      refine ⟨_, ⟨hspots, fun q' g ↦ ?_, fun g q' ↦ ?_, fun g ↦ ?_, fun q' ↦ ?_,
        task_of_sole (by rw [hw']; rfl) hother⟩,
        .acts _ (.save (decide (status = DEV_READY)) htask ((hv.list f q).mpr hq))
          ⟨_, status, ha, decide_eq_true_iff⟩ (.inr (not_stores_complete ha))⟩
      · exact (hv.map q' g).trans (hv.mapped_iff hi hp hstep htest (by rw [hpool])
          fun b _ ↦ hpte (b, q'.2)).symm
      · rw [Lists, hpool]
        exact hv.list g q'
      · rw [hram]
        exact hv.ram g
      · rw [hflash]
        change (if decide (status = DEV_READY) = true then Function.update A.disk q (A.ram f)
          else A.disk) q' = _
        by_cases hok : status = DEV_READY
        · rw [if_pos (decide_eq_true hok)]
          by_cases hq' : q' = q
          · rw [hq', Function.update_self, if_pos ⟨hok, rfl⟩]
            exact hv.ram f
          · rw [Function.update_of_ne hq', if_neg fun he ↦ hq' he.2]
            exact hv.disk q'
        · rw [if_neg fun he ↦ hok (of_decide_eq_true he), if_neg fun he ↦ hok he.1]
          exact hv.disk q'

/-- A page is read from its drive. -/
theorem Views.loads (hv : Views cfg s w A) (hi : Pager.Isolated A) (hp : Paging s mode)
    (hstep : SupStep cfg s a t) (htest : (t.proc .test).phase ≠ .dead)
    (hspots : ∀ j, At cfg t j (w' j)) (hshift : ∀ j, Shift cfg s a t j (w j) (w' j))
    {e : PageId u} {status : Word} {v : DevReg u → DevReg u}
    (ha : a = .complete (.flash (asidOf j - 1)) status) (hw : w j = .fault e f .readCommand)
    (hmem : t.mem = (if status = DEV_READY then
        s.mem.setRam (cfg.frameAddress f) (s.mem.flash (asidOf j - 1) e.2)
      else s.mem).setDev (.flash (asidOf j - 1)) v)
    (hw' : w' j = .fault e f (.checkRead status)) :
    ∃ B, Views cfg t w' B ∧ Follows s w a t A B := by
  have hat := hv.spots j
  rw [hw] at hat
  cases hat with
  | fault h =>
      have hown := h.owner hp.running.locks
      have hother : ∀ j', j' ≠ j → (w' j').task j' = none := fun _ hj ↦
    hv.sole_step hp.running.locks hshift hown hj
      have htask : A.task = some ⟨(j, e.2), f, .saved⟩ := (hv.task _).mpr ⟨j, by rw [hw]; rfl⟩
      have hsame : (∀ e, t.mem.pte e = s.mem.pte e) ∧
          t.mem.swap_pool_table = s.mem.swap_pool_table ∧ t.mem.flash = s.mem.flash := by
        rw [hmem]
        split <;> exact ⟨fun _ ↦ rfl, rfl, rfl⟩
      obtain ⟨hpte, hpool, hflash⟩ := hsame
      have hram : ∀ g, t.mem.ram (cfg.frameAddress g) =
          if status = DEV_READY ∧ g = f then s.mem.flash (asidOf j - 1) e.2
          else s.mem.ram (cfg.frameAddress g) := by
        intro g
        rw [hmem]
        by_cases hok : status = DEV_READY
        · rw [if_pos hok]
          have hset : ∀ x page, ((s.mem.setRam x page).setDev (.flash (asidOf j - 1)) v).ram =
              Function.update s.mem.ram x page := fun _ _ ↦ rfl
          rw [hset]
          by_cases hg : g = f
          · rw [hg, Function.update_self, if_pos ⟨hok, rfl⟩]
          · rw [Function.update_of_ne fun he ↦ hg (frameAddress_injective cfg he),
              if_neg fun he ↦ hg he.2]
        · rw [if_neg hok, if_neg fun he ↦ hok he.1]
          rfl
      refine ⟨_, ⟨hspots, fun q' g ↦ ?_, fun g q' ↦ ?_, fun g ↦ ?_, fun q' ↦ ?_,
        task_of_sole (by rw [hw']; rfl) hother⟩,
        .acts _ (.load (decide (status = DEV_READY)) htask)
          ⟨_, status, ha, decide_eq_true_iff⟩ (.inr (not_stores_complete ha))⟩
      · exact (hv.map q' g).trans (hv.mapped_iff hi hp hstep htest (by rw [hpool])
          fun b _ ↦ hpte (b, q'.2)).symm
      · rw [Lists, hpool]
        exact hv.list g q'
      · rw [hram]
        change (if decide (status = DEV_READY) = true then Function.update A.ram f (A.disk (j, e.2))
          else A.ram) g = _
        by_cases hok : status = DEV_READY
        · rw [if_pos (decide_eq_true hok)]
          by_cases hg : g = f
          · rw [hg, Function.update_self, if_pos ⟨hok, rfl⟩]
            exact hv.disk (j, e.2)
          · rw [Function.update_of_ne hg, if_neg fun he ↦ hg he.2]
            exact hv.ram g
        · rw [if_neg fun he ↦ hok (of_decide_eq_true he), if_neg fun he ↦ hok he.1]
          exact hv.ram g
      · rw [hflash]
        exact hv.disk q'

/-- After a transfer that has failed the page is given up. -/
theorem Views.quits (hv : Views cfg s w A) (hi : Pager.Isolated A) (hp : Paging s mode)
    (hstep : SupStep cfg s a t) (htest : (t.proc .test).phase ≠ .dead)
    (hspots : ∀ j, At cfg t j (w' j)) (hshift : ∀ j, Shift cfg s a t j (w j) (w' j))
    {e : PageId u} {pt : Point} {status : Word} (ha : a.actor = some (.uproc j))
    (hw : w j = .fault e f pt) (hpt : pt = .checkWrite status ∨ pt = .checkRead status)
    (hstatus : status = FLASH_WRITE_ERROR ∨ status = FLASH_READ_ERROR) (hmem : t.mem = s.mem)
    (hw' : w' j = .quiet) :
    ∃ B, Views cfg t w' B ∧ Follows s w a t A B := by
  have hat := hv.spots j
  rw [hw] at hat
  cases hat with
  | fault h =>
      obtain ⟨rest, hcode, -⟩ := h.code
      have hown := h.owner hp.running.locks
      have hnone : ∀ j', (w' j').task j' = none := fun j' ↦ by
        by_cases hj : j' = j
        · rw [hj, hw']
          rfl
        · exact hv.sole_step hp.running.locks hshift hown hj
      have htask : A.task = some ⟨(j, e.2), f, pt.stage⟩ := (hv.task _).mpr ⟨j, by rw [hw]; rfl⟩
      have hsame : Same s.mem t.mem := by
        rw [hmem]
        exact ⟨fun _ ↦ rfl, rfl, rfl, rfl⟩
      refine ⟨_, hv.same hi hp hstep htest hspots hsame (task_of_none hnone),
        .acts _ (.quit htask ?_) ⟨j, e, f, pt, status, ha, hw, hpt, hstatus⟩ (.inr ?_)⟩
      · rcases hpt with rfl | rfl
        · exact .inl rfl
        · exact .inr rfl
      · rcases hpt with rfl | rfl <;> exact not_stores ha hcode (by rintro _ _ ⟨⟩)

/-- The frame is recorded as that of the page. -/
theorem Views.records (hv : Views cfg s w A) (hi : Pager.Isolated A) (hp : Paging s mode)
    (hstep : SupStep cfg s a t) (htest : (t.proc .test).phase ≠ .dead)
    (hspots : ∀ j, At cfg t j (w' j)) (hshift : ∀ j, Shift cfg s a t j (w j) (w' j))
    {e : PageId u} (ha : a.actor = some (.uproc j)) (hw : w j = .fault e f .recordFrame)
    (hmem : t.mem = s.mem.setFrame f { sw_asid := asidOf j, sw_pageNo := e.2, sw_pte := some e })
    (hw' : w' j = .fault e f .mapPage) :
    ∃ B, Views cfg t w' B ∧ Follows s w a t A B := by
  have hat := hv.spots j
  rw [hw] at hat
  cases hat with
  | fault h =>
      obtain ⟨rest, hcode, -⟩ := h.code
      have hown := h.owner hp.running.locks
      have hother : ∀ j', j' ≠ j → (w' j').task j' = none := fun _ hj ↦
    hv.sole_step hp.running.locks hshift hown hj
      have htask : A.task = some ⟨(j, e.2), f, .loaded⟩ := (hv.task _).mpr ⟨j, by rw [hw]; rfl⟩
      have hclear := hi.clear _ _ _ htask (by rintro ⟨⟩)
      have hpte : ∀ e, t.mem.pte e = s.mem.pte e := fun e ↦ by rw [hmem]; rfl
      have hself : t.mem.swap_pool_table f =
          { sw_asid := asidOf j, sw_pageNo := e.2, sw_pte := some e } := by
        rw [hmem]
        exact Function.update_self ..
      have hne : ∀ g, g ≠ f → t.mem.swap_pool_table g = s.mem.swap_pool_table g := fun g hg ↦ by
        rw [hmem]
        exact Function.update_of_ne hg ..
      refine ⟨_, ⟨hspots, fun q g ↦ ?_, fun g q ↦ ?_, fun g ↦ ?_, fun q ↦ ?_,
        task_of_sole (by rw [hw']; rfl) hother⟩,
        .acts _ (.record htask) trivial (.inr (not_stores ha hcode (by rintro _ _ ⟨⟩)))⟩
      · by_cases hg : g = f
        · subst hg
          refine iff_of_false (hclear q) fun hm ↦ hclear q ((hv.map q g).mpr ?_)
          exact hm.before hp hstep fun b _ ↦ hpte (b, q.2)
        · exact (hv.map q g).trans (hv.mapped_iff hi hp hstep htest (hne g hg)
            fun b _ ↦ hpte (b, q.2)).symm
      · change Function.update A.list f (some (j, e.2)) g = some q ↔ _
        by_cases hg : g = f
        · subst hg
          rw [Function.update_self, Lists, hself]
          refine ⟨fun he ↦ ?_, fun h ↦ congrArg some ?_⟩
          · rw [← Option.some.inj he]
            exact ⟨rfl, rfl⟩
          · exact Prod.ext (asidOf_injective h.1) (Fin.ext h.2)
        · rw [Function.update_of_ne hg, Lists, hne g hg]
          exact hv.list g q
      · rw [hmem]
        exact hv.ram g
      · rw [hmem]
        exact hv.disk q

/-- The page is mapped to the frame. -/
theorem Views.maps (hv : Views cfg s w A) (hi : Pager.Isolated A) (hp : Paging s mode)
    (hstep : SupStep cfg s a t) (htest : (t.proc .test).phase ≠ .dead)
    (hspots : ∀ j, At cfg t j (w' j)) (hshift : ∀ j, Shift cfg s a t j (w j) (w' j))
    {e : PageId u} (ha : a.actor = some (.uproc j)) (hw : w j = .fault e f .mapPage)
    (hmem : t.mem = (s.mem.setPte e
      ((s.mem.pte e).mapped (cfg.frameAddress f)).pte_entryLO).updateTLB e)
    (hw' : w' j = .quiet) :
    ∃ B, Views cfg t w' B ∧ Follows s w a t A B := by
  have hat := hv.spots j
  rw [hw] at hat
  cases hat with
  | fault h =>
      obtain ⟨rest, hcode, -⟩ := h.code
      have hown := h.owner hp.running.locks
      have hnone : ∀ j', (w' j').task j' = none := fun j' ↦ by
        by_cases hj : j' = j
        · rw [hj, hw']
          rfl
        · exact hv.sole_step hp.running.locks hshift hown hj
      have htask : A.task = some ⟨(j, e.2), f, .recorded⟩ := (hv.task _).mpr ⟨j, by rw [hw]; rfl⟩
      have hlist := (hv.list f _).mp (hi.recorded _ _ htask)
      have hentry : ∀ e', t.mem.pte e' =
          if e' = e then (s.mem.pte e).mapped (cfg.frameAddress f) else s.mem.pte e' := fun e' ↦ by
        rw [hmem, updateTLB_pte, setPte_pte]
        rfl
      have hsame : t.mem.swap_pool_table = s.mem.swap_pool_table ∧ t.mem.ram = s.mem.ram ∧
          t.mem.flash = s.mem.flash := by
        obtain ⟨tlb, htlb⟩ := updateTLB_eq
          (s.mem.setPte e ((s.mem.pte e).mapped (cfg.frameAddress f)).pte_entryLO) e
        rw [hmem, htlb]
        exact ⟨rfl, rfl, rfl⟩
      obtain ⟨hpool, hram, hflash⟩ := hsame
      obtain ⟨hhas, hfrees⟩ := hp.frames.frees hp.running hstep htest h.has
        (.inl (h.working hp.running.shapes)) (by rw [hpool]; exact hlist.1)
      refine ⟨_, ⟨hspots, fun q g ↦ ?_, fun g q ↦ ?_, fun g ↦ ?_, fun q ↦ ?_,
        task_of_none hnone⟩,
        .acts _ (.install htask) trivial (.inr (not_stores ha hcode (by rintro _ _ ⟨⟩)))⟩
      · change Function.update A.map (j, e.2) (some f) q = some g ↔ _
        by_cases hq : q = (j, e.2)
        · subst hq
          rw [Function.update_self]
          refine ⟨fun he ↦ ?_, ?_⟩
          · obtain rfl := Option.some.inj he
            refine ⟨e.1, hhas, hfrees, ?_, ?_⟩ <;> rw [hentry, if_pos rfl]
            · exact (s.mem.pte e).mapped_valid _
            · exact (s.mem.pte e).mapped_frame (frameAddress_aligned cfg f)
          · rintro ⟨b, hb, -, -, hframe⟩
            obtain rfl := Option.some.inj (hb.support.symm.trans hhas.support)
            rw [hentry, if_pos rfl, PteEntry.mapped_frame _ (frameAddress_aligned cfg f)] at hframe
            exact congrArg some (frameAddress_injective cfg hframe)
        · rw [Function.update_of_ne hq, hv.map]
          refine (hv.mapped_iff hi hp hstep htest (by rw [hpool]) fun b hb ↦ ?_).symm
          rw [hentry, if_neg]
          rintro rfl
          exact hq (Prod.ext (hb.unique h.has hp.running.owns) rfl)
      · rw [Lists, hpool]
        exact hv.list g q
      · rw [hram]
        exact hv.ram g
      · rw [hflash]
        exact hv.disk q

/-- The code of a U-proc that is not at its end. -/
theorem Shapes.working (h : Shapes s) (hphase : (s.proc (.uproc j)).phase ≠ .dead)
    (hcode : (s.proc (.uproc j)).code = i :: rest)
    (hi : i.sem? = none ∧ ¬ i.Plain ∧ i ≠ .deallocate ∧ i ≠ .termProcess) :
    Working (s.proc (.uproc j)).code := by
  refine (h j hphase).resolve_right fun hend ↦ ?_
  rw [hcode] at hend
  rcases hend.head with h | h | h | h
  · exact h hi.1
  · exact hi.2.1 h
  · exact hi.2.2.1 h
  · exact hi.2.2.2 h

/-- What an access of a U-proc to a page of its own finds. -/
theorem Paging.finds (hp : Paging s mode) (hpooled : Pooled cfg s) {e : PteEntry} {w : Word}
    (hready : (s.proc (.uproc j)).phase = .ready) (hcode : (s.proc (.uproc j)).code = i :: rest)
    (hi : (∃ w, i = .load w) ∨ ∃ w x, i = .store w x) (hslot : slotOf w = some n)
    (hhit : s.mem.tlbHit (entryHi (w >>> 12) (asidOf j)) = some e) (hvalid : e.Valid) :
    ∃ f, Mapped cfg s (j, n) f ∧ e.frame = cfg.frameAddress f := by
  have hfacts : i.sem? = none ∧ ¬ i.Plain ∧ i ≠ .deallocate ∧ i ≠ .termProcess := by
    rcases hi with ⟨w, rfl⟩ | ⟨w, x, rfl⟩ <;>
      exact ⟨rfl, fun h ↦ h, by rintro ⟨⟩, by rintro ⟨⟩⟩
  obtain ⟨b, hb, -⟩ := hp.running.owns.own j (hready ▸ .ready)
    (hcode ▸ not_leaving_cons hfacts.1 hfacts.2.2.2)
  have hhas := (hp.running.owns.has hready hcode hfacts.1 hfacts.2.2.2 hb).1
  rw [slotOf_page hslot] at hhit
  obtain rfl := hp.coherent.hit hhas hhit
  obtain ⟨f, hframe⟩ := hpooled j b hhas n hvalid
  refine ⟨f, ⟨b, hhas, .inl (hp.running.shapes.working ?_ hcode hfacts), hvalid, hframe⟩, hframe⟩
  rw [hready]
  rintro ⟨⟩

/-- A U-proc writes to a page of its own. -/
theorem Views.writes (hv : Views cfg s w A) (hi : Pager.Isolated A) (hp : Paging s mode)
    (hpooled : Pooled cfg s) (hstep : SupStep cfg s a t) (htest : (t.proc .test).phase ≠ .dead)
    (hspots : ∀ j, At cfg t j (w' j)) (htask : ∀ j, (w' j).task j = (w j).task j) {q : PageId u}
    {b : Word} {x : BitVec 8} (hst : Stores s a t q b x) :
    ∃ B, Views cfg t w' B ∧ Follows s w a t A B := by
  obtain ⟨ha, hslot, rest, hcode, hdone⟩ := id hst
  obtain ⟨hready, c, ⟨hexec, -⟩ | ⟨hexec, -⟩⟩ := hstep.exec ha hcode rfl (by rintro ⟨⟩)
    (by rintro _ _ ⟨⟩)
  swap
  · exact absurd hexec (hp.frames.no_fault hp.running.owns hready hcode)
  simp only [exec, hslot] at hexec
  obtain ⟨e, hhit, hvalid, -, hgo⟩ := access_done hexec hcode hdone
  obtain ⟨hmem, -⟩ := Outcome.ok.inj hgo
  obtain ⟨f, hmapped, hframe⟩ := hp.finds hpooled hready hcode (.inr ⟨b, x, rfl⟩) hslot hhit hvalid
  rw [hframe] at hmem
  have hmap := (hv.map q f).mpr hmapped
  refine ⟨_, ⟨hspots, fun q' g ↦ ?_, fun g q' ↦ ?_, fun g ↦ ?_, fun q' ↦ ?_, fun τ ↦ ?_⟩,
    .acts _ (.write (Function.update (A.ram f) (pageOffset b) x) hmap)
      ⟨b, x, f, hst, hmap, rfl⟩ (.inl ⟨_, _, rfl⟩)⟩
  · exact (hv.map q' g).trans (hv.mapped_iff hi hp hstep htest (by rw [← hmem]; rfl)
      fun b _ ↦ by rw [← hmem]; rfl).symm
  · rw [Lists, ← hmem]
    exact hv.list g q'
  · rw [← hmem]
    have hset : ∀ w page, (s.mem.setRam w page).ram = Function.update s.mem.ram w page :=
      fun _ _ ↦ rfl
    rw [hset]
    dsimp only
    by_cases hg : g = f
    · rw [hg, Function.update_self, Function.update_self, hv.ram]
    · rw [Function.update_of_ne hg,
        Function.update_of_ne fun he ↦ hg (frameAddress_injective cfg he)]
      exact hv.ram g
  · rw [← hmem]
    exact hv.disk q'
  · simp only [htask]
    exact hv.task τ

/-- A U-proc frees a frame of its own. -/
theorem Views.frees (hv : Views cfg s w A) (hi : Pager.Isolated A) (hp : Paging s mode)
    (hstep : SupStep cfg s a t) (htest : (t.proc .test).phase ≠ .dead)
    (hspots : ∀ j, At cfg t j (w' j)) (htask : ∀ j, (w' j).task j = (w j).task j)
    (ha : a.actor = some (.uproc j)) (hready : (s.proc (.uproc j)).phase = .ready)
    (hcode : (s.proc (.uproc j)).code = .freeFrame (asidOf j) f :: rest)
    (hasid : (s.mem.swap_pool_table f).sw_asid = asidOf j) (hdone : (t.proc (.uproc j)).code = rest)
    (hmem : t.mem = s.mem.setFrame f .free) :
    ∃ B, Views cfg t w' B ∧ Follows s w a t A B := by
  have hown : mode .swapPool (.uproc j) = .owner :=
    hp.running.locks.owner_of_frame (by rw [hready]; rintro ⟨⟩) hcode fun _ ↦ rfl
  have hend : Ending (asidOf j) (s.proc (.uproc j)).code := by
    refine (hp.running.shapes j (by rw [hready]; rintro ⟨⟩)).resolve_left fun hwork ↦ ?_
    rw [hcode] at hwork
    exact hwork.head
  have hidle : A.task = none := by
    cases htask : A.task with
    | none => rfl
    | some τ =>
        obtain ⟨j', hj'⟩ := (hv.task τ).mp htask
        by_cases hj : j' = j
        · have hat := hv.spots j'
          generalize w j' = x at hat hj'
          cases hat with
          | fault h =>
              subst hj
              exact absurd (h.working hp.running.shapes) hend.not_working
          | _ => cases hj'
        · cases (hv.sole hp.running.locks hown hj).symm.trans hj'
  have hfree : ¬ s.mem.IsFree f := fun hfree ↦ asidOf_ne_NOPROC j (hasid.symm.trans hfree)
  obtain ⟨q, -, hq, -⟩ := hp.frames.lists hfree
  have hpte : ∀ e, t.mem.pte e = s.mem.pte e := fun e ↦ by rw [hmem]; rfl
  have hself : t.mem.swap_pool_table f = .free := by
    rw [hmem]
    exact Function.update_self ..
  have hne : ∀ g, g ≠ f → t.mem.swap_pool_table g = s.mem.swap_pool_table g := fun g hg ↦ by
    rw [hmem]
    exact Function.update_of_ne hg ..
  -- the U-proc has freed the frame, and no other has pages there
  have hgone : ∀ q', ¬ Mapped cfg t q' f := fun q' hm ↦ by
    have hlist := (hv.list f q').mp (hi.listed q' f ((hv.map q' f).mpr
      (hm.before hp hstep fun b _ ↦ hpte (b, q'.2))))
    obtain ⟨b, hb, hfrees, -⟩ := hm
    rw [asidOf_injective (hlist.1.symm.trans hasid)] at hb hfrees
    rw [hcode] at hend
    have htail := hend.tail (.inl trivial)
    rw [Frees, hdone] at hfrees
    exact hfrees.elim htail.not_working hend.frees_once
  refine ⟨_, ⟨hspots, fun q' g ↦ ?_, fun g q' ↦ ?_, fun g ↦ ?_, fun q' ↦ ?_, fun τ ↦ ?_⟩,
    .acts _ (.free hidle ((hv.list f q).mpr hq)) ⟨j, rest, ha, hcode, hdone, hasid⟩
      (.inr (not_stores ha hcode (by rintro _ _ ⟨⟩)))⟩
  · change (if A.map q' = some f then none else A.map q') = some g ↔ _
    by_cases hg : g = f
    · rw [hg]
      refine iff_of_false (fun he ↦ ?_) (hgone q')
      split at he
      · cases he
      · exact absurd he ‹_›
    · refine Iff.trans ?_ ((hv.map q' g).trans (hv.mapped_iff hi hp hstep htest (hne g hg)
        fun b _ ↦ hpte (b, q'.2)).symm)
      split
      · rename_i hmap
        rw [hmap]
        exact iff_of_false (by rintro ⟨⟩) fun he ↦ hg (Option.some.inj he).symm
      · exact Iff.rfl
  · change Function.update A.list f none g = some q' ↔ _
    by_cases hg : g = f
    · rw [hg, Function.update_self]
      refine iff_of_false (by rintro ⟨⟩) fun hl ↦ hl.not_free ?_
      rw [Memory.IsFree, hself]
      rfl
    · rw [Function.update_of_ne hg, Lists, hne g hg]
      exact hv.list g q'
  · rw [hmem]
    exact hv.ram g
  · rw [hmem]
    exact hv.disk q'
  · simp only [htask]
    exact hv.task τ

/-- When the handler of page faults does nothing of importance, a U-proc may write to its
memory or free a frame, and that is all. -/
theorem Views.otherwise (hv : Views cfg s w A) (hi : Pager.Isolated A) (hp : Paging s mode)
    (hpooled : Pooled cfg s) (hu : u < 64) (hstep : SupStep cfg s a t)
    (htest : (t.proc .test).phase ≠ .dead) (hspots : ∀ j, At cfg t j (w' j))
    (htask : ∀ j, (w' j).task j = (w j).task j)
    (hactor : ∀ j, a.actor = some (.uproc j) → ∀ i rest, (s.proc (.uproc j)).code = i :: rest →
      ¬ i.Maps)
    (hanswer : ∀ j d status, a = .complete (.flash d) status →
      t.proc (.uproc j) = s.proc (.uproc j)) :
    ∃ B, Views cfg t w' B ∧ Follows s w a t A B := by
  by_cases hst : ∃ q b x, Stores s a t q b x
  · obtain ⟨q, b, x, hst⟩ := hst
    exact hv.writes hi hp hpooled hstep htest hspots htask hst
  have hno : ∀ q b x, ¬ Stores s a t q b x := fun q b x h ↦ hst ⟨q, b, x, h⟩
  have hidle : Same s.mem t.mem → ∃ B, Views cfg t w' B ∧ Follows s w a t A B :=
    fun hsame ↦ ⟨A, hv.same hi hp hstep htest hspots hsame fun τ ↦ by
      simp only [htask]; exact hv.task τ, .idle hno⟩
  have hwaits : ∀ {i rest}, (s.proc .test).code = i :: rest → i.sem? = none → i ≠ .termProcess →
      False := by
    intro i rest hcode hsem hterm
    rcases hp.waits with hw | ⟨n, hw⟩
    · cases hcode.symm.trans hw
    · rcases awaits_cons (hw.symm.trans hcode) with rfl | ⟨rfl, -⟩
      · exact hterm rfl
      · cases hsem
  cases hstep.touches with
  | nothing h => exact hidle (by rw [h]; exact ⟨fun _ ↦ rfl, rfl, rfl, rfl⟩)
  | calm h => exact hidle h.same
  | ran p c i rest ha hready hcode hexec =>
      obtain ⟨hsem, hterm⟩ := hexec.not_sem
      cases p with
      | test => exact (hwaits hcode hsem hterm).elim
      | uproc j =>
          have hact : a.actor = some (.uproc j) := by rw [ha]; rfl
          rcases hexec.untouched (hactor j hact i rest hcode)
              (hp.running.shapes.not_test hready hcode)
            with hsame | ⟨b, x, e, rfl, hhit, hdone⟩ | ⟨asid, f, rfl, hasid, hdone, hmem⟩
          · exact hidle hsame
          · obtain ⟨hhi, l, hl⟩ := tlbHit_some hhit
            obtain ⟨j', n, -, hhi'⟩ := hp.coherent.tagged l e hl
            have hslot := slotOf_eq_some.mpr (entryHi_address hu (hhi.symm.trans hhi'))
            exact absurd ⟨hact, hslot, rest, hcode, hdone⟩ (hno (j, n) b x)
          · obtain rfl := hp.frames.own j _ (hcode ▸ List.mem_cons_self)
            exact hv.frees hi hp hstep htest hspots htask hact hready hcode hasid hdone hmem
  | answered d status p l ha hwaiting hmem =>
      subst ha
      cases d with
      | flash d =>
          obtain ⟨p', c, rest, hphase, hcode, hproc, -⟩ := hstep.answers hp.running.placed
          cases p' with
          | test => exact (hwaits hcode rfl (by rintro ⟨⟩)).elim
          | uproc j =>
              rw [hanswer j d status rfl] at hproc
              rw [hproc] at hphase
              cases hphase
      | _ => exact hidle (by rw [hmem]; exact ⟨fun _ ↦ rfl, rfl, rfl, rfl⟩)
  | killed dies h => exact hidle (by rw [h]; exact ⟨fun _ ↦ rfl, rfl, rfl, rfl⟩)

/-- A step of the support level is one of the abstract pager, or leaves it as it is. -/
theorem Views.step (hv : Views cfg s w A) (hi : Pager.Isolated A) (hp : Paging s mode)
    (hpooled : Pooled cfg s) (hu : u < 64) (hstep : SupStep cfg s a t)
    (htest : (t.proc .test).phase ≠ .dead) :
    ∃ w' B, Views cfg t w' B ∧ Follows s w a t A B ∧ ∀ j, Shift cfg s a t j (w j) (w' j) := by
  have hall := fun j ↦ (hv.spots j).step hp hu hstep htest
  choose w' hspots hshift using hall
  refine ⟨w', ?_⟩
  suffices h : ∃ B, Views cfg t w' B ∧ Follows s w a t A B from
    h.imp fun B hB ↦ ⟨hB.1, hB.2, hshift⟩
  by_cases hkeeps : ∀ j, (w' j).task j = (w j).task j ∧ (a.actor = some (.uproc j) →
      ∀ i rest, (s.proc (.uproc j)).code = i :: rest → ¬ i.Maps) ∧
      ∀ d status, a = .complete (.flash d) status → t.proc (.uproc j) = s.proc (.uproc j)
  · exact hv.otherwise hi hp hpooled hu hstep htest hspots (fun j ↦ (hkeeps j).1)
      (fun j ↦ (hkeeps j).2.1) fun j ↦ (hkeeps j).2.2
  -- one U-proc goes on with its page fault
  obtain ⟨j, hj⟩ := not_forall.mp hkeeps
  generalize hx : w j = x, hx' : w' j = x' at hj
  have hs := hshift j
  rw [hx, hx'] at hs
  cases hs with
  | keeps htask hstatus hactor hanswer => exact absurd ⟨htask, hactor, hanswer⟩ hj
  | chooses b n rest ha hcode hhas hmissing hmem =>
      exact hv.chooses hi hp hstep htest hspots hshift ha hcode hx hhas hmissing hmem hx'
  | stores e' ha hpte hmem =>
      exact hv.stores hi hp hstep htest hspots hshift ha hx hpte hmem hx'
  | saves d n status g ha hd hn hmem =>
      exact hv.saves hi hp hstep htest hspots hshift ha hx hd hn hmem hx'
  | loads status g ha hmem => exact hv.loads hi hp hstep htest hspots hshift ha hx hmem hx'
  | quits status ha hpt hstatus hmem =>
      exact hv.quits hi hp hstep htest hspots hshift ha hx hpt hstatus hmem hx'
  | records ha hmem => exact hv.records hi hp hstep htest hspots hshift ha hx hmem hx'
  | maps ha hmem => exact hv.maps hi hp hstep htest hspots hshift ha hx hmem hx'

end PandosPlus.SupportLevel
