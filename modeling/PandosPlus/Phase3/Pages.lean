import PandosPlus.Phase3.Paging
import PandosPlus.Phase3.Shutdown

/-!
# The pages of the U-procs

From the start of the U-procs to the end of `test`, the support level runs the abstract pager.
So whatever the drives return no frame is shared, and what the TLB, the page tables and the
swap pool table say agrees.  As long as no page fault is given up over the page of another,
the swap pool table says what is mapped.  As long as the drives do not fail, each U-proc finds
in its pages what it has written.
-/

namespace PandosPlus.SupportLevel

open Lts

variable {u m k : Nat} {cfg : PoolConfig m} {s t : System u m k} {p : Actor u}
variable {a : Event u k} {i : Instr u m} {rest : List (Instr u m)}
variable {j b : Fin u} {f g : Fin (m + 1)} {n : Fin 32}
variable {w w' : Fin u → Spot u m} {A B : Pager.State (PageId u) (Fin (m + 1)) Page}
variable {first : Fin u × Fin 32 → PteEntry} {q : PageId u}
variable {mode : SemId → Actor u → TaggedLock.Mode}

/-! ## The first state -/

/-- The blocks of the drives that the pages of the U-procs are loaded from. -/
def System.blocks (s : System u m k) (q : PageId u) : Page := s.mem.flash (asidOf q.1 - 1) q.2

variable (cfg) in
/-- The abstract pager before the first page fault. -/
def System.pager (s : System u m k) : Pager.State (PageId u) (Fin (m + 1)) Page where
  map := fun _ ↦ none
  list := fun _ ↦ none
  ram f := s.mem.ram (cfg.frameAddress f)
  disk := s.blocks
  task := none

theorem Started.views (h : Started s) : Views cfg s (fun _ ↦ .quiet) (s.pager cfg) where
  spots j := .quiet (by rw [(h.born j).2]; exact .nil)
  map q f := by
    refine iff_of_false (by rintro ⟨⟩) ?_
    rintro ⟨b, hb, -, hvalid, -⟩
    exact h.unmapped hb q.2 hvalid
  list f q := by
    refine iff_of_false (by rintro ⟨⟩) fun hq ↦ hq.not_free ?_
    rw [Memory.IsFree, h.swap_pool_table]
    rfl
  ram f := rfl
  disk q := rfl
  task τ := by
    refine iff_of_false (by rintro ⟨⟩) ?_
    rintro ⟨j, ⟨⟩⟩

theorem System.pager_isolated (s : System u m k) : Pager.Isolated (s.pager cfg) :=
  ⟨fun _ _ h ↦ (by cases h), fun _ _ _ h ↦ (by cases h), fun _ _ h ↦ (by cases h)⟩

theorem Started.drives (h : Started s) : Drives s := by
  have hnil : ∀ j, (s.proc (.uproc j)).code = [] := fun j ↦ (h.born j).2
  refine ⟨fun j i hi ↦ ?_, fun j d w rest hcode ↦ ?_⟩
  · rw [hnil] at hi
    exact absurd hi List.not_mem_nil
  · cases (hnil j).symm.trans hcode

/-! ## What holds in every state -/

variable (cfg first) in
/-- What holds of the pages in every state, whatever the drives return. -/
structure Pages (s : System u m k) (w : Fin u → Spot u m)
    (A : Pager.State (PageId u) (Fin (m + 1)) Page) : Prop where
  waiting : Waiting s
  orderly : Orderly s
  drives : Drives s
  coherent : Coherent s
  pooled : Pooled cfg s
  kept : Kept first s
  listed : ∀ f, s.mem.swap_pool_table f = .free ∨ Listed s f
  views : Views cfg s w A
  isolated : Pager.Isolated A

theorem Started.pages (h : Started s) : Pages cfg s.mem.pte s (fun _ ↦ .quiet) (s.pager cfg) where
  waiting := h.waiting
  orderly := h.orderly
  drives := h.drives
  coherent := h.coherent
  pooled _ _ hb n hvalid := absurd hvalid (h.unmapped hb n)
  kept _ _ _ _ := ⟨rfl, rfl⟩
  listed _ := .inl (by rw [h.swap_pool_table])
  views := h.views
  isolated := s.pager_isolated

theorem Pages.paging (h : Pages cfg first s w A) (hstep : SupStep cfg s a t) :
    ∃ mode, Paging s mode := by
  obtain ⟨⟨mode, hr⟩, hw⟩ := h.waiting
  exact ⟨mode, hr, h.orderly.sound.frames (h.orderly.sound.active hstep), h.drives, h.coherent, hw⟩

theorem SupStep.kills (h : SupStep cfg s a t) (ha : a.actor = some p)
    (hcode : (s.proc p).code = .termProcess :: rest) : t = s.kill p.progeny := by
  have hsame : ∀ {p' : Actor u} {c : Choice k}, (Event.run p' c).actor = some p → p' = p :=
    fun h ↦ Option.some.inj h
  cases h.moved with
  | passeren hready hcode' =>
      obtain rfl := hsame ha
      cases hcode.symm.trans hcode'
  | verhogen hready hcode' =>
      obtain rfl := hsame ha
      cases hcode.symm.trans hcode'
  | terminated hready hcode' => rw [hsame ha]
  | created hready hcode' =>
      obtain rfl := hsame ha
      cases hcode.symm.trans hcode'
  | ran hready hcode' hexec =>
      obtain rfl := hsame ha
      obtain ⟨rfl, -⟩ := List.cons.inj (hcode.symm.trans hcode')
      cases hexec
  | faulted hready hcode' hexec =>
      obtain rfl := hsame ha
      obtain ⟨rfl, -⟩ := List.cons.inj (hcode.symm.trans hcode')
      cases hexec
  | left hready hcode' =>
      obtain rfl := Option.some.inj ha
      cases hcode.symm.trans hcode'
  | completed => cases ha

/-- The last step is that of `test`. -/
theorem Orderly.kills (h : Orderly s) (hstep : SupStep cfg s a t)
    (htest : (t.proc .test).phase = .dead) :
    a.actor = some .test ∧ t = s.kill Actor.test.progeny := by
  rcases h.supported.spared hstep .test (h.sound.active hstep) htest with ⟨j, hj, -⟩ | ⟨ha, -⟩
  · cases hj
  · exact ⟨ha, hstep.kills ha (h.last hstep htest)⟩

/-- The abstract pager is done when `test` calls TERMPROCESS. -/
theorem Pages.done (h : Pages cfg first s w A) (hstep : SupStep cfg s a t)
    (htest : (t.proc .test).phase = .dead) :
    (∀ f, s.mem.swap_pool_table f = .free) ∧ A.task = none ∧ ∀ q, A.map q = none := by
  have hcode := h.orderly.last hstep htest
  have hs := h.orderly.sound.active hstep
  have hall := (h.orderly.signals hs).all (by rw [System.awaited, hcode]; rfl)
  have hgone : ∀ j b, ¬ Has s j b := fun j b hb ↦ by
    rcases hall j with hdead | hend
    · exact hb.alive.2 hdead
    · exact hb.stays (.inr hend)
  refine ⟨fun f ↦ (h.listed f).resolve_right ?_, ?_, fun q ↦ ?_⟩
  · rintro ⟨j, b, n, -, hb, -⟩
    exact hgone j b hb
  · cases htask : A.task with
    | none => rfl
    | some τ =>
        obtain ⟨j, hj⟩ := (h.views.task τ).mp htask
        have hat := h.views.spots j
        generalize w j = x at hat hj
        cases hat with
        | fault hfault => exact absurd hfault.has (hgone j _)
        | _ => cases hj
  · cases hmap : A.map q with
    | none => rfl
    | some f =>
        obtain ⟨b, hb, -⟩ := (h.views.map q f).mp hmap
        exact absurd hb (hgone q.1 b)

/-- The abstract pager stays as it is when everyone is killed. -/
theorem Pages.last (h : Pages cfg first s w A) (hstep : SupStep cfg s a t)
    (htest : (t.proc .test).phase = .dead) :
    (∀ f, t.mem.swap_pool_table f = .free) ∧ Views cfg t (fun _ ↦ .quiet) A := by
  obtain ⟨hfree, htask, hmap⟩ := h.done hstep htest
  obtain ⟨-, rfl⟩ := h.orderly.kills hstep htest
  refine ⟨hfree, fun j ↦ .quiet .nil, fun q f ↦ ?_, h.views.list, h.views.ram, h.views.disk,
    fun τ ↦ ?_⟩
  · rw [hmap]
    refine iff_of_false (by rintro ⟨⟩) ?_
    rintro ⟨b, hb, -⟩
    exact hb.alive.2 rfl
  · rw [htask]
    refine iff_of_false (by rintro ⟨⟩) ?_
    rintro ⟨j, ⟨⟩⟩

/-- Each step is one of the abstract pager, or leaves it as it is. -/
theorem Pages.step (h : Pages cfg first s w A) (hu : u < 64) (hstep : SupStep cfg s a t) :
    ∃ w' B, Pages cfg first t w' B ∧ Follows s w a t A B ∧
      ∀ j v, (w' j).status? = some v → (w j).status? = some v ∨
        ∃ d, a = .complete (.flash d) v := by
  obtain ⟨mode, hp⟩ := h.paging hstep
  have hwaiting := (h.waiting.step hstep).1
  have horderly := h.orderly.step hu (h.waiting.step hstep).2
  have hdrives := h.drives.step hu hp.running hp.frames hstep
  have hcoherent := h.coherent.step hu hp.running hp.frames hstep
  have hpooled := h.pooled.step hu hp.running hp.frames hp.waits hstep
  have hkept := h.kept.step hu hp.running hp.frames hp.waits hstep
  by_cases htest : (t.proc .test).phase = .dead
  · obtain ⟨hfree, hviews⟩ := h.last hstep htest
    obtain ⟨ha, -⟩ := h.orderly.kills hstep htest
    refine ⟨_, A, ⟨hwaiting, horderly, hdrives, hcoherent, hpooled, hkept, fun f ↦ .inl (hfree f),
      hviews, h.isolated⟩, .idle ?_, fun j v hv ↦ by cases hv⟩
    rintro q b x ⟨ha', -⟩
    cases ha.symm.trans ha'
  · obtain ⟨w', B, hviews, hfollows, hshift⟩ := h.views.step h.isolated hp h.pooled hu hstep htest
    refine ⟨w', B, ⟨hwaiting, horderly, hdrives, hcoherent, hpooled, hkept,
      (horderly.sound.frames htest).pool, hviews, ?_⟩, hfollows, fun j v hv ↦
      (hshift j).status hv⟩
    cases hfollows with
    | idle => exact h.isolated
    | acts act hact => exact h.isolated.step hact

/-! ## The abstract pager -/

/-- The byte that a U-proc has written to its memory in a step, with its page. -/
def storedByte (s : System u m k) (a : Event u k) (t : System u m k) :
    Option (PageId u × Word × BitVec 8) :=
  match a.actor with
  | some (.uproc j) =>
      match (s.proc (.uproc j)).code with
      | .store b x :: rest =>
          match slotOf b with
          | some n => if (t.proc (.uproc j)).code = rest then some ((j, n), b, x) else none
          | none => none
      | _ => none
  | _ => none

theorem Stores.storedByte {b : Word} {x : BitVec 8} (h : Stores s a t q b x) :
    storedByte s a t = some (q, b, x) := by
  obtain ⟨ha, hslot, rest, hcode, hdone⟩ := h
  simp only [SupportLevel.storedByte, ha, hcode, hslot, if_pos hdone]

theorem storedByte_stores {b : Word} {x : BitVec 8} (h : storedByte s a t = some (q, b, x)) :
    Stores s a t q b x := by
  unfold storedByte at h
  split at h
  · rename_i j ha
    split at h
    · rename_i b' x' rest hcode
      split at h
      · rename_i n hslot
        split at h
        · rename_i hdone
          cases h
          exact ⟨ha, hslot, rest, hcode, hdone⟩
        · cases h
      · cases h
    · cases h
  · cases h

theorem storedByte_none (h : ∀ q b x, ¬ Stores s a t q b x) : storedByte s a t = none := by
  cases hst : storedByte s a t with
  | none => rfl
  | some y => exact absurd (storedByte_stores hst) (h y.1 y.2.1 y.2.2)

/-- The pages that have been written to, after a step. -/
def logStores (s : System u m k) (a : Event u k) (t : System u m k) (log : List (PageId u)) :
    List (PageId u) := log ++ ((storedByte s a t).map Prod.fst).toList

/-- The abstract pager writes what the U-procs write. -/
theorem Follows.written {act : Pager.Action (PageId u) (Fin (m + 1)) Page}
    (hmeans : Means s w a t A act)
    (hst : (∃ q page, act = .write q page) ∨ ∀ q b x, ¬ Stores s a t q b x) :
    act.written? = (storedByte s a t).map Prod.fst := by
  cases act with
  | write q page =>
      obtain ⟨b, x, f, hstores, -⟩ := hmeans
      rw [hstores.storedByte]
      rfl
  | _ =>
      rw [storedByte_none (hst.resolve_left (by rintro ⟨q, page, ⟨⟩⟩))]
      rfl

variable (cfg) in
/-- A run of the support level is one of the abstract pager, which writes to the same pages in
the same order. -/
theorem run_pages {log : List (PageId u)} {s₀ : System u m k} {as : List (Event u k)} (hu : u < 64)
    (h : Started s₀) (hrun : Run (WithHistory (SupStep cfg) logStores) (s₀, []) as (s, log)) :
    ∃ w bs A, Run Pager.Step (s₀.pager cfg) bs A ∧ bs.filterMap Pager.Action.written? = log ∧
      Pages cfg s₀.mem.pte s w A := by
  generalize hx : (s₀, []) = x, hy : (s, log) = y at hrun
  induction hrun generalizing s log with
  | nil =>
      cases hx
      cases hy
      exact ⟨_, [], _, .nil, rfl, h.pages⟩
  | @snoc y z as a hrun hstep ih =>
      cases hy
      obtain ⟨w, bs, A, hbs, hlog, hpages⟩ := ih rfl
      obtain ⟨hstep, hupd⟩ := hstep
      obtain ⟨w', B, hpages', hfollows, -⟩ := hpages.step hu hstep
      dsimp only at hupd
      rw [hupd]
      cases hfollows with
      | idle hno =>
          refine ⟨w', bs, A, hbs, ?_, hpages'⟩
          rw [logStores, storedByte_none hno, hlog]
          exact (List.append_nil _).symm
      | acts act hact hmeans hst =>
          refine ⟨w', bs ++ [act], B, hbs.snoc hact, ?_, hpages'⟩
          rw [logStores, List.filterMap_append, hlog, ← Follows.written hmeans hst]
          cases hwritten : act.written? <;>
            simp only [List.filterMap_cons, hwritten, List.filterMap_nil, Option.toList]

/-- The only U-proc writes to its first page and reads the second, for which the first leaves
the frame, and is about to read the first again. -/
def sampleEvents : List (Event 1 0) :=
  let only : Fin 1 := Fin.last 0
  let run := fun n ↦ List.replicate n (Event.run (.uproc only) (⟨Fin.last 0, 0⟩ : Choice 0))
  let ready := .complete (.flash 0) 1
  .user only (.store 0x80000004 7) :: run 9 ++ ready :: run 7 ++
    .user only (.load 0x80001000) :: run 10 ++ ready :: run 4 ++ ready :: run 7 ++
    .user only (.load 0x80000004) :: run 10 ++ ready :: run 4 ++ ready :: run 6

variable (cfg first) in
/-- The U-procs that have still to free their frames are alone there, and what the TLB, the
page tables and the swap pool table say agrees. -/
structure FramesIsolated (s : System u m k) : Prop where
  listed : ∀ i b n f, Has s i b → Frees s i f → (s.mem.pte (b, n)).Valid →
    (s.mem.pte (b, n)).frame = cfg.frameAddress f →
    s.mem.swap_pool_table f = { sw_asid := asidOf i, sw_pageNo := n, sw_pte := some (b, n) }
  alone : ∀ q q' f, Mapped cfg s q f → Mapped cfg s q' f → q = q'
  pooled : ∀ i b n, Has s i b → (s.mem.pte (b, n)).Valid →
    ∃ f, (s.mem.pte (b, n)).frame = cfg.frameAddress f
  translated : ∀ l e i b n, s.mem.tlb l = some e → Has s i b →
    e.pte_entryHI = entryHi (pageNumber n) (asidOf i) → e = s.mem.pte (b, n)
  kept : ∀ i b n, Has s i b → (s.mem.pte (b, n)).pte_entryHI = (first (b, n)).pte_entryHI ∧
    (s.mem.pte (b, n)).pte_entryLO &&& ENTRYLO_DIRTY = (first (b, n)).pte_entryLO &&& ENTRYLO_DIRTY
  owned : ∀ f i, (s.mem.swap_pool_table f).sw_asid = asidOf i → (∃ b, Has s i b) ∧ Frees s i f

/-- The entry of a frame that is listed as that of a U-proc. -/
theorem Listed.of_asid (h : s.mem.swap_pool_table f = .free ∨ Listed s f)
    (hf : (s.mem.swap_pool_table f).sw_asid = asidOf j) : ∃ b n, s.mem.swap_pool_table f =
      { sw_asid := asidOf j, sw_pageNo := (n : Fin 32), sw_pte := some (b, n) } ∧ Has s j b ∧
      Frees s j f := by
  rcases h with hfree | ⟨i, b, n, hlisted, hhas, hfrees⟩
  · rw [hfree] at hf
    exact absurd hf.symm (asidOf_ne_NOPROC j)
  · rw [hlisted] at hf
    obtain rfl := asidOf_injective hf
    exact ⟨b, n, hlisted, hhas, hfrees⟩

/-- A page that is mapped is listed, with its entry. -/
theorem Pages.entry (h : Pages cfg first s w A) (hj : Has s j b) (hfrees : Frees s j f)
    (hvalid : (s.mem.pte (b, n)).Valid) (hframe : (s.mem.pte (b, n)).frame = cfg.frameAddress f) :
    s.mem.swap_pool_table f = { sw_asid := asidOf j, sw_pageNo := n, sw_pte := some (b, n) } := by
  have hmap := (h.views.map (j, n) f).mpr ⟨b, hj, hfrees, hvalid, hframe⟩
  obtain ⟨hasid, hpage⟩ := (h.views.list f (j, n)).mp (h.isolated.listed _ f hmap)
  obtain ⟨b', n', hlisted, hhas, -⟩ := Listed.of_asid (h.listed f) hasid
  obtain rfl := Option.some.inj (hhas.support.symm.trans hj.support)
  rw [hlisted] at hpage
  obtain rfl := Fin.ext hpage
  exact hlisted

theorem Pages.framesIsolated (h : Pages cfg first s w A) : FramesIsolated cfg first s where
  listed _ _ _ _ hi hfrees hvalid hframe := h.entry hi hfrees hvalid hframe
  alone q q' f hq hq' := h.isolated.alone ((h.views.map q f).mpr hq) ((h.views.map q' f).mpr hq')
  pooled i b n hi := h.pooled i b hi n
  translated l e i b n hl hi := h.coherent.current l e i b n hl hi
  kept i b n hi := h.kept i b hi n
  owned f i hi := by
    obtain ⟨b, n, -, hhas, hfrees⟩ := Listed.of_asid (h.listed f) hi
    exact ⟨⟨b, hhas⟩, hfrees⟩

/-- The frame of a page fault that goes on with the status of a transfer. -/
def Proc.checking? (v : Proc u m) : Option (Fin (m + 1)) :=
  match v.code with
  | .checkStatus :: .loadPage _ f :: _ => some f
  | .checkStatus :: .recordFrame f _ _ _ :: _ => some f
  | _ => none

/-- A U-proc gives up a page fault when the frame has been taken from a page. -/
def Spoils (s : System u m k) (a : Event u k) : Prop :=
  ∃ j f, a.actor = some (.uproc j) ∧ (s.proc (.uproc j)).checking? = some f ∧
    ((s.proc (.uproc j)).status = FLASH_WRITE_ERROR ∨
      (s.proc (.uproc j)).status = FLASH_READ_ERROR) ∧ ¬ s.mem.IsFree f

instance (s : System u m k) (a : Event u k) : Decidable (Spoils s a) :=
  inferInstanceAs (Decidable (∃ _ _, _))

variable (cfg) in
/-- A step in which no U-proc does. -/
def SparingStep (s : System u m k) (a : Event u k) (t : System u m k) : Prop :=
  SupStep cfg s a t ∧ ¬ Spoils s a

theorem Pages.harmless (h : Pages cfg first s w A) (hstep : SupStep cfg s a t)
    (hspares : ¬ Spoils s a) {act : Pager.Action (PageId u) (Fin (m + 1)) Page}
    (hmeans : Means s w a t A act) : Pager.Harmless A act := by
  rintro rfl q f σ htask
  obtain ⟨mode, hp⟩ := h.paging hstep
  obtain ⟨j, e, f', pt, status, ha, hw, hpt, hstatus⟩ := hmeans
  have htask' : A.task = some ⟨(j, e.2), f', pt.stage⟩ :=
    (h.views.task _).mpr ⟨j, by rw [hw]; rfl⟩
  -- the frame is that of the page fault which is given up
  obtain ⟨-, rfl, -⟩ := Pager.Task.mk.inj (Option.some.inj (htask.symm.trans htask'))
  have hat := h.views.spots j
  rw [hw] at hat
  cases hat with
  | fault hfault =>
      refine (h.views.list_none hp.frames).mpr ?_
      by_contra hfree
      obtain ⟨rest, hcode, -⟩ := hfault.code
      refine hspares ⟨j, f, ha, ?_, ?_, hfree⟩ <;> rcases hpt with rfl | rfl
      · rw [Proc.checking?, hcode]
        rfl
      · rw [Proc.checking?, hcode]
        rfl
      · rwa [hfault.status status rfl]
      · rwa [hfault.status status rfl]

variable (cfg) in
/-- What the swap pool table says is mapped is mapped. -/
def PoolAccurate (s : System u m k) : Prop :=
  (∀ f, s.mem.swap_pool_table f = .free ∨ ∃ i b n, s.mem.swap_pool_table f =
      { sw_asid := asidOf i, sw_pageNo := (n : Fin 32), sw_pte := some (b, n) } ∧ Has s i b ∧
      (s.mem.pte (b, n)).Valid ∧ (s.mem.pte (b, n)).frame = cfg.frameAddress f) ∧
    ∀ f g, ¬ s.mem.IsFree f →
      (s.mem.swap_pool_table f).sw_asid = (s.mem.swap_pool_table g).sw_asid →
      (s.mem.swap_pool_table f).sw_pageNo = (s.mem.swap_pool_table g).sw_pageNo → f = g

/-- Nobody brings in a page when the swap pool is free. -/
theorem Pages.idle (h : Pages cfg first s w A) (hval : (s.sem .swapPool).val = 1) :
    A.task = none := by
  obtain ⟨⟨mode, hr⟩, -⟩ := h.waiting
  cases htask : A.task with
  | none => rfl
  | some τ =>
      obtain ⟨j, hj⟩ := (h.views.task τ).mp htask
      have hat := h.views.spots j
      generalize w j = x at hat hj
      cases hat with
      | fault hfault => cases (hfault.val hr.locks).symm.trans hval
      | _ => cases hj

theorem Pages.poolAccurate (h : Pages cfg first s w A) (ha : Pager.Accurate A)
    (hval : (s.sem .swapPool).val = 1) : PoolAccurate cfg s := by
  have hidle := h.idle hval
  refine ⟨fun f ↦ (h.listed f).imp_right ?_, fun f g hf hasid hpage ↦ ?_⟩
  · rintro ⟨i, b, n, hlisted, hhas, -⟩
    have hlist : A.list f = some (i, n) :=
      (h.views.list f (i, n)).mpr ⟨by rw [hlisted], by rw [hlisted]⟩
    obtain ⟨b', hb', -, hvalid, hframe⟩ := (h.views.map _ _).mp (ha.idle hidle hlist)
    obtain rfl := Option.some.inj (hb'.support.symm.trans hhas.support)
    exact ⟨i, b', n, hlisted, hhas, hvalid, hframe⟩
  · rcases h.listed f with hfree | ⟨i, b, n, hlisted, -⟩
    · exact absurd (congrArg Swap.sw_asid hfree) hf
    · have hl : ∀ {g}, (s.mem.swap_pool_table f).sw_asid = (s.mem.swap_pool_table g).sw_asid →
          (s.mem.swap_pool_table f).sw_pageNo = (s.mem.swap_pool_table g).sw_pageNo →
          A.list g = some (i, n) := fun hasid hpage ↦
        (h.views.list _ (i, n)).mpr ⟨by rw [← hasid, hlisted], by rw [← hpage, hlisted]⟩
      have hf := ha.idle hidle (hl rfl rfl)
      exact Option.some.inj (hf.symm.trans (ha.idle hidle (hl hasid hpage)))

theorem System.pager_accurate (s : System u m k) : Pager.Accurate (s.pager cfg) :=
  ⟨fun _ _ h ↦ (by cases h), fun _ _ _ h ↦ (by cases h), fun _ _ h ↦ (by cases h.1)⟩

/-- A step of this kind, computed. -/
def sparingStep (cfg : PoolConfig m) (s : System u m k) (a : Event u k) : Option (System u m k) :=
  if Spoils s a then none else sysStep cfg s a

theorem sparingStep_step (s : System u m k) (a : Event u k) (t : System u m k)
    (h : sparingStep cfg s a = some t) : SparingStep cfg s a t := by
  obtain ⟨hspares, hstep⟩ := Option.ite_none_left_eq_some.mp h
  exact ⟨hstep, hspares⟩

/-- The drive fails when the first page is written back: the U-proc gives up with the page
unmapped, and releases the swap pool with the frame still listed for it. -/
theorem pool_not_accurate :
    ¬ ∀ (u m k : Nat) (cfg : PoolConfig m) (s₀ s : System u m k) (as : List (Event u k)), u < 64 →
      Started s₀ → Run (SupStep cfg) s₀ as s → (s.sem .swapPool).val = 1 → PoolAccurate cfg s := by
  intro h
  let cfg := PoolConfig.sample 0 (by decide)
  let run := fun n ↦ List.replicate n (Event.run (.uproc (0 : Fin 1)) (⟨0, 0⟩ : Choice 0))
  let as := .user 0 (.store 0x80000004 7) :: run 9 ++ .complete (.flash 0) 1 :: run 7 ++
    .user 0 (.load 0x80001000) :: run 10 ++ .complete (.flash 0) FLASH_WRITE_ERROR :: run 6
  have hruns : ((sysRun cfg (System.start 1 0 0) as).any fun s ↦
      decide ((s.sem .swapPool).val = 1 ∧ ¬ (s.mem.pte (0, 0)).Valid ∧
        s.mem.swap_pool_table 0 = { sw_asid := 1, sw_pageNo := 0, sw_pte := some (0, 0) })) =
      true := by
    decide +kernel
  obtain ⟨s, hs, hend⟩ := (Option.any_eq_true _ _).mp hruns
  obtain ⟨hval, hinvalid, hlisted⟩ := of_decide_eq_true hend
  rcases (h 1 0 0 cfg _ s as (by decide) System.start_started (sysRun_run hs) hval).1 0 with
    hfree | ⟨i, b, n, hpte, -, hvalid, -⟩
  · cases hlisted.symm.trans hfree
  · obtain ⟨-, -, he⟩ := Swap.mk.inj (hlisted.symm.trans hpte)
    rw [← Option.some.inj he] at hvalid
    exact hinvalid hvalid

/-! ## What the U-procs read -/

variable (cfg) in
/-- A step in which no drive fails. -/
def ReadyStep (s : System u m k) (a : Event u k) (t : System u m k) : Prop :=
  SupStep cfg s a t ∧ ∀ d status, a = .complete (.flash d) status → status = DEV_READY

/-- What each page of a U-proc should hold, after a step: what has been there before, and what
the U-proc has written. -/
def written (s : System u m k) (a : Event u k) (t : System u m k) (flat : PageId u → Page) :
    PageId u → Page :=
  match storedByte s a t with
  | some (q, b, x) => Function.update flat q (Function.update (flat q) (pageOffset b) x)
  | none => flat

/-- The U-proc of the page has not come to its end. -/
def Works (s : System u m k) (q : PageId u) : Prop :=
  (s.proc (.uproc q.1)).phase ≠ .dead ∧ Working (s.proc (.uproc q.1)).code

theorem Works.before (h : Works t q) (hp : Paging s mode) (hstep : SupStep cfg s a t) :
    Works s q :=
  ⟨fun hdead ↦ h.1 (hstep.dead hp.running.placed hp.running.fresh hdead),
    h.2.before hp.running hp.waits hstep h.1⟩

/-- What holds as long as no drive fails. -/
structure Faithful (s : System u m k) (w : Fin u → Spot u m)
    (A : Pager.State (PageId u) (Fin (m + 1)) Page) (flat : PageId u → Page) : Prop where
  accurate : Pager.Accurate A
  holds : Pager.Holds (Works s) flat A
  ready : ∀ j v, (w j).status? = some v → v = DEV_READY

/-- A U-proc that writes to its memory has not come to its end. -/
theorem Stores.works {b : Word} {x : BitVec 8} (h : Stores s a t q b x) (hp : Paging s mode)
    (hstep : SupStep cfg s a t) : Works s q := by
  obtain ⟨ha, -, rest, hcode, -⟩ := h
  obtain ⟨hready, -⟩ := hstep.exec ha hcode rfl (by rintro ⟨⟩) (by rintro _ _ ⟨⟩)
  have hphase : (s.proc (.uproc q.1)).phase ≠ .dead := by
    rw [hready]
    rintro ⟨⟩
  exact ⟨hphase, hp.running.shapes.working hphase hcode
    ⟨rfl, fun h ↦ h, by rintro ⟨⟩, by rintro ⟨⟩⟩⟩

/-- No page fault is given up. -/
theorem Faithful.not_quit {flat : PageId u → Page} (h : Faithful s w A flat)
    {act : Pager.Action (PageId u) (Fin (m + 1)) Page} (hmeans : Means s w a t A act) :
    act ≠ .quit := by
  rintro rfl
  obtain ⟨j, e, f, pt, status, -, hw, hpt, hstatus⟩ := hmeans
  have hready := h.ready j status (by rcases hpt with rfl | rfl <;> rw [hw] <;> rfl)
  rw [hready] at hstatus
  rcases hstatus with hstatus | hstatus <;> exact absurd hstatus (by decide)

/-- Every transfer succeeds. -/
theorem Means.succeeds {act : Pager.Action (PageId u) (Fin (m + 1)) Page}
    (hmeans : Means s w a t A act)
    (hready : ∀ d status, a = .complete (.flash d) status → status = DEV_READY) :
    act.Succeeds := by
  cases act with
  | save ok =>
      obtain ⟨d, status, ha, hok⟩ := hmeans
      exact hok.mpr (hready d status ha)
  | load ok =>
      obtain ⟨d, status, ha, hok⟩ := hmeans
      exact hok.mpr (hready d status ha)
  | _ => trivial

/-- The flat memory of the abstract pager is what the pages should hold. -/
theorem Faithful.flat {flat : PageId u → Page} (h : Faithful s w A flat) (hp : Paging s mode)
    (hstep : SupStep cfg s a t) {act : Pager.Action (PageId u) (Fin (m + 1)) Page}
    (hmeans : Means s w a t A act)
    (hst : (∃ q page, act = .write q page) ∨ ∀ q b x, ¬ Stores s a t q b x) :
    act.flat flat = written s a t flat := by
  cases act with
  | write q page =>
      obtain ⟨b, x, f, hstores, hmap, rfl⟩ := hmeans
      rw [written, hstores.storedByte, Pager.Action.flat,
        h.holds.mapped q f (hstores.works hp hstep) hmap]
  | _ =>
      rw [written, storedByte_none (hst.resolve_left (by rintro ⟨q, page, ⟨⟩⟩))]
      rfl

/-- A U-proc that frees a frame has come to its end. -/
theorem Means.free_works (hmeans : Means s w a t A (.free f)) (hv : Views cfg s w A)
    (hq : A.list f = some q) : ¬ Works s q := by
  obtain ⟨j, rest, -, hcode, -, hasid⟩ := hmeans
  rintro ⟨-, hwork⟩
  rw [asidOf_injective (((hv.list f q).mp hq).1.symm.trans hasid), hcode] at hwork
  exact hwork.head

theorem Faithful.step {flat : PageId u → Page} (h : Faithful s w A flat)
    (hpages : Pages cfg first s w A) (hu : u < 64) (hstep : ReadyStep cfg s a t) :
    ∃ w' B, Pages cfg first t w' B ∧ Faithful t w' B (written s a t flat) := by
  obtain ⟨hstep, hready⟩ := hstep
  obtain ⟨mode, hp⟩ := hpages.paging hstep
  obtain ⟨w', B, hpages', hfollows, hstatus⟩ := hpages.step hu hstep
  have hready' : ∀ j v, (w' j).status? = some v → v = DEV_READY := fun j v hv ↦ by
    rcases hstatus j v hv with hv | ⟨d, ha⟩
    · exact h.ready j v hv
    · exact hready d v ha
  refine ⟨w', B, hpages', ?_, ?_, hready'⟩
  · cases hfollows with
    | idle => exact h.accurate
    | acts act hact hmeans =>
        exact h.accurate.step hpages.isolated hact fun he ↦ absurd he (h.not_quit hmeans)
  · cases hfollows with
    | idle hno =>
        rw [written, storedByte_none hno]
        exact h.holds.mono fun q hq ↦ hq.before hp hstep
    | acts act hact hmeans hst =>
        rw [← h.flat hp hstep hmeans hst]
        refine (h.holds.step hpages.isolated h.accurate hact (hmeans.succeeds hready) ?_).mono
          fun q hq ↦ hq.before hp hstep
        rintro f rfl q hq
        exact hmeans.free_works hpages.views hq

theorem Started.faithful (s : System u m k) :
    Faithful s (fun _ ↦ .quiet) (s.pager cfg) s.blocks where
  accurate := s.pager_accurate
  holds := ⟨fun _ _ _ h ↦ (by cases h), fun _ _ _ h ↦ (by cases h.1), fun _ _ _ _ ↦ rfl,
    fun _ _ _ _ h ↦ (by cases h)⟩
  ready _ _ h := by cases h

variable (cfg) in
theorem run_faithful {flat : PageId u → Page} {s₀ : System u m k} {as : List (Event u k)}
    (hu : u < 64) (h : Started s₀)
    (hrun : Run (WithHistory (ReadyStep cfg) written) (s₀, s₀.blocks) as (s, flat)) :
    ∃ w A, Pages cfg s₀.mem.pte s w A ∧ Faithful s w A flat :=
  hrun.invariant (I := fun x ↦ ∃ w A, Pages cfg s₀.mem.pte x.1 w A ∧ Faithful x.1 w A x.2)
    (fun _ _ _ ⟨_, _, hpages, hx⟩ ⟨hstep, hupd⟩ ↦ hupd ▸ hx.step hpages hu hstep)
    ⟨_, _, h.pages, Started.faithful s₀⟩

/-- A drive fails. -/
def Event.fails : Event u k → Bool
  | .complete (.flash _) status => status ≠ DEV_READY
  | _ => false

/-- A step of this kind, computed. -/
def readyStep (cfg : PoolConfig m) (s : System u m k) (a : Event u k) : Option (System u m k) :=
  if a.fails then none else sysStep cfg s a

theorem readyStep_step (s : System u m k) (a : Event u k) (t : System u m k)
    (h : readyStep cfg s a = some t) : ReadyStep cfg s a t := by
  obtain ⟨hready, hstep⟩ := Option.ite_none_left_eq_some.mp h
  refine ⟨hstep, ?_⟩
  rintro d status rfl
  by_contra hne
  exact hready (decide_eq_true hne)

/-- Where the pages of a U-proc are that has not come to its end. -/
structure PageKept (s : System u m k) (e : Fin u × Fin 32) (block page : Page) : Prop where
  frame : (s.mem.pte e).Valid → s.mem.ram (s.mem.pte e).frame = page
  block : ¬ (s.mem.pte e).Valid → (s.sem .swapPool).val = 1 → block = page

/-- A U-proc writes only to pages that it may write to. -/
theorem Pages.writable (h : Pages cfg first s w A) (hstep : SupStep cfg s a t) {v : Word}
    {x : BitVec 8} (hst : Stores s a t q v x) :
    ∃ b, Has s q.1 b ∧ (first (b, q.2)).pte_entryLO &&& ENTRYLO_DIRTY ≠ 0 := by
  obtain ⟨mode, hp⟩ := h.paging hstep
  obtain ⟨ha, hslot, rest, hcode, hdone⟩ := hst
  obtain ⟨hready, c, ⟨hexec, -⟩ | ⟨hexec, -⟩⟩ := hstep.exec ha hcode rfl (by rintro ⟨⟩)
    (by rintro _ _ ⟨⟩)
  swap
  · exact absurd hexec (hp.frames.no_fault hp.running.owns hready hcode)
  simp only [exec, hslot] at hexec
  obtain ⟨e, hhit, -, hdirty, -⟩ := access_done hexec hcode hdone
  obtain ⟨b, hb, -⟩ := hp.running.owns.own q.1 (hready ▸ .ready)
    (hcode ▸ not_leaving_cons rfl (by rintro ⟨⟩))
  have hhas := (hp.running.owns.has hready hcode rfl (by rintro ⟨⟩) hb).1
  rw [slotOf_page hslot] at hhit
  obtain rfl := h.coherent.hit hhas hhit
  exact ⟨b, hhas, by rw [← (h.kept q.1 b hhas q.2).2]; exact hdirty rfl⟩

/-- The page is one of the text of the U-proc, as its header says. -/
def IsText (s : System u m k) (q : PageId u) : Prop :=
  ∃ b tmp_frame, (s.proc (.uproc q.1)).p_supportStruct = some b ∧
    (s.mem.support_arr b).sup_privatePgTbl = initPageTable (asidOf q.1) tmp_frame ∧ q.2.val < 31 ∧
    (q.2 : Int) < (headerWord tmp_frame 5).tdiv PAGESIZE

theorem IsText.read_only (h : IsText s q) (hb : Has s q.1 b) :
    (s.mem.pte (b, q.2)).pte_entryLO &&& ENTRYLO_DIRTY = 0 := by
  obtain ⟨b', tmp_frame, hsup, htable, hlt, htext⟩ := h
  obtain rfl := Option.some.inj (hsup.symm.trans hb.support)
  rw [Memory.pte, htable, initPageTable, if_pos hlt, if_pos htext]
  exact BitVec.zero_and

/-- A header with one page of text. -/
def textHeader : Page := fun i ↦ if i = 21 then 0x10 else 0

variable (u m k) in
/-- The U-procs have been started, with one page of text each. -/
def System.startText : System u m k :=
  let s := System.start u m k
  { s with mem := { s.mem with
    support_arr := fun i ↦ { emptySupport with
      sup_asid := asidOf i, sup_privatePgTbl := initPageTable (asidOf i) textHeader } } }

theorem System.startText_started : Started (System.startText u m k) := by
  obtain ⟨hsem, huser, hpool, htlb, hidle, hwaits, hborn, -⟩ :=
    System.start_started (u := u) (m := m) (k := k)
  exact ⟨hsem, huser, hpool, htlb, hidle, hwaits, hborn, id, Function.injective_id,
    fun i ↦ ⟨rfl, rfl, textHeader, rfl⟩⟩

theorem System.startText_text (j : Fin u) : IsText (System.startText u m k) (j, 0) :=
  ⟨j, textHeader, rfl, rfl, (by decide : (0 : Fin 32).val < 31),
    (by decide : ((0 : Fin 32) : Int) < (headerWord textHeader 5).tdiv PAGESIZE)⟩

/-- A block changes only to what the page should hold. -/
theorem Faithful.block {flat : PageId u → Page} (h : Faithful s w A flat)
    (hpages : Pages cfg first s w A) (hu : u < 64) (hstep : SupStep cfg s a t) (hq : Works s q) :
    t.blocks q = s.blocks q ∨ t.blocks q = flat q := by
  obtain ⟨w', B, hpages', hfollows, -⟩ := hpages.step hu hstep
  have hs : A.disk q = s.blocks q := hpages.views.disk q
  have ht : B.disk q = t.blocks q := hpages'.views.disk q
  rw [← hs, ← ht]
  cases hfollows with
  | idle => exact .inl rfl
  | acts act hact =>
      rcases hact.disk q with hsame | ⟨f, hleaves, hram⟩
      · exact .inl hsame
      · exact .inr (hram.trans (h.holds.leaves q f hq hleaves))

end PandosPlus.SupportLevel
