import PandosPlus.Phase3.Running

/-!
# The frames of the swap pool

What the U-procs do with the frames concerns themselves: the page a U-proc loads is one of
its own table, and so is the entry of the swap pool table that it writes (`Instr.Own`).  An
entry that is not free names a U-proc that is there and has still to free it (`Pool`), so
that the page to be stored is always known, and a U-proc ends by its own TERMPROCESS only.
-/

namespace PandosPlus.SupportLevel

open TaggedLock

variable {u m k : Nat} {cfg : PoolConfig m} {s t : System u m k} {p q : Actor u} {x : SemId}
variable {a : Event u k} {mode : SemId → Actor u → Mode} {c : Choice k} {i : Instr u m}
variable {code rest : List (Instr u m)} {j b : Fin u} {f : Fin (m + 1)} {e : Fin u × Fin 32}

/-! ## What instructions are replaced by -/

/-- An instruction that touches a frame, or a drive. -/
def Instr.Touching : Instr u m → Prop
  | .storePage _ | .writePageToFlash _ | .loadPage _ _ | .recordFrame _ _ _ _ | .mapPage _ _ |
      .freeFrame _ _ | .setData0 (.flash _) _ | .doIo (.flash _) _ => True
  | _ => False

/-- An instruction of a page fault, or one that touches a frame. -/
def Instr.Handling : Instr u m → Prop
  | .tlbException | .tlbInvalid => True
  | i => i.Touching

theorem Instr.handling_of_touching (h : i.Touching) : i.Handling := by
  cases i <;> first | exact h | exact trivial

/-- The instructions that touch frames come from four others, and a page fault goes on. -/
theorem Expands.every {Q : Instr u m → Prop} {r : Memory u m k} {v : Proc u m}
    (h : Expands cfg r v i rest code) (hrest : ∀ i ∈ rest, Q i) (hquiet : ∀ i, ¬ i.Handling → Q i)
    (hinvalid : i = .tlbException → Q .tlbInvalid)
    (hterm : ∀ b f, i = .terminate → v.p_supportStruct = some b →
      Q (.freeFrame (r.support_arr b).sup_asid f))
    (hframe : ∀ b page_index, i = .tlbInvalid → v.p_supportStruct = some b →
      Q (.loadPage (b, page_index) r.getFrame.1) ∧ (¬ r.IsFree r.getFrame.1 →
        Q (.storePage r.getFrame.1) ∧ Q (.writePageToFlash r.getFrame.1)))
    (hwrite : ∀ f w w', i = .writePageToFlash f →
      Q (.setData0 (.flash ((r.swap_pool_table f).sw_asid - 1)) w) ∧
        Q (.doIo (.flash ((r.swap_pool_table f).sw_asid - 1)) w'))
    (hread : ∀ e f w w', i = .loadPage e f →
      Q (.setData0 (.flash (ENTRYHI_GET_ASID (r.pte e).pte_entryHI - 1)) w) ∧
        Q (.doIo (.flash (ENTRYHI_GET_ASID (r.pte e).pte_entryHI - 1)) w') ∧
        Q (.recordFrame f (ENTRYHI_GET_ASID (r.pte e).pte_entryHI)
          (getPageIndex (GET_VPN (r.pte e).pte_entryHI)) e) ∧ Q (.mapPage e f)) :
    ∀ i ∈ code, Q i := by
  have hcons : ∀ {i code}, ¬ i.Handling → (∀ i ∈ code, Q i) → ∀ i' ∈ i :: code, Q i' :=
    fun hi h ↦ List.forall_mem_cons.mpr ⟨hquiet _ hi, h⟩
  have hnil : ∀ i ∈ ([] : List (Instr u m)), Q i := fun _ h ↦ absurd h List.not_mem_nil
  have hV : ∀ {x code}, (∀ i ∈ code, Q i) → ∀ i ∈ V x ++ code, Q i := fun h ↦
    hcons (fun h ↦ h) (hcons (fun h ↦ h) h)
  have hP : ∀ {x asid code}, (∀ i ∈ code, Q i) → ∀ i ∈ P x asid ++ code, Q i := fun h ↦
    hcons (fun h ↦ h) (hcons (fun h ↦ h) h)
  have htrap : ∀ i ∈ trapExceptionHandler, Q i := fun i hi ↦ by
    rw [trapExceptionHandler_eq] at hi
    rcases List.mem_append.mp hi with hi | hi
    · obtain ⟨x, -, rfl⟩ := List.mem_map.mp hi
      exact hquiet _ fun h ↦ h
    · rw [List.mem_singleton.mp hi]
      exact hquiet _ fun h ↦ h
  cases h with
  | call b hsupport h =>
      cases h with
      | getTOD => exact hcons (fun h ↦ h) hnil
      | terminate => exact hcons (fun h ↦ h) hnil
      | writePort port string length =>
          unfold writePort
          split
          · exact hcons (fun h ↦ h) hnil
          · exact hP (hcons (fun h ↦ h) (hcons (fun h ↦ h) hnil))
      | readTerminal buffer =>
          unfold readTerminal
          split
          · exact hcons (fun h ↦ h) hnil
          · exact hP (hcons (fun h ↦ h) (hcons (fun h ↦ h) hnil))
      | trap => exact htrap
  | trap hi => exact htrap
  | held y b hsupport huser => exact hV hrest
  | notHeld y b hsupport huser => exact hrest
  | terminate b hsupport =>
      rw [SupportLevel.terminate, freeFrames, List.append_assoc, List.append_assoc,
        List.append_assoc]
      refine hP (List.forall_mem_append.mpr ⟨fun i hi ↦ ?_, hV ?_⟩)
      · obtain ⟨f, -, rfl⟩ := List.mem_map.mp hi
        exact hterm b f rfl hsupport
      · exact hcons (fun h ↦ h) (hcons (fun h ↦ h) (hcons (fun h ↦ h) hnil))
  | written port asid string sent => exact hV (hcons (fun h ↦ h) hrest)
  | write port asid string left sent =>
      exact hcons (fun h ↦ h) (hcons (fun h ↦ h) (hcons (fun h ↦ h) hrest))
  | print asid w => exact hcons (fun h ↦ h) (hcons (fun h ↦ h) hrest)
  | transmit asid w => exact hcons (fun h ↦ h) hrest
  | writeFailed port asid string left sent w =>
      exact hcons (fun h ↦ h) (hV (hcons (fun h ↦ h) hrest))
  | sent port asid string left sent => exact hcons (fun h ↦ h) hrest
  | receive asid buffer received => exact hcons (fun h ↦ h) (hcons (fun h ↦ h) hrest)
  | readFailed asid buffer received w =>
      exact hcons (fun h ↦ h) (hV (hcons (fun h ↦ h) hrest))
  | received asid buffer received read => exact hcons (fun h ↦ h) (hcons (fun h ↦ h) hrest)
  | newline asid buffer received read => exact hV (hcons (fun h ↦ h) hrest)
  | readOn asid buffer received read => exact hcons (fun h ↦ h) hrest
  | done hi => exact hrest
  | invalid b hsupport hcause =>
      rw [TLBInvalidHandler, List.append_assoc]
      exact hP (List.forall_mem_cons.mpr ⟨hinvalid rfl, hrest⟩)
  | frame b hsupport page_index hslot =>
      obtain ⟨hload, hstore⟩ := hframe b page_index rfl hsupport
      rw [List.append_assoc, List.cons_append]
      refine List.forall_mem_append.mpr ⟨?_, List.forall_mem_cons.mpr ⟨hload,
        hV (hcons (fun h ↦ h) hrest)⟩⟩
      split
      · exact hnil
      · obtain ⟨hs, hw⟩ := hstore ‹_›
        exact List.forall_mem_cons.mpr ⟨hs, List.forall_mem_cons.mpr ⟨hw, hnil⟩⟩
  | writePage f =>
      obtain ⟨hs, hd⟩ := hwrite f _ _ rfl
      exact List.forall_mem_cons.mpr ⟨hs, List.forall_mem_cons.mpr ⟨hd, hcons (fun h ↦ h) hrest⟩⟩
  | readPage e f =>
      obtain ⟨hs, hd, hr, hm⟩ := hread e f _ _ rfl
      exact List.forall_mem_cons.mpr ⟨hs, List.forall_mem_cons.mpr ⟨hd, hcons (fun h ↦ h)
        (List.forall_mem_cons.mpr ⟨hr, List.forall_mem_cons.mpr ⟨hm, hrest⟩⟩)⟩⟩
  | deallocate b hsupport => exact hcons (fun h ↦ h) hrest
  | allocate j b hhead => exact hcons (fun h ↦ h) hrest

theorem Expands.all {Q : Instr u m → Prop} {r : Memory u m k} {v : Proc u m}
    (h : Expands cfg r v i rest code) (hrest : ∀ i ∈ rest, Q i) (hquiet : ∀ i, ¬ i.Touching → Q i)
    (hterm : ∀ b f, i = .terminate → v.p_supportStruct = some b →
      Q (.freeFrame (r.support_arr b).sup_asid f))
    (hframe : ∀ b page_index, i = .tlbInvalid → v.p_supportStruct = some b →
      Q (.loadPage (b, page_index) r.getFrame.1) ∧ (¬ r.IsFree r.getFrame.1 →
        Q (.storePage r.getFrame.1) ∧ Q (.writePageToFlash r.getFrame.1)))
    (hwrite : ∀ f w w', i = .writePageToFlash f →
      Q (.setData0 (.flash ((r.swap_pool_table f).sw_asid - 1)) w) ∧
        Q (.doIo (.flash ((r.swap_pool_table f).sw_asid - 1)) w'))
    (hread : ∀ e f w w', i = .loadPage e f →
      Q (.setData0 (.flash (ENTRYHI_GET_ASID (r.pte e).pte_entryHI - 1)) w) ∧
        Q (.doIo (.flash (ENTRYHI_GET_ASID (r.pte e).pte_entryHI - 1)) w') ∧
        Q (.recordFrame f (ENTRYHI_GET_ASID (r.pte e).pte_entryHI)
          (getPageIndex (GET_VPN (r.pte e).pte_entryHI)) e) ∧ Q (.mapPage e f)) :
    ∀ i ∈ code, Q i :=
  h.every hrest (fun i hi ↦ hquiet i fun ht ↦ hi (Instr.handling_of_touching ht))
    (fun _ ↦ hquiet _ fun h ↦ h) hterm hframe hwrite hread

/-- What holds of the instructions of a U-proc, and of those they are replaced by, holds of
its instructions after a step. -/
theorem SupStep.code_all {Q Q' : Instr u m → Prop} (hstep : SupStep cfg s a t) (hp : Placed s)
    (hnew : Fresh s) (hshapes : Shapes s) (hmono : ∀ i, Q i → Q' i)
    (hquiet : ∀ i, ¬ i.Touching → Q' i)
    (hexp : ∀ i rest code, (s.proc (.uproc j)).phase = .ready →
      (s.proc (.uproc j)).code = i :: rest → Q i →
      Expands cfg s.mem (s.proc (.uproc j)) i rest code → (∀ i ∈ rest, Q' i) → ∀ i ∈ code, Q' i)
    (h : ∀ i ∈ (s.proc (.uproc j)).code, Q i) : ∀ i ∈ (t.proc (.uproc j)).code, Q' i := by
  have hnil : ∀ i ∈ ([] : List (Instr u m)), Q' i := fun _ h ↦ absurd h List.not_mem_nil
  have hall : ∀ i ∈ (s.proc (.uproc j)).code, Q' i := fun i hi ↦ hmono i (h i hi)
  have htail : ∀ {i rest}, (s.proc (.uproc j)).code = i :: rest → ∀ i ∈ rest, Q' i :=
    fun hcode i hi ↦ hall i (hcode ▸ List.mem_cons_of_mem _ hi)
  cases hstep.goes hp hnew (.uproc j) with
  | still ha h' =>
      rw [h']
      exact hall
  | blocked c i rest x ha hready hcode hi h' =>
      rw [h']
      exact hall
  | passed i rest x hphase hcode hi h' =>
      rw [h']
      exact htail hcode
  | ran c i rest ha hready hcode h' =>
      have hrest := htail hcode
      have hno := hshapes.not_test hready hcode
      generalize t.mem = s', t.proc (.uproc j) = v' at h' ⊢
      cases h' with
      | expand hcalm hi hv =>
          rw [hv.2.2]
          exact hexp i rest _ hready hcode (h i (hcode ▸ List.mem_cons_self)) hi hrest
      | refill => exact hcode ▸ hall
      | pageFault => exact List.forall_mem_cons.mpr ⟨hquiet _ fun h ↦ h, hcode ▸ hall⟩
      | doIo => exact hall
      | listDel => exact absurd trivial hno
      | initSupport => exact absurd trivial hno
      | initPageTable => exact absurd trivial hno
      | _ => exact hrest
  | left i j' hq hready hcode hcalm hi h' =>
      rw [h']
      refine List.forall_mem_cons.mpr ⟨hquiet _ ?_, hnil⟩
      rcases hi with ⟨b, rfl⟩ | ⟨b, w, rfl⟩ | rfl <;> exact fun h ↦ h
  | answered d c rest status ha hwaiting hcode h' =>
      rw [h']
      exact htail hcode
  | creates i b rest ha hready hcode h' => exact absurd trivial (hshapes.not_test hready hcode)
  | created i b p rest hq ha hready hcode hunborn hmem h' =>
      rw [h']
      exact hnil
  | killed p i rest ha hready hcode hi hq h' =>
      rw [h']
      exact hnil

/-! ## The entries of the pool -/

/-- What an instruction of the U-proc `j`, with the support structure `sup`, is about. -/
def Instr.Own (j : Fin u) (sup : Option (Fin u)) : Instr u m → Prop
  | .loadPage e _ | .mapPage e _ => sup = some e.1
  | .recordFrame _ asid page_num e => asid = asidOf j ∧ page_num = e.2 ∧ sup = some e.1
  | .freeFrame asid _ => asid = asidOf j
  | _ => True

/-- An instruction that comes first of what an instruction is replaced by. -/
def Instr.First : Instr u m → Prop
  | .storePage _ | .setData0 (.flash _) _ => True
  | _ => False

/-- The U-proc `i` has still to free the frame `f`, if it comes to its end. -/
def Frees (s : System u m k) (i : Fin u) (f : Fin (m + 1)) : Prop :=
  Working (s.proc (.uproc i)).code ∨ .freeFrame (asidOf i) f ∈ (s.proc (.uproc i)).code

/-- The frame `f` is listed as that of a page of a U-proc that has still to free it. -/
def Listed (s : System u m k) (f : Fin (m + 1)) : Prop :=
  ∃ (i b : Fin u) (n : Fin 32), s.mem.swap_pool_table f =
    { sw_asid := asidOf i, sw_pageNo := n, sw_pte := some (b, n) } ∧ Has s i b ∧ Frees s i f

/-- What holds of the frames of the pool until `test` ends. -/
structure Frames (s : System u m k) : Prop where
  own : ∀ j, ∀ i ∈ (s.proc (.uproc j)).code, i.Own j (s.proc (.uproc j)).p_supportStruct
  tables : ∀ i b, Has s i b → Paged s.mem i b
  pool : ∀ f, s.mem.swap_pool_table f = .free ∨ Listed s f
  first : ∀ j, ∀ i ∈ (s.proc (.uproc j)).code.tail, ¬ i.First
  stored : ∀ j f rest, (s.proc (.uproc j)).code = .storePage f :: rest → ¬ s.mem.IsFree f
  idle : ∀ j, (s.proc (.uproc j)).phase = .dead → (s.proc (.uproc j)).code = []

theorem asidOf_lt (hu : u < 64) (i : Fin u) : 0 ≤ asidOf i ∧ asidOf i < 64 := by
  change 0 ≤ (i : Int) + 1 ∧ (i : Int) + 1 < 64
  omega

/-- A page table tells whose it is. -/
theorem Paged.page {r : Memory u m k} (h : Paged r j b) (hu : u < 64) (n : Fin 32) :
    ENTRYHI_GET_ASID (r.pte (b, n)).pte_entryHI = asidOf j ∧
      getPageIndex (GET_VPN (r.pte (b, n)).pte_entryHI) = n := by
  obtain ⟨h₀, h₁⟩ := asidOf_lt hu j
  rw [h n]
  exact ⟨ENTRYHI_GET_ASID_entryHi (pageNumber_lt n) h₀ h₁, getPageIndex_entryHi n h₀ h₁⟩

/-- Only `recordFrame` and `freeFrame` change the swap pool table. -/
theorem Executed.frames {id : Actor u} {r s' : Memory u m k} {v v' : Proc u m}
    (h : Executed cfg c id r v i rest s' v') (f : Fin (m + 1)) :
    s'.swap_pool_table f = r.swap_pool_table f ∨
    (∃ asid page_num e, i = .recordFrame f asid page_num e ∧ s'.swap_pool_table f =
      { sw_asid := asid, sw_pageNo := page_num, sw_pte := some e }) ∨
    ∃ asid, i = .freeFrame asid f ∧ (r.swap_pool_table f).sw_asid = asid ∧
      s'.swap_pool_table f = .free := by
  have htlb : ∀ (r : Memory u m k) e, (r.updateTLB e).swap_pool_table = r.swap_pool_table :=
    fun r e ↦ by
      obtain ⟨tlb, he⟩ := updateTLB_eq r e
      rw [he]
  have hset : ∀ (f' : Fin (m + 1)) (x : Swap u),
      f = f' ∧ (r.setFrame f' x).swap_pool_table f = x ∨
        (r.setFrame f' x).swap_pool_table f = r.swap_pool_table f := by
    intro f' x
    by_cases hf : f = f'
    · subst hf
      exact .inl ⟨rfl, Function.update_self ..⟩
    · exact .inr (Function.update_of_ne hf ..)
  cases h with
  | expand hcalm hexp hv => exact .inl (congrFun hcalm.swap_pool_table f)
  | storePage f' e hpte => exact .inl (congrFun (htlb _ e) f)
  | mapPage e f' => exact .inl (congrFun (htlb _ e) f)
  | recordFrame f' asid page_num e =>
      rcases hset f' { sw_asid := asid, sw_pageNo := page_num, sw_pte := some e } with ⟨rfl, h⟩ | h
      · exact .inr (.inl ⟨asid, page_num, e, rfl, h⟩)
      · exact .inl h
  | freeFrame asid f' hasid =>
      rcases hset f' .free with ⟨rfl, h⟩ | h
      · exact .inr (.inr ⟨asid, rfl, hasid, h⟩)
      · exact .inl h
  | _ => exact .inl rfl

/-- A step changes the entry of a frame only by one of these instructions. -/
theorem SupStep.frames (h : SupStep cfg s a t) (f : Fin (m + 1)) :
    t.mem.swap_pool_table f = s.mem.swap_pool_table f ∨
    ∃ p i rest, a.actor = some p ∧ (s.proc p).phase = .ready ∧ (s.proc p).code = i :: rest ∧
      (t.proc p).phase = .ready ∧ (t.proc p).code = rest ∧
      (t.proc p).p_supportStruct = (s.proc p).p_supportStruct ∧
      ((∃ asid page_num e, i = .recordFrame f asid page_num e ∧ t.mem.swap_pool_table f =
        { sw_asid := asid, sw_pageNo := page_num, sw_pte := some e }) ∨
      ∃ asid, i = .freeFrame asid f ∧ (s.mem.swap_pool_table f).sw_asid = asid ∧
        t.mem.swap_pool_table f = .free) := by
  cases h.touches with
  | nothing h => exact .inl (by rw [h])
  | calm h => exact .inl (by rw [h.swap_pool_table])
  | ran p c i rest ha hready hcode h =>
      refine (h.frames f).imp_right fun hi ↦ ⟨p, i, rest, by rw [ha]; rfl, hready, hcode, ?_, ?_,
        h.support, hi⟩
      · rcases h.waiting with ⟨d, w, rfl, -⟩ | ⟨hphase, -⟩
        · rcases hi with ⟨asid, n, e, he, -⟩ | ⟨asid, he, -⟩ <;> cases he
        · rw [hphase, hready]
      · rcases hi with ⟨asid, n, e, rfl, -⟩ | ⟨asid, rfl, -⟩ <;> exact h.code_of_plain trivial
  | answered d status p rest ha hwaiting h =>
      obtain ⟨ram, flash, he⟩ := completed_eq s.mem status d
      rw [h, he]
      exact .inl rfl
  | killed dies h =>
      rw [h]
      exact .inl rfl

/-! ## No U-proc faults on `NULL` -/

theorem passUp_ne_fault {r : Memory u m k} {v : Proc u m} {n : Fin 2} {state : State}
    {handler : List (Instr u m)} (hb : v.p_supportStruct = some b) :
    passUp r v n state handler ≠ .fault := by
  rw [passUp, hb]
  exact nofun

theorem access_ne_fault {r : Memory u m k} {v : Proc u m} {w : Word} {writes : Bool} {asid : Int}
    {go : Word → Outcome u m k} (hb : v.p_supportStruct = some b) (hgo : ∀ w, go w ≠ .fault) :
    access r v c asid w writes i rest go ≠ .fault := by
  unfold access
  dsimp only
  split
  · split
    · rename_i hno
      cases hno.symm.trans hb
    · exact nofun
    · exact nofun
  · split
    · exact passUp_ne_fault hb
    · split
      · exact passUp_ne_fault hb
      · exact hgo _

theorem systemcallHandler_ne_fault {r : Memory u m k} {v : Proc u m} :
    systemcallHandler r v c b ≠ .fault := by
  unfold systemcallHandler
  dsimp only
  repeat' split
  all_goals exact nofun

/-- An entry of the pool that is not free names a page. -/
theorem Frames.sw_pte (h : Frames s) (hf : ¬ s.mem.IsFree f) :
    ∃ e, (s.mem.swap_pool_table f).sw_pte = some e := by
  rcases h.pool f with he | ⟨i, b, n, he, -⟩
  · exact absurd (congrArg Swap.sw_asid he) hf
  · exact ⟨(b, n), by rw [he]⟩

theorem Frames.no_fault (h : Frames s) (ho : Owns s)
    (hready : (s.proc (.uproc j)).phase = .ready) (hcode : (s.proc (.uproc j)).code = i :: rest) :
    exec cfg c (.uproc j) s.mem (s.proc (.uproc j)) i rest ≠ .fault := by
  intro hexec
  have hsup : i.sem? = none → i ≠ .termProcess →
      ∃ b, (s.proc (.uproc j)).p_supportStruct = some b := fun hsem hterm ↦ by
    obtain ⟨b, hb, -⟩ := ho.own j (hready ▸ .ready) (hcode ▸ not_leaving_cons hsem hterm)
    exact ⟨b, hb⟩
  cases i with
  | generalException =>
      obtain ⟨b, hb⟩ := hsup rfl (by rintro ⟨⟩)
      simp only [exec, hb] at hexec
      split at hexec
      · exact systemcallHandler_ne_fault hexec
      · cases hexec
  | release x =>
      obtain ⟨b, hb⟩ := hsup rfl (by rintro ⟨⟩)
      simp only [exec, hb] at hexec
      split at hexec <;> cases hexec
  | terminate =>
      obtain ⟨b, hb⟩ := hsup rfl (by rintro ⟨⟩)
      simp only [exec, hb] at hexec
      cases hexec
  | writeChars port asid string left sent => cases left <;> cases hexec
  | sendChar port asid => cases port <;> cases hexec
  | checkSent port asid string left sent =>
      simp only [exec] at hexec
      split at hexec <;> cases hexec
  | checkRead asid buffer received =>
      simp only [exec] at hexec
      split at hexec <;> cases hexec
  | nextRead asid buffer received read =>
      simp only [exec] at hexec
      split at hexec <;> cases hexec
  | sysReturn w =>
      obtain ⟨b, hb⟩ := hsup rfl (by rintro ⟨⟩)
      simp only [exec, hb] at hexec
      cases hexec
  | load w =>
      obtain ⟨b, hb⟩ := hsup rfl (by rintro ⟨⟩)
      simp only [exec] at hexec
      split at hexec
      · refine absurd hexec (access_ne_fault hb fun w ↦ ?_)
        rintro ⟨⟩
      · exact passUp_ne_fault hb hexec
  | store w v =>
      obtain ⟨b, hb⟩ := hsup rfl (by rintro ⟨⟩)
      simp only [exec] at hexec
      split at hexec
      · refine absurd hexec (access_ne_fault hb fun w ↦ ?_)
        rintro ⟨⟩
      · exact passUp_ne_fault hb hexec
  | tlbException =>
      obtain ⟨b, hb⟩ := hsup rfl (by rintro ⟨⟩)
      simp only [exec, hb] at hexec
      split at hexec
      · cases hexec
      · split at hexec <;> cases hexec
  | tlbInvalid =>
      obtain ⟨b, hb⟩ := hsup rfl (by rintro ⟨⟩)
      simp only [exec, hb] at hexec
      split at hexec <;> cases hexec
  | storePage f =>
      obtain ⟨e, he⟩ := h.sw_pte (h.stored j f rest hcode)
      simp only [exec, he] at hexec
      cases hexec
  | checkStatus =>
      simp only [exec] at hexec
      split at hexec <;> cases hexec
  | freeFrame asid f =>
      simp only [exec] at hexec
      split at hexec <;> cases hexec
  | deallocate =>
      obtain ⟨b, hb⟩ := hsup rfl (by rintro ⟨⟩)
      simp only [exec, hb] at hexec
      cases hexec
  | allocate n =>
      simp only [exec] at hexec
      split at hexec <;> cases hexec
  | _ => cases hexec

/-- A U-proc dies by its own TERMPROCESS. -/
theorem Frames.dies (h : Frames s) (ho : Owns s) (hp : Placed s) (hnew : Fresh s)
    (hstep : SupStep cfg s a t) (htest : (t.proc .test).phase ≠ .dead)
    (hdead : (t.proc (.uproc j)).phase = .dead) (hs : (s.proc (.uproc j)).phase ≠ .dead) :
    a.actor = some (.uproc j) ∧ (s.proc (.uproc j)).phase = .ready ∧
      ∃ rest, (s.proc (.uproc j)).code = .termProcess :: rest := by
  cases hstep.goes hp hnew (.uproc j) with
  | still ha h' => exact absurd (h' ▸ hdead) hs
  | ran c i rest ha hready hcode h' =>
      rcases h'.waiting with ⟨d, w, -, -, he⟩ | ⟨hphase, -⟩
      · rw [he] at hdead
        cases hdead
      · rw [hphase, hready] at hdead
        cases hdead
  | left i j' hq hready hcode hcalm hi h' =>
      rw [h'] at hdead
      cases hready.symm.trans hdead
  | creates i b rest ha hready hcode h' =>
      rw [h'] at hdead
      cases hready.symm.trans hdead
  | killed p i rest ha hready hcode hi hq h' hall =>
      cases p with
      | test => exact absurd (hall .test rfl) htest
      | uproc j' =>
          obtain rfl := Actor.uproc.inj (Actor.eq_of_progeny hq)
          rcases hi with rfl | ⟨c, hexec⟩
          · exact ⟨ha, hready, rest, hcode⟩
          · exact absurd hexec (h.no_fault ho hready hcode)
  | _ =>
      rename_i h'
      rw [h'] at hdead
      cases hdead

/-! ## A step -/

theorem Instr.Own.of_quiet {sup : Option (Fin u)} (hi : ¬ i.Touching) : i.Own j sup := by
  cases i <;> first | exact trivial | exact absurd trivial hi

theorem SupStep.support_eq (hstep : SupStep cfg s a t) (hp : Placed s) (hnew : Fresh s) :
    (t.proc (.uproc j)).p_supportStruct = (s.proc (.uproc j)).p_supportStruct ∨
      (t.proc (.uproc j)).code = [] := by
  cases hstep.goes hp hnew (.uproc j) with
  | ran c i rest ha hready hcode h => exact .inl h.support
  | created i b p rest hq ha hready hcode hunborn hmem h =>
      rw [h]
      exact .inr rfl
  | killed p i rest ha hready hcode hi hq h =>
      rw [h]
      exact .inr rfl
  | _ =>
      rename_i h
      rw [h]
      exact .inl rfl

/-- The support structure of a U-proc that runs. -/
theorem Owns.has (ho : Owns s) (hready : (s.proc (.uproc j)).phase = .ready)
    (hcode : (s.proc (.uproc j)).code = i :: rest) (hsem : i.sem? = none) (hterm : i ≠ .termProcess)
    (hb : (s.proc (.uproc j)).p_supportStruct = some b) :
    Has s j b ∧ (s.mem.support_arr b).sup_asid = asidOf j := by
  have hhas : Has s j b := ⟨hready ▸ .ready, hcode ▸ not_leaving_cons hsem hterm, hb⟩
  exact ⟨hhas, hhas.asid ho⟩

theorem Frames.own_step (h : Frames s) (hu : u < 64) (hr : Running s mode)
    (hstep : SupStep cfg s a t) (j : Fin u) :
    ∀ i ∈ (t.proc (.uproc j)).code, i.Own j (t.proc (.uproc j)).p_supportStruct := by
  rcases hstep.support_eq hr.placed hr.fresh (j := j) with hsup | hnil
  swap
  · rw [hnil]
    exact fun _ hi ↦ absurd hi List.not_mem_nil
  rw [hsup]
  refine hstep.code_all hr.placed hr.fresh hr.shapes (Q := fun i ↦ i.Own j _) (fun _ hi ↦ hi)
    (fun _ hi ↦ .of_quiet hi) (fun i rest code hready hcode hi hexp hrest ↦ ?_) (h.own j)
  refine hexp.all hrest (fun _ hi ↦ .of_quiet hi) ?_ ?_ (fun _ _ _ _ ↦ ⟨trivial, trivial⟩) ?_
  · rintro b f rfl hb
    exact (hr.owns.has hready hcode rfl nofun hb).2
  · rintro b page_index rfl hb
    exact ⟨hb, fun _ ↦ ⟨trivial, trivial⟩⟩
  · rintro e f w w' rfl
    obtain ⟨hhas, -⟩ := hr.owns.has hready hcode rfl nofun hi
    obtain ⟨hasid, hpage⟩ := (h.tables j e.1 hhas).page hu e.2
    exact ⟨trivial, trivial, ⟨hasid, hpage, hi⟩, hi⟩

theorem Frames.tables_step (h : Frames s) (hr : Running s mode) (hstep : SupStep cfg s a t)
    {i b : Fin u} (hi : Has t i b) : Paged t.mem i b := by
  rcases hi.of_step hstep hr.placed hr.fresh with hi | ⟨_ | j, rest, ha, hready, hcode⟩
  · intro n
    rw [hstep.entryHI fun p j w rest ha hready hcode ↦ ?_]
    · exact h.tables i b hi n
    · cases p with
      | test =>
          obtain ⟨n, hand, hs, hhead⟩ := hr.script.heads hready hcode
          cases hhead with
          | read j b hi => rcases hi with ⟨w, hi⟩ | ⟨w, hi⟩ | hi <;> cases hi
          | initPageTable j b w => exact hs.apart b rfl i hi
      | uproc j => exact hr.shapes.not_test hready hcode trivial
  · obtain ⟨n, hand, hs, hhead⟩ := hr.script.heads hready hcode
    obtain ⟨-, hmem, -⟩ := hstep.creation ha hcode nofun
    rw [hmem]
    cases hhead with
    | read j b hi => rcases hi with ⟨w, hi⟩ | ⟨w, hi⟩ | hi <;> cases hi
    | createProcess j b => exact hs.filled i b rfl
  · exact absurd trivial (hr.shapes.not_test hready hcode)

theorem asidOf_injective {i j : Fin u} (h : asidOf i = asidOf j) : i = j := by
  change (i : Int) + 1 = j + 1 at h
  exact Fin.ext (by omega)

/-- An entry of the pool that has been freed names nobody. -/
theorem Executed.freed {asid : Int} {id : Actor u} {r s' : Memory u m k} {v v' : Proc u m}
    (h : Executed cfg c id r v (.freeFrame asid f) rest s' v') (hasid : asid ≠ NOPROC) :
    (s'.swap_pool_table f).sw_asid ≠ asid := by
  cases h with
  | expand hcalm hexp hv =>
      cases hexp with
      | trap hi => rcases hi with hi | hi | hi | ⟨b, hi⟩ | ⟨b, w, hi⟩ <;> cases hi
      | done hi =>
          rcases hi with ⟨w, hi⟩ | ⟨j, hi⟩ | ⟨hi, -⟩ | ⟨_, _, hi, hne⟩
          · cases hi
          · cases hi
          · cases hi
          · obtain ⟨rfl, rfl⟩ := Instr.freeFrame.inj hi
            rwa [hcalm.swap_pool_table]
  | refill j b hid hi => rcases hi with hi | ⟨w, hi⟩ <;> cases hi
  | pageFault j b hid hi => rcases hi with hi | ⟨w, hi⟩ <;> cases hi
  | freeFrame _ _ hown =>
      have hset : (r.setFrame f .free).swap_pool_table f = .free := Function.update_self ..
      exact fun he ↦ hasid (he.symm.trans (congrArg Swap.sw_asid hset))

/-- While there are frames to free the U-proc does nothing else of its end. -/
theorem Ending.freeing_head {asid asid' : Int} (h : Ending asid (i :: rest))
    (hmem : .freeFrame asid' f ∈ i :: rest) : i ≠ .deallocate ∧ i ≠ .termProcess := by
  rcases h.cons with ⟨pre, hpre, -⟩ | ⟨rfl, rfl⟩ | ⟨b, next, rfl, -⟩ | ⟨rfl, -⟩ | ⟨rfl, rfl⟩
  · rcases mem_freeFrames (hpre.subset List.mem_cons_self) with rfl | ⟨n, rfl⟩ | ⟨f, rfl⟩ | rfl <;>
      exact ⟨nofun, nofun⟩
  · simp only [List.mem_cons, List.not_mem_nil, reduceCtorEq, or_self] at hmem
  · exact ⟨nofun, nofun⟩
  · exact ⟨nofun, nofun⟩
  · simp only [List.mem_cons, List.not_mem_nil, reduceCtorEq, or_self] at hmem

theorem Frees.stays (h : Frees s j f) : ¬ Leaving (s.proc (.uproc j)).code := by
  rintro (hl | hl) <;> rw [Frees, hl] at h <;> rcases h with h | h
  · exact h.head rfl
  · simp only [List.mem_cons, List.not_mem_nil, reduceCtorEq, or_self] at h
  · exact h.head
  · simp only [List.mem_cons, List.not_mem_nil, reduceCtorEq, or_self] at h

theorem mem_terminate (asid : Int) (f : Fin (m + 1)) :
    .freeFrame asid f ∈ (terminate asid : List (Instr u m)) := by
  rw [terminate, freeFrames, List.append_assoc, List.append_assoc, List.append_assoc]
  apply List.mem_append_right
  apply List.mem_append_left
  exact List.mem_map.mpr ⟨f, List.mem_finRange f, rfl⟩

/-- A U-proc has to free a frame until it does. -/
theorem Frames.frees (h : Frames s) (hr : Running s mode) (hstep : SupStep cfg s a t)
    (htest : (t.proc .test).phase ≠ .dead) {i b : Fin u} (hi : Has s i b) (hf : Frees s i f)
    (ht : (t.mem.swap_pool_table f).sw_asid = asidOf i) : Has t i b ∧ Frees t i f := by
  suffices hgoal : (t.proc (.uproc i)).phase.Alive ∧
      (t.proc (.uproc i)).p_supportStruct = (s.proc (.uproc i)).p_supportStruct ∧ Frees t i f by
    obtain ⟨halive, hsup, hfrees⟩ := hgoal
    exact ⟨⟨halive, hfrees.stays, hsup.trans hi.support⟩, hfrees⟩
  have hall : ∀ {i' rest}, (s.proc (.uproc i)).code = i' :: rest →
      Working (i' :: rest) ∨ Ending (asidOf i) (i' :: rest) ∧
        .freeFrame (asidOf i) f ∈ i' :: rest := fun hcode ↦ by
    rw [Frees, hcode] at hf
    rcases hf with hf | hf
    · exact .inl hf
    · have hs := hr.shapes i hi.alive.2
      rw [hcode] at hs
      exact hs.imp_right fun hs ↦ ⟨hs, hf⟩
  have hgo : ∀ {i' rest}, (s.proc (.uproc i)).code = i' :: rest → (t.proc (.uproc i)).code = rest →
      i' ≠ .freeFrame (asidOf i) f → Frees t i f := fun hcode ht hne ↦ by
    rw [Frees, ht]
    rcases hall hcode with hw | ⟨-, hmem⟩
    · exact .inl hw.tail
    · exact .inr ((List.mem_cons.mp hmem).resolve_left (Ne.symm hne))
  cases hstep.goes hr.placed hr.fresh (.uproc i) with
  | still ha h' =>
      rw [Frees, h']
      exact ⟨hi.alive, rfl, hf⟩
  | blocked c i' rest x ha hready hcode hx h' =>
      rw [Frees, h']
      exact ⟨.asleep, rfl, hf⟩
  | passed i' rest x hphase hcode hx h' =>
      refine ⟨?_, ?_, hgo hcode (by rw [h']) ?_⟩
      · rw [h']
        exact .ready
      · rw [h']
      · rintro rfl
        cases hx
  | ran c i' rest ha hready hcode h' =>
      refine ⟨?_, h'.support, ?_⟩
      · rcases h'.waiting with ⟨d, w, -, -, he⟩ | ⟨hphase, -⟩
        · rw [he]
          exact .waiting
        · rw [hphase, hready]
          exact .ready
      · obtain ⟨hsem, hterm⟩ := h'.not_sem
        rcases hall hcode with hw | ⟨hend, hmem⟩
        · rcases h'.working hcode (fun _ b hb ↦ (hr.owns.has hready hcode hsem hterm hb).2) hw with
            hw | ⟨-, he⟩
          · exact .inl hw
          · exact .inr (he ▸ mem_terminate _ f)
        · rcases h'.ending hend with ⟨rfl, -⟩ | ⟨-, hrest⟩
          · exact absurd rfl (hend.freeing_head hmem).1
          · refine hgo hcode hrest ?_
            rintro rfl
            exact h'.freed (asidOf_ne_NOPROC i) ht
  | left i' j hq hready hcode hcalm hi' h' =>
      rw [Frees, h']
      refine ⟨hi.alive, rfl, .inl (.cons ?_ .nil)⟩
      rcases hi' with ⟨b, rfl⟩ | ⟨b, w, rfl⟩ | rfl <;> exact trivial
  | answered d c rest status ha hwaiting hcode h' =>
      refine ⟨?_, ?_, hgo hcode (by rw [h']) nofun⟩
      · rw [h']
        exact .ready
      · rw [h']
  | creates i' b' rest ha hready hcode h' => exact absurd trivial (hr.shapes.not_test hready hcode)
  | created i' b' p rest hq ha hready hcode hunborn => exact absurd hunborn hi.alive.1
  | killed p i' rest ha hready hcode hx hq h' =>
      obtain ⟨-, -, rest', hcode'⟩ := h.dies hr.owns hr.placed hr.fresh hstep htest (by rw [h'])
        hi.alive.2
      rcases hall hcode' with hw | ⟨hend, hmem⟩
      · exact hw.head.elim
      · exact absurd rfl (hend.freeing_head hmem).2

/-- Who touches a frame owns the pool. -/
theorem Locks.owner_of_frame (h : Locks s mode) (hp : (s.proc p).phase ≠ .dead)
    (hcode : (s.proc p).code = i :: rest)
    (hi : ∀ μ, i.shift p .swapPool μ = keep (InPool .swapPool μ) μ) :
    mode .swapPool p = .owner := by
  have hall := h.follows p hp .swapPool nofun
  rw [hcode] at hall
  obtain ⟨ξ, hshift, -⟩ := shifts_cons.mp hall
  rw [hi] at hshift
  have hin := (keep_some.mp hshift).1
  rwa [InPool, if_pos rfl] at hin

theorem Frames.pool_step (h : Frames s) (hr : Running s mode) (hstep : SupStep cfg s a t)
    (htest : (t.proc .test).phase ≠ .dead) (f : Fin (m + 1)) :
    t.mem.swap_pool_table f = .free ∨ Listed t f := by
  rcases hstep.frames f with hsame | ⟨p, i, rest, ha, hready, hcode, hready', hcode',
    hsup', hi⟩
  · refine (h.pool f).imp (fun he ↦ hsame.trans he) ?_
    rintro ⟨i, b, n, he, hhas, hfrees⟩
    obtain ⟨hhas', hfrees'⟩ := h.frees hr hstep htest hhas hfrees (by rw [hsame, he])
    exact ⟨i, b, n, hsame.trans he, hhas', hfrees'⟩
  rcases hi with ⟨asid, page_num, e, rfl, he⟩ | ⟨asid, rfl, -, he⟩
  · cases p with
    | test =>
        obtain ⟨n, hand, -, hhead⟩ := hr.script.heads hready hcode
        cases hhead with
        | read j b hi => rcases hi with ⟨w, hi⟩ | ⟨w, hi⟩ | hi <;> cases hi
    | uproc j =>
        obtain ⟨rfl, rfl, hsup⟩ := h.own j _ (hcode ▸ List.mem_cons_self)
        have hall := hr.shapes j (by rw [hready]; exact nofun)
        rw [hcode] at hall
        have hw : Working rest := by
          refine (hall.resolve_right fun hend ↦ ?_).tail
          rcases hend.cons with ⟨pre, hpre, -⟩ | ⟨hi, -⟩ | ⟨_, _, hi, -⟩ | ⟨hi, -⟩ | ⟨hi, -⟩
          · have hi := mem_freeFrames (hpre.subset List.mem_cons_self)
            rcases hi with hi | ⟨_, hi⟩ | ⟨_, hi⟩ | hi <;> cases hi
          · cases hi
          · cases hi
          · cases hi
          · cases hi
        have hfrees : Frees t j f := .inl (hcode' ▸ hw)
        exact .inr ⟨j, e.1, e.2, he, ⟨hready' ▸ .ready, hfrees.stays, hsup'.trans hsup⟩, hfrees⟩
  · exact .inl he

theorem getFrame_not_free {r : Memory u m k} (h : ¬ r.IsFree r.getFrame.1) {r' : Memory u m k}
    (hr : r'.swap_pool_table = r.swap_pool_table) : ¬ r'.IsFree r.getFrame.1 := by
  rwa [Memory.IsFree, hr]

/-- The frame that a process is about to store is not freed by another. -/
theorem Frames.still_taken (h : Frames s) (hr : Running s mode) (hstep : SupStep cfg s a t)
    (hcode : (s.proc (.uproc j)).code = .storePage f :: rest)
    (hdead : (s.proc (.uproc j)).phase ≠ .dead) (ha : a.actor ≠ some (.uproc j)) (hf : ¬ s.mem.IsFree f) : ¬ t.mem.IsFree f := by
  rcases hstep.frames f with hsame | ⟨p, i, rest', hact, hready, hcode', -, -, -, hi⟩
  · rwa [Memory.IsFree, hsame]
  rcases hi with ⟨asid, page_num, e, rfl, he⟩ | ⟨asid, rfl, -, -⟩
  · rw [Memory.IsFree, he]
    cases p with
    | test =>
        obtain ⟨n, hand, -, hhead⟩ := hr.script.heads hready hcode'
        cases hhead with
        | read j b hi => rcases hi with ⟨w, hi⟩ | ⟨w, hi⟩ | hi <;> cases hi
    | uproc j' =>
        obtain ⟨rfl, -⟩ := h.own j' _ (hcode' ▸ List.mem_cons_self)
        exact asidOf_ne_NOPROC j'
  · have hj := hr.locks.owner_of_frame hdead hcode fun _ ↦ rfl
    have hp := hr.locks.owner_of_frame (by rw [hready]; exact nofun) hcode' fun _ ↦ rfl
    obtain rfl := (hr.locks.lock .swapPool nofun).alone p (.uproc j) (by rw [hp]; exact nofun)
      (by rw [hj]; exact nofun)
    exact absurd hact ha

/-- A drive is operated, or a page stored, at once. -/
theorem Expands.first {r : Memory u m k} {v : Proc u m} (h : Expands cfg r v i rest code)
    (hrest : ∀ i ∈ rest, ¬ i.First) : (∀ i ∈ code.tail, ¬ i.First) ∧
      ∀ i' rest', code = i' :: rest' → i'.First →
        i' = .storePage r.getFrame.1 ∧ ¬ r.IsFree r.getFrame.1 ∨
        ∃ d w c rest'', i' = .setData0 (.flash d) w ∧ rest' = .doIo (.flash d) c :: rest'' := by
  have hquiet : ∀ i : Instr u m, ¬ i.Touching → ¬ i.First := fun i hi hfirst ↦ by
    cases i with
    | storePage f => exact hi trivial
    | setData0 d w =>
        cases d with
        | flash d => exact hi trivial
        | _ => exact hfirst
    | _ => exact hfirst
  have hnone : (∀ i ∈ code, ¬ i.First) → (∀ i ∈ code.tail, ¬ i.First) ∧
      ∀ i' rest', code = i' :: rest' → i'.First →
        i' = .storePage r.getFrame.1 ∧ ¬ r.IsFree r.getFrame.1 ∨
        ∃ d w c rest'', i' = .setData0 (.flash d) w ∧ rest' = .doIo (.flash d) c :: rest'' :=
    fun hall ↦ ⟨fun i hi ↦ hall i (List.mem_of_mem_tail hi), fun i' rest' hcode hfirst ↦
      absurd hfirst (hall i' (hcode ▸ List.mem_cons_self))⟩
  have hother : i ≠ .tlbInvalid ∧ (∀ f, i ≠ .writePageToFlash f) ∧ (∀ e f, i ≠ .loadPage e f) →
      ∀ i ∈ code, ¬ i.First := fun ⟨hinvalid, hwrite, hread⟩ ↦
    h.all hrest hquiet (fun _ _ _ _ h ↦ h) (fun _ _ he ↦ absurd he hinvalid)
      (fun f _ _ he ↦ absurd he (hwrite f)) fun e f _ _ he ↦ absurd he (hread e f)
  cases h with
  | frame b hsupport page_index hslot =>
      have hload : ∀ i ∈ .loadPage (b, page_index) r.getFrame.1 ::
          (V .swapPool ++ .ldst PGFAULTEXCEPT :: rest), ¬ i.First :=
        List.forall_mem_cons.mpr ⟨fun h ↦ h, List.forall_mem_cons.mpr ⟨fun h ↦ h,
          List.forall_mem_cons.mpr ⟨fun h ↦ h, List.forall_mem_cons.mpr ⟨fun h ↦ h, hrest⟩⟩⟩⟩
      rw [List.append_assoc, List.cons_append] at hnone ⊢
      by_cases hfree : r.IsFree r.getFrame.1
      · rw [if_pos hfree] at hnone ⊢
        exact hnone hload
      · rw [if_neg hfree]
        refine ⟨List.forall_mem_cons.mpr ⟨fun h ↦ h, hload⟩, fun i' rest' hcode _ ↦ .inl ?_⟩
        exact ⟨(List.cons.inj hcode).1.symm, hfree⟩
  | writePage f =>
      refine ⟨List.forall_mem_cons.mpr ⟨fun h ↦ h, List.forall_mem_cons.mpr ⟨fun h ↦ h, hrest⟩⟩,
        fun i' rest' hcode _ ↦ .inr ?_⟩
      obtain ⟨rfl, rfl⟩ := List.cons.inj hcode
      exact ⟨_, _, _, _, rfl, rfl⟩
  | readPage e f =>
      refine ⟨List.forall_mem_cons.mpr ⟨fun h ↦ h, List.forall_mem_cons.mpr ⟨fun h ↦ h,
        List.forall_mem_cons.mpr ⟨fun h ↦ h, List.forall_mem_cons.mpr ⟨fun h ↦ h, hrest⟩⟩⟩⟩,
        fun i' rest' hcode _ ↦ .inr ?_⟩
      obtain ⟨rfl, rfl⟩ := List.cons.inj hcode
      exact ⟨_, _, _, _, rfl, rfl⟩
  | trap hi =>
      refine hnone (hother ?_)
      rcases hi with rfl | rfl | rfl | ⟨w, rfl⟩ | ⟨w, v, rfl⟩ <;>
        exact ⟨nofun, fun _ ↦ nofun, fun _ _ ↦ nofun⟩
  | done hi =>
      refine hnone (hother ?_)
      rcases hi with ⟨w, rfl⟩ | ⟨n, rfl⟩ | ⟨rfl, -⟩ | ⟨n, f, rfl, -⟩ <;>
        exact ⟨nofun, fun _ ↦ nofun, fun _ _ ↦ nofun⟩
  | _ => exact hnone (hother ⟨nofun, fun _ ↦ nofun, fun _ _ ↦ nofun⟩)

/-- An instruction of this kind has just come from the one before, or nothing has happened. -/
theorem Frames.first_step (h : Frames s) (hr : Running s mode) (hstep : SupStep cfg s a t)
    (j : Fin u) : (∀ i ∈ (t.proc (.uproc j)).code.tail, ¬ i.First) ∧
      ∀ i rest, (t.proc (.uproc j)).code = i :: rest → i.First →
        a.actor ≠ some (.uproc j) ∧ t.proc (.uproc j) = s.proc (.uproc j) ∨
        Calm s.mem t.mem ∧ (t.proc (.uproc j)).phase = .ready ∧
          (i = .storePage s.mem.getFrame.1 ∧ ¬ s.mem.IsFree s.mem.getFrame.1 ∨
            ∃ d w c rest', i = .setData0 (.flash d) w ∧ rest = .doIo (.flash d) c :: rest') := by
  have hnone : (∀ i ∈ (t.proc (.uproc j)).code, ¬ i.First) →
      (∀ i ∈ (t.proc (.uproc j)).code.tail, ¬ i.First) ∧
      ∀ i rest, (t.proc (.uproc j)).code = i :: rest → i.First →
        a.actor ≠ some (.uproc j) ∧ t.proc (.uproc j) = s.proc (.uproc j) ∨
        Calm s.mem t.mem ∧ (t.proc (.uproc j)).phase = .ready ∧
          (i = .storePage s.mem.getFrame.1 ∧ ¬ s.mem.IsFree s.mem.getFrame.1 ∨
            ∃ d w c rest', i = .setData0 (.flash d) w ∧ rest = .doIo (.flash d) c :: rest') :=
    fun hall ↦ ⟨fun i hi ↦ hall i (List.mem_of_mem_tail hi), fun i rest hcode hi ↦
      absurd hi (hall i (hcode ▸ List.mem_cons_self))⟩
  have htail := h.first j
  have hnil : ∀ i ∈ ([] : List (Instr u m)), ¬ i.First := fun _ h ↦ absurd h List.not_mem_nil
  cases hstep.goes hr.placed hr.fresh (.uproc j) with
  | still ha h' =>
      rw [h']
      exact ⟨htail, fun _ _ _ _ ↦ .inl ⟨ha, rfl⟩⟩
  | blocked c i rest x ha hready hcode hx h' =>
      refine hnone ?_
      rw [h']
      rw [hcode] at htail ⊢
      refine List.forall_mem_cons.mpr ⟨fun hi ↦ ?_, htail⟩
      cases i <;> first | exact hi | cases hx
  | passed i rest x hphase hcode hx h' =>
      refine hnone ?_
      rw [hcode] at htail
      rw [h']
      exact htail
  | ran c i rest ha hready hcode h' =>
      have hno := hr.shapes.not_test hready hcode
      have hphase := h'.waiting
      rw [hcode] at htail
      generalize t.mem = s', t.proc (.uproc j) = v' at h' hnone hphase ⊢
      cases h' with
      | expand hcalm hexp hv =>
          rw [hv.2.2]
          obtain ⟨htail', hhead⟩ := hexp.first htail
          refine ⟨htail', fun i rest hcode hi ↦ .inr ⟨hcalm, hv.1.trans hready, ?_⟩⟩
          exact hhead i rest hcode hi
      | refill n w hid hi =>
          refine hnone (List.forall_mem_cons.mpr ⟨?_, htail⟩)
          rcases hi with rfl | ⟨_, rfl⟩ <;> exact fun h ↦ h
      | pageFault n w hid hi =>
          refine hnone (List.forall_mem_cons.mpr ⟨fun h ↦ h, List.forall_mem_cons.mpr ⟨?_, htail⟩⟩)
          rcases hi with rfl | ⟨_, rfl⟩ <;> exact fun h ↦ h
      | doIo d w =>
          refine hnone ?_
          change ∀ i ∈ (s.proc (.uproc j)).code, _
          rw [hcode]
          exact List.forall_mem_cons.mpr ⟨fun h ↦ h, htail⟩
      | listDel => exact absurd trivial hno
      | initSupport => exact absurd trivial hno
      | initPageTable => exact absurd trivial hno
      | _ => exact hnone htail
  | left i j' hq hready hcode hcalm hi h' =>
      refine hnone ?_
      rw [h']
      refine List.forall_mem_cons.mpr ⟨?_, hnil⟩
      rcases hi with ⟨b, rfl⟩ | ⟨b, w, rfl⟩ | rfl <;> exact fun h ↦ h
  | answered d c rest status ha hwaiting hcode h' =>
      refine hnone ?_
      rw [hcode] at htail
      rw [h']
      exact htail
  | creates i b rest ha hready hcode h' => exact absurd trivial (hr.shapes.not_test hready hcode)
  | created i b p rest hq ha hready hcode hunborn hmem h' =>
      refine hnone ?_
      rw [h']
      exact hnil
  | killed p i rest ha hready hcode hi hq h' =>
      refine hnone ?_
      rw [h']
      exact hnil

theorem Frames.stored_step (h : Frames s) (hr : Running s mode) (hstep : SupStep cfg s a t)
    (hcode : (t.proc (.uproc j)).code = .storePage f :: rest) : ¬ t.mem.IsFree f := by
  rcases (h.first_step hr hstep j).2 _ _ hcode trivial with
    ⟨ha, hsame⟩ | ⟨hcalm, -, ⟨hi, hfree⟩ | ⟨d, w, c, rest', hi, -⟩⟩
  · rw [hsame] at hcode
    refine h.still_taken hr hstep hcode (fun hdead ↦ ?_) ha (h.stored j f rest hcode)
    cases hcode.symm.trans (h.idle j hdead)
  · obtain rfl := Instr.storePage.inj hi
    exact getFrame_not_free hfree hcalm.swap_pool_table
  · cases hi

theorem Frames.idle_step (h : Frames s) (hr : Running s mode) (hstep : SupStep cfg s a t)
    (hdead : (t.proc (.uproc j)).phase = .dead) : (t.proc (.uproc j)).code = [] := by
  cases hstep.goes hr.placed hr.fresh (.uproc j) with
  | still ha h' =>
      rw [h'] at hdead ⊢
      exact h.idle j hdead
  | ran c i rest ha hready hcode h' =>
      rcases h'.waiting with ⟨d, w, -, -, he⟩ | ⟨hphase, -⟩
      · rw [he] at hdead
        cases hdead
      · cases hready.symm.trans (hphase.symm.trans hdead)
  | left i j' hq hready hcode hcalm hi h' =>
      rw [h'] at hdead
      cases hready.symm.trans hdead
  | creates i b rest ha hready hcode h' =>
      rw [h'] at hdead
      cases hready.symm.trans hdead
  | killed p i rest ha hready hcode hi hq h' => rw [h']
  | _ =>
      rename_i h'
      rw [h'] at hdead
      cases hdead

/-- A step keeps the pool in order, until `test` ends. -/
theorem Frames.step (h : Frames s) (hu : u < 64) (hr : Running s mode) (hstep : SupStep cfg s a t)
    (htest : (t.proc .test).phase ≠ .dead) : Frames t where
  own := h.own_step hu hr hstep
  tables _ _ := h.tables_step hr hstep
  pool := h.pool_step hr hstep htest
  first j := (h.first_step hr hstep j).1
  stored _ _ _ := h.stored_step hr hstep
  idle _ := h.idle_step hr hstep

/-- The pool at first. -/
theorem Frames.new (hcode : ∀ j, (s.proc (.uproc j)).code = [])
    (hpool : s.mem.swap_pool_table = fun _ ↦ .free) (htables : ∀ i b, Has s i b → Paged s.mem i b) :
    Frames s where
  own j i hi := by
    rw [hcode j] at hi
    exact absurd hi List.not_mem_nil
  tables := htables
  pool f := .inl (by rw [hpool])
  first j i hi := by
    rw [hcode j] at hi
    exact absurd hi List.not_mem_nil
  stored j f rest hf := by cases hf.symm.trans (hcode j)
  idle j _ := hcode j

theorem Booted.frames (h : Booted s) : Frames s := by
  obtain ⟨support_arr, ram, flash, dev, hmem, -, -, -, -, hborn⟩ := h
  obtain ⟨next, prev, heq⟩ := Memory.initial_eq (m := m) (k := k) support_arr ram flash dev
  refine .new (fun j ↦ (hborn j).2) ?_ fun i b hi ↦ absurd (hborn i).1 hi.alive.1
  rw [hmem, heq]

theorem Started.frames (h : Started s) : Frames s := by
  refine .new (fun j ↦ (h.born j).2) h.swap_pool_table fun i b hi n ↦ ?_
  obtain ⟨f, -, hf⟩ := h.support
  obtain ⟨hsup, -, tmp_frame, htable⟩ := hf i
  obtain rfl := Option.some.inj (hsup.symm.trans hi.support)
  rw [Memory.pte, htable, initPageTable_entryHI]

/-! ## Runs -/

variable (cfg) in
/-- A step in which no operation on the free list begins in the middle of another, as long as
`test` takes from it. -/
def SerialStep (s : System u m k) (a : Event u k) (t : System u m k) : Prop :=
  SupStep cfg s a t ∧ Serial s a

/-- Such a step, computed. -/
def serialStep (cfg : PoolConfig m) (s : System u m k) (a : Event u k) : Option (System u m k) :=
  if Serial s a then sysStep cfg s a else none

theorem serialStep_step (s : System u m k) (a : Event u k) (t : System u m k)
    (h : serialStep cfg s a = some t) : SerialStep cfg s a t := by
  unfold serialStep at h
  split at h
  · exact ⟨h, ‹_›⟩
  · cases h

/-- What holds in every state, with what the locks are not needed for. -/
structure Sound (s : System u m k) : Prop where
  running : ∃ mode, Running s mode
  frames : (s.proc .test).phase ≠ .dead → Frames s
  allDead : (s.proc .test).phase = .dead → ∀ p, (s.proc p).phase = .dead

/-- `test` takes everyone with it. -/
theorem SupStep.test_dies (hstep : SupStep cfg s a t) (hp : Placed s) (hnew : Fresh s)
    (hs : (s.proc .test).phase ≠ .dead) (ht : (t.proc .test).phase = .dead) (q : Actor u) :
    (t.proc q).phase = .dead := by
  cases hstep.goes hp hnew .test with
  | still ha h => exact absurd (h ▸ ht) hs
  | ran c i rest ha hready hcode h =>
      rcases h.waiting with ⟨d, w, -, -, he⟩ | ⟨hphase, -⟩
      · rw [he] at ht
        cases ht
      · cases hready.symm.trans (hphase.symm.trans ht)
  | left i j hq => cases hq
  | creates i b rest ha hready hcode h =>
      rw [h] at ht
      cases hready.symm.trans ht
  | killed p i rest ha hready hcode hi hq h hall =>
      cases p with
      | test => exact hall q rfl
      | uproc j => cases Actor.eq_of_progeny hq
  | _ =>
      rename_i h
      rw [h] at ht
      cases ht

theorem Sound.step (h : Sound s) (hu : u < 64) (hstep : SerialStep cfg s a t) : Sound t := by
  obtain ⟨mode, hr⟩ := h.running
  obtain ⟨hstep, hserial⟩ := hstep
  refine ⟨⟨_, hr.step hserial hstep⟩, fun ht ↦ ?_, fun ht ↦ ?_⟩
  · have hs : (s.proc .test).phase ≠ .dead := fun hs ↦ ht (hstep.dead hr.placed hr.fresh hs)
    exact (h.frames hs).step hu hr hstep ht
  · by_cases hs : (s.proc .test).phase = .dead
    · exact fun p ↦ hstep.dead hr.placed hr.fresh (h.allDead hs p)
    · exact hstep.test_dies hr.placed hr.fresh hs ht

theorem Booted.sound (h : Booted s) : Sound s where
  running := ⟨_, h.running⟩
  frames _ := h.frames
  allDead hdead := by
    obtain ⟨_, _, _, _, -, -, hready, -⟩ := h
    cases hready.symm.trans hdead

theorem Started.sound (h : Started s) : Sound s where
  running := ⟨_, h.running⟩
  frames _ := h.frames
  allDead hdead := by cases h.waits.1.symm.trans hdead

end PandosPlus.SupportLevel
