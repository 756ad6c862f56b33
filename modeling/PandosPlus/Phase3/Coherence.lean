import PandosPlus.Phase3.Frames

/-!
# The page tables and the TLB

The TLB holds at most one entry for a page, and that of a page of a U-proc that has a support
structure is the one in its page table (`Coherent`): `TLBRefillHandler` is called only when
there is none, and who changes an entry of a page table changes that of the TLB in the same
section with interrupts disabled.  The page and the write permission of an entry of a page
table are those that `initPageTable` has written (`Kept`), and when it is valid its frame is one
of the pool (`Pooled`).
-/

namespace PandosPlus.SupportLevel

open TaggedLock

variable {u m k : Nat} {cfg : PoolConfig m} {s t : System u m k} {p q : Actor u}
variable {a : Event u k} {mode : SemId → Actor u → Mode} {c : Choice k} {i : Instr u m}
variable {code rest : List (Instr u m)} {j b : Fin u} {f g : Fin (m + 1)} {e : Fin u × Fin 32}
variable {n : Fin 32}

/-! ## Addresses -/

theorem slotOf_page {w : Word} (h : slotOf w = some n) : w >>> 12 = pageNumber n := by
  have hfound := List.find?_some h
  exact (of_decide_eq_true hfound).symm

/-- EntryHi tells the page and the U-proc. -/
theorem entryHi_inj (hu : u < 64) {i j : Fin u} {n n' : Fin 32}
    (h : entryHi (pageNumber n) (asidOf i) = entryHi (pageNumber n') (asidOf j)) :
    i = j ∧ n = n' := by
  obtain ⟨hi₀, hi₁⟩ := asidOf_lt hu i
  obtain ⟨hj₀, hj₁⟩ := asidOf_lt hu j
  refine ⟨asidOf_injective ?_, pageNumber_injective ?_⟩
  · rw [← ENTRYHI_GET_ASID_entryHi (pageNumber_lt n) hi₀ hi₁, h,
      ENTRYHI_GET_ASID_entryHi (pageNumber_lt n') hj₀ hj₁]
  · rw [← entryHi_page (pageNumber_lt n) hi₀ hi₁, h, entryHi_page (pageNumber_lt n') hj₀ hj₁]

theorem tableSlot_page (hu : u < 64) (n : Fin 32) (j : Fin u) :
    tableSlot (entryHi (pageNumber n) (asidOf j)) = some n := by
  obtain ⟨h₀, h₁⟩ := asidOf_lt hu j
  have hindex := getPageIndex_entryHi n h₀ h₁
  have hlt : getPageIndex (GET_VPN (entryHi (pageNumber n) (asidOf j))) < 32 := hindex ▸ n.isLt
  rw [tableSlot, dif_pos hlt]
  exact congrArg some (Fin.ext hindex)

theorem frameAddress_toNat (cfg : PoolConfig m) (f : Fin (m + 1)) :
    (cfg.frameAddress f).toNat = cfg.FRAME_POOL_START.toNat + f * 4096 := by
  have hfits := cfg.fits
  have hf : (f : Nat) * 4096 ≤ m * 4096 := Nat.mul_le_mul_right _ (Nat.le_of_lt_succ f.isLt)
  rw [PoolConfig.frameAddress, BitVec.toNat_add, BitVec.toNat_ofNat, PAGESIZE]
  omega

theorem frameAddress_injective (cfg : PoolConfig m) : Function.Injective cfg.frameAddress := by
  intro f g h
  have hn := congrArg BitVec.toNat h
  rw [frameAddress_toNat, frameAddress_toNat] at hn
  exact Fin.ext (by omega)

/-- Frames are page-aligned. -/
theorem frameAddress_aligned (cfg : PoolConfig m) (f : Fin (m + 1)) :
    cfg.frameAddress f &&& 0xFFF = 0 := by
  have hlow : ∀ w : Word, (w &&& 0xFFF).toNat = w.toNat % 4096 := fun w ↦ by
    rw [BitVec.toNat_and]
    exact Nat.and_two_pow_sub_one_eq_mod w.toNat 12
  have hstart := congrArg BitVec.toNat cfg.aligned
  rw [hlow] at hstart
  refine BitVec.eq_of_toNat_eq ?_
  rw [hlow, frameAddress_toNat, Nat.add_mul_mod_self_right]
  exact hstart

/-! ## The TLB -/

theorem tlbp_some {r : Memory u m k} {hi : Word} {l : Fin (k + 1)} (h : r.tlbp hi = some l) :
    ∃ e, r.tlb l = some e ∧ e.pte_entryHI = hi := by
  have hfound := List.find?_some h
  obtain ⟨e, he, hhi⟩ := (Option.any_eq_true _ _).mp hfound
  exact ⟨e, he, of_decide_eq_true hhi⟩

theorem tlbp_none {r : Memory u m k} {hi : Word} (h : r.tlbp hi = none) (l : Fin (k + 1))
    (e : PteEntry) (he : r.tlb l = some e) : e.pte_entryHI ≠ hi := by
  intro hhi
  refine List.find?_eq_none.mp h l (List.mem_finRange l) ?_
  rw [he]
  exact decide_eq_true hhi

theorem tlbHit_some {r : Memory u m k} {hi : Word} {e : PteEntry} (h : r.tlbHit hi = some e) :
    e.pte_entryHI = hi ∧ ∃ l, r.tlb l = some e := by
  obtain ⟨l, hl, he⟩ := Option.bind_eq_some_iff.mp h
  obtain ⟨e', he', hhi⟩ := tlbp_some hl
  obtain rfl := Option.some.inj (he.symm.trans he')
  exact ⟨hhi, l, he⟩

theorem tlbHit_none {r : Memory u m k} {hi : Word} (h : r.tlbHit hi = none) (l : Fin (k + 1))
    (e : PteEntry) (he : r.tlb l = some e) : e.pte_entryHI ≠ hi := by
  refine tlbp_none ?_ l e he
  cases hp : r.tlbp hi with
  | none => rfl
  | some l' =>
      obtain ⟨e', he', -⟩ := tlbp_some hp
      rw [Memory.tlbHit, hp] at h
      cases he'.symm.trans h

/-- `_updateTLB` writes the slot that has an entry for the page, if there is one. -/
theorem updateTLB_tlb (r : Memory u m k) (e : Fin u × Fin 32) (l : Fin (k + 1)) :
    (r.updateTLB e).tlb l =
      if r.tlbp (r.pte e).pte_entryHI = some l then some (r.pte e) else r.tlb l := by
  unfold Memory.updateTLB
  split
  · rename_i l' hl'
    rw [hl']
    change Function.update r.tlb l' _ l = _
    by_cases hl : l = l'
    · rw [hl, Function.update_self, if_pos rfl]
    · rw [Function.update_of_ne hl, if_neg fun he ↦ hl (Option.some.inj he).symm]
  · rename_i hnone
    rw [hnone, if_neg (by rintro ⟨⟩)]

theorem updateTLB_pte (r : Memory u m k) (e e' : Fin u × Fin 32) :
    (r.updateTLB e).pte e' = r.pte e' := by
  obtain ⟨tlb, h⟩ := updateTLB_eq r e
  rw [h]
  rfl

theorem setPte_pte (r : Memory u m k) (e e' : Fin u × Fin 32) (lo : Word) :
    (r.setPte e lo).pte e' = if e' = e then ⟨(r.pte e).pte_entryHI, lo⟩ else r.pte e' := by
  by_cases hb : e'.1 = e.1
  · have hset : (r.setPte e lo).pte e' = Function.update (r.support_arr e.1).sup_privatePgTbl e.2
        ⟨(r.pte e).pte_entryHI, lo⟩ e'.2 := by
      rw [Memory.pte, hb]
      exact congrArg (fun x : SupportStruct ↦ x.sup_privatePgTbl e'.2) (setSupport_self ..)
    by_cases hn : e'.2 = e.2
    · rw [if_pos (Prod.ext hb hn), hset, hn, Function.update_self]
    · rw [if_neg fun he ↦ hn (congrArg Prod.snd he), hset, Function.update_of_ne hn, Memory.pte, hb]
  · rw [if_neg fun he ↦ hb (congrArg Prod.fst he), Memory.pte]
    exact congrArg (fun x : SupportStruct ↦ x.sup_privatePgTbl e'.2) (setSupport_ne r hb _)

/-! ## Steps -/

/-- What leaves the page table alone leaves the entries alone. -/
theorem setSupport_pte (r : Memory u m k) (b : Fin u) (g : SupportStruct → SupportStruct)
    (hg : ∀ x, (g x).sup_privatePgTbl = x.sup_privatePgTbl) (e : Fin u × Fin 32) :
    (r.setSupport b g).pte e = r.pte e :=
  congrFun (setSupport_field (·.sup_privatePgTbl) r b hg e.1) e.2

/-- What an instruction does to the page tables and to the TLB. -/
theorem Executed.translation {id : Actor u} {r s' : Memory u m k} {v v' : Proc u m}
    (h : Executed cfg c id r v i rest s' v') :
    (s'.tlb = r.tlb ∧ ((∀ e, s'.pte e = r.pte e) ∨ ∃ j b w, i = .initPageTable j b w ∧
      (∀ e, e.1 ≠ b → s'.pte e = r.pte e) ∧
        ∀ n, s'.pte (b, n) = PandosPlus.initPageTable (asidOf j) (r.ram w) n)) ∨
    (∃ j w b n, id = .uproc j ∧ (i = .load w ∨ ∃ v, i = .store w v) ∧
      v.p_supportStruct = some b ∧ tableSlot (entryHi (w >>> 12) (asidOf j)) = some n ∧
      r.tlbHit (entryHi (w >>> 12) (asidOf j)) = none ∧ s' = r.tlbWrite c.slot (r.pte (b, n))) ∨
    ∃ e x, s' = (r.setPte e x).updateTLB e ∧
      ((∃ f, i = .storePage f ∧ (r.swap_pool_table f).sw_pte = some e ∧
        x = (r.pte e).unmapped.pte_entryLO) ∨
      ∃ f, i = .mapPage e f ∧ x = ((r.pte e).mapped (cfg.frameAddress f)).pte_entryLO) := by
  cases h with
  | expand hcalm hexp hv => exact .inl ⟨hcalm.tlb, .inl fun e ↦ congrFun (hcalm.pgTbl e.1) e.2⟩
  | refill j w hid hi b n hb hslot hmiss =>
      exact .inr (.inl ⟨j, w, b, n, hid, hi, hb, hslot, hmiss, rfl⟩)
  | pageFault j w hid hi b => exact .inl ⟨rfl, .inl (setSupport_pte r b _ fun _ ↦ rfl)⟩
  | storePage f e hpte => exact .inr (.inr ⟨e, _, rfl, .inl ⟨f, rfl, hpte, rfl⟩⟩)
  | mapPage e f => exact .inr (.inr ⟨e, _, rfl, .inr ⟨f, rfl, rfl⟩⟩)
  | initSupport j b =>
      have hsame := setSupport_pte r b (fun x ↦ { x with sup_asid := asidOf j }) fun _ ↦ rfl
      exact .inl ⟨rfl, .inl hsame⟩
  | initPageTable j b w =>
      refine .inl ⟨rfl, .inr ⟨j, b, w, rfl, fun e he ↦ ?_, fun n ↦ ?_⟩⟩
      · exact congrArg (fun x : SupportStruct ↦ x.sup_privatePgTbl e.2) (setSupport_ne r he _)
      · exact congrArg (fun x : SupportStruct ↦ x.sup_privatePgTbl n) (setSupport_self r b _)
  | _ => exact .inl ⟨rfl, .inl fun _ ↦ rfl⟩

/-- An access to a page that is not in the table is a bus error. -/
theorem exec_busError {r s' : Memory u m k} {v v' : Proc u m} {w : Word}
    (hi : i = .load w ∨ ∃ x, i = .store w x) (hpage : slotOf w = none)
    (h : exec cfg c (.uproc j) r v i rest = .ok s' v') :
    Calm r s' ∧ v'.code = trapExceptionHandler := by
  have htrap : exec cfg c (.uproc j) r v i rest =
      passUp r v GENERALEXCEPT { State.zero with cause := causeOf 7 } trapExceptionHandler := by
    rcases hi with rfl | ⟨x, rfl⟩ <;> simp only [exec, hpage]
  obtain ⟨b, -, rfl, rfl⟩ := passUp_ok (htrap.symm.trans h)
  exact ⟨.save r b (fun _ ↦ rfl) fun _ ↦ rfl, rfl⟩

variable (cfg) in
/-- What a step does to the page tables of the U-procs and to the TLB. -/
inductive Translates (s : System u m k) (a : Event u k) (t : System u m k) : Prop
  | same (htlb : t.mem.tlb = s.mem.tlb)
      (hpte : ∀ i b, Has s i b → ∀ n, t.mem.pte (b, n) = s.mem.pte (b, n))
  | refilled (j b : Fin u) (n : Fin 32) (l : Fin (k + 1)) (hhas : Has s j b)
      (hmiss : ∀ l e, s.mem.tlb l = some e → e.pte_entryHI ≠ entryHi (pageNumber n) (asidOf j))
      (hmem : t.mem = s.mem.tlbWrite l (s.mem.pte (b, n)))
  | written (p : Actor u) (i : Instr u m) (rest : List (Instr u m)) (j b : Fin u) (n : Fin 32)
      (x : PteEntry) (ha : a.actor = some p) (hready : (s.proc p).phase = .ready)
      (hcode : (s.proc p).code = i :: rest) (hhas : Has s j b)
      (hi : (∃ f, i = .storePage f ∧ (s.mem.swap_pool_table f).sw_pte = some (b, n) ∧
          x = (s.mem.pte (b, n)).unmapped) ∨
        ∃ f, i = .mapPage (b, n) f ∧ p = .uproc j ∧
          x = (s.mem.pte (b, n)).mapped (cfg.frameAddress f))
      (hmem : t.mem = (s.mem.setPte (b, n) x.pte_entryLO).updateTLB (b, n))

theorem SupStep.translates (hstep : SupStep cfg s a t) (hu : u < 64) (hr : Running s mode)
    (hf : Frames s) : Translates cfg s a t := by
  cases hstep.touches with
  | nothing h => exact .same (by rw [h]) fun _ _ _ _ ↦ by rw [h]
  | calm h => exact .same h.tlb fun i b _ n ↦ congrFun (h.pgTbl b) n
  | answered d status p rest ha hwaiting h =>
      obtain ⟨ram, flash, he⟩ := completed_eq s.mem status d
      rw [he] at h
      exact .same (by rw [h]; rfl) fun _ _ _ _ ↦ by rw [h]; rfl
  | killed dies h => exact .same (by rw [h]; rfl) fun _ _ _ _ ↦ by rw [h]; rfl
  | ran p c i rest ha hready hcode h =>
      have hact : a.actor = some p := by rw [ha]; rfl
      obtain ⟨hsem, hterm⟩ := h.not_sem
      -- the instruction of a U-proc, about its own page table
      have hown : ∀ {j b}, p = .uproc j → (s.proc p).p_supportStruct = some b → Has s j b := by
        rintro j b rfl hb
        exact (hr.owns.has hready hcode hsem hterm hb).1
      rcases h.translation with ⟨htlb, hpte | ⟨j, b, w, rfl, hpte, -⟩⟩ |
        ⟨j, w, b, n, hp, hi, hb, hslot, hmiss, hmem⟩ | ⟨e, x, hmem, hi⟩
      · exact .same htlb fun _ _ _ _ ↦ hpte _
      · refine .same htlb fun i b' hi n ↦ hpte (b', n) ?_
        rintro rfl
        cases p with
        | test =>
            obtain ⟨n, hand, hs, hhead⟩ := hr.script.heads hready hcode
            cases hhead with
            | read j b hi => rcases hi with ⟨w, hi⟩ | ⟨w, hi⟩ | hi <;> cases hi
            | initPageTable j b w => exact hs.apart b' rfl i hi
        | uproc j => exact hr.shapes.not_test hready hcode trivial
      · cases hpage : slotOf w with
        | none =>
            -- a bus error
            subst hp
            obtain ⟨-, c', ⟨hexec, -⟩ | ⟨-, hkill⟩⟩ := hstep.exec hact hcode hsem hterm
              (by rcases hi with rfl | ⟨v, rfl⟩ <;> intro _ _ <;> rintro ⟨⟩)
            · obtain ⟨hcalm, -⟩ := exec_busError hi hpage hexec
              exact .same hcalm.tlb fun i b _ n ↦ congrFun (hcalm.pgTbl b) n
            · exact .same (by rw [hkill]; rfl) fun _ _ _ _ ↦ by rw [hkill]; rfl
        | some n' =>
            rw [slotOf_page hpage] at hslot hmiss
            obtain rfl := Option.some.inj ((tableSlot_page hu n' j).symm.trans hslot)
            exact .refilled j b n' c.slot (hown hp hb) (tlbHit_none hmiss) hmem
      · rcases hi with ⟨f, rfl, hpte, rfl⟩ | ⟨f, rfl, rfl⟩
        · rcases hf.pool f with hfree | ⟨j, b, n, hlisted, hhas, -⟩
          · rw [hfree] at hpte
            cases hpte
          · obtain rfl : (b, n) = e := by
              rw [hlisted] at hpte
              exact Option.some.inj hpte
            exact .written p _ rest j b n _ hact hready hcode hhas
              (.inl ⟨f, rfl, by rw [hlisted], rfl⟩) hmem
        · cases p with
          | test =>
              obtain ⟨n, hand, hs, hhead⟩ := hr.script.heads hready hcode
              cases hhead with
              | read j b hi => rcases hi with ⟨w, hi⟩ | ⟨w, hi⟩ | hi <;> cases hi
          | uproc j =>
              have hsup : (s.proc (.uproc j)).p_supportStruct = some e.1 :=
                hf.own j (.mapPage e f) (by rw [hcode]; exact List.mem_cons_self)
              have hhas := hown rfl hsup
              refine .written _ _ rest j e.1 e.2 _ hact hready hcode hhas ?_ hmem
              exact .inr ⟨f, rfl, rfl, rfl⟩

/-! ## Coherence -/

/-- The TLB is in accordance with the page tables. -/
structure Coherent (s : System u m k) : Prop where
  unique : ∀ l l' e e', s.mem.tlb l = some e → s.mem.tlb l' = some e' →
    e.pte_entryHI = e'.pte_entryHI → l = l'
  tagged : ∀ l e, s.mem.tlb l = some e → ∃ (i : Fin u) (n : Fin 32),
    (s.proc (.uproc i)).phase ≠ .unborn ∧ e.pte_entryHI = entryHi (pageNumber n) (asidOf i)
  current : ∀ l e i b n, s.mem.tlb l = some e → Has s i b →
    e.pte_entryHI = entryHi (pageNumber n) (asidOf i) → e = s.mem.pte (b, n)

/-- A U-proc that has a support structure and has been there before had it before. -/
theorem Has.before_of_born (h : Has t j b) (hstep : SupStep cfg s a t) (hp : Placed s)
    (hnew : Fresh s) (hborn : (s.proc (.uproc j)).phase ≠ .unborn) : Has s j b := by
  refine (h.of_step hstep hp hnew).resolve_right ?_
  rintro ⟨p, rest, -, hready, hcode⟩
  exact hborn (hnew p j b rest hready hcode).1

/-- What the hardware finds for a page is the entry of the page table. -/
theorem Coherent.hit (h : Coherent s) (hj : Has s j b) {e : PteEntry}
    (he : s.mem.tlbHit (entryHi (pageNumber n) (asidOf j)) = some e) : e = s.mem.pte (b, n) := by
  obtain ⟨hhi, l, hl⟩ := tlbHit_some he
  exact h.current l e j b n hl hj hhi

theorem Coherent.step (h : Coherent s) (hu : u < 64) (hr : Running s mode) (hf : Frames s)
    (hstep : SupStep cfg s a t) : Coherent t := by
  have hborn : ∀ {i : Fin u}, (s.proc (.uproc i)).phase ≠ .unborn →
      (t.proc (.uproc i)).phase ≠ .unborn := hstep.born hr.placed hr.fresh
  -- an entry from before the step is of a page whose support structure is from before the step
  have hold : ∀ {l e i b n}, s.mem.tlb l = some e → Has t i b →
      e.pte_entryHI = entryHi (pageNumber n) (asidOf i) → Has s i b ∧ e = s.mem.pte (b, n) := by
    intro l e i b n hl hi hhi
    obtain ⟨i', n', hborn, hhi'⟩ := h.tagged l e hl
    obtain ⟨rfl, rfl⟩ := entryHi_inj hu (hhi'.symm.trans hhi)
    have hs := hi.before_of_born hstep hr.placed hr.fresh hborn
    exact ⟨hs, h.current l e i' b n' hl hs hhi⟩
  cases hstep.translates hu hr hf with
  | same htlb hpte =>
      refine ⟨fun l l' e e' hl hl' ↦ ?_, fun l e hl ↦ ?_, fun l e i b n hl hi hhi ↦ ?_⟩
      · rw [htlb] at hl hl'
        exact h.unique l l' e e' hl hl'
      · rw [htlb] at hl
        obtain ⟨i, n, hi, hhi⟩ := h.tagged l e hl
        exact ⟨i, n, hborn hi, hhi⟩
      · rw [htlb] at hl
        obtain ⟨hs, rfl⟩ := hold hl hi hhi
        exact (hpte i b hs n).symm
  | refilled j b n l hhas hmiss hmem =>
      have hhi : (s.mem.pte (b, n)).pte_entryHI = entryHi (pageNumber n) (asidOf j) :=
        hf.tables j b hhas n
      have htlb : ∀ l', t.mem.tlb l' = Function.update s.mem.tlb l (some (s.mem.pte (b, n))) l' :=
        fun l' ↦ by rw [hmem]; rfl
      have hpte : ∀ e, t.mem.pte e = s.mem.pte e := fun e ↦ by rw [hmem]; rfl
      -- the slot has the new entry, and the others have none for its page
      have hcases : ∀ l' e, t.mem.tlb l' = some e → l' = l ∧ e = s.mem.pte (b, n) ∨
          l' ≠ l ∧ s.mem.tlb l' = some e ∧
            e.pte_entryHI ≠ entryHi (pageNumber n) (asidOf j) := by
        intro l' e hl'
        rw [htlb] at hl'
        by_cases he : l' = l
        · rw [he, Function.update_self] at hl'
          exact .inl ⟨he, (Option.some.inj hl').symm⟩
        · rw [Function.update_of_ne he] at hl'
          exact .inr ⟨he, hl', hmiss l' e hl'⟩
      refine ⟨fun l₁ l₂ e₁ e₂ h₁ h₂ he ↦ ?_, fun l' e hl' ↦ ?_, fun l' e i b' n' hl' hi hhi' ↦ ?_⟩
      · rcases hcases l₁ e₁ h₁ with ⟨rfl, rfl⟩ | ⟨-, h₁, hne₁⟩ <;>
          rcases hcases l₂ e₂ h₂ with ⟨rfl, rfl⟩ | ⟨-, h₂, hne₂⟩
        · rfl
        · exact absurd (he.symm.trans hhi) hne₂
        · exact absurd (he.trans hhi) hne₁
        · exact h.unique l₁ l₂ e₁ e₂ h₁ h₂ he
      · rcases hcases l' e hl' with ⟨rfl, rfl⟩ | ⟨-, hl', -⟩
        · exact ⟨j, n, hborn hhas.alive.1, hhi⟩
        · obtain ⟨i, n', hi, hhi'⟩ := h.tagged l' e hl'
          exact ⟨i, n', hborn hi, hhi'⟩
      · rw [hpte]
        rcases hcases l' e hl' with ⟨rfl, rfl⟩ | ⟨-, hl', -⟩
        · obtain ⟨rfl, rfl⟩ := entryHi_inj hu (hhi.symm.trans hhi')
          have hs := hi.before_of_born hstep hr.placed hr.fresh hhas.alive.1
          rw [Option.some.inj (hs.support.symm.trans hhas.support)]
        · exact (hold hl' hi hhi').2
  | written p i rest j b n x ha hready hcode hhas hi hmem =>
      have hhi : (s.mem.pte (b, n)).pte_entryHI = entryHi (pageNumber n) (asidOf j) :=
        hf.tables j b hhas n
      have hx : x.pte_entryHI = (s.mem.pte (b, n)).pte_entryHI := by
        rcases hi with ⟨f, -, -, rfl⟩ | ⟨f, -, -, rfl⟩ <;> rfl
      have hpte : ∀ e, t.mem.pte e = if e = (b, n) then x else s.mem.pte e := by
        intro e
        rw [hmem, updateTLB_pte, setPte_pte, ← hx]
      have htlb : ∀ l, t.mem.tlb l = if s.mem.tlbp x.pte_entryHI = some l then some x
          else s.mem.tlb l := by
        intro l
        have hself : (s.mem.setPte (b, n) x.pte_entryLO).pte (b, n) = x := by
          rw [setPte_pte, if_pos rfl, ← hx]
        rw [hmem, updateTLB_tlb, hself]
        rfl
      -- the slot for the page has the new entry, and the others are not for it
      have hcases : ∀ l e, t.mem.tlb l = some e →
          (∃ e', s.mem.tlb l = some e' ∧ e'.pte_entryHI = x.pte_entryHI) ∧ e = x ∨
          s.mem.tlb l = some e ∧ e.pte_entryHI ≠ x.pte_entryHI := by
        intro l e hl
        rw [htlb] at hl
        split at hl
        · obtain ⟨e', he', hhi'⟩ := tlbp_some ‹_›
          exact .inl ⟨⟨e', he', hhi'⟩, (Option.some.inj hl).symm⟩
        · rename_i hne
          refine .inr ⟨hl, fun he ↦ ?_⟩
          cases hfound : s.mem.tlbp x.pte_entryHI with
          | none => exact tlbp_none hfound l e hl he
          | some l' =>
              obtain ⟨e', he', hhi'⟩ := tlbp_some hfound
              have hsame := h.unique l' l e' e he' hl (hhi'.trans he.symm)
              exact hne (hfound.trans (congrArg some hsame))
      refine ⟨fun l₁ l₂ e₁ e₂ h₁ h₂ he ↦ ?_, fun l e hl ↦ ?_, fun l e i b' n' hl hi' hhi' ↦ ?_⟩
      · rcases hcases l₁ e₁ h₁ with ⟨⟨e₁', h₁', hhi₁⟩, rfl⟩ | ⟨h₁', hne₁⟩ <;>
          rcases hcases l₂ e₂ h₂ with ⟨⟨e₂', h₂', hhi₂⟩, rfl⟩ | ⟨h₂', hne₂⟩
        · exact h.unique l₁ l₂ e₁' e₂' h₁' h₂' (hhi₁.trans hhi₂.symm)
        · exact absurd he.symm hne₂
        · exact absurd he hne₁
        · exact h.unique l₁ l₂ e₁ e₂ h₁' h₂' he
      · rcases hcases l e hl with ⟨-, rfl⟩ | ⟨hl, -⟩
        · exact ⟨j, n, hborn hhas.alive.1, hx.trans hhi⟩
        · obtain ⟨i, n', hi, hhi'⟩ := h.tagged l e hl
          exact ⟨i, n', hborn hi, hhi'⟩
      · rw [hpte]
        rcases hcases l e hl with ⟨-, rfl⟩ | ⟨hl, hne⟩
        · obtain ⟨rfl, rfl⟩ := entryHi_inj hu ((hx.trans hhi).symm.trans hhi')
          have hs := hi'.before_of_born hstep hr.placed hr.fresh hhas.alive.1
          obtain rfl := Option.some.inj (hs.support.symm.trans hhas.support)
          rw [if_pos rfl]
        · obtain ⟨hs, rfl⟩ := hold hl hi' hhi'
          rw [if_neg fun he ↦ hne (by rw [he, hx])]

/-- The TLB is empty at first. -/
theorem Started.coherent (h : Started s) : Coherent s := by
  have hnone : ∀ l e, s.mem.tlb l ≠ some e := fun l e he ↦ by
    rw [h.tlb] at he
    cases he
  exact ⟨fun l _ e _ he ↦ absurd he (hnone l e), fun l e he ↦ absurd he (hnone l e),
    fun l e _ _ _ he ↦ absurd he (hnone l e)⟩

/-! ## What entries of page tables keep -/

/-- The page and the write permission of the entries are those of `first`. -/
def Kept (first : Fin u × Fin 32 → PteEntry) (s : System u m k) : Prop :=
  ∀ i b, Has s i b → ∀ n, (s.mem.pte (b, n)).pte_entryHI = (first (b, n)).pte_entryHI ∧
    (s.mem.pte (b, n)).pte_entryLO &&& ENTRYLO_DIRTY = (first (b, n)).pte_entryLO &&& ENTRYLO_DIRTY

variable (cfg) in
/-- A valid entry is that of a frame of the pool. -/
def Pooled (s : System u m k) : Prop :=
  ∀ i b, Has s i b → ∀ n, (s.mem.pte (b, n)).Valid →
    ∃ f, (s.mem.pte (b, n)).frame = cfg.frameAddress f

/-- When nobody is created any more, a support structure stays whose it is. -/
theorem Waits.has (hw : Waits s) (h : Has t j b) (hr : Running s mode) (hstep : SupStep cfg s a t) :
    Has s j b := by
  refine (h.of_step hstep hr.placed hr.fresh).resolve_right ?_
  rintro ⟨_ | i, rest, -, hready, hcode⟩
  · rcases hw with hw | ⟨n, hw⟩
    · cases hcode.symm.trans hw
    · rcases awaits_cons (hw.symm.trans hcode) with hi | ⟨hi, -⟩ <;> cases hi
  · exact hr.shapes.not_test hready hcode trivial

/-- What a step does to an entry of a page table. -/
theorem SupStep.entry (hstep : SupStep cfg s a t) (hu : u < 64) (hr : Running s mode)
    (hf : Frames s) (hj : Has s j b) (n : Fin 32) :
    t.mem.pte (b, n) = s.mem.pte (b, n) ∨ t.mem.pte (b, n) = (s.mem.pte (b, n)).unmapped ∨
      ∃ f, a.actor = some (.uproc j) ∧ (s.proc (.uproc j)).phase = .ready ∧
        (∃ rest, (s.proc (.uproc j)).code = .mapPage (b, n) f :: rest) ∧
        t.mem.pte (b, n) = (s.mem.pte (b, n)).mapped (cfg.frameAddress f) := by
  cases hstep.translates hu hr hf with
  | same htlb hpte => exact .inl (hpte j b hj n)
  | refilled i b' n' l hhas hmiss hmem => exact .inl (by rw [hmem]; rfl)
  | written p i rest j' b' n' x ha hready hcode hhas hi hmem =>
      have hpte : t.mem.pte (b, n) =
          if (b, n) = (b', n') then ⟨(s.mem.pte (b', n')).pte_entryHI, x.pte_entryLO⟩
          else s.mem.pte (b, n) := by
        rw [hmem, updateTLB_pte, setPte_pte]
      split at hpte
      · rename_i he
        obtain ⟨rfl, rfl⟩ := Prod.mk.inj he
        rcases hi with ⟨f, -, -, rfl⟩ | ⟨f, rfl, rfl, rfl⟩
        · exact .inr (.inl hpte)
        · obtain rfl := hhas.unique hj hr.owns
          exact .inr (.inr ⟨f, ha, hready, ⟨rest, hcode⟩, hpte⟩)
      · exact .inl hpte

theorem Kept.step {first : Fin u × Fin 32 → PteEntry} (h : Kept first s) (hu : u < 64)
    (hr : Running s mode) (hf : Frames s) (hw : Waits s) (hstep : SupStep cfg s a t) :
    Kept first t := by
  intro i b hi n
  have hs := hw.has hi hr hstep
  rcases hstep.entry hu hr hf hs n with he | he | ⟨f, -, -, -, he⟩ <;> rw [he]
  · exact h i b hs n
  · exact ⟨(h i b hs n).1, (PteEntry.unmapped_dirty _).trans (h i b hs n).2⟩
  · exact ⟨(h i b hs n).1,
      (PteEntry.mapped_dirty _ (frameAddress_aligned cfg f)).trans (h i b hs n).2⟩

theorem Pooled.step (h : Pooled cfg s) (hu : u < 64) (hr : Running s mode) (hf : Frames s)
    (hw : Waits s) (hstep : SupStep cfg s a t) : Pooled cfg t := by
  intro i b hi n
  have hs := hw.has hi hr hstep
  rcases hstep.entry hu hr hf hs n with he | he | ⟨f, -, -, -, he⟩ <;> rw [he]
  · exact h i b hs n
  · exact fun hv ↦ absurd hv (PteEntry.unmapped_invalid _)
  · exact fun _ ↦ ⟨f, PteEntry.mapped_frame _ (frameAddress_aligned cfg f)⟩

/-- No page is mapped at first. -/
theorem Started.unmapped (h : Started s) (hj : Has s j b) (n : Fin 32) :
    ¬ (s.mem.pte (b, n)).Valid := by
  obtain ⟨f, -, hf⟩ := h.support
  obtain ⟨hsup, -, tmp_frame, htable⟩ := hf j
  obtain rfl := Option.some.inj (hsup.symm.trans hj.support)
  rw [Memory.pte, htable]
  exact not_not.mpr (initPageTable_invalid ..)

end PandosPlus.SupportLevel
