import Mathlib.Data.Nat.Bitwise
import PandosPlus.Machine

/-!
# Page tables

The page table of a U-proc has 32 entries: 31 for its text and data, from the first page
of kuseg on, and one for its stack.  Both TLB handlers choose an entry by folding the page
number of the faulting address, with no check of what they find there.  They choose right
exactly for the 32 pages of the table (`tlbSlots_right_iff`).
-/

namespace PandosPlus

def PAGESIZE : Nat := 4096
def KUSEG : Word := 0x80000000

/-- `NOPROC`: no U-proc. -/
def NOPROC : Int := -1

def VALIDON : Word := 0x200
def ENTRYLO_DIRTY : Word := 0x400
def ENTRYLO_PFN_MASK : Word := 0xFFFFF000
def ENTRYHI_VPN_BIT : Nat := 12
def ENTRYHI_ASID_BIT : Nat := 6

/-- `pteEntry_t` -/
structure PteEntry where
  pte_entryHI : Word
  pte_entryLO : Word
deriving DecidableEq

/-- A page, byte by byte. -/
abbrev Page := Nat → BitVec 8

/-- `ENTRYHI_GET_VPN`: bits 29 to 12. -/
def ENTRYHI_GET_VPN (entry_hi : Word) : Word := (entry_hi &&& 0x3FFFF000) >>> 12

/-- `ENTRYHI_GET_ASID` -/
def ENTRYHI_GET_ASID (entry_hi : Word) : Int := ((entry_hi &&& 0xFC0) >>> 6).toNat

/-- `GET_VPN`: with the implicit bit 1. -/
def GET_VPN (entry_hi : Word) : Word := ((1 : Word) <<< 19) + ENTRYHI_GET_VPN entry_hi

/-- `_getPageIndex` -/
def getPageIndex (vpn : Word) : Nat := if vpn = 0xBFFFF then 31 else (vpn % 0x80000).toNat

/-- The word of a header at an index. -/
def headerWord (page : Page) (i : Nat) : Int :=
  (page (4 * i + 3) ++ page (4 * i + 2) ++ page (4 * i + 1) ++ page (4 * i) : Word).toInt

/-- The value of EntryHi for a page number and an ASID. -/
def entryHi (vpn : Word) (asid : Int) : Word :=
  (vpn <<< ENTRYHI_VPN_BIT) + (BitVec.ofInt 32 asid <<< ENTRYHI_ASID_BIT)

/-- `initPageTable`, once the header is in `tmp_frame`. -/
def initPageTable (asid : Int) (tmp_frame : Page) (i : Fin 32) : PteEntry :=
  let text_file_size := headerWord tmp_frame 5
  let num_text_file := text_file_size.tdiv PAGESIZE
  if i.val < 31 then
    { pte_entryHI := entryHi (0x80000 + BitVec.ofNat 32 i) asid
      pte_entryLO := if i < num_text_file then 0 else 0 ||| ENTRYLO_DIRTY }
  else { pte_entryHI := entryHi 0xBFFFF asid, pte_entryLO := 0 ||| ENTRYLO_DIRTY }

/-- The slot of the page table that `TLBRefillHandler` copies to the TLB.  The handler has
no way to treat the access as a fault, which would be `none`. -/
def TLBRefillHandler.slot (entry_hi : Word) : Option Nat :=
  let page_index := getPageIndex (GET_VPN entry_hi)
  some page_index

/-- The slot of the page table that `_TLBInvalidHandler` loads the page of. -/
def TLBInvalidHandler.slot (entry_hi : Word) : Option Nat :=
  let missing_page_index := getPageIndex (GET_VPN entry_hi)
  some missing_page_index

/-! ## Page numbers -/

/-- The page number of a slot. -/
def pageNumber (i : Fin 32) : Word := if i.val < 31 then 0x80000 + BitVec.ofNat 32 i else 0xBFFFF

theorem pageNumber_toNat (i : Fin 32) :
    (pageNumber i).toNat = if i.val < 31 then 0x80000 + i.val else 0xBFFFF := by
  revert i
  decide

theorem pageNumber_injective : Function.Injective pageNumber := by
  intro i j h
  have hn := congrArg BitVec.toNat h
  rw [pageNumber_toNat, pageNumber_toNat] at hn
  split at hn <;> split at hn <;> omega

variable {vpn a : Word} {asid : Int}

theorem entryHi_toNat (hv : vpn.toNat < 2 ^ 20) (h₀ : 0 ≤ asid) (h₁ : asid < 64) :
    (entryHi vpn asid).toNat = vpn.toNat * 2 ^ 12 + asid.toNat * 2 ^ 6 := by
  obtain ⟨k, rfl⟩ := Int.eq_ofNat_of_zero_le h₀
  have hk : k < 64 := Int.ofNat_lt.mp h₁
  rw [entryHi, BitVec.toNat_add, BitVec.toNat_shiftLeft, BitVec.toNat_shiftLeft, BitVec.ofInt_natCast,
    BitVec.toNat_ofNat, Nat.shiftLeft_eq, Nat.shiftLeft_eq, Int.toNat_natCast, ENTRYHI_VPN_BIT,
    ENTRYHI_ASID_BIT]
  omega

theorem entryHi_page (hv : vpn.toNat < 2 ^ 20) (h₀ : 0 ≤ asid) (h₁ : asid < 64) :
    entryHi vpn asid >>> 12 = vpn := by
  apply BitVec.eq_of_toNat_eq
  rw [BitVec.toNat_ushiftRight, entryHi_toNat hv h₀ h₁, Nat.shiftRight_eq_div_pow]
  omega

theorem GET_VPN_toNat (entry_hi : Word) :
    (GET_VPN entry_hi).toNat = 0x80000 + (entry_hi >>> 12).toNat % 2 ^ 18 := by
  have hmask : (0x3FFFF000 : Word) >>> 12 = BitVec.ofNat 32 (2 ^ 18 - 1) := by decide
  have hlow : (BitVec.ofNat 32 (2 ^ 18 - 1)).toNat = 2 ^ 18 - 1 := by decide
  have hget : (ENTRYHI_GET_VPN entry_hi).toNat = (entry_hi >>> 12).toNat % 2 ^ 18 := by
    rw [ENTRYHI_GET_VPN, BitVec.ushiftRight_and_distrib, hmask, BitVec.toNat_and, hlow,
      Nat.and_two_pow_sub_one_eq_mod]
  have hone : ((1 : Word) <<< 19).toNat = 0x80000 := by decide
  rw [GET_VPN, BitVec.toNat_add, hone, hget]
  omega

theorem getPageIndex_eq (vpn : Word) :
    getPageIndex vpn = if vpn.toNat = 0xBFFFF then 31 else vpn.toNat % 0x80000 := by
  have hiff : vpn = 0xBFFFF ↔ vpn.toNat = 0xBFFFF :=
    ⟨fun h ↦ by rw [h]; rfl, fun h ↦ BitVec.eq_of_toNat_eq h⟩
  unfold getPageIndex
  simp only [hiff, BitVec.toNat_umod]
  rfl

theorem ENTRYHI_GET_ASID_entryHi (hv : vpn.toNat < 2 ^ 20) (h₀ : 0 ≤ asid) (h₁ : asid < 64) :
    ENTRYHI_GET_ASID (entryHi vpn asid) = asid := by
  have hmask : (0xFC0 : Word) >>> 6 = BitVec.ofNat 32 (2 ^ 6 - 1) := by decide
  have hlow : (BitVec.ofNat 32 (2 ^ 6 - 1)).toNat = 2 ^ 6 - 1 := by decide
  rw [ENTRYHI_GET_ASID, BitVec.ushiftRight_and_distrib, hmask, BitVec.toNat_and, hlow,
    Nat.and_two_pow_sub_one_eq_mod, BitVec.toNat_ushiftRight, Nat.shiftRight_eq_div_pow,
    entryHi_toNat hv h₀ h₁]
  omega

theorem pageNumber_lt (i : Fin 32) : (pageNumber i).toNat < 2 ^ 20 := by
  rw [pageNumber_toNat]
  split <;> omega

/-- The fold is right on the pages of the table. -/
theorem getPageIndex_entryHi (i : Fin 32) (h₀ : 0 ≤ asid) (h₁ : asid < 64) :
    getPageIndex (GET_VPN (entryHi (pageNumber i) asid)) = i := by
  rw [getPageIndex_eq, GET_VPN_toNat, entryHi_page (pageNumber_lt i) h₀ h₁, pageNumber_toNat]
  split <;> split <;> omega

theorem initPageTable_entryHI (asid : Int) (tmp_frame : Page) (i : Fin 32) :
    (initPageTable asid tmp_frame i).pte_entryHI = entryHi (pageNumber i) asid := by
  unfold initPageTable pageNumber
  by_cases hi : i.val < 31 <;> simp only [if_pos, if_neg, hi, not_false_eq_true]

/-- A page table comes without valid pages. -/
theorem initPageTable_invalid (asid : Int) (tmp_frame : Page) (i : Fin 32) :
    (initPageTable asid tmp_frame i).pte_entryLO &&& VALIDON = 0 := by
  unfold initPageTable
  dsimp only
  split
  · split
    · exact (by decide : (0 : Word) &&& VALIDON = 0)
    · exact (by decide : (0 ||| ENTRYLO_DIRTY : Word) &&& VALIDON = 0)
  · exact (by decide : (0 ||| ENTRYLO_DIRTY : Word) &&& VALIDON = 0)

/-! ## Entries -/

namespace PteEntry

/-- The page is in a frame. -/
def Valid (e : PteEntry) : Prop := e.pte_entryLO &&& VALIDON ≠ 0

instance (e : PteEntry) : Decidable e.Valid := inferInstanceAs (Decidable (_ ≠ _))

/-- The address of the frame. -/
def frame (e : PteEntry) : Word := e.pte_entryLO &&& ENTRYLO_PFN_MASK

/-- What `_storePage` makes of an entry. -/
def unmapped (e : PteEntry) : PteEntry := { e with pte_entryLO := e.pte_entryLO &&& ~~~VALIDON }

/-- What `_loadPage` makes of an entry. -/
def mapped (e : PteEntry) (frame : Word) : PteEntry :=
  { e with pte_entryLO := (e.pte_entryLO &&& ~~~ENTRYLO_PFN_MASK) ||| frame ||| VALIDON }

variable {e : PteEntry} {w mask : Word}

/-- An aligned address has no bits below those of the frame. -/
theorem aligned_low (hw : w &&& 0xFFF = 0) (hmask : 0xFFF &&& mask = mask) : w &&& mask = 0 := by
  have hzero : (0 : Word) &&& mask = 0 := BitVec.zero_and
  rw [← hmask, ← BitVec.and_assoc, hw, hzero]

theorem aligned_frame (hw : w &&& 0xFFF = 0) : w &&& ENTRYLO_PFN_MASK = w := by
  have hsplit : (ENTRYLO_PFN_MASK ||| 0xFFF : Word) = BitVec.allOnes 32 := by decide
  calc w &&& ENTRYLO_PFN_MASK = (w &&& ENTRYLO_PFN_MASK) ||| (w &&& 0xFFF) := by
        rw [hw]
        exact BitVec.or_zero.symm
    _ = w := by rw [← BitVec.and_or_distrib_left, hsplit, BitVec.and_allOnes]

theorem unmapped_invalid (e : PteEntry) : ¬ e.unmapped.Valid := by
  refine not_not.mpr ?_
  change e.pte_entryLO &&& ~~~VALIDON &&& VALIDON = 0
  rw [BitVec.and_assoc, (by decide : (~~~VALIDON &&& VALIDON : Word) = 0)]
  exact BitVec.and_zero

theorem mapped_valid (e : PteEntry) (w : Word) : (e.mapped w).Valid := by
  intro h
  have hbit := congrArg (BitVec.getLsbD · 9) h
  change (((e.pte_entryLO &&& ~~~ENTRYLO_PFN_MASK) ||| w ||| VALIDON) &&& VALIDON).getLsbD 9 =
    false at hbit
  rw [BitVec.getLsbD_and, BitVec.getLsbD_or, (by decide : VALIDON.getLsbD 9 = true),
    Bool.or_true] at hbit
  cases hbit

theorem mapped_frame (e : PteEntry) (hw : w &&& 0xFFF = 0) : (e.mapped w).frame = w := by
  change ((e.pte_entryLO &&& ~~~ENTRYLO_PFN_MASK) ||| w ||| VALIDON) &&& ENTRYLO_PFN_MASK = w
  rw [BitVec.and_or_distrib_right, BitVec.and_or_distrib_right, BitVec.and_assoc,
    (by decide : (~~~ENTRYLO_PFN_MASK &&& ENTRYLO_PFN_MASK : Word) = 0#32), BitVec.and_zero,
    (by decide : (VALIDON &&& ENTRYLO_PFN_MASK : Word) = 0#32), BitVec.or_zero, BitVec.zero_or,
    aligned_frame hw]

theorem unmapped_dirty (e : PteEntry) :
    e.unmapped.pte_entryLO &&& ENTRYLO_DIRTY = e.pte_entryLO &&& ENTRYLO_DIRTY := by
  change e.pte_entryLO &&& ~~~VALIDON &&& ENTRYLO_DIRTY = _
  rw [BitVec.and_assoc, (by decide : (~~~VALIDON &&& ENTRYLO_DIRTY : Word) = ENTRYLO_DIRTY)]

theorem mapped_dirty (e : PteEntry) (hw : w &&& 0xFFF = 0) :
    (e.mapped w).pte_entryLO &&& ENTRYLO_DIRTY = e.pte_entryLO &&& ENTRYLO_DIRTY := by
  have hlow : w &&& ENTRYLO_DIRTY = 0#32 := aligned_low hw (by decide)
  change ((e.pte_entryLO &&& ~~~ENTRYLO_PFN_MASK) ||| w ||| VALIDON) &&& ENTRYLO_DIRTY = _
  rw [BitVec.and_or_distrib_right, BitVec.and_or_distrib_right, BitVec.and_assoc,
    (by decide : (~~~ENTRYLO_PFN_MASK &&& ENTRYLO_DIRTY : Word) = ENTRYLO_DIRTY),
    (by decide : (VALIDON &&& ENTRYLO_DIRTY : Word) = 0#32), hlow, BitVec.or_zero, BitVec.or_zero]

end PteEntry

/-! ## The slot of an address -/

/-- The slot is in the table and carries the page number of the address, and an address
with no slot is taken for a fault. -/
def SlotRight (pgTbl : Fin 32 → PteEntry) (a : Word) : Option Nat → Prop
  | some i => ∃ h : i < 32, (pgTbl ⟨i, h⟩).pte_entryHI >>> 12 = a >>> 12
  | none => ∀ i, (pgTbl i).pte_entryHI >>> 12 ≠ a >>> 12

theorem initPageTable_page (h₀ : 0 ≤ asid) (h₁ : asid < 64) (tmp_frame : Page) (i : Fin 32) :
    (initPageTable asid tmp_frame i).pte_entryHI >>> 12 = pageNumber i := by
  rw [initPageTable_entryHI, entryHi_page (pageNumber_lt i) h₀ h₁]

/-- Both TLB handlers choose the right slot for an address, of kuseg or not, exactly when its
page is one of the 32 pages of the table. -/
theorem tlbSlots_right_iff (asid : Int) (h₀ : 0 ≤ asid) (h₁ : asid < 64) (tmp_frame : Page)
    (a : Word) :
    (SlotRight (initPageTable asid tmp_frame) a (TLBRefillHandler.slot (entryHi (a >>> 12) asid)) ∧
      SlotRight (initPageTable asid tmp_frame) a
        (TLBInvalidHandler.slot (entryHi (a >>> 12) asid))) ↔
      ((0x80000 : Word) ≤ a >>> 12 ∧ a >>> 12 < 0x8001F) ∨ a >>> 12 = 0xBFFFF := by
  have hpages : (((0x80000 : Word) ≤ a >>> 12 ∧ a >>> 12 < 0x8001F) ∨ a >>> 12 = 0xBFFFF) ↔
      ∃ i, pageNumber i = a >>> 12 := by
    constructor
    · rintro (⟨hle, hlt⟩ | h)
      · have hn : (a >>> 12).toNat < 0x8001F := hlt
        have hm : 0x80000 ≤ (a >>> 12).toNat := hle
        refine ⟨⟨(a >>> 12).toNat - 0x80000, by omega⟩, BitVec.eq_of_toNat_eq ?_⟩
        rw [pageNumber_toNat, if_pos (by change (a >>> 12).toNat - 0x80000 < 31; omega)]
        change 0x80000 + ((a >>> 12).toNat - 0x80000) = _
        omega
      · exact ⟨31, h.symm⟩
    · rintro ⟨i, hi⟩
      rw [← hi]
      clear hi
      revert i
      decide
  rw [hpages]
  constructor
  · rintro ⟨⟨hlt, hslot⟩, -⟩
    rw [initPageTable_page h₀ h₁] at hslot
    exact ⟨_, hslot⟩
  · rintro ⟨i, hi⟩
    have hslot : SlotRight (initPageTable asid tmp_frame) a
        (some (getPageIndex (GET_VPN (entryHi (a >>> 12) asid)))) := by
      rw [← hi, getPageIndex_entryHi i h₀ h₁]
      exact ⟨i.isLt, (initPageTable_page h₀ h₁ tmp_frame i).trans hi⟩
    exact ⟨hslot, hslot⟩

/-- The first page of the stack of a U-proc is found. -/
theorem tlbSlots_right_iff_sample :
    SlotRight (initPageTable 1 fun _ ↦ 0) 0xBFFFF004
      (TLBRefillHandler.slot (entryHi ((0xBFFFF004 : Word) >>> 12) 1)) :=
  ((tlbSlots_right_iff 1 (by decide) (by decide) (fun _ ↦ 0) 0xBFFFF004).mpr
    (.inr (by decide))).1

/-- The first address after the data of a U-proc is looked up behind its page table. -/
theorem tlbSlot_outside :
    ¬ ∀ (asid : Int) (tmp_frame : Page) (a : Word), 0 ≤ asid → asid < 64 → KUSEG ≤ a →
      SlotRight (initPageTable asid tmp_frame) a
        (TLBRefillHandler.slot (entryHi (a >>> 12) asid)) := by
  intro h
  obtain ⟨hlt, -⟩ := h 1 (fun _ ↦ 0) 0x80020000 (by decide) (by decide) (by decide)
  revert hlt
  decide

end PandosPlus
