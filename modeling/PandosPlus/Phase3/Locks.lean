import PandosPlus.Lib.Run
import PandosPlus.Phase3.Discipline
import PandosPlus.Phase3.Owners

/-!
# The locks of the support level

Where every process is with respect to every lock, as a history of a run (`track`), and
what holds of semaphores, tags and code at all times (`Locks`), as long as the support
structure of each U-proc has its ASID (`Owns`).  The lock of the swap pool may be wanted
while one of a device is held, never the other way round.
-/

namespace PandosPlus.SupportLevel

open Lts TaggedLock

variable {u m k : Nat} {cfg : PoolConfig m} {s t : System u m k} {p q : Actor u} {x y : SemId}
variable {a : Event u k} {mode : SemId → Actor u → Mode} {μ ν ξ : Mode}
variable {i : Instr u m} {rest : List (Instr u m)}

/-- Where each process is after a step. -/
def track (s : System u m k) (a : Event u k) (t : System u m k) (mode : SemId → Actor u → Mode) :
    SemId → Actor u → Mode := fun x p ↦
  match (s.proc p).code with
  -- it may have been woken by another process
  | .passeren y :: rest =>
      if y = x ∧ (t.proc p).phase = .ready ∧ (t.proc p).code = rest then .entered else mode x p
  | .setUser y asid :: _ =>
      if y = x ∧ a.actor = some p then (if asid = NOPROC then .leaving else .owner) else mode x p
  | .verhogen y :: _ => if y = x ∧ a.actor = some p then .out else mode x p
  | _ => mode x p

/-- The locks are in order, and so is what the processes have still to do.  What happens
after `test` has ended, when everyone has been killed, does not matter. -/
structure Locks (s : System u m k) (mode : SemId → Actor u → Mode) : Prop where
  lock : ∀ x, x ≠ .master → Inv Actor.asid NOPROC (s.sem x).val (s.mem.user_asid x)
    (s.sem x).queue (mode x)
  real : ∀ x, x ≠ .master → ∀ p, mode x p ≠ .out → x ∈ sems u
  follows : ∀ p, (s.proc p).phase ≠ .dead → ∀ x, x ≠ .master →
    shifts p x (s.proc p).code (mode x p) = some .out

/-! ## The history -/

/-- The semaphore at which an instruction changes where the process is. -/
def Instr.lock? : Instr u m → Option SemId
  | .passeren x | .setUser x _ | .verhogen x => some x
  | _ => none

/-- An instruction that is not about the lock changes nothing. -/
theorem track_of_ne (h : ∀ i rest, (s.proc p).code = i :: rest → i.lock? ≠ some x) :
    track s a t mode x p = mode x p := by
  unfold track
  split
  · rename_i hs
    exact if_neg fun hy ↦ h _ _ hs (congrArg some hy.1)
  · rename_i hs
    exact if_neg fun hy ↦ h _ _ hs (congrArg some hy.1)
  · rename_i hs
    exact if_neg fun hy ↦ h _ _ hs (congrArg some hy.1)
  · rfl

/-- A process that does not go on stays where it is. -/
theorem track_of_still (hcode : (t.proc p).code = (s.proc p).code ∨ (t.proc p).phase ≠ .ready)
    (ha : a.actor ≠ some p ∨ ∃ y rest, (s.proc p).code = .passeren y :: rest) :
    track s a t mode x p = mode x p := by
  have hrun : a.actor = some p → ∃ y rest, (s.proc p).code = .passeren y :: rest :=
    fun he ↦ ha.resolve_left fun hne ↦ hne he
  unfold track
  split
  · rename_i y rest hs
    refine if_neg fun h ↦ ?_
    rcases hcode with hcode | hcode
    · rw [hs, h.2.2] at hcode
      exact List.cons_ne_self _ _ hcode.symm
    · exact hcode h.2.1
  · rename_i y asid rest hs
    refine if_neg fun h ↦ ?_
    obtain ⟨_, _, he⟩ := hrun h.2
    cases hs.symm.trans he
  · rename_i y rest hs
    refine if_neg fun h ↦ ?_
    obtain ⟨_, _, he⟩ := hrun h.2
    cases hs.symm.trans he
  · rfl

/-- A process that goes on is where its instruction takes it. -/
theorem track_of_shift (hs : (s.proc p).code = i :: rest) (ht : (t.proc p).code = rest)
    (hready : (t.proc p).phase = .ready) (ha : a.actor = some p ∨ ∃ y, i = .passeren y)
    (hlock : i.lock? ≠ none) (hi : i.shift p x (mode x p) = some ξ) :
    track s a t mode x p = ξ := by
  unfold track
  rw [hs]
  cases i with
  | passeren y =>
      simp only [Instr.shift] at hi
      by_cases hy : y = x
      · rw [if_pos hy] at hi
        split at hi <;> cases hi
        exact if_pos ⟨hy, hready, ht⟩
      · rw [if_neg hy] at hi
        exact (if_neg fun h ↦ hy h.1).trans (keep_some.mp hi).2
  | setUser y asid =>
      obtain ha := ha.resolve_right (by rintro ⟨_, ⟨⟩⟩)
      simp only [Instr.shift] at hi
      by_cases hy : y = x
      · rw [if_pos hy] at hi
        refine (if_pos ⟨hy, ha⟩).trans ?_
        split at hi
        · cases hi
          exact if_pos (And.left ‹_›)
        · split at hi <;> cases hi
          rename_i h
          exact if_neg fun he ↦ asid_ne_NOPROC p (h.1.symm.trans he)
      · rw [if_neg hy] at hi
        exact (if_neg fun h ↦ hy h.1).trans (Option.some.inj hi)
  | verhogen y =>
      obtain ha := ha.resolve_right (by rintro ⟨_, ⟨⟩⟩)
      simp only [Instr.shift] at hi
      by_cases hy : y = x
      · rw [if_pos hy] at hi
        split at hi <;> cases hi
        exact if_pos ⟨hy, ha⟩
      · rw [if_neg hy] at hi
        exact (if_neg fun h ↦ hy h.1).trans (keep_some.mp hi).2
  | _ => exact absurd rfl hlock

/-! ## A step -/

/-- An instruction leaves code that is in order. -/
theorem Executed.shifts {c : Choice k} {r s' : Memory u m k} {v v' : Proc u m}
    (h : Executed cfg c p r v i rest s' v') (hcode : v.code = i :: rest) (hx : x ≠ .master)
    (hreal : μ ≠ .out → x ∈ sems u) (huser : r.user_asid x = p.asid ↔ μ = .owner)
    (hown : ∀ b, v.p_supportStruct = some b →
      ∃ j, p = .uproc j ∧ (r.support_arr b).sup_asid = asidOf j)
    (hlock : i.lock? = none) (hall : shifts p x (i :: rest) μ = some .out) :
    shifts p x v'.code μ = some .out := by
  obtain ⟨ξ, hi, hrest⟩ := shifts_cons.mp hall
  cases h with
  | expand hcalm hexp hv =>
      rw [hv.2.2]
      exact hexp.shifts hx hreal huser hown hall
  | setUser y asid => cases hlock
  | refill j b hid hi => exact hall
  | pageFault j b hid hload =>
      refine shifts_step (keep_of ?_) hall
      rcases hload with rfl | ⟨w, rfl⟩
      · exact (keep_some.mp hi).1
      · exact (keep_some.mp hi).1
  | doIo d w =>
      change SupportLevel.shifts p x v.code μ = _
      rwa [hcode]
  | setData0 d w =>
      cases d with
      | flash j =>
          obtain ⟨-, rfl⟩ := keep_some.mp hi
          exact hrest
      | _ =>
          cases hi
          exact hrest
  | listDel j b =>
      obtain ⟨hok, rfl⟩ := keep_some.mp hi
      exact shifts_step (keep_of hok) hrest
  | initSupport j b =>
      obtain ⟨hok, rfl⟩ := keep_some.mp hi
      exact shifts_backingStoreOperation (.inr hok) (shifts_step (keep_of hok) hrest)
  | initPageTable j b w =>
      obtain ⟨hok, rfl⟩ := keep_some.mp hi
      exact shifts_step (keep_of hok) hrest
  | _ =>
      obtain ⟨-, rfl⟩ := keep_some.mp hi
      exact hrest

/-- An instruction writes tags only where it says so. -/
theorem Executed.user_asid {c : Choice k} {r s' : Memory u m k} {v v' : Proc u m}
    (h : Executed cfg c p r v i rest s' v') (hlock : i.lock? = none) :
    s'.user_asid = r.user_asid := by
  have htlb : ∀ (r : Memory u m k) e, (r.updateTLB e).user_asid = r.user_asid := fun r e ↦ by
    obtain ⟨tlb, he⟩ := updateTLB_eq r e
    rw [he]
  cases h with
  | expand hcalm hexp hv => exact hcalm.user_asid
  | setUser y asid => cases hlock
  | storePage f e hpte => exact htlb _ e
  | mapPage e f => exact htlb _ e
  | _ => rfl

/-- The tag of a process is in a lock exactly while it owns it. -/
theorem Locks.user_asid_eq_iff (h : Locks s mode) (hx : x ≠ .master) (p : Actor u) :
    s.mem.user_asid x = p.asid ↔ mode x p = .owner :=
  (h.lock x hx).user_eq_iff asid_injective asid_ne_NOPROC

theorem Instr.lock_of_sem {i : Instr u m} (h : i.sem? = some y) : i.lock? = some y := by
  cases i with
  | passeren z => exact h
  | verhogen z => exact h
  | _ => cases h

/-- A call on one semaphore changes nothing about the locks of the others. -/
theorem shift_of_ne (hi : i.sem? = some y) (hx : x ≠ y) (h : i.shift p x μ = some ξ) : ξ = μ := by
  cases i with
  | passeren z =>
      obtain rfl := Option.some.inj hi
      simp only [Instr.shift, if_neg hx.symm] at h
      exact (keep_some.mp h).2.symm
  | verhogen z =>
      obtain rfl := Option.some.inj hi
      simp only [Instr.shift, if_neg hx.symm] at h
      exact (keep_some.mp h).2.symm
  | _ => cases hi

/-- Where a process is that is about to call on a lock. -/
theorem shift_of_sem (hi : i.sem? = some x) (h : i.shift p x μ = some ξ) :
    i = .passeren x ∧ μ = .out ∧ ξ = .entered ∧ x ∈ sems u ∨
      i = .verhogen x ∧ μ = .leaving ∧ ξ = .out := by
  cases i with
  | passeren z =>
      obtain rfl := Option.some.inj hi
      simp only [Instr.shift, if_pos] at h
      split at h <;> cases h
      rename_i hout
      exact .inl ⟨rfl, hout.1, rfl, hout.2⟩
  | verhogen z =>
      obtain rfl := Option.some.inj hi
      simp only [Instr.shift, if_pos] at h
      split at h <;> cases h
      exact .inr ⟨rfl, ‹_›, rfl⟩
  | _ => cases hi

/-- What is known of a process that is about to call on a lock. -/
theorem Locks.calls (h : Locks s mode) (hp : (s.proc p).phase ≠ .dead)
    (hcode : (s.proc p).code = i :: rest) (hi : i.sem? = some x) (hx : x ≠ .master) :
    x ∈ sems u ∧ (i = .passeren x ∧ mode x p = .out ∨ i = .verhogen x ∧ mode x p = .leaving) := by
  have hall := h.follows p hp x hx
  rw [hcode] at hall
  obtain ⟨ξ, hshift, -⟩ := shifts_cons.mp hall
  rcases shift_of_sem hi hshift with ⟨rfl, hout, -, hmem⟩ | ⟨rfl, hleaving, -⟩
  · exact ⟨hmem, .inl ⟨rfl, hout⟩⟩
  · exact ⟨h.real x hx p (by rw [hleaving]; exact nofun), .inr ⟨rfl, hleaving⟩⟩

/-- Nobody sleeps in a V of a lock. -/
theorem Locks.sleeps (h : Locks s mode) (hp : Placed s) (hsleep : (s.proc q).sleepsOn = some x)
    (hx : x ≠ .master) : ∃ rest, (s.proc q).code = .passeren x :: rest := by
  obtain ⟨hasleep, i, rest, hcode, hi⟩ := Proc.of_sleepsOn hsleep
  have hout := (h.lock x hx).waits q ((hp.sleeping.mem_iff q x).mpr hsleep)
  obtain ⟨-, ⟨rfl, -⟩ | ⟨rfl, hleaving⟩⟩ := h.calls (by rw [hasleep]; exact nofun) hcode hi hx
  · exact ⟨rest, hcode⟩
  · cases hout.symm.trans hleaving

/-- A call of PASSEREN or VERHOGEN keeps the locks in order, when it does so to its own. -/
theorem Locks.semCalled {full : Int} (h : Locks s mode) (hp : Placed s)
    (hready : (s.proc p).phase = .ready) (hcode : (s.proc p).code = i :: rest)
    (hi : i.sem? = some y) (hcall : SemCalled s full p y t) (ha : a.actor = some p)
    (hgoes : y ≠ .master → i = .passeren y ∨ (t.proc p).phase = .ready)
    (hlock : y ≠ .master → Inv Actor.asid NOPROC (t.sem y).val (s.mem.user_asid y)
      (t.sem y).queue (track s a t mode y)) : Locks t (track s a t mode) := by
  have hdead : (s.proc p).phase ≠ .dead := by rw [hready]; exact nofun
  have hmoves := hcall.moves hp hready hcode hi
  -- nothing happens to the other locks
  have hother : ∀ x, x ≠ y → ∀ q, track s a t mode x q = mode x q := by
    intro x hx q
    rcases hmoves q with ⟨hq, hsame⟩ | ⟨j, rest', hj, hjy, -⟩
    · exact track_of_still (.inl (congrArg Proc.code hsame))
        (.inl fun he ↦ hq (Option.some.inj (he.symm.trans ha)))
    · refine track_of_ne fun i' rest'' hi' ↦ ?_
      obtain ⟨rfl, -⟩ := List.cons.inj (hj.symm.trans hi')
      rw [Instr.lock_of_sem hjy]
      exact fun he ↦ hx (Option.some.inj he).symm
  refine ⟨fun x hx ↦ ?_, fun x hx q hq ↦ ?_, fun q hq x hx ↦ ?_⟩
  · by_cases hxy : x = y
    · rw [hxy, hcall.mem]
      exact hlock (hxy ▸ hx)
    · rw [hcall.sem_ne hxy, hcall.mem, funext (hother x hxy)]
      exact h.lock x hx
  · by_cases hxy : x = y
    · rw [hxy] at hx ⊢
      exact (h.calls hdead hcode hi hx).1
    · rw [hother x hxy] at hq
      exact h.real x hx q hq
  · rcases hmoves q with ⟨hne, hsame⟩ | ⟨j, rest', hj, hjy, hmove⟩
    · rw [hsame] at hq ⊢
      rw [track_of_still (.inl (congrArg Proc.code hsame))
        (.inl fun he ↦ hne (Option.some.inj (he.symm.trans ha)))]
      exact h.follows q hq x hx
    · have hdead' : (s.proc q).phase ≠ .dead := by
        rcases hmove with ⟨rfl, -⟩ | ⟨rfl | ⟨-, hsleep⟩, -⟩
        · exact hdead
        · exact hdead
        · rw [(Proc.of_sleepsOn hsleep).1]
          exact nofun
      have hall := h.follows q hdead' x hx
      rw [hj] at hall
      obtain ⟨ξ, hshift, hrest⟩ := shifts_cons.mp hall
      rcases hmove with ⟨rfl, hmove⟩ | ⟨hwho, hmove⟩
      · -- it sleeps
        have hasleep : (t.proc q).phase = .asleep := by rw [hmove]
        have hsame : (t.proc q).code = j :: rest' := by rw [hmove, ← hj]
        rw [hsame]
        by_cases hxy : x = y
        · obtain ⟨rfl, -⟩ := List.cons.inj (hj.symm.trans hcode)
          obtain rfl := (hgoes (hxy ▸ hx)).resolve_right (by rw [hasleep]; exact nofun)
          rwa [track_of_still (.inr (by rw [hasleep]; exact nofun)) (.inr ⟨y, rest', hj⟩)]
        · rwa [hother x hxy]
      · have hgo : (t.proc q).phase = .ready := by rw [hmove]
        have htail : (t.proc q).code = rest' := by rw [hmove]
        rw [htail]
        by_cases hxy : x = y
        · subst hxy
          have hact : a.actor = some q ∨ ∃ z, j = .passeren z := by
            rcases hwho with rfl | ⟨-, hsleep⟩
            · exact .inl ha
            · obtain ⟨rest'', hpass⟩ := h.sleeps hp hsleep hx
              exact .inr ⟨x, (List.cons.inj (hj.symm.trans hpass)).1⟩
          have hne : j.lock? ≠ none := by
            rw [Instr.lock_of_sem hjy]
            exact nofun
          rwa [track_of_shift hj htail hgo hact hne hshift]
        · rw [hother x hxy, ← shift_of_ne hjy hxy hshift]
          exact hrest

/-- The mode of `p` alone changes, for the lock `x`. -/
theorem track_eq_update (hp : track s a t mode x p = ξ)
    (hne : ∀ q, q ≠ p → track s a t mode x q = mode x q) :
    track s a t mode x = Function.update (mode x) p ξ := by
  funext q
  by_cases hq : q = p
  · rw [hq, hp, Function.update_self]
  · rw [hne q hq, Function.update_of_ne hq]

theorem Locks.passeren (h : Locks s mode) (hp : Placed s) (hready : (s.proc p).phase = .ready)
    (hcode : (s.proc p).code = .passeren y :: rest) (hcall : SemCalled s 0 p y t)
    (ha : a.actor = some p) : Locks t (track s a t mode) := by
  refine h.semCalled hp hready hcode rfl hcall ha (fun _ ↦ .inl rfl) fun hy ↦ ?_
  have hinv := h.lock y hy
  obtain ⟨hmem, ⟨-, hout⟩ | ⟨he, -⟩⟩ := h.calls (by rw [hready]; exact nofun) hcode rfl hy
  swap
  · cases he
  have hstill : ∀ q, q ≠ p → t.proc q = s.proc q → track s a t mode y q = mode y q := fun q hq he ↦
    track_of_still (.inl (congrArg Proc.code he)) (.inl fun hq' ↦
      hq (Option.some.inj (hq'.symm.trans ha)))
  rcases hcall.ends with ⟨hval, hsem, hproc⟩ | ⟨q, rest', hval, hqueue, -⟩ | ⟨hval, -, hsem, hproc⟩
  · have hmode : track s a t mode y = mode y := by
      funext q
      by_cases hq : q = p
      · refine hq ▸ track_of_still (.inr ?_) (.inr ⟨y, rest, hcode⟩)
        rw [hproc, setProc_self]
        exact nofun
      · exact hstill q hq (hproc ▸ setProc_ne s hq _)
    rw [hmode, hsem]
    exact hinv.wait hval hout
      (hp.sleeping.not_mem (Proc.sleepsOn_of_ne (by rw [hready]; exact nofun)) y)
  · -- when somebody waits for the lock it is not free
    have hfree := (hinv.free (hinv.binary.resolve_left hval)).1
    cases hqueue.symm.trans hfree
  · have hone := hinv.binary.resolve_left hval
    have hentered : track s a t mode y p = .entered := by
      refine track_of_shift hcode ?_ ?_ (.inl ha) nofun ?_
      · rw [hproc, resume_self, hcode]
        rfl
      · rw [hproc, resume_self]
      · rw [hout, Instr.shift, if_pos rfl, if_pos ⟨rfl, hmem⟩]
    rw [track_eq_update hentered fun q hq ↦ hstill q hq (hproc ▸ resume_ne s hq), hsem]
    change Inv _ _ (1 - (s.sem y).val) _ _ _
    rw [hone]
    exact hinv.take hone p

theorem Locks.verhogen (h : Locks s mode) (hp : Placed s) (hready : (s.proc p).phase = .ready)
    (hcode : (s.proc p).code = .verhogen y :: rest) (hcall : SemCalled s 1 p y t)
    (ha : a.actor = some p) : Locks t (track s a t mode) := by
  have hleaving : y ≠ .master → mode y p = .leaving := fun hy ↦ by
    obtain ⟨-, ⟨he, -⟩ | ⟨-, hleaving⟩⟩ := h.calls (by rw [hready]; rintro ⟨⟩) hcode rfl hy
    · cases he
    · exact hleaving
  have hval : y ≠ .master → (s.sem y).val = 0 := fun hy ↦
    (h.lock y hy).val_of_held (by rw [hleaving hy]; rintro ⟨⟩)
  have hgoes : y ≠ .master → (t.proc p).phase = .ready ∧ (t.proc p).code = rest := fun hy ↦ by
    rcases hcall.moves hp hready hcode rfl p with ⟨hne, -⟩ | ⟨j, rest', hj, -, hmove⟩
    · exact absurd rfl hne
    · obtain ⟨-, rfl⟩ := List.cons.inj (hcode.symm.trans hj)
      rcases hmove with ⟨-, hmove⟩ | ⟨-, hgo⟩
      · have hasleep : (t.proc p).phase = .asleep := by rw [hmove]
        rcases hcall.ends with ⟨hfull, -⟩ | ⟨q, _, -, -, -, hproc⟩ | ⟨-, -, -, hproc⟩
        · cases (hval hy).symm.trans hfull
        · rw [hproc] at hasleep
          by_cases hq : p = q
          · rw [hq, resume_self] at hasleep
            cases hasleep
          · rw [resume_ne _ hq, resume_self] at hasleep
            cases hasleep
        · rw [hproc, resume_self] at hasleep
          cases hasleep
      · rw [hgo]
        exact ⟨rfl, rfl⟩
  refine h.semCalled hp hready hcode rfl hcall ha (fun hy ↦ .inr (hgoes hy).1) fun hy ↦ ?_
  have hinv := h.lock y hy
  have hout : track s a t mode y p = .out :=
    track_of_shift hcode (hgoes hy).2 (hgoes hy).1 (.inl ha) (by rintro ⟨⟩)
      (by rw [hleaving hy, Instr.shift, if_pos rfl, if_pos rfl])
  have hstill : ∀ q, q ≠ p → t.proc q = s.proc q → track s a t mode y q = mode y q := fun q hq he ↦
    track_of_still (.inl (congrArg Proc.code he)) (.inl fun hq' ↦
      hq (Option.some.inj (hq'.symm.trans ha)))
  rcases hcall.ends with ⟨hfull, -⟩ | ⟨q, rest', -, hqueue, hsem, hproc⟩ | ⟨-, hqueue, hsem, hproc⟩
  · cases (hval hy).symm.trans hfull
  · have hq := hp.sleeping.place_head hqueue
    obtain ⟨hasleep, -⟩ := Proc.of_sleepsOn hq
    obtain ⟨rest'', hpass⟩ := h.sleeps hp hq hy
    have hne : q ≠ p := by
      rintro rfl
      cases hready.symm.trans hasleep
    have hentered : track s a t mode y q = .entered := by
      refine track_of_shift hpass ?_ ?_ (.inr ⟨y, rfl⟩) (by rintro ⟨⟩) ?_
      · rw [hproc, resume_self, resume_ne s hne, hpass]
        rfl
      · rw [hproc, resume_self]
      · obtain ⟨hmem, ⟨-, hout⟩ | ⟨he, -⟩⟩ := h.calls (by rw [hasleep]; rintro ⟨⟩) hpass rfl hy
        · rw [hout, Instr.shift, if_pos rfl, if_pos ⟨rfl, hmem⟩]
        · cases he
    have hmode : track s a t mode y =
        Function.update (Function.update (mode y) p .out) q .entered := by
      funext r
      by_cases hr : r = q
      · rw [hr, hentered, Function.update_self]
      · rw [Function.update_of_ne hr]
        by_cases hr' : r = p
        · rw [hr', hout, Function.update_self]
        · rw [Function.update_of_ne hr']
          refine hstill r hr' ?_
          rw [hproc, resume_ne _ hr, resume_ne _ hr']
    rw [hmode, hsem]
    change Inv _ _ (s.sem y).val _ _ _
    rw [hval hy]
    rw [hqueue] at hinv
    exact hinv.handOver (hleaving hy)
  · rw [track_eq_update hout fun q hq ↦ hstill q hq (hproc ▸ resume_ne s hq), hsem]
    change Inv _ _ (1 - (s.sem y).val) _ (s.sem y).queue _
    rw [hval hy, hqueue]
    rw [hqueue] at hinv
    exact hinv.give (hleaving hy)

/-- What changes no semaphore, no tag and nobody's mode keeps the locks in order. -/
theorem Locks.of_still (h : Locks s mode) (hsem : t.sem = s.sem)
    (huser : t.mem.user_asid = s.mem.user_asid)
    (hmode : ∀ x, x ≠ .master → ∀ q, track s a t mode x q = mode x q)
    (hfollows : ∀ q, (t.proc q).phase ≠ .dead → ∀ x, x ≠ .master →
      shifts q x (t.proc q).code (mode x q) = some .out) : Locks t (track s a t mode) := by
  refine ⟨fun x hx ↦ ?_, fun x hx q ↦ ?_, fun q hq x hx ↦ ?_⟩
  · rw [funext (hmode x hx), hsem, huser]
    exact h.lock x hx
  · rw [hmode x hx]
    exact h.real x hx q
  · rw [hmode x hx]
    exact hfollows q hq x hx

/-- The code of one process changes, and that is in order. -/
theorem Locks.goes {v : Proc u m} {mem : Memory u m k} (h : Locks s mode)
    (ht : Alters s p v mem t) (huser : mem.user_asid = s.mem.user_asid)
    (hlock : ∀ i rest, (s.proc p).code = i :: rest → i.lock? = none)
    (ha : ∀ q, q ≠ p → a.actor ≠ some q)
    (hfollows : ∀ x, x ≠ .master → shifts p x v.code (mode x p) = some .out) :
    Locks t (track s a t mode) := by
  refine h.of_still ht.sem (ht.mem ▸ huser) (fun x hx q ↦ ?_) fun q hq x hx ↦ ?_ <;>
    by_cases he : q = p
  · refine track_of_ne fun i rest hcode ↦ ?_
    rw [hlock i rest (he ▸ hcode)]
    exact nofun
  · exact track_of_still (.inl (congrArg Proc.code (ht.ne q he))) (.inl (ha q he))
  · rw [he, ht.self]
    exact hfollows x hx
  · rw [ht.ne q he] at hq ⊢
    exact h.follows q hq x hx

/-- A tag is written or erased. -/
theorem Locks.setUser {asid : Int} (h : Locks s mode)
    (hready : (s.proc p).phase = .ready) (hcode : (s.proc p).code = .setUser y asid :: rest)
    (ht : Alters s p ((s.proc p).goto rest)
      { s.mem with user_asid := Function.update s.mem.user_asid y asid } t)
    (ha : a.actor = some p) : Locks t (track s a t mode) := by
  have hdead : (s.proc p).phase ≠ .dead := by rw [hready]; exact nofun
  have hstill : ∀ x q, q ≠ p → track s a t mode x q = mode x q := fun x q hq ↦
    track_of_still (.inl (congrArg Proc.code (ht.ne q hq)))
      (.inl fun he ↦ hq (Option.some.inj (he.symm.trans ha)))
  have hself : ∀ x, x ≠ .master → ∃ ξ, (Instr.setUser (m := m) y asid).shift p x (mode x p) = some ξ ∧
      track s a t mode x p = ξ ∧ shifts p x rest ξ = some .out := fun x hx ↦ by
    have hall := h.follows p hdead x hx
    rw [hcode] at hall
    obtain ⟨ξ, hi, hrest⟩ := shifts_cons.mp hall
    exact ⟨ξ, hi, track_of_shift hcode (by rw [ht.self]; rfl) (by rw [ht.self]; exact hready)
      (.inl ha) nofun hi, hrest⟩
  refine ⟨fun x hx ↦ ?_, fun x hx q hq ↦ ?_, fun q hq x hx ↦ ?_⟩
  · obtain ⟨ξ, hi, htrack, -⟩ := hself x hx
    rw [track_eq_update htrack (hstill x), ht.sem, ht.mem]
    change Inv _ _ _ (Function.update s.mem.user_asid y asid x) _ _
    simp only [Instr.shift] at hi
    by_cases hy : y = x
    · subst hy
      rw [Function.update_self]
      rw [if_pos rfl] at hi
      split at hi
      · rename_i hw
        cases hi
        exact (h.lock y hx).move (by rw [hw.2]; rintro ⟨⟩) (by rintro ⟨⟩) (.inr ⟨by rintro ⟨⟩, hw.1⟩)
      · split at hi <;> cases hi
        rename_i hw
        exact (h.lock y hx).move (by rw [hw.2]; rintro ⟨⟩) (by rintro ⟨⟩) (.inl ⟨rfl, hw.1⟩)
    · rw [if_neg hy] at hi
      cases hi
      rw [Function.update_of_ne (Ne.symm hy), Function.update_eq_self]
      exact h.lock x hx
  · by_cases hqp : q = p
    · subst hqp
      obtain ⟨ξ, hi, htrack, -⟩ := hself x hx
      refine h.real x hx q fun hout ↦ ?_
      rw [htrack] at hq
      simp only [Instr.shift, hout] at hi
      by_cases hy : y = x
      · rw [if_pos hy] at hi
        split at hi
        · cases (And.right ‹_› : Mode.out = .owner)
        · split at hi
          · cases (And.right ‹_› : Mode.out = .entered)
          · cases hi
      · rw [if_neg hy] at hi
        exact hq (Option.some.inj hi).symm
    · rw [hstill x q hqp] at hq
      exact h.real x hx q hq
  · by_cases hqp : q = p
    · obtain ⟨ξ, -, htrack, hrest⟩ := hself x hx
      rw [hqp, htrack, ht.self]
      exact hrest
    · rw [hstill x q hqp]
      rw [ht.ne q hqp] at hq ⊢
      exact h.follows q hq x hx

theorem Locks.exec {c : Choice k} {mem : Memory u m k} {v : Proc u m} (h : Locks s mode)
    (ho : Owns s) (hready : (s.proc p).phase = .ready) (hcode : (s.proc p).code = i :: rest)
    (hexec : exec cfg c p s.mem (s.proc p) i rest = .ok mem v) (ht : Alters s p v mem t)
    (ha : a.actor = some p) : Locks t (track s a t mode) := by
  have hdone := exec_executed hcode hexec
  cases hlock : i.lock? with
  | none =>
      refine h.goes ht (hdone.user_asid hlock) (fun j rest' hj ↦ ?_)
        (fun q hq he ↦ hq (Option.some.inj (he.symm.trans ha))) fun x hx ↦ ?_
      · obtain ⟨rfl, -⟩ := List.cons.inj (hcode.symm.trans hj)
        exact hlock
      · refine hdone.shifts hcode hx (h.real x hx p) (h.user_asid_eq_iff hx p)
          (fun b hb ↦ ho.tagged hready hcode hdone.not_sem.1 hdone.not_sem.2 hb) hlock ?_
        rw [← hcode]
        exact h.follows p (by rw [hready]; exact nofun) x hx
  | some y =>
      cases i with
      | setUser z asid =>
          cases hexec
          exact h.setUser hready hcode ht ha
      | passeren z => cases hexec
      | verhogen z => cases hexec
      | _ => cases hlock

/-- Some processes are killed, by one that is not about to change a lock. -/
theorem Locks.kill (h : Locks s mode) (dies : Actor u → Bool) (ha : a.actor = some p)
    (hlock : ∀ i rest, (s.proc p).code = i :: rest → i.lock? = none) :
    Locks (s.kill dies) (track s a (s.kill dies) mode) := by
  have hmode : ∀ x q, track s a (s.kill dies) mode x q = mode x q := fun x q ↦ by
    by_cases hq : q = p
    · refine track_of_ne fun i rest hcode ↦ ?_
      rw [hlock i rest (hq ▸ hcode)]
      exact nofun
    · refine track_of_still ?_ (.inl fun he ↦ hq (Option.some.inj (he.symm.trans ha)))
      cases hd : dies q with
      | true =>
          rw [kill_dead s hd]
          exact .inr nofun
      | false =>
          rw [kill_alive s hd]
          exact .inl rfl
  refine ⟨fun x hx ↦ ?_, fun x hx q hq ↦ ?_, fun q hq x hx ↦ ?_⟩
  · rw [funext (hmode x)]
    exact (h.lock x hx).drop List.filter_sublist
  · exact h.real x hx q (hmode x q ▸ hq)
  · rw [hmode]
    cases hd : dies q with
    | true =>
        rw [kill_dead s hd] at hq
        exact absurd rfl hq
    | false =>
        rw [kill_alive s hd] at hq ⊢
        exact h.follows q hq x hx

/-- A process is created. -/
theorem Locks.created {j b : Fin u} (h : Locks s mode) (hnew : Fresh s)
    (hready : (s.proc p).phase = .ready) (hcode : (s.proc p).code = .createProcess j b :: rest)
    (ha : a.actor = some p) {v : Proc u m} (hv : v.code = []) :
    Locks ((s.setProc p ((s.proc p).goto rest)).setProc (.uproc j) v)
      (track s a ((s.setProc p ((s.proc p).goto rest)).setProc (.uproc j) v) mode) := by
  obtain ⟨hborn, hnil⟩ := hnew p j b rest hready hcode
  have hne : p ≠ .uproc j := by
    rintro rfl
    cases hready.symm.trans hborn
  refine h.of_still rfl rfl (fun x hx q ↦ ?_) fun q hq x hx ↦ ?_
  · by_cases hqp : q = p
    · refine track_of_ne fun i rest' hi ↦ ?_
      rw [hqp, hcode] at hi
      obtain ⟨rfl, -⟩ := List.cons.inj hi
      exact nofun
    · by_cases hqj : q = .uproc j
      · refine track_of_ne fun i rest' hi ↦ ?_
        rw [hqj, hnil] at hi
        cases hi
      · refine track_of_still (.inl ?_) (.inl fun he ↦ hqp (Option.some.inj (he.symm.trans ha)))
        rw [setProc_ne _ hqj, setProc_ne _ hqp]
  · by_cases hqj : q = .uproc j
    · subst hqj
      rw [setProc_self, hv]
      have hall := h.follows (.uproc j) (by rw [hborn]; exact nofun) x hx
      rwa [hnil] at hall
    · rw [setProc_ne _ hqj] at hq ⊢
      by_cases hqp : q = p
      · subst hqp
        rw [setProc_self] at hq ⊢
        have hall := h.follows q hq x hx
        rw [hcode] at hall
        obtain ⟨ξ, hi, hrest⟩ := shifts_cons.mp hall
        obtain ⟨-, rfl⟩ := keep_some.mp hi
        exact hrest
      · rw [setProc_ne _ hqp] at hq ⊢
        exact h.follows q hq x hx

/-- A step keeps the locks in order. -/
theorem Locks.step (h : Locks s mode) (hp : Placed s) (ho : Owns s) (hnew : Fresh s)
    (hstep : SupStep cfg s a t) : Locks t (track s a t mode) := by
  cases hstep.moved with
  | passeren hready hcode hcall => exact h.passeren hp hready hcode hcall rfl
  | verhogen hready hcode hcall => exact h.verhogen hp hready hcode hcall rfl
  | terminated hready hcode =>
      refine h.kill _ rfl fun i rest hi ↦ ?_
      obtain ⟨rfl, -⟩ := List.cons.inj (hcode.symm.trans hi)
      rfl
  | created hready hcode => exact h.created hnew hready hcode rfl rfl
  | ran hready hcode hexec ht => exact h.exec ho hready hcode hexec ht rfl
  | @faulted p c i rest hready hcode hexec =>
      refine h.kill _ rfl fun j rest' hj ↦ ?_
      obtain ⟨rfl, -⟩ := List.cons.inj (hcode.symm.trans hj)
      cases i with
      | passeren x => cases hexec
      | setUser x asid => cases hexec
      | verhogen x => cases hexec
      | _ => rfl
  | @left i op mem v t hready hcode hop ht =>
      obtain ⟨hcalm, j, rfl, hj⟩ := userOp_ok hop
      refine h.goes ht hcalm.user_asid (fun i rest hi ↦ ?_)
        (fun q hq he ↦ hq (Option.some.inj he).symm) fun x hx ↦ ?_
      · cases hcode.symm.trans hi
      · -- in user mode a process is outside every lock
        have hall := h.follows (.uproc i) (by rw [hready]; exact nofun) x hx
        rw [hcode] at hall
        rw [Option.some.inj hall]
        refine shifts_step ?_ rfl
        rcases hj with ⟨b, rfl⟩ | ⟨b, w, rfl⟩ | rfl
        · exact keep_of mayFault_out
        · exact keep_of mayFault_out
        · exact keep_of rfl
  | @completed d status p rest t hwaiting ht =>
      obtain ⟨hphase, c, rest', hcode⟩ := Proc.of_waitsFor (hp.waiting.place_head hwaiting)
      refine h.goes ht ?_ (fun i rest hi ↦ ?_) (fun q _ ↦ nofun) fun x hx ↦ ?_
      · exact completed_user_asid ..
      · obtain ⟨rfl, -⟩ := List.cons.inj (hcode.symm.trans hi)
        rfl
      · change shifts p x (s.proc p).code.tail (mode x p) = _
        have hall := h.follows p (by rw [hphase]; exact nofun) x hx
        rw [hcode] at hall ⊢
        obtain ⟨ξ, hi, hrest⟩ := shifts_cons.mp hall
        cases d with
        | flash j =>
            obtain ⟨-, rfl⟩ := keep_some.mp hi
            exact hrest
        | _ =>
            cases hi
            exact hrest

end PandosPlus.SupportLevel
