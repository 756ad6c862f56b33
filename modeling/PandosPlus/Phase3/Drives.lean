import PandosPlus.Phase3.Frames

/-!
# The flash drives

Both registers of a drive are written before its operation starts, with interrupts enabled.
The U-procs operate the drives under the lock of the swap pool, and only those of U-procs
that have been created; `test` reads the header of a drive with no lock, before it creates
the U-proc.  So nobody writes to a drive that another process operates.
-/

namespace PandosPlus.SupportLevel

open Lts TaggedLock

variable {u m k : Nat} {cfg : PoolConfig m} {s t : System u m k} {p q : Actor u}
variable {a : Event u k} {mode : SemId → Actor u → Mode} {i : Instr u m}
variable {code rest : List (Instr u m)} {j : Fin u} {d : Int}

/-- The drive that an instruction writes to. -/
def Instr.drive? : Instr u m → Option Int
  | .setData0 (.flash d) _ | .doIo (.flash d) _ => some d
  | _ => none

/-- No drive, or that of a U-proc that has been created. -/
def Known (s : System u m k) (d : Int) : Prop :=
  d = NOPROC - 1 ∨ ∃ n, (s.proc (.uproc n)).phase ≠ .unborn ∧ d = asidOf n - 1

/-- The U-procs operate the drives of U-procs that have been created, and start the
operation right after they have written `data0`. -/
structure Drives (s : System u m k) : Prop where
  known : ∀ j, ∀ i ∈ (s.proc (.uproc j)).code, ∀ d, i.drive? = some d → Known s d
  starts : ∀ j d w rest, (s.proc (.uproc j)).code = .setData0 (.flash d) w :: rest →
    ∃ c rest', rest = .doIo (.flash d) c :: rest'

theorem Known.step (h : Known s d) (hp : Placed s) (hnew : Fresh s) (hstep : SupStep cfg s a t) :
    Known t d := h.imp_right fun ⟨n, hn, hd⟩ ↦ ⟨n, hstep.born hp hnew hn, hd⟩

theorem drive_of_quiet (hi : ¬ i.Touching) : i.drive? = none := by
  cases i with
  | setData0 d w =>
      cases d with
      | flash d => exact absurd trivial hi
      | _ => rfl
  | doIo d w =>
      cases d with
      | flash d => exact absurd trivial hi
      | _ => rfl
  | _ => rfl

theorem Drives.known_step (h : Drives s) (hu : u < 64) (hr : Running s mode) (hf : Frames s)
    (hstep : SupStep cfg s a t) (j : Fin u) :
    ∀ i ∈ (t.proc (.uproc j)).code, ∀ d, i.drive? = some d → Known t d := by
  have hquiet : ∀ i : Instr u m, ¬ i.Touching → ∀ d, i.drive? = some d → Known t d :=
    fun i hi d hd ↦ by cases (drive_of_quiet hi).symm.trans hd
  have hknown : ∀ {d}, Known s d → Known t d := fun h ↦ h.step hr.placed hr.fresh hstep
  refine hstep.code_all hr.placed hr.fresh hr.shapes
    (fun i hi d hd ↦ hknown (hi d hd)) hquiet (fun i rest code hready hcode hi hexp hrest ↦ ?_)
    (h.known j)
  refine hexp.all hrest hquiet (fun _ _ _ _ _ ↦ nofun)
    (fun _ _ _ _ ↦ ⟨fun _ ↦ nofun, fun _ ↦ ⟨fun _ ↦ nofun, fun _ ↦ nofun⟩⟩) ?_ ?_
  · rintro f w w' rfl
    have hd : Known t ((s.mem.swap_pool_table f).sw_asid - 1) := by
      rcases hf.pool f with he | ⟨n, b, page, he, hhas, -⟩
      · rw [he]
        exact .inl rfl
      · rw [he]
        exact hknown (.inr ⟨n, hhas.alive.1, rfl⟩)
    exact ⟨fun d he ↦ Option.some.inj he ▸ hd, fun d he ↦ Option.some.inj he ▸ hd⟩
  · rintro e f w w' rfl
    have hown := hf.own j _ (hcode ▸ List.mem_cons_self)
    obtain ⟨hhas, -⟩ := hr.owns.has hready hcode rfl nofun hown
    obtain ⟨hasid, -⟩ := (hf.tables j e.1 hhas).page hu e.2
    have hd : Known t (ENTRYHI_GET_ASID (s.mem.pte e).pte_entryHI - 1) := by
      rw [hasid]
      exact hknown (.inr ⟨j, hhas.alive.1, rfl⟩)
    exact ⟨fun d he ↦ Option.some.inj he ▸ hd, fun d he ↦ Option.some.inj he ▸ hd, fun _ ↦ nofun,
      fun _ ↦ nofun⟩

theorem Drives.step (h : Drives s) (hu : u < 64) (hr : Running s mode) (hf : Frames s)
    (hstep : SupStep cfg s a t) : Drives t where
  known := h.known_step hu hr hf hstep
  starts j d w rest hcode := by
    rcases (hf.first_step hr hstep j).2 _ _ hcode trivial with
      ⟨-, hsame⟩ | ⟨-, -, ⟨hi, -⟩ | ⟨d', w', c, rest', hi, hrest⟩⟩
    · rw [hsame] at hcode
      exact h.starts j d w rest hcode
    · cases hi
    · cases hi
      exact ⟨c, rest', hrest⟩

/-! ## Nobody else operates a drive -/

/-- The process `p` is about to write to the drive `d`, or waits for it. -/
structure Operates (s : System u m k) (p : Actor u) (d : Int) : Prop where
  phase : (s.proc p).phase = .ready ∨ (s.proc p).phase = .waiting
  head : ∃ i rest, (s.proc p).code = i :: rest ∧ i.drive? = some d

/-- A process that operates a drive is not dead. -/
theorem Operates.alive (h : Operates s p d) : (s.proc p).phase ≠ .dead := by
  rcases h.phase with h | h <;> rw [h] <;> exact nofun

/-- `test` operates the drive of a U-proc that is not there yet. -/
theorem Operates.test (h : Operates s .test d) (hs : Script s) :
    ∃ j : Fin u, (s.proc (.uproc j)).phase = .unborn ∧ d = asidOf j - 1 := by
  obtain ⟨n, hand, hs⟩ := hs.resolve_left h.alive
  obtain ⟨i, rest, hcode, hi⟩ := h.head
  have hcode' := hs.code
  rw [hcode] at hcode'
  cases hcode'.heads with
  | read j b hread =>
      refine ⟨j, (hs.born j).mpr le_rfl, ?_⟩
      rcases hread with ⟨w, rfl⟩ | ⟨w, rfl⟩ | rfl
      · exact (Option.some.inj hi).symm
      · exact (Option.some.inj hi).symm
      · cases hi
  | _ => cases hi

/-- A U-proc that operates a drive owns the swap pool. -/
theorem Operates.owner (h : Operates s (.uproc j) d) (hl : Locks s mode) :
    mode .swapPool (.uproc j) = .owner := by
  obtain ⟨i, rest, hcode, hi⟩ := h.head
  have hall := hl.follows (.uproc j) h.alive .swapPool nofun
  rw [hcode] at hall
  obtain ⟨ξ, hshift, -⟩ := shifts_cons.mp hall
  have hin : InPool .swapPool (mode .swapPool (.uproc j)) ∨
      Actor.uproc j = .test ∧ mode .swapPool (.uproc j) = .out := by
    cases i with
    | setData0 e w =>
        cases e with
        | flash e => exact (keep_some.mp hshift).1
        | _ => cases hi
    | doIo e w =>
        cases e with
        | flash e => exact (keep_some.mp hshift).1
        | _ => cases hi
    | _ => cases hi
  have hin' := hin.resolve_right fun h ↦ nomatch h.1
  rwa [InPool, if_pos rfl] at hin'

/-- Two processes do not operate one drive. -/
theorem Drives.alone (h : Drives s) (hr : Running s mode) (hp : Operates s p d)
    (hq : Operates s q d) : p = q := by
  have htest : ∀ {j}, Operates s .test d → Operates s (.uproc j) d → False := fun ht hj ↦ by
    obtain ⟨n, hunborn, hd⟩ := ht.test hr.script
    obtain ⟨i, rest, hcode, hi⟩ := hj.head
    rcases h.known _ i (hcode ▸ List.mem_cons_self) d hi with he | ⟨n', hborn, he⟩
    · have hasid := hd.symm.trans he
      change (n : Int) + 1 - 1 = -1 - 1 at hasid
      omega
    · have hasid : asidOf n = asidOf n' := by
        have := hd.symm.trans he
        omega
      exact hborn (asidOf_injective hasid ▸ hunborn)
  cases p with
  | test =>
      cases q with
      | test => rfl
      | uproc j => exact (htest hp hq).elim
  | uproc i =>
      cases q with
      | test => exact (htest hq hp).elim
      | uproc j =>
          refine (hr.locks.lock .swapPool nofun).alone _ _ ?_ ?_
          · rw [hp.owner hr.locks]
            exact nofun
          · rw [hq.owner hr.locks]
            exact nofun

/-! ## Operations -/

/-- The process that operates each drive, with what it has written to `data0`: from the write
on, until the drive completes. -/
def operation (s : System u m k) (a : Event u k) (_ : System u m k)
    (op : Int → Option (Actor u × Word)) : Int → Option (Actor u × Word) := fun d ↦
  match a with
  | .run p _ =>
      match (s.proc p).code with
      | .setData0 (.flash e) w :: _ => if e = d then some (p, w) else op d
      | _ => op d
  | .complete (.flash e) _ => if e = d then none else op d
  | _ => op d

/-- The process `p` has written `w` to `data0` of the drive `d`, and the drive has not
completed yet. -/
structure Operation (s : System u m k) (d : Int) (p : Actor u) (w : Word) : Prop where
  data0 : (s.mem.dev (.flash d)).data0 = w
  head : ∃ c rest, (s.proc p).code = .doIo (.flash d) c :: rest ∧ ((s.proc p).phase = .ready ∨
    (s.proc p).phase = .waiting ∧ (s.mem.dev (.flash d)).command = c)

theorem Operation.operates {w : Word} (h : Operation s d p w) : Operates s p d := by
  obtain ⟨c, rest, hcode, hphase⟩ := h.head
  exact ⟨hphase.imp_right And.left, _, rest, hcode, rfl⟩

/-- Only two instructions write to the registers of a device. -/
theorem Executed.registers {c : Choice k} {id : Actor u} {r s' : Memory u m k} {v v' : Proc u m}
    (h : Executed cfg c id r v i rest s' v') (d : Dev) :
    (∃ w, i = .setData0 d w) ∨ (∃ w, i = .doIo d w) ∨
      (s'.dev d).data0 = (r.dev d).data0 ∧ (s'.dev d).command = (r.dev d).command := by
  have htlb : ∀ (r : Memory u m k) e, (r.updateTLB e).dev = r.dev := fun r e ↦ by
    obtain ⟨tlb, he⟩ := updateTLB_eq r e
    rw [he]
  cases h with
  | expand hcalm hexp hv => exact .inr (.inr (by rw [hcalm.dev]; exact ⟨rfl, rfl⟩))
  | storePage f e hpte => exact .inr (.inr (by rw [htlb]; exact ⟨rfl, rfl⟩))
  | mapPage e f => exact .inr (.inr (by rw [htlb]; exact ⟨rfl, rfl⟩))
  | setData0 d' w =>
      by_cases hd : d = d'
      · exact .inl ⟨w, hd ▸ rfl⟩
      · exact .inr (.inr (by rw [setDev_ne r hd]; exact ⟨rfl, rfl⟩))
  | doIo d' w =>
      by_cases hd : d = d'
      · exact .inr (.inl ⟨w, hd ▸ rfl⟩)
      · exact .inr (.inr (by rw [setDev_ne r hd]; exact ⟨rfl, rfl⟩))
  | _ => exact .inr (.inr ⟨rfl, rfl⟩)

theorem SupStep.registers (h : SupStep cfg s a t) (d : Dev) :
    (∃ p i rest, a.actor = some p ∧ (s.proc p).phase = .ready ∧ (s.proc p).code = i :: rest ∧
      ((∃ w, i = .setData0 d w) ∨ ∃ w, i = .doIo d w)) ∨
      (t.mem.dev d).data0 = (s.mem.dev d).data0 ∧ (t.mem.dev d).command = (s.mem.dev d).command := by
  cases h.touches with
  | nothing h => exact .inr (by rw [h]; exact ⟨rfl, rfl⟩)
  | calm h => exact .inr (by rw [h.dev]; exact ⟨rfl, rfl⟩)
  | ran p c i rest ha hready hcode h =>
      have hact : a.actor = some p := by rw [ha]; rfl
      rcases h.registers d with hi | hi | hsame
      · exact .inl ⟨p, i, rest, hact, hready, hcode, .inl hi⟩
      · exact .inl ⟨p, i, rest, hact, hready, hcode, .inr hi⟩
      · exact .inr hsame
  | answered d' status p rest ha hwaiting h =>
      refine .inr ?_
      rw [h]
      by_cases hd : d = d'
      · rw [hd, setDev_self, completed_dev]
        exact ⟨rfl, rfl⟩
      · rw [setDev_ne _ hd, completed_dev]
        exact ⟨rfl, rfl⟩
  | killed dies h => exact .inr (by rw [h]; exact ⟨rfl, rfl⟩)

/-- The operation of a drive goes on until it completes. -/
theorem Operation.step {w : Word} (h : Operation s d p w) (hd : Drives s) (hr : Running s mode)
    (hstep : SupStep cfg s a t) (htest : (t.proc .test).phase ≠ .dead)
    (ha : ∀ status, a ≠ .complete (.flash d) status) : Operation t d p w := by
  obtain ⟨c, rest, hcode, hphase⟩ := h.head
  by_cases hact : a.actor = some p
  · -- the operation starts
    obtain ⟨hready, c', ⟨hexec, -⟩ | ⟨hexec, -⟩⟩ := hstep.exec hact hcode rfl nofun nofun
    swap
    · cases hexec
    obtain ⟨hmem, hproc⟩ := Outcome.ok.inj hexec
    refine ⟨?_, c, rest, ?_, .inr ⟨?_, ?_⟩⟩
    · rw [← hmem, setDev_self]
      exact h.data0
    · rw [← hproc]
      exact hcode
    · rw [← hproc]
    · rw [← hmem, setDev_self]
  · have hregisters : (t.mem.dev (.flash d)).data0 = (s.mem.dev (.flash d)).data0 ∧
        (t.mem.dev (.flash d)).command = (s.mem.dev (.flash d)).command := by
      refine (hstep.registers (.flash d)).resolve_left ?_
      rintro ⟨q, i, rest', hq, hready, hcode', hi⟩
      have hdrive : i.drive? = some d := by rcases hi with ⟨_, rfl⟩ | ⟨_, rfl⟩ <;> rfl
      have hop : Operates s q d := ⟨.inl hready, i, rest', hcode', hdrive⟩
      exact hact (hd.alone hr hop h.operates ▸ hq)
    have hsame : t.proc p = s.proc p := by
      cases hstep.goes hr.placed hr.fresh p with
      | still _ h' => exact h'
      | blocked c' i rest' x ha' => exact absurd (by rw [ha']; rfl) hact
      | passed i rest' x _ hcode' hx =>
          obtain ⟨rfl, -⟩ := List.cons.inj (hcode.symm.trans hcode')
          cases hx
      | ran c' i rest' ha' => exact absurd (by rw [ha']; rfl) hact
      | left i j _ _ hnil => cases hcode.symm.trans hnil
      | answered d' c' rest' status ha' _ hcode' =>
          obtain ⟨hi, -⟩ := List.cons.inj (hcode.symm.trans hcode')
          obtain ⟨rfl, -⟩ := Instr.doIo.inj hi
          exact absurd ha' (ha status)
      | creates i b rest' ha' => exact absurd ha' hact
      | created i b q rest' _ _ _ _ hunborn =>
          rcases hphase with hphase | ⟨hphase, -⟩ <;> cases hphase.symm.trans hunborn
      | killed q i rest' ha' _ _ _ hq _ hall =>
          cases q with
          | test => exact absurd (hall .test rfl) htest
          | uproc j => exact absurd (Actor.eq_of_progeny hq ▸ ha') hact
    refine ⟨hregisters.1.trans h.data0, c, rest, ?_, ?_⟩
    · rw [hsame]
      exact hcode
    · rw [hsame, hregisters.2]
      exact hphase

/-- A process that has written to `data0` starts the operation next. -/
theorem Operation.begin {w : Word} (hd : Drives s) (hr : Running s mode) (hstep : SupStep cfg s a t)
    (ha : a.actor = some p) (hcode : (s.proc p).code = .setData0 (.flash d) w :: rest) :
    Operation t d p w := by
  obtain ⟨hready, c, ⟨hexec, -⟩ | ⟨hexec, -⟩⟩ := hstep.exec ha hcode rfl nofun nofun
  swap
  · cases hexec
  obtain ⟨hmem, hproc⟩ := Outcome.ok.inj hexec
  have hnext : ∃ c rest', rest = .doIo (.flash d) c :: rest' := by
    cases p with
    | test =>
        obtain ⟨n, hand, hs⟩ := hr.script.resolve_left (by rw [hready]; exact nofun)
        exact (hcode ▸ hs.code).starts
    | uproc j => exact hd.starts j d w rest hcode
  obtain ⟨c', rest', rfl⟩ := hnext
  refine ⟨?_, c', rest', ?_, .inl ?_⟩
  · rw [← hmem, setDev_self]
  · rw [← hproc]
    rfl
  · rw [← hproc]
    exact hready

/-! ## Runs -/

/-- What holds of the drives in every state. -/
structure Exclusive (s : System u m k) (op : Int → Option (Actor u × Word)) : Prop where
  sound : Sound s
  drives : (s.proc .test).phase ≠ .dead → Drives s
  operation : (s.proc .test).phase ≠ .dead → ∀ d p w, op d = some (p, w) → Operation s d p w

theorem Exclusive.step {op : Int → Option (Actor u × Word)} (h : Exclusive s op) (hu : u < 64)
    (hstep : SerialStep cfg s a t) : Exclusive t (SupportLevel.operation s a t op) := by
  obtain ⟨mode, hr⟩ := h.sound.running
  have hbefore : (t.proc .test).phase ≠ .dead → (s.proc .test).phase ≠ .dead := fun ht hs ↦
    ht (hstep.1.dead hr.placed hr.fresh hs)
  refine ⟨h.sound.step hu hstep, fun ht ↦ ?_, fun ht d p w hop ↦ ?_⟩
  · exact (h.drives (hbefore ht)).step hu hr (h.sound.frames (hbefore ht)) hstep.1
  have hd := h.drives (hbefore ht)
  have hkeep : op d = some (p, w) → (∀ status, a ≠ .complete (.flash d) status) →
      Operation t d p w := fun hop ha ↦
    (h.operation (hbefore ht) d p w hop).step hd hr hstep.1 ht ha
  unfold SupportLevel.operation at hop
  split at hop
  · split at hop
    · rename_i hcode
      split at hop
      · rename_i he
        obtain ⟨rfl, rfl⟩ := Prod.mk.inj (Option.some.inj hop)
        exact .begin hd hr hstep.1 rfl (he ▸ hcode)
      · exact hkeep hop fun _ ↦ nofun
    · exact hkeep hop fun _ ↦ nofun
  · split at hop
    · cases hop
    · rename_i hne
      refine hkeep hop fun status he ↦ hne ?_
      exact Dev.flash.inj (Event.complete.inj he).1
  · rename_i hne
    exact hkeep hop fun status ↦ hne d status

theorem Booted.exclusive (h : Booted s) : Exclusive s fun _ ↦ none where
  sound := h.sound
  drives _ := by
    obtain ⟨_, _, _, _, -, -, -, -, -, hborn⟩ := h
    refine ⟨fun j i hi ↦ ?_, fun j d w rest hcode ↦ ?_⟩
    · rw [(hborn j).2] at hi
      exact absurd hi List.not_mem_nil
    · cases hcode.symm.trans (hborn j).2
  operation _ _ _ _ hop := by cases hop

theorem run_exclusive {op : Int → Option (Actor u × Word)} {s₀ : System u m k}
    {as : List (Event u k)} (hu : u < 64) (hs : Booted s₀)
    (hrun : Run (WithHistory (SerialStep cfg) operation) (s₀, fun _ ↦ none) as (s, op)) :
    Exclusive s op :=
  hrun.invariant (I := fun x ↦ Exclusive x.1 x.2) (fun x a y hx ⟨hstep, hop⟩ ↦ by
    rw [hop]
    exact hx.step hu hstep) hs.exclusive

/-- The only one that waits for a drive. -/
theorem Exclusive.waiting {op : Int → Option (Actor u × Word)} (h : Exclusive s op)
    (hs : (s.proc .test).phase ≠ .dead) (hp : (s.proc p).phase = .waiting) {c : Word}
    (hcode : (s.proc p).code = .doIo (.flash d) c :: rest) :
    (s.mem.dev (.flash d)).waiting = [p] := by
  obtain ⟨mode, hr⟩ := h.sound.running
  have hwaits : ∀ q ∈ (s.mem.dev (.flash d)).waiting, q = p := fun q hq ↦ by
    obtain ⟨hphase, c', rest', hcode'⟩ :=
      Proc.of_waitsFor ((hr.placed.waiting.mem_iff q (.flash d)).mp hq)
    exact (h.drives hs).alone hr ⟨.inr hphase, _, rest', hcode', rfl⟩ ⟨.inr hp, _, rest, hcode, rfl⟩
  have hmem : p ∈ (s.mem.dev (.flash d)).waiting := by
    refine (hr.placed.waiting.mem_iff p (.flash d)).mpr ?_
    rw [Proc.waitsFor, if_pos hp, hcode]
    rfl
  have hnodup := hr.placed.waiting.nodup (.flash d)
  revert hwaits hmem hnodup
  cases (s.mem.dev (.flash d)).waiting with
  | nil => exact fun _ h ↦ absurd h List.not_mem_nil
  | cons q l =>
      intro hwaits _ hnodup
      obtain rfl := hwaits q List.mem_cons_self
      cases l with
      | nil => rfl
      | cons r l =>
          obtain rfl := hwaits r (List.mem_cons_of_mem _ List.mem_cons_self)
          exact absurd List.mem_cons_self (List.nodup_cons.mp hnodup).1

/-- A process that has written to `data0` of a drive has it to itself until the drive
completes: nobody else is about to write to a register of it, `data0` and the command stay
what the process has written, and it is the one that is woken with the status. -/
def DriveKept (s : System u m k) (op : Int → Option (Actor u × Word)) : Prop :=
  ∀ d p w, op d = some (p, w) →
    (∀ q i rest, q ≠ p → (s.proc q).phase = .ready → (s.proc q).code = i :: rest →
      i.drive? ≠ some d) ∧
    ((s.proc .test).phase ≠ .dead → (s.mem.dev (.flash d)).data0 = w ∧
      ∃ c rest, (s.proc p).code = .doIo (.flash d) c :: rest ∧ ((s.proc p).phase = .ready ∨
        (s.proc p).phase = .waiting ∧ (s.mem.dev (.flash d)).command = c ∧
          (s.mem.dev (.flash d)).waiting = [p]))

end PandosPlus.SupportLevel
