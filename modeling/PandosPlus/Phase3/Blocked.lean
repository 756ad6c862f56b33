import PandosPlus.Lib.Lineup
import PandosPlus.Phase3.Steps

/-!
# Where the blocked processes are

A process that sleeps is in the queue of the semaphore its code begins with, one that waits
is in that of its device, and no other process is in a queue.
-/

namespace PandosPlus.SupportLevel

variable {u m k : Nat} {cfg : PoolConfig m} {s t : System u m k} {p q : Actor u} {x y : SemId}
variable {a : Event u k} {full : Int} {d : Dev}

/-- The semaphore of a call that may block. -/
def Instr.sem? : Instr u m → Option SemId
  | .passeren x | .verhogen x => some x
  | _ => none

/-- The device of a DOIO. -/
def Instr.dev? : Instr u m → Option Dev
  | .doIo d _ => some d
  | _ => none

/-- The semaphore a process sleeps on. -/
def Proc.sleepsOn (v : Proc u m) : Option SemId :=
  if v.phase = .asleep then v.code.head?.bind Instr.sem? else none

/-- The device a process waits for. -/
def Proc.waitsFor (v : Proc u m) : Option Dev :=
  if v.phase = .waiting then v.code.head?.bind Instr.dev? else none

/-- The blocked processes are where their code says. -/
structure Placed (s : System u m k) : Prop where
  sleeping : Lineup (fun x ↦ (s.sem x).queue) fun p ↦ (s.proc p).sleepsOn
  waiting : Lineup (fun d ↦ (s.mem.dev d).waiting) fun p ↦ (s.proc p).waitsFor
  sleeps : ∀ p, (s.proc p).phase = .asleep → (s.proc p).sleepsOn ≠ none
  waits : ∀ p, (s.proc p).phase = .waiting → (s.proc p).waitsFor ≠ none

/-- A process is neither asleep nor waiting. -/
def Phase.Free (φ : Phase) : Prop := φ ≠ .asleep ∧ φ ≠ .waiting

theorem Phase.Free.ready : Phase.Free .ready := ⟨nofun, nofun⟩

theorem Phase.Free.dead : Phase.Free .dead := ⟨nofun, nofun⟩

theorem Phase.Free.unborn : Phase.Free .unborn := ⟨nofun, nofun⟩

theorem Proc.sleepsOn_of_ne {v : Proc u m} (h : v.phase ≠ .asleep) : v.sleepsOn = none := if_neg h

theorem Proc.waitsFor_of_ne {v : Proc u m} (h : v.phase ≠ .waiting) : v.waitsFor = none := if_neg h

theorem Proc.free_none {v : Proc u m} (h : v.phase.Free) :
    v.sleepsOn = none ∧ v.waitsFor = none := ⟨v.sleepsOn_of_ne h.1, v.waitsFor_of_ne h.2⟩

/-- Only `p` changes its place, if anyone. -/
theorem Placed.update (h : Placed s) (hne : ∀ q, q ≠ p → t.proc q = s.proc q)
    (hsleep : Lineup (fun x ↦ (t.sem x).queue)
      (Function.update (fun q ↦ (s.proc q).sleepsOn) p (t.proc p).sleepsOn))
    (hwait : Lineup (fun d ↦ (t.mem.dev d).waiting)
      (Function.update (fun q ↦ (s.proc q).waitsFor) p (t.proc p).waitsFor))
    (hasleep : (t.proc p).phase = .asleep → (t.proc p).sleepsOn ≠ none)
    (hwaiting : (t.proc p).phase = .waiting → (t.proc p).waitsFor ≠ none) : Placed t := by
  refine ⟨hsleep.congr (fun _ ↦ rfl) fun q ↦ ?_, hwait.congr (fun _ ↦ rfl) fun q ↦ ?_,
    fun q hq ↦ ?_, fun q hq ↦ ?_⟩ <;> by_cases he : q = p
  · rw [he, Function.update_self]
  · rw [hne q he, Function.update_of_ne he]
  · rw [he, Function.update_self]
  · rw [hne q he, Function.update_of_ne he]
  · rw [he] at hq ⊢
    exact hasleep hq
  · rw [hne q he] at hq ⊢
    exact h.sleeps q hq
  · rw [he] at hq ⊢
    exact hwaiting hq
  · rw [hne q he] at hq ⊢
    exact h.waits q hq

/-- A free process stays free. -/
theorem Placed.stay (h : Placed s) (hne : ∀ q, q ≠ p → t.proc q = s.proc q)
    (hs : (s.proc p).phase.Free) (ht : (t.proc p).phase.Free)
    (hsem : ∀ x, (t.sem x).queue = (s.sem x).queue)
    (hdev : ∀ d, (t.mem.dev d).waiting = (s.mem.dev d).waiting) : Placed t := by
  refine h.update hne ?_ ?_ (fun he ↦ absurd he ht.1) fun he ↦ absurd he ht.2
  · rw [(Proc.free_none ht).1, ← (Proc.free_none hs).1, Function.update_eq_self]
    exact h.sleeping.congr hsem fun _ ↦ rfl
  · rw [(Proc.free_none ht).2, ← (Proc.free_none hs).2, Function.update_eq_self]
    exact h.waiting.congr hdev fun _ ↦ rfl

/-- A process falls asleep. -/
theorem Placed.block (h : Placed s) (hready : (s.proc p).phase = .ready)
    (hcode : (s.proc p).code.head?.bind Instr.sem? = some x) :
    Placed ((s.setProc p { s.proc p with phase := .asleep }).setSem x
      { s.sem x with queue := (s.sem x).queue ++ [p] }) := by
  have hfree : (s.proc p).phase.Free := hready ▸ .ready
  have hplace : ({ s.proc p with phase := .asleep } : Proc u m).sleepsOn = some x :=
    (if_pos rfl).trans hcode
  refine h.update (fun q hq ↦ setProc_ne s hq _) ?_ ?_ ?_ ?_
  · rw [setSem_proc, setProc_self, hplace]
    refine (h.sleeping.join (Proc.free_none hfree).1 x).congr (fun y ↦ ?_) fun _ ↦ rfl
    by_cases hy : y = x
    · rw [hy, setSem_self, Function.update_self]
    · rw [setSem_ne _ hy, Function.update_of_ne hy, setProc_sem]
  · rw [setSem_proc, setProc_self, Proc.waitsFor_of_ne (fun h : Phase.asleep = .waiting ↦ nomatch h),
      ← (Proc.free_none hfree).2, Function.update_eq_self]
    exact h.waiting
  · rw [setSem_proc, setProc_self, hplace]
    exact fun _ ↦ nofun
  · rw [setSem_proc, setProc_self]
    exact fun h ↦ nomatch h

/-- The first process that sleeps on a semaphore is woken. -/
theorem Placed.wake {rest : List (Actor u)} {sem : NucSem u} (h : Placed s)
    (hqueue : (s.sem x).queue = q :: rest) (hrest : sem.queue = rest) :
    Placed ((s.resume q).setSem x sem) := by
  have hfree : ((s.resume q).proc q).phase.Free := by
    rw [resume_self]
    exact .ready
  have hasleep : (s.proc q).phase = .asleep := by
    by_contra hne
    exact nomatch (Proc.sleepsOn_of_ne hne).symm.trans (h.sleeping.place_head hqueue)
  refine h.update (fun r hr ↦ resume_ne s hr) ?_ ?_ (fun he ↦ absurd he hfree.1)
    fun he ↦ absurd he hfree.2
  · rw [setSem_proc, (Proc.free_none hfree).1]
    refine (h.sleeping.leave hqueue).congr (fun y ↦ ?_) fun _ ↦ rfl
    by_cases hy : y = x
    · rw [hy, setSem_self, Function.update_self, hrest]
    · rw [setSem_ne _ hy, Function.update_of_ne hy, resume_sem]
  · rw [setSem_proc, (Proc.free_none hfree).2,
      ← Proc.waitsFor_of_ne (v := s.proc q) (by rw [hasleep]; exact nofun), Function.update_eq_self]
    exact h.waiting

theorem Placed.setVal (h : Placed s) (v : Int) : Placed (s.setSem x { s.sem x with val := v }) := by
  refine ⟨h.sleeping.congr (fun y ↦ ?_) fun _ ↦ rfl, h.waiting, h.sleeps, h.waits⟩
  by_cases hy : y = x
  · rw [hy, setSem_self]
  · rw [setSem_ne _ hy]

/-- The process that calls PASSEREN or VERHOGEN sleeps, or goes on and may wake another. -/
theorem Placed.semCalled (h : Placed s) (hready : (s.proc p).phase = .ready)
    (hcode : (s.proc p).code.head?.bind Instr.sem? = some x) (hcall : SemCalled s full p x t) :
    Placed t := by
  have hresumed : Placed (s.resume p) := by
    refine h.stay (fun q hq ↦ resume_ne s hq) (hready ▸ .ready) ?_ (fun _ ↦ rfl) fun _ ↦ rfl
    rw [resume_self]
    exact .ready
  cases hcall with
  | block => exact h.block hready hcode
  | wake q rest hval hqueue => exact hresumed.wake hqueue rfl
  | change => exact hresumed.setVal _

/-- A process waits for a device. -/
theorem Placed.wait (h : Placed s) {c : Word} {rest : List (Instr u m)}
    (hready : (s.proc p).phase = .ready) (hcode : (s.proc p).code = .doIo d c :: rest)
    (ht : Alters s p { s.proc p with phase := .waiting }
      (s.mem.setDev d fun x ↦ { x with command := c, waiting := x.waiting ++ [p] }) t) :
    Placed t := by
  have hfree : (s.proc p).phase.Free := hready ▸ .ready
  have hphase : (t.proc p).phase = .waiting := by rw [ht.self]
  have hplace : (t.proc p).waitsFor = some d := by
    rw [ht.self, Proc.waitsFor, if_pos rfl, hcode]
    rfl
  refine h.update ht.ne ?_ ?_ (fun he ↦ ?_) fun _ ↦ ?_
  · rw [Proc.sleepsOn_of_ne (by rw [hphase]; exact nofun), ← (Proc.free_none hfree).1,
      Function.update_eq_self, ht.sem]
    exact h.sleeping
  · rw [hplace, ht.mem]
    refine (h.waiting.join (Proc.free_none hfree).2 d).congr (fun e ↦ ?_) fun _ ↦ rfl
    by_cases he : e = d
    · rw [he, Function.update_self, setDev_self]
    · rw [Function.update_of_ne he, setDev_ne _ he]
  · cases hphase.symm.trans he
  · rw [hplace]
    exact nofun

/-- The first process that waits for a device is woken. -/
theorem Placed.answer {rest : List (Actor u)} (h : Placed s) {status : Word} {v : Proc u m}
    (hwaiting : (s.mem.dev d).waiting = p :: rest) (hv : v.phase = .ready)
    (ht : Alters s p v
      ((s.mem.completed status d).setDev d fun r ↦ { r with waiting := rest }) t) : Placed t := by
  have hfree : (t.proc p).phase.Free := by
    rw [ht.self, hv]
    exact .ready
  have hphase : (s.proc p).phase = .waiting := by
    by_contra hne
    exact nomatch (Proc.waitsFor_of_ne hne).symm.trans (h.waiting.place_head hwaiting)
  refine h.update ht.ne ?_ ?_ (fun he ↦ absurd he hfree.1) fun he ↦ absurd he hfree.2
  · rw [(Proc.free_none hfree).1,
      ← Proc.sleepsOn_of_ne (v := s.proc p) (by rw [hphase]; exact nofun), Function.update_eq_self,
      ht.sem]
    exact h.sleeping
  · rw [(Proc.free_none hfree).2, ht.mem]
    refine (h.waiting.leave hwaiting).congr (fun e ↦ ?_) fun _ ↦ rfl
    by_cases he : e = d
    · rw [he, Function.update_self, setDev_self]
    · rw [Function.update_of_ne he, setDev_ne _ he, completed_dev]

/-- The dead are in no queue. -/
theorem Placed.kill (h : Placed s) (dies : Actor u → Bool) : Placed (s.kill dies) := by
  have hplace : ∀ {α : Type} (f : Proc u m → Option α), (∀ v : Proc u m, v.phase.Free → f v = none) →
      ∀ q, f ((s.kill dies).proc q) = if dies q then none else f (s.proc q) := by
    intro α f hf q
    cases hd : dies q with
    | true => exact hf _ (by rw [kill_dead s hd]; exact .dead)
    | false => rw [kill_alive s hd]; rfl
  refine ⟨(h.sleeping.filter dies).congr (fun _ ↦ rfl) (hplace _ fun v hv ↦ (Proc.free_none hv).1),
    (h.waiting.filter dies).congr (fun _ ↦ rfl) (hplace _ fun v hv ↦ (Proc.free_none hv).2),
    fun q hq ↦ ?_, fun q hq ↦ ?_⟩ <;> cases hd : dies q
  · rw [kill_alive s hd] at hq ⊢
    exact h.sleeps q hq
  · rw [kill_dead s hd] at hq
    cases hq
  · rw [kill_alive s hd] at hq ⊢
    exact h.waits q hq
  · rw [kill_dead s hd] at hq
    cases hq

/-- A process that is about to be created is not there yet. -/
def Fresh (s : System u m k) : Prop :=
  ∀ p i b rest, (s.proc p).phase = .ready → (s.proc p).code = .createProcess i b :: rest →
    (s.proc (.uproc i)).phase = .unborn ∧ (s.proc (.uproc i)).code = []

/-- A step keeps the blocked processes in their queues. -/
theorem Placed.step (h : Placed s) (hnew : Fresh s) (hstep : SupStep cfg s a t) : Placed t := by
  cases hstep.moved with
  | passeren hready hcode hcall => exact h.semCalled hready (by rw [hcode]; rfl) hcall
  | verhogen hready hcode hcall => exact h.semCalled hready (by rw [hcode]; rfl) hcall
  | terminated => exact h.kill _
  | @created p c i b rest hready hcode =>
      have hmid : Placed (s.setProc p ((s.proc p).goto rest)) := by
        refine h.stay (fun q hq ↦ setProc_ne s hq _) (hready ▸ .ready) ?_ (fun _ ↦ rfl) fun _ ↦ rfl
        rw [setProc_self]
        exact hready ▸ .ready
      obtain ⟨hborn, -⟩ := hnew p i b rest hready hcode
      have hne : Actor.uproc i ≠ p := by
        rintro rfl
        cases hready.symm.trans hborn
      refine hmid.stay (fun q hq ↦ setProc_ne _ hq _) ?_ ?_ (fun _ ↦ rfl) fun _ ↦ rfl
      · rw [setProc_ne _ hne, hborn]
        exact .unborn
      · rw [setProc_self]
        exact .ready
  | @ran p c i rest mem v t hready hcode hexec ht =>
      rcases (exec_executed hcode hexec).waiting with ⟨d, w, rfl, rfl, rfl⟩ | ⟨hphase, hdev⟩
      · exact h.wait hready hcode ht
      · refine h.stay ht.ne (hready ▸ .ready) ?_ (fun x ↦ by rw [ht.sem]) fun d ↦ ?_
        · rw [ht.self, hphase, hready]
          exact .ready
        · rw [ht.mem, hdev]
  | faulted => exact h.kill _
  | @left i op mem v t hready hcode hop ht =>
      obtain ⟨hcalm, _, rfl, -⟩ := userOp_ok hop
      refine h.stay ht.ne (hready ▸ .ready) ?_ (fun x ↦ by rw [ht.sem]) fun d ↦ ?_
      · rw [ht.self]
        exact hready ▸ .ready
      · rw [ht.mem, hcalm.dev]
  | completed hwaiting ht => exact h.answer hwaiting rfl ht

/-! ## Calls of PASSEREN and VERHOGEN -/

theorem Proc.of_sleepsOn {v : Proc u m} (h : v.sleepsOn = some x) :
    v.phase = .asleep ∧ ∃ i rest, v.code = i :: rest ∧ i.sem? = some x := by
  unfold Proc.sleepsOn at h
  split at h
  · refine ⟨‹_›, ?_⟩
    cases hcode : v.code with
    | nil =>
        rw [hcode] at h
        cases h
    | cons i rest =>
        rw [hcode] at h
        exact ⟨i, rest, rfl, h⟩
  · cases h

theorem Proc.of_waitsFor {v : Proc u m} (h : v.waitsFor = some d) :
    v.phase = .waiting ∧ ∃ c rest, v.code = .doIo d c :: rest := by
  unfold Proc.waitsFor at h
  split at h
  · refine ⟨‹_›, ?_⟩
    cases hcode : v.code with
    | nil =>
        rw [hcode] at h
        cases h
    | cons i rest =>
        rw [hcode] at h
        cases i with
        | doIo e c =>
            obtain rfl := Option.some.inj h
            exact ⟨c, rest, rfl⟩
        | _ => cases h
  · cases h

/-- Who is concerned by a call: the caller, which sleeps or goes on, and a process that has
slept, which goes on. -/
theorem SemCalled.moves {i : Instr u m} {rest : List (Instr u m)} (h : SemCalled s full p x t)
    (hp : Placed s) (hready : (s.proc p).phase = .ready) (hcode : (s.proc p).code = i :: rest)
    (hi : i.sem? = some x) (q : Actor u) :
    q ≠ p ∧ t.proc q = s.proc q ∨
    ∃ j rest', (s.proc q).code = j :: rest' ∧ j.sem? = some x ∧
      (q = p ∧ t.proc q = { s.proc q with phase := .asleep } ∨
        (q = p ∨ q ≠ p ∧ (s.proc q).sleepsOn = some x) ∧
          t.proc q = { s.proc q with phase := .ready, code := rest' }) := by
  have hresume : ∀ {v : Proc u m} {j rest'}, v.code = j :: rest' →
      { v with phase := .ready, code := v.code.tail } =
        { v with phase := .ready, code := rest' } := by
    intro v j rest' hv
    rw [hv]
    rfl
  cases h with
  | block hval =>
      rw [setSem_proc]
      by_cases hq : q = p
      · subst hq
        rw [setProc_self]
        exact .inr ⟨i, rest, hcode, hi, .inl ⟨rfl, rfl⟩⟩
      · exact .inl ⟨hq, setProc_ne s hq _⟩
  | wake r rest' hval hqueue =>
      have hr := hp.sleeping.place_head hqueue
      obtain ⟨hasleep, j, rest'', hcode', hj⟩ := Proc.of_sleepsOn hr
      have hne : r ≠ p := by
        rintro rfl
        cases hready.symm.trans hasleep
      rw [setSem_proc]
      by_cases hq : q = r
      · subst hq
        rw [resume_self, resume_ne s hne]
        exact .inr ⟨j, rest'', hcode', hj, .inr ⟨.inr ⟨hne, hr⟩, hresume hcode'⟩⟩
      · rw [resume_ne _ hq]
        by_cases hq' : q = p
        · subst hq'
          rw [resume_self]
          exact .inr ⟨i, rest, hcode, hi, .inr ⟨.inl rfl, hresume hcode⟩⟩
        · exact .inl ⟨hq', resume_ne s hq'⟩
  | change hval hqueue =>
      rw [setSem_proc]
      by_cases hq : q = p
      · subst hq
        rw [resume_self]
        exact .inr ⟨i, rest, hcode, hi, .inr ⟨.inl rfl, hresume hcode⟩⟩
      · exact .inl ⟨hq, resume_ne s hq⟩

theorem SemCalled.ends (h : SemCalled s full p x t) :
    (s.sem x).val = full ∧ t.sem x = { s.sem x with queue := (s.sem x).queue ++ [p] } ∧
        t.proc = (s.setProc p { s.proc p with phase := .asleep }).proc ∨
      (∃ q rest, (s.sem x).val ≠ full ∧ (s.sem x).queue = q :: rest ∧
        t.sem x = { s.sem x with queue := rest } ∧ t.proc = ((s.resume p).resume q).proc) ∨
      (s.sem x).val ≠ full ∧ (s.sem x).queue = [] ∧
        t.sem x = { s.sem x with val := 1 - (s.sem x).val } ∧ t.proc = (s.resume p).proc := by
  cases h with
  | block hval => exact .inl ⟨hval, setSem_self .., rfl⟩
  | wake q rest hval hqueue => exact .inr (.inl ⟨q, rest, hval, hqueue, setSem_self .., rfl⟩)
  | change hval hqueue => exact .inr (.inr ⟨hval, hqueue, setSem_self .., rfl⟩)

theorem SemCalled.sem_ne (h : SemCalled s full p x t) (hy : y ≠ x) : t.sem y = s.sem y := by
  cases h with
  | block => exact setSem_ne _ hy _
  | wake => exact setSem_ne _ hy _
  | change => exact setSem_ne _ hy _

theorem SemCalled.mem (h : SemCalled s full p x t) : t.mem = s.mem := by
  cases h with
  | block => rfl
  | wake => rfl
  | change => rfl

/-! ## A process in a step -/

/-- What a step does to the process `q`. -/
inductive Goes (cfg : PoolConfig m) (s : System u m k) (a : Event u k) (t : System u m k)
    (q : Actor u) : Prop
  | still (ha : a.actor ≠ some q) (h : t.proc q = s.proc q)
  | blocked (c : Choice k) (i : Instr u m) (rest : List (Instr u m)) (x : SemId)
      (ha : a = .run q c) (hready : (s.proc q).phase = .ready)
      (hcode : (s.proc q).code = i :: rest) (hi : i.sem? = some x)
      (h : t.proc q = { s.proc q with phase := .asleep })
  | passed (i : Instr u m) (rest : List (Instr u m)) (x : SemId)
      (hphase : (s.proc q).phase = .ready ∧ a.actor = some q ∨
        (s.proc q).phase = .asleep ∧ a.actor ≠ some q)
      (hcode : (s.proc q).code = i :: rest) (hi : i.sem? = some x)
      (h : t.proc q = { s.proc q with phase := .ready, code := rest })
  | ran (c : Choice k) (i : Instr u m) (rest : List (Instr u m)) (ha : a = .run q c)
      (hready : (s.proc q).phase = .ready) (hcode : (s.proc q).code = i :: rest)
      (h : Executed cfg c q s.mem (s.proc q) i rest t.mem (t.proc q))
  | left (i : Instr u m) (j : Fin u) (hq : q = .uproc j) (hready : (s.proc q).phase = .ready)
      (hcode : (s.proc q).code = []) (hcalm : Calm s.mem t.mem)
      (hi : (∃ b, i = .load b) ∨ (∃ b w, i = .store b w) ∨ i = .generalException)
      (h : t.proc q = (s.proc q).goto [i])
  | answered (d : Dev) (c : Word) (rest : List (Instr u m)) (status : Word)
      (ha : a = .complete d status) (hwaiting : (s.proc q).phase = .waiting) (hcode : (s.proc q).code = .doIo d c :: rest)
      (h : t.proc q = { s.proc q with phase := .ready, code := rest, status := status })
  | creates (i b : Fin u) (rest : List (Instr u m)) (ha : a.actor = some q) (hready : (s.proc q).phase = .ready)
      (hcode : (s.proc q).code = .createProcess i b :: rest) (h : t.proc q = (s.proc q).goto rest)
  | created (i b : Fin u) (p : Actor u) (rest : List (Instr u m)) (hq : q = .uproc i)
      (ha : a.actor = some p) (hready : (s.proc p).phase = .ready) (hcode : (s.proc p).code = .createProcess i b :: rest)
      (hunborn : (s.proc q).phase = .unborn) (hmem : t.mem = s.mem)
      (h : t.proc q = { s.proc q with phase := .ready, code := [], p_supportStruct := some b })
  | killed (p : Actor u) (i : Instr u m) (rest : List (Instr u m)) (ha : a.actor = some p)
      (hready : (s.proc p).phase = .ready) (hcode : (s.proc p).code = i :: rest)
      (hi : i = .termProcess ∨ ∃ c, exec cfg c p s.mem (s.proc p) i rest = .fault)
      (hq : p.progeny q = true) (h : t.proc q = { s.proc q with phase := .dead, code := [] })
      (hall : ∀ r, p.progeny r = true → (t.proc r).phase = .dead)

theorem Actor.progeny_self (p : Actor u) : p.progeny p = true := by
  cases p with
  | test => rfl
  | uproc i => exact decide_eq_true rfl

theorem Actor.eq_of_progeny {i : Fin u} (h : (Actor.uproc i).progeny q = true) : q = .uproc i :=
  of_decide_eq_true h

theorem SupStep.goes (h : SupStep cfg s a t) (hp : Placed s) (hnew : Fresh s) (q : Actor u) :
    Goes cfg s a t q := by
  have hne : ∀ {p : Actor u}, q ≠ p → ∀ {b : Event u k}, b.actor = some p → b.actor ≠ some q :=
    fun hq _ hb he ↦ hq (Option.some.inj (he.symm.trans hb))
  have hcall : ∀ {full p c x}, a = .run p c → SemCalled s full p x t → (s.proc p).phase = .ready →
      (∃ i rest, (s.proc p).code = i :: rest ∧ i.sem? = some x) → Goes cfg s a t q := by
    rintro full p c x ha hcall hready ⟨i, rest, hcode, hi⟩
    have hact : a.actor = some p := by rw [ha]; rfl
    rcases hcall.moves hp hready hcode hi q with ⟨hq, hsame⟩ | ⟨j, rest', hj, hjx, hmove⟩
    · exact .still (hne hq hact) hsame
    · rcases hmove with ⟨rfl, hsame⟩ | ⟨rfl | ⟨hq, hsleep⟩, hgo⟩
      · exact .blocked c j rest' x ha hready hj hjx hsame
      · exact .passed j rest' x (.inl ⟨hready, hact⟩) hj hjx hgo
      · exact .passed j rest' x (.inr ⟨(Proc.of_sleepsOn hsleep).1, hne hq hact⟩) hj hjx hgo
  have hkill : ∀ {p c i rest}, a = .run p c → (s.proc p).phase = .ready →
      (s.proc p).code = i :: rest →
      (i = .termProcess ∨ ∃ c, exec cfg c p s.mem (s.proc p) i rest = .fault) →
      t = s.kill p.progeny → Goes cfg s a t q := by
    rintro p c i rest rfl hready hcode hi rfl
    cases hd : p.progeny q with
    | true =>
        exact .killed p i rest rfl hready hcode hi hd (kill_dead s hd) fun r hr ↦ by
          rw [kill_dead s hr]
    | false =>
        refine .still (hne ?_ rfl) (kill_alive s hd)
        rintro rfl
        rw [Actor.progeny_self] at hd
        cases hd
  cases h.moved with
  | passeren hready hcode hc => exact hcall rfl hc hready ⟨_, _, hcode, rfl⟩
  | verhogen hready hcode hc => exact hcall rfl hc hready ⟨_, _, hcode, rfl⟩
  | terminated hready hcode => exact hkill rfl hready hcode (.inl rfl) rfl
  | @created p c i b rest hready hcode =>
      obtain ⟨hunborn, -⟩ := hnew p i b rest hready hcode
      by_cases hqi : q = .uproc i
      · subst hqi
        refine .created i b p rest rfl rfl hready hcode hunborn rfl ?_
        rw [setProc_self]
      · by_cases hqp : q = p
        · subst hqp
          refine .creates i b rest rfl hready hcode ?_
          rw [setProc_ne _ hqi, setProc_self]
        · refine .still (hne hqp rfl) ?_
          rw [setProc_ne _ hqi, setProc_ne _ hqp]
  | @ran p c i rest mem v t hready hcode hexec ht =>
      by_cases hqp : q = p
      · subst hqp
        refine .ran c i rest rfl hready hcode ?_
        rw [ht.mem, ht.self]
        exact exec_executed hcode hexec
      · exact .still (hne hqp rfl) (ht.ne q hqp)
  | faulted hready hcode hexec => exact hkill rfl hready hcode (.inr ⟨_, hexec⟩) rfl
  | @left i op mem v t hready hcode hop ht =>
      by_cases hqi : q = .uproc i
      · subst hqi
        obtain ⟨hcalm, j, rfl, hj⟩ := userOp_ok hop
        exact .left j i rfl hready hcode (ht.mem ▸ hcalm) hj ht.self
      · exact .still (hne hqi rfl) (ht.ne q hqi)
  | @completed d status p rest t hwaiting ht =>
      by_cases hqp : q = p
      · subst hqp
        obtain ⟨hphase, c, rest', hcode⟩ := Proc.of_waitsFor (hp.waiting.place_head hwaiting)
        refine .answered d c rest' status rfl hphase hcode ?_
        rw [ht.self, hcode]
        rfl
      · exact .still nofun (ht.ne q hqp)

/-- A process that runs an instruction which is no call of the nucleus. -/
theorem SupStep.exec {i : Instr u m} {rest : List (Instr u m)} (h : SupStep cfg s a t)
    (ha : a.actor = some p) (hcode : (s.proc p).code = i :: rest) (hsem : i.sem? = none)
    (hterm : i ≠ .termProcess) (hcreate : ∀ j b, i ≠ .createProcess j b) :
    (s.proc p).phase = .ready ∧ ∃ c,
      exec cfg c p s.mem (s.proc p) i rest = .ok t.mem (t.proc p) ∧
          (∀ q, q ≠ p → t.proc q = s.proc q) ∨
        exec cfg c p s.mem (s.proc p) i rest = .fault ∧ t = s.kill p.progeny := by
  have hsame : ∀ {p' : Actor u} {c : Choice k}, (Event.run p' c).actor = some p → p' = p :=
    fun h ↦ Option.some.inj h
  cases h.moved with
  | passeren hready hcode' =>
      obtain rfl := hsame ha
      obtain ⟨rfl, -⟩ := List.cons.inj (hcode.symm.trans hcode')
      cases hsem
  | verhogen hready hcode' =>
      obtain rfl := hsame ha
      obtain ⟨rfl, -⟩ := List.cons.inj (hcode.symm.trans hcode')
      cases hsem
  | terminated hready hcode' =>
      obtain rfl := hsame ha
      exact absurd (List.cons.inj (hcode.symm.trans hcode')).1 hterm
  | created hready hcode' =>
      obtain rfl := hsame ha
      exact absurd (List.cons.inj (hcode.symm.trans hcode')).1 (hcreate _ _)
  | @ran p' c i' rest' mem v t hready hcode' hexec ht =>
      obtain rfl := hsame ha
      obtain ⟨rfl, rfl⟩ := List.cons.inj (hcode.symm.trans hcode')
      rw [← ht.mem, ← ht.self] at hexec
      exact ⟨hready, c, .inl ⟨hexec, ht.ne⟩⟩
  | @faulted p' c i' rest' hready hcode' hexec =>
      obtain rfl := hsame ha
      obtain ⟨rfl, rfl⟩ := List.cons.inj (hcode.symm.trans hcode')
      exact ⟨hready, c, .inr ⟨hexec, rfl⟩⟩
  | left hready hcode' =>
      obtain rfl := Option.some.inj ha
      cases hcode.symm.trans hcode'
  | completed => cases ha

/-- A process creates another. -/
theorem SupStep.creation {i b : Fin u} {rest : List (Instr u m)} (h : SupStep cfg s a t)
    (ha : a.actor = some p) (hcode : (s.proc p).code = .createProcess i b :: rest)
    (hp : p ≠ .uproc i) : (s.proc p).phase = .ready ∧ t.mem = s.mem ∧
      t.proc p = (s.proc p).goto rest ∧ t.proc (.uproc i) =
        { s.proc (.uproc i) with phase := .ready, code := [], p_supportStruct := some b } ∧
      ∀ q, q ≠ p → q ≠ .uproc i → t.proc q = s.proc q := by
  have hhead : ∀ {p' : Actor u} {c : Choice k} {i' : Instr u m} {rest' : List (Instr u m)},
      (Event.run p' c).actor = some p → (s.proc p').code = i' :: rest' →
      p' = p ∧ i' = .createProcess i b ∧ rest' = rest := by
    intro p' c i' rest' ha hcode'
    obtain rfl := Option.some.inj ha
    exact ⟨rfl, List.cons.inj (hcode'.symm.trans hcode)⟩
  cases h.moved with
  | passeren hready hcode' => cases (hhead ha hcode').2.1
  | verhogen hready hcode' => cases (hhead ha hcode').2.1
  | terminated hready hcode' => cases (hhead ha hcode').2.1
  | created hready hcode' =>
      obtain ⟨rfl, hi, rfl⟩ := hhead ha hcode'
      obtain ⟨rfl, rfl⟩ := Instr.createProcess.inj hi
      refine ⟨hready, rfl, ?_, setProc_self .., fun q hq hqi ↦ ?_⟩
      · rw [setProc_ne _ hp, setProc_self]
      · rw [setProc_ne _ hqi, setProc_ne _ hq]
  | ran hready hcode' hexec =>
      obtain ⟨rfl, rfl, -⟩ := hhead ha hcode'
      cases hexec
  | faulted hready hcode' hexec =>
      obtain ⟨rfl, rfl, -⟩ := hhead ha hcode'
      cases hexec
  | left hready hcode' =>
      obtain rfl := Option.some.inj ha
      cases hcode.symm.trans hcode'
  | completed => cases ha

/-- What a step does to the memory. -/
inductive Touches (cfg : PoolConfig m) (s : System u m k) (a : Event u k) (t : System u m k) : Prop
  | nothing (h : t.mem = s.mem)
  | calm (h : Calm s.mem t.mem)
  | ran (p : Actor u) (c : Choice k) (i : Instr u m) (rest : List (Instr u m)) (ha : a = .run p c)
      (hready : (s.proc p).phase = .ready) (hcode : (s.proc p).code = i :: rest)
      (h : Executed cfg c p s.mem (s.proc p) i rest t.mem (t.proc p))
  | answered (d : Dev) (status : Word) (p : Actor u) (rest : List (Actor u))
      (ha : a = .complete d status) (hwaiting : (s.mem.dev d).waiting = p :: rest)
      (h : t.mem = (s.mem.completed status d).setDev d fun r ↦ { r with waiting := rest })
  | killed (dies : Actor u → Bool) (h : t.mem = (s.kill dies).mem)

theorem SupStep.touches (h : SupStep cfg s a t) : Touches cfg s a t := by
  cases h.moved with
  | passeren hready hcode hc => exact .nothing hc.mem
  | verhogen hready hcode hc => exact .nothing hc.mem
  | terminated => exact .killed _ rfl
  | created => exact .nothing rfl
  | @ran p c i rest mem v t hready hcode hexec ht =>
      refine .ran p c i rest rfl hready hcode ?_
      rw [ht.mem, ht.self]
      exact exec_executed hcode hexec
  | faulted => exact .killed _ rfl
  | left hready hcode hop ht => exact .calm (ht.mem ▸ (userOp_ok hop).1)
  | completed hwaiting ht => exact .answered _ _ _ _ rfl hwaiting ht.mem

/-- A process that has been created is not unborn again. -/
theorem SupStep.born (h : SupStep cfg s a t) (hp : Placed s) (hnew : Fresh s)
    (hq : (s.proc q).phase ≠ .unborn) : (t.proc q).phase ≠ .unborn := by
  cases h.goes hp hnew q with
  | still ha h => rwa [h]
  | ran c i rest ha hready hcode h =>
      rcases h.waiting with ⟨d, w, -, -, h⟩ | ⟨hphase, -⟩
      · rw [h]
        exact nofun
      · rwa [hphase]
  | left i j hi hready hcode hcalm hj h =>
      rw [h]
      exact hq
  | creates i b rest ha hready hcode h =>
      rw [h]
      exact hq
  | killed p i rest ha hready hcode hi hq h =>
      rw [h]
      exact nofun
  | _ =>
      rename_i h
      rw [h]
      exact nofun

end PandosPlus.SupportLevel
