import Mathlib.Data.Fintype.Card
import PandosPlus.Phase3.Frames
import PandosPlus.Phase3.HeaderReads

/-!
# The signals of the U-procs

`master_sem` is a binary semaphore, and yet it counts: `test` waits on it once for each U-proc,
and each U-proc signals on it once.  A V may find the semaphore full and block, and a P may
find it empty; whoever comes second releases the first.  What is lost of the count in the
value of the semaphore is kept in its queue, so that value, signals given and signals still
awaited always add up (`Signals`), as long as no header read fails.
-/

namespace PandosPlus.SupportLevel

variable {u m k : Nat} {cfg : PoolConfig m} {s t : System u m k} {p q : Actor u} {x : SemId}
variable {a : Event u k} {mode : SemId → Actor u → TaggedLock.Mode} {c : Choice k}
variable {i : Instr u m} {code rest : List (Instr u m)} {j : Fin u} {asid full : Int}

/-- A U-proc that has signalled its end. -/
def Proc.Signalled (v : Proc u m) : Prop := v.phase = .dead ∨ v.code = [.termProcess]

instance : DecidablePred (Proc.Signalled (u := u) (m := m)) := fun _ ↦
  inferInstanceAs (Decidable (_ ∨ _))

/-- How many U-procs have signalled their end. -/
def System.signals (s : System u m k) : Nat :=
  (Finset.univ.filter fun j : Fin u ↦ (s.proc (.uproc j)).Signalled).card

/-- How many signals `test` has still to wait for. -/
def System.awaited (s : System u m k) : Nat := (s.proc .test).code.count (.passeren .master)

/-- The signals add up.  `test` sleeps only while the semaphore is empty, and the U-procs while
it is full. -/
structure Signals (s : System u m k) : Prop where
  binary : (s.sem .master).val = 0 ∨ (s.sem .master).val = 1
  sleepers : ∀ p ∈ (s.sem .master).queue, p = .test ↔ (s.sem .master).val = 0
  count : (s.sem .master).val + u = s.signals + s.awaited

/-! ## Who calls on `master_sem` -/

theorem Working.not_signalled {v : Proc u m} (h : Working v.code) (hv : v.phase ≠ .dead) :
    ¬ v.Signalled := by
  rintro (hdead | hcode)
  · exact hv hdead
  · rw [hcode] at h
    exact h.head

theorem not_signalled_cons {v : Proc u m} (hv : v.phase ≠ .dead) (hcode : v.code = i :: rest)
    (hi : i ≠ .termProcess) : ¬ v.Signalled := by
  rintro (hdead | hend)
  · exact hv hdead
  · exact hi (List.cons.inj (hcode.symm.trans hend)).1

/-- A U-proc calls on `master_sem` only to signal. -/
theorem Shapes.signalling (h : Shapes s) (hj : (s.proc (.uproc j)).phase ≠ .dead)
    (hcode : (s.proc (.uproc j)).code = i :: rest) (hi : i.sem? = some .master) :
    i = .verhogen .master ∧ rest = [.termProcess] := by
  have hall := h j hj
  rw [hcode] at hall
  rcases hall with hw | hend
  · have hhead := hw.head
    cases i with
    | passeren x => exact absurd (Option.some.inj hi) hhead
    | verhogen x => exact absurd (Option.some.inj hi) hhead
    | _ => cases hi
  · rcases hend.cons with ⟨pre, hpre, -⟩ | ⟨rfl, -⟩ | ⟨_, _, rfl, -⟩ | h | ⟨rfl, -⟩
    · rcases mem_freeFrames (hpre.subset List.mem_cons_self) with rfl | ⟨_, rfl⟩ | ⟨_, rfl⟩ |
        rfl <;>
        cases hi
    · cases hi
    · cases hi
    · exact h
    · cases hi

/-- `test` calls on no semaphore but to wait for a signal. -/
theorem Script.awaiting (h : Script s) (htest : (s.proc .test).phase ≠ .dead)
    (hcode : (s.proc .test).code = i :: rest) (hi : i.sem? = some x) :
    i = .passeren .master ∧ ∃ n, rest = awaits n := by
  obtain ⟨n, hand, h⟩ := h.resolve_left htest
  have hheads := h.code
  rw [hcode] at hheads
  cases hheads.heads with
  | passeren n => exact ⟨rfl, n, rfl⟩
  | read j b hread => rcases hread with ⟨w, rfl⟩ | ⟨w, rfl⟩ | rfl <;> cases hi
  | _ => cases hi

/-- What a step does to `master_sem`: it is called, or everyone who is about to call it or
sleeps on it stays there. -/
theorem SupStep.master (h : SupStep cfg s a t) (hp : Placed s) (hnew : Fresh s) :
    (∃ p i rest full, (s.proc p).phase = .ready ∧ (s.proc p).code = i :: rest ∧
      i.sem? = some .master ∧
      (i = .passeren .master ∧ full = 0 ∨ i = .verhogen .master ∧ full = 1) ∧
      SemCalled s full p .master t) ∨
    (t.sem .master).val = (s.sem .master).val ∧
      (t.sem .master).queue ⊆ (s.sem .master).queue ∧
      ∀ q i rest, (s.proc q).code = i :: rest → i.sem? = some .master →
        (t.proc q).phase = .dead ∨ (t.proc q).code = (s.proc q).code := by
  have hstill : ∀ {p}, t.sem = s.sem → (∀ q, q ≠ p → t.proc q = s.proc q) →
      (∀ i rest, (s.proc p).code = i :: rest → i.sem? = some .master → False) →
      (t.sem .master).val = (s.sem .master).val ∧
      (t.sem .master).queue ⊆ (s.sem .master).queue ∧
      ∀ q i rest, (s.proc q).code = i :: rest → i.sem? = some .master →
        (t.proc q).phase = .dead ∨ (t.proc q).code = (s.proc q).code := by
    intro p hsem hne hno
    rw [hsem]
    refine ⟨rfl, fun _ hq ↦ hq, fun q i rest hcode hi ↦ .inr ?_⟩
    by_cases hq : q = p
    · subst hq
      exact (hno i rest hcode hi).elim
    · rw [hne q hq]
  have hother : ∀ {p full x i rest}, (s.proc p).phase = .ready → (s.proc p).code = i :: rest →
      i.sem? = some x → x ≠ .master → SemCalled s full p x t →
      (t.sem .master).val = (s.sem .master).val ∧
      (t.sem .master).queue ⊆ (s.sem .master).queue ∧
      ∀ q i rest, (s.proc q).code = i :: rest → i.sem? = some .master →
        (t.proc q).phase = .dead ∨ (t.proc q).code = (s.proc q).code := by
    intro p full x i rest hready hcode hi hx hcall
    rw [hcall.sem_ne hx.symm]
    refine ⟨rfl, fun _ hq ↦ hq, fun q i' rest' hcode' hi' ↦ .inr ?_⟩
    rcases hcall.moves hp hready hcode hi q with ⟨-, hsame⟩ | ⟨i'', rest'', hcode'', hi'', -⟩
    · rw [hsame]
    · obtain ⟨rfl, -⟩ := List.cons.inj (hcode'.symm.trans hcode'')
      exact absurd (Option.some.inj (hi''.symm.trans hi')) hx
  have hkill : ∀ {dies}, t = s.kill dies → (t.sem .master).val = (s.sem .master).val ∧
      (t.sem .master).queue ⊆ (s.sem .master).queue ∧
      ∀ q i rest, (s.proc q).code = i :: rest → i.sem? = some .master →
        (t.proc q).phase = .dead ∨ (t.proc q).code = (s.proc q).code := by
    rintro dies rfl
    refine ⟨rfl, List.filter_subset_self _, fun q i rest _ _ ↦ ?_⟩
    cases hd : dies q with
    | true => exact .inl (by rw [kill_dead s hd])
    | false => exact .inr (by rw [kill_alive s hd])
  cases h.moved with
  | @passeren p c x rest t hready hcode hcall =>
      by_cases hx : x = .master
      · subst hx
        exact .inl ⟨p, _, rest, 0, hready, hcode, rfl, .inl ⟨rfl, rfl⟩, hcall⟩
      · exact .inr (hother hready hcode rfl hx hcall)
  | @verhogen p c x rest t hready hcode hcall =>
      by_cases hx : x = .master
      · subst hx
        exact .inl ⟨p, _, rest, 1, hready, hcode, rfl, .inr ⟨rfl, rfl⟩, hcall⟩
      · exact .inr (hother hready hcode rfl hx hcall)
  | terminated => exact .inr (hkill rfl)
  | @created p c n b rest hready hcode =>
      refine .inr ⟨rfl, fun _ hq ↦ hq, fun q i rest' hcode' hi ↦ .inr ?_⟩
      by_cases hqn : q = .uproc n
      · subst hqn
        cases hcode'.symm.trans (hnew p n b rest hready hcode).2
      · rw [setProc_ne _ hqn]
        by_cases hqp : q = p
        · subst hqp
          obtain ⟨rfl, -⟩ := List.cons.inj (hcode.symm.trans hcode')
          cases hi
        · rw [setProc_ne _ hqp]
  | @ran p c i rest mem v t hready hcode hexec ht =>
      refine .inr (hstill ht.sem ht.ne fun i' rest' hcode' hi ↦ ?_)
      obtain ⟨rfl, -⟩ := List.cons.inj (hcode.symm.trans hcode')
      cases (exec_executed hcode hexec).not_sem.1.symm.trans hi
  | faulted => exact .inr (hkill rfl)
  | @left n op mem v t hready hcode hop ht =>
      refine .inr (hstill ht.sem ht.ne fun i' rest' hcode' hi ↦ ?_)
      cases hcode.symm.trans hcode'
  | @completed d status p rest t hwaiting ht =>
      refine .inr (hstill ht.sem ht.ne fun i' rest' hcode' hi ↦ ?_)
      obtain ⟨-, w, rest'', hdoIo⟩ := Proc.of_waitsFor (hp.waiting.place_head hwaiting)
      obtain ⟨rfl, -⟩ := List.cons.inj (hdoIo.symm.trans hcode')
      cases hi

/-! ## What is counted -/

theorem Executed.not_create {id : Actor u} {r s' : Memory u m k} {v v' : Proc u m}
    (h : Executed cfg c id r v i rest s' v') (j b : Fin u) : i ≠ .createProcess j b := by
  rintro rfl
  cases h with
  | expand hcalm hexp hv =>
      cases hexp with
      | trap h => rcases h with h | h | h | ⟨b, h⟩ | ⟨b, w, h⟩ <;> cases h
      | done h => rcases h with ⟨w, h⟩ | ⟨j, h⟩ | ⟨h, -⟩ | ⟨n, f, h, -⟩ <;> cases h
  | refill j b hid h => rcases h with h | ⟨w, h⟩ <;> cases h
  | pageFault j b hid h => rcases h with h | ⟨w, h⟩ <;> cases h

/-- The code of `test` waits for as many signals as before, unless it has got one. -/
theorem exec_awaited {r s' : Memory u m k} {v v' : Proc u m} (hcode : v.code = i :: rest)
    (hi : i.Starting)
    (hok : ¬ (i = .checkStatus ∧ (v.status = FLASH_WRITE_ERROR ∨ v.status = FLASH_READ_ERROR)))
    (h : exec cfg c .test r v i rest = .ok s' v') :
    v'.code.count (.passeren .master) = v.code.count (.passeren .master) := by
  have hcons : ∀ {i' : Instr u m} {code : List (Instr u m)}, i' ≠ .passeren .master →
      (i' :: code).count (.passeren .master) = code.count (.passeren .master) :=
    fun hne ↦ List.count_cons_of_ne hne
  rw [hcode]
  cases i with
  | allocate j =>
      simp only [exec] at h
      split at h <;> cases h
      exact (hcons (by rintro ⟨⟩)).trans (hcons (by rintro ⟨⟩)).symm
  | listDel j b =>
      cases h
      exact (hcons (by rintro ⟨⟩)).trans (hcons (by rintro ⟨⟩)).symm
  | initSupport j b =>
      cases h
      refine Eq.trans ?_ (hcons (by rintro ⟨⟩)).symm
      exact (hcons (by rintro ⟨⟩)).trans ((hcons (by rintro ⟨⟩)).trans ((hcons (by rintro ⟨⟩)).trans
        (hcons (by rintro ⟨⟩))))
  | setData0 d w =>
      cases h
      exact (hcons (by rintro ⟨⟩)).symm
  | doIo d w =>
      cases h
      exact congrArg (List.count _) hcode
  | checkStatus =>
      simp only [exec] at h
      rw [if_neg fun he ↦ hok ⟨rfl, he⟩] at h
      cases h
      exact (hcons (by rintro ⟨⟩)).symm
  | initPageTable j b w =>
      cases h
      exact (hcons (by rintro ⟨⟩)).trans (hcons (by rintro ⟨⟩)).symm
  | createProcess j b => cases h
  | passeren x => cases h
  | termProcess => cases h
  | _ => cases hi

/-- A signal is awaited until it comes. -/
theorem Running.awaited (hr : Running s mode) (hsup : Supported s) (hstep : SupStep cfg s a t)
    (hok : ¬ HeaderFails s a) (htest : (t.proc .test).phase ≠ .dead) :
    t.awaited = s.awaited ∨
      ∃ rest, (s.proc .test).code = .passeren .master :: rest ∧ (t.proc .test).code = rest := by
  have hnew := hr.fresh
  have htest' : (s.proc .test).phase ≠ .dead := fun h ↦ htest (hstep.dead hr.placed hnew h)
  cases hstep.goes hr.placed hnew .test with
  | still ha h => exact .inl (by rw [System.awaited, h, System.awaited])
  | blocked c i rest x ha hready hcode hi h =>
      exact .inl (by rw [System.awaited, h, System.awaited])
  | passed i rest x hphase hcode hi h =>
      obtain ⟨rfl, -⟩ := hr.script.awaiting htest' hcode hi
      exact .inr ⟨rest, hcode, by rw [h]⟩
  | ran c i rest ha hready hcode h =>
      have hact : a.actor = some .test := by rw [ha]; rfl
      have hi : i.Starting := hsup.starting i (hcode ▸ List.mem_cons_self)
      obtain ⟨hsem, hterm⟩ := h.not_sem
      obtain ⟨-, c', ⟨hexec, -⟩ | ⟨-, hkill⟩⟩ := hstep.exec hact hcode hsem hterm h.not_create
      · refine .inl (exec_awaited hcode hi (fun ⟨hj, hstatus⟩ ↦ hok ?_) hexec)
        exact ⟨hact, by rw [hcode, hj]; rfl, hstatus⟩
      · rw [hkill, kill_dead s (Actor.progeny_self _)] at htest
        exact absurd rfl htest
  | left i j hq => cases hq
  | answered d w rest status ha hwaiting hcode h =>
      refine .inl ?_
      rw [System.awaited, h, System.awaited, hcode]
      exact (List.count_cons_of_ne (by rintro ⟨⟩)).symm
  | creates i b rest ha hready hcode h =>
      refine .inl ?_
      rw [System.awaited, h, System.awaited, hcode]
      exact (List.count_cons_of_ne (by rintro ⟨⟩)).symm
  | created i b p rest hq => cases hq
  | killed p i rest ha hready hcode hi hq h =>
      rw [h] at htest
      exact absurd rfl htest

theorem Ending.before_end (h : Ending asid [i, .termProcess]) : i = .verhogen .master := by
  rcases h.cons with ⟨pre, -, hrest⟩ | ⟨-, hrest⟩ | ⟨_, _, -, hrest⟩ | ⟨rfl, -⟩ | ⟨-, hrest⟩
  · cases pre with
    | nil => cases hrest
    | cons i' pre =>
        exact absurd (List.cons.inj hrest).2.symm
          (List.append_ne_nil_of_right_ne_nil _ (by rintro ⟨⟩))
  · cases hrest
  · cases hrest
  · rfl
  · cases hrest

theorem Ending.last (h : Ending asid (.termProcess :: rest)) : rest = [] := by
  rcases h.cons with ⟨pre, hpre, -⟩ | ⟨hi, -⟩ | ⟨_, _, hi, -⟩ | ⟨hi, -⟩ | ⟨-, rfl⟩
  · rcases mem_freeFrames (hpre.subset List.mem_cons_self) with hi | ⟨_, hi⟩ | ⟨_, hi⟩ | hi <;>
      cases hi
  · cases hi
  · cases hi
  · cases hi
  · rfl

/-- The U-proc has got through its V on `master_sem`. -/
def Signals.Passes (s t : System u m k) (j : Fin u) : Prop :=
  (s.proc (.uproc j)).phase ≠ .dead ∧
    (s.proc (.uproc j)).code = [.verhogen .master, .termProcess] ∧
    (t.proc (.uproc j)).phase = .ready ∧ (t.proc (.uproc j)).code = [.termProcess]

/-- A U-proc has signalled when it has got through its V. -/
theorem Running.signalled (hr : Running s mode) (hf : Frames s) (hstep : SupStep cfg s a t)
    (htest : (t.proc .test).phase ≠ .dead) (j : Fin u) :
    ((t.proc (.uproc j)).Signalled ↔ (s.proc (.uproc j)).Signalled) ∨ Signals.Passes s t j := by
  have hnew := hr.fresh
  have hsame : ∀ {v v' : Proc u m}, v.phase ≠ .dead → v'.phase ≠ .dead → v'.code = v.code →
      (v'.Signalled ↔ v.Signalled) := by
    intro v v' hv hv' hcode
    rw [Proc.Signalled, Proc.Signalled, hcode, or_iff_right hv, or_iff_right hv']
  have hnot : ¬ (t.proc (.uproc j)).Signalled → ¬ (s.proc (.uproc j)).Signalled →
      ((t.proc (.uproc j)).Signalled ↔ (s.proc (.uproc j)).Signalled) ∨ Signals.Passes s t j :=
    fun ht hs ↦ .inl (iff_of_false ht hs)
  cases hstep.goes hr.placed hnew (.uproc j) with
  | still ha h => exact .inl (by rw [h])
  | blocked c i rest x ha hready hcode hi h =>
      refine .inl (hsame (by rw [hready]; rintro ⟨⟩) ?_ (by rw [h]))
      rw [h]
      rintro ⟨⟩
  | passed i rest x hphase hcode hi h =>
      have hdead : (s.proc (.uproc j)).phase ≠ .dead := by
        rcases hphase with ⟨hphase, -⟩ | ⟨hphase, -⟩ <;> rw [hphase] <;> rintro ⟨⟩
      have hs : ¬ (s.proc (.uproc j)).Signalled := by
        refine not_signalled_cons hdead hcode ?_
        rintro rfl
        cases hi
      have hall := hr.shapes j hdead
      rw [hcode] at hall
      rcases hall with hw | hend
      · refine hnot (Working.not_signalled ?_ ?_) hs <;> rw [h]
        · exact hw.tail
        · rintro ⟨⟩
      by_cases hrest : rest = [.termProcess]
      · subst hrest
        obtain rfl := hend.before_end
        exact .inr ⟨hdead, hcode, by rw [h], by rw [h]⟩
      · refine hnot ?_ hs
        rw [h]
        rintro (he | he)
        · cases he
        · exact hrest he
  | ran c i rest ha hready hcode h =>
      have hdead : (s.proc (.uproc j)).phase ≠ .dead := by rw [hready]; rintro ⟨⟩
      obtain ⟨hsem, hterm⟩ := h.not_sem
      have hs := not_signalled_cons hdead hcode hterm
      have ht : (t.proc (.uproc j)).phase ≠ .dead := by
        rcases h.waiting with ⟨d, w, -, -, he⟩ | ⟨hphase, -⟩
        · rw [he]
          rintro ⟨⟩
        · rw [hphase]
          exact hdead
      have hall := hr.shapes j hdead
      rw [hcode] at hall
      refine hnot ?_ hs
      rcases hall with hw | hend
      · rcases h.working hcode (fun _ b hb ↦ (hr.owns.has hready hcode hsem hterm hb).2) hw with
          hw' | ⟨-, he⟩
        · exact hw'.not_signalled ht
        · rw [SupportLevel.terminate, freeFrames] at he
          exact not_signalled_cons ht he (by rintro ⟨⟩)
      · rcases h.ending hend with ⟨-, b, -, -, he⟩ | ⟨hplain, he⟩
        · exact not_signalled_cons ht he (by rintro ⟨⟩)
        · rintro (hdead' | hcode')
          · exact ht hdead'
          · rw [he] at hcode'
            subst hcode'
            obtain rfl := hend.before_end
            cases hplain
  | left i j' hq hready hcode hcalm hi h =>
      refine hnot ?_ ?_
      · rw [h]
        refine not_signalled_cons (by rw [Proc.goto, hready]; rintro ⟨⟩) rfl ?_
        rcases hi with ⟨b, rfl⟩ | ⟨b, w, rfl⟩ | rfl <;> rintro ⟨⟩
      · refine Working.not_signalled ?_ (by rw [hready]; rintro ⟨⟩)
        rw [hcode]
        exact .nil
  | answered d w rest status ha hwaiting hcode h =>
      have hdead : (s.proc (.uproc j)).phase ≠ .dead := by rw [hwaiting]; rintro ⟨⟩
      have hall := hr.shapes j hdead
      rw [hcode] at hall
      rcases hall with hw | hend
      · have hs := not_signalled_cons hdead hcode (by rintro ⟨⟩)
        refine hnot (Working.not_signalled ?_ ?_) hs <;> rw [h]
        · exact hw.tail
        · rintro ⟨⟩
      · rcases hend.head with hi | hi | hi | hi
        · exact absurd rfl hi
        · cases hi
        · cases hi
        · cases hi
  | creates i b rest ha hready hcode h => exact absurd trivial (hr.shapes.not_test hready hcode)
  | created i b p rest hq ha hready hcode hunborn hmem h =>
      obtain rfl := Actor.uproc.inj hq
      refine hnot ?_ ?_
      · rw [h]
        exact Working.not_signalled .nil (by rintro ⟨⟩)
      · refine Working.not_signalled ?_ (by rw [hunborn]; rintro ⟨⟩)
        rw [(hnew p j b rest hready hcode).2]
        exact .nil
  | killed p i rest ha hready hcode hi hq h =>
      by_cases hs : (s.proc (.uproc j)).phase = .dead
      · exact .inl (iff_of_true (.inl (by rw [h])) (.inl hs))
      · obtain ⟨-, hready', rest', hcode'⟩ := hf.dies hr.owns hr.placed hnew hstep htest
          (by rw [h]) hs
        have hall := hr.shapes j hs
        rw [hcode'] at hall
        refine .inl (iff_of_true (.inl (by rw [h])) (.inr ?_))
        rcases hall with hw | hend
        · exact hw.head.elim
        · rw [hcode', hend.last]

/-! ## The count -/

theorem System.signals_congr
    (h : ∀ j, (t.proc (.uproc j)).Signalled ↔ (s.proc (.uproc j)).Signalled) :
    t.signals = s.signals := by
  rw [System.signals, System.signals]
  exact congrArg Finset.card (Finset.filter_congr fun j _ ↦ h j)

theorem Signals.Passes.signals (h : Passes s t j)
    (hne : ∀ i, i ≠ j → ((t.proc (.uproc i)).Signalled ↔ (s.proc (.uproc i)).Signalled)) :
    t.signals = s.signals + 1 := by
  obtain ⟨hdead, hcode, -, hcode'⟩ := h
  have hs : ¬ (s.proc (.uproc j)).Signalled := not_signalled_cons hdead hcode (by rintro ⟨⟩)
  rw [System.signals, System.signals, ← Finset.card_insert_of_notMem (a := j)]
  · congr 1
    ext i
    rw [Finset.mem_filter_univ, Finset.mem_insert, Finset.mem_filter_univ]
    by_cases hi : i = j
    · subst hi
      exact iff_of_true (.inr hcode') (.inl rfl)
    · rw [hne i hi, or_iff_right hi]
  · rw [Finset.mem_filter_univ]
    exact hs

theorem System.awaited_pass (hcode : (s.proc .test).code = .passeren .master :: rest)
    (hcode' : (t.proc .test).code = rest) : s.awaited = t.awaited + 1 := by
  rw [System.awaited, System.awaited, hcode, hcode']
  exact List.count_cons_self

theorem System.signals_le (s : System u m k) : s.signals ≤ u := by
  refine (Finset.card_filter_le _ _).trans ?_
  rw [Finset.card_univ, Fintype.card_fin]

/-- `test` has had all its signals when everyone has signalled. -/
theorem Signals.all (h : Signals s) (hall : s.awaited = 0) (j : Fin u) :
    (s.proc (.uproc j)).Signalled := by
  have hle := s.signals_le
  have hcount := h.count
  have hcard : s.signals = Fintype.card (Fin u) := by
    rw [Fintype.card_fin]
    rcases h.binary with hval | hval <;> omega
  have huniv := (Finset.card_eq_iff_eq_univ _).mp hcard
  exact (Finset.mem_filter_univ j).mp (huniv ▸ Finset.mem_univ j)

/-! ## A step -/

/-- A process that sleeps on `master_sem` or calls on it: `test` in a P, a U-proc in its V. -/
theorem Running.on_master (hr : Running s mode) (hp : (s.proc p).phase ≠ .dead)
    (hcode : (s.proc p).code = i :: rest) (hi : i.sem? = some .master) :
    p = .test ∧ i = .passeren .master ∨
      ∃ j, p = .uproc j ∧ i = .verhogen .master ∧ rest = [.termProcess] := by
  cases p with
  | test => exact .inl ⟨rfl, (hr.script.awaiting hp hcode hi).1⟩
  | uproc j => exact .inr ⟨j, rfl, hr.shapes.signalling hp hcode hi⟩

/-- A call on `master_sem` keeps the count. -/
theorem Signals.called (h : Signals s) (hr : Running s mode)
    (hready : (s.proc p).phase = .ready) (hcode : (s.proc p).code = i :: rest)
    (hi : i.sem? = some .master)
    (hfull : i = .passeren .master ∧ full = 0 ∨ i = .verhogen .master ∧ full = 1)
    (hcall : SemCalled s full p .master t) : Signals t := by
  have hdead : (s.proc p).phase ≠ .dead := by rw [hready]; rintro ⟨⟩
  have hwho := hr.on_master hdead hcode hi
  have hcount := h.count
  -- the signals when `test` has gone on, and possibly the U-proc `j`
  have hpass : ∀ {q : Actor u} {i' : Instr u m} {rest'}, (s.proc q).phase ≠ .dead →
      (s.proc q).code = i' :: rest' → i'.sem? = some .master →
      t.proc q = { s.proc q with phase := .ready, code := rest' } →
      q = .test ∧ s.awaited = t.awaited + 1 ∨ ∃ j, q = .uproc j ∧ Passes s t j := by
    intro q i' rest' hq hcode' hi' ht
    rcases hr.on_master hq hcode' hi' with ⟨rfl, rfl⟩ | ⟨j, rfl, rfl, rfl⟩
    · exact .inl ⟨rfl, System.awaited_pass hcode' (by rw [ht])⟩
    · exact .inr ⟨j, rfl, hq, hcode', by rw [ht], by rw [ht]⟩
  have hsame : ∀ {j : Fin u}, t.proc (.uproc j) = s.proc (.uproc j) →
      ((t.proc (.uproc j)).Signalled ↔ (s.proc (.uproc j)).Signalled) := fun hj ↦ by rw [hj]
  rcases hcall.ends with ⟨hval, hsem, hproc⟩ | ⟨q, rest', hval, hqueue, hsem, hproc⟩ |
    ⟨hval, hqueue, hsem, hproc⟩
  · -- the caller blocks
    have hcode' : ∀ q, (t.proc q).code = (s.proc q).code := fun q ↦ by
      rw [hproc]
      by_cases hq : q = p
      · rw [hq, setProc_self]
      · rw [setProc_ne s hq]
    refine ⟨by rw [hsem]; exact h.binary, fun q hq ↦ ?_, ?_⟩
    · rw [hsem] at hq ⊢
      rcases List.mem_append.mp hq with hq | hq
      · exact h.sleepers q hq
      · obtain rfl := List.mem_singleton.mp hq
        rcases hwho with ⟨rfl, rfl⟩ | ⟨j, rfl, rfl, -⟩
        · obtain ⟨-, rfl⟩ := hfull.resolve_right (by rintro ⟨⟨⟩, -⟩)
          exact iff_of_true rfl hval
        · obtain ⟨-, rfl⟩ := hfull.resolve_left (by rintro ⟨⟨⟩, -⟩)
          refine iff_of_false (by rintro ⟨⟩) ?_
          change (s.sem .master).val ≠ 0
          rw [hval]
          decide
    · have hsignals : t.signals = s.signals := System.signals_congr fun j ↦ by
        rw [Proc.Signalled, Proc.Signalled, hcode', hproc]
        by_cases hj : Actor.uproc j = p
        · rw [← hj] at hready
          rw [← hj, setProc_self, hready]
          exact or_congr_left (iff_of_false (by rintro ⟨⟩) (by rintro ⟨⟩))
        · rw [setProc_ne s hj]
      rw [hsem, hsignals, System.awaited, hcode']
      exact hcount
  · -- one of the two is `test`, and the other a U-proc
    have hplace := hr.placed.sleeping.place_head hqueue
    obtain ⟨hasleep, i', rest'', hcode', hi'⟩ := Proc.of_sleepsOn hplace
    have hqp : q ≠ p := by
      rintro rfl
      cases hready.symm.trans hasleep
    have hq := h.sleepers q (by rw [hqueue]; exact List.mem_cons_self)
    have hne : ∀ r, r ≠ p → r ≠ q → t.proc r = s.proc r := fun r hrp hrq ↦ by
      rw [hproc, resume_ne _ hrq, resume_ne s hrp]
    have hgo := hpass (by rw [hasleep]; rintro ⟨⟩) hcode' hi' (by
      rw [hproc, resume_self, resume_ne s hqp, hcode']
      rfl)
    have hgo' := hpass hdead hcode hi (by
      rw [hproc, resume_ne _ hqp.symm, resume_self, hcode]
      rfl)
    have hboth : t.signals = s.signals + 1 ∧ s.awaited = t.awaited + 1 := by
      rcases hgo with ⟨rfl, hawaited⟩ | ⟨j, rfl, hj⟩
      · rcases hgo' with ⟨rfl, -⟩ | ⟨j, rfl, hj⟩
        · exact absurd rfl hqp
        · refine ⟨hj.signals fun n hn ↦ hsame (hne (.uproc n) (fun he ↦ hn ?_) (by rintro ⟨⟩)),
            hawaited⟩
          exact Actor.uproc.inj he
      · rcases hgo' with ⟨rfl, hawaited⟩ | ⟨j', rfl, -⟩
        · refine ⟨hj.signals fun n hn ↦ hsame (hne (.uproc n) (by rintro ⟨⟩) fun he ↦ hn ?_),
            hawaited⟩
          exact Actor.uproc.inj he
        · -- two U-procs never meet
          exfalso
          rcases hwho with ⟨hp, -⟩ | ⟨_, -, rfl, -⟩
          · cases hp
          · obtain ⟨-, rfl⟩ := hfull.resolve_left (by rintro ⟨⟨⟩, -⟩)
            have hzero := h.binary.resolve_right hval
            cases hq.mpr hzero
    refine ⟨by rw [hsem]; exact h.binary, fun r hr ↦ ?_, ?_⟩
    · rw [hsem] at hr ⊢
      exact h.sleepers r (by rw [hqueue]; exact List.mem_cons_of_mem _ hr)
    · rw [hsem]
      change (s.sem .master).val + u = _
      omega
  · -- nobody is released
    have hne : ∀ r, r ≠ p → t.proc r = s.proc r := fun r hrp ↦ by rw [hproc, resume_ne s hrp]
    have hgo := hpass hdead hcode hi (by rw [hproc, resume_self, hcode]; rfl)
    refine ⟨?_, fun r hr ↦ ?_, ?_⟩
    · rw [hsem]
      change 1 - (s.sem .master).val = 0 ∨ 1 - (s.sem .master).val = 1
      rcases h.binary with hval | hval <;> omega
    · rw [hsem, hqueue] at hr
      exact absurd hr List.not_mem_nil
    · rw [hsem]
      change 1 - (s.sem .master).val + u = _
      rcases hgo with ⟨rfl, hawaited⟩ | ⟨j, rfl, hj⟩
      · rcases hwho with ⟨-, rfl⟩ | ⟨_, he, -⟩
        swap
        · cases he
        obtain ⟨-, rfl⟩ := hfull.resolve_right (by rintro ⟨⟨⟩, -⟩)
        have hsignals : t.signals = s.signals :=
          System.signals_congr fun n ↦ hsame (hne (.uproc n) (by rintro ⟨⟩))
        have hone := h.binary.resolve_left hval
        omega
      · rcases hwho with ⟨he, -⟩ | ⟨_, -, rfl, -⟩
        · cases he
        obtain ⟨-, rfl⟩ := hfull.resolve_left (by rintro ⟨⟨⟩, -⟩)
        have hsignals := hj.signals fun n hn ↦
          hsame (hne (.uproc n) fun he ↦ hn (Actor.uproc.inj he))
        have hawaited : t.awaited = s.awaited := by
          rw [System.awaited, hne .test (by rintro ⟨⟩), System.awaited]
        have hzero := h.binary.resolve_right hval
        omega

/-- A step keeps the count, until `test` ends. -/
theorem Signals.step (h : Signals s) (hr : Running s mode) (hf : Frames s) (hsup : Supported s)
    (hstep : SupStep cfg s a t) (hok : ¬ HeaderFails s a)
    (htest : (t.proc .test).phase ≠ .dead) : Signals t := by
  rcases hstep.master hr.placed hr.fresh with ⟨p, i, rest, full, hready, hcode, hi, hfull, hcall⟩ |
    ⟨hval, hqueue, hstill⟩
  · exact h.called hr hready hcode hi hfull hcall
  have hsignals : t.signals = s.signals := System.signals_congr fun j ↦ by
    refine (hr.signalled hf hstep htest j).resolve_right ?_
    rintro ⟨-, hcode, hready, hcode'⟩
    rcases hstill _ _ _ hcode rfl with hdead | hsame
    · cases hready.symm.trans hdead
    · cases hcode'.symm.trans (hsame.trans hcode)
  have hawaited : t.awaited = s.awaited := by
    refine (hr.awaited hsup hstep hok htest).resolve_right ?_
    rintro ⟨rest, hcode, hcode'⟩
    rcases hstill _ _ _ hcode rfl with hdead | hsame
    · exact htest hdead
    · exact List.cons_ne_self _ _ (hcode.symm.trans (hsame.symm.trans hcode'))
  refine ⟨by rw [hval]; exact h.binary, fun p hp ↦ ?_, ?_⟩
  · rw [hval]
    exact h.sleepers p (hqueue hp)
  · rw [hval, hsignals, hawaited]
    exact h.count

end PandosPlus.SupportLevel
