import PandosPlus.Phase3.Signals

/-!
# The shutdown protocol

Each U-proc gives its support structure back and signals, once and in this order, before it
terminates; `test` calls TERMPROCESS when all have, and when none of them has a frame left.
It holds of every run in which no header read fails and no operation on the free list begins
in the middle of another.  When the operations of `_allocate` and `_deallocate` mix, two
U-procs may come to share a support structure, and the first to end frees the frames of the
other instead of its own.
-/

namespace PandosPlus.SupportLevel

open Lts

variable {u m k : Nat} {cfg : PoolConfig m} {s t : System u m k} {p q : Actor u} {x : SemId}
variable {a : Event u k} {mode : SemId → Actor u → TaggedLock.Mode} {c : Choice k}
variable {i : Instr u m} {code rest : List (Instr u m)} {j : Fin u}

/-! ## The history -/

/-- The parts of `signalProcessTermination`. -/
inductive Signal where
  | deallocated
  | signalled
deriving DecidableEq

/-- The part that ends with an instruction. -/
def Instr.signal : Instr u m → List Signal
  | .listAdd _ _ => [.deallocated]
  | .verhogen .master => [.signalled]
  | _ => []

/-- What each U-proc has completed of `signalProcessTermination`, after a step. -/
def logged (s : System u m k) (_ : Event u k) (t : System u m k) (log : Fin u → List Signal) :
    Fin u → List Signal := fun j ↦
  match (s.proc (.uproc j)).code with
  | [] => log j
  | i :: rest => if (t.proc (.uproc j)).code = rest then log j ++ i.signal else log j

/-- What a U-proc has completed, by what it has still to do. -/
def Proc.log (v : Proc u m) : List Signal :=
  if v.Signalled then [.deallocated, .signalled]
  else if v.code = [.verhogen .master, .termProcess] then [.deallocated] else []

theorem Proc.log_of_signalled {v : Proc u m} (h : v.Signalled) :
    v.log = [.deallocated, .signalled] := if_pos h

theorem Proc.log_returned {v : Proc u m} (hv : v.phase ≠ .dead)
    (hcode : v.code = [.verhogen .master, .termProcess]) : v.log = [.deallocated] := by
  rw [Proc.log, if_neg (not_signalled_cons hv hcode (by rintro ⟨⟩)), if_pos hcode]

/-- A U-proc that is neither signalling nor done has completed nothing. -/
theorem Proc.log_nil {v : Proc u m} (hv : v.phase ≠ .dead) (hlast : v.code ≠ [.termProcess])
    (hsignal : v.code ≠ [.verhogen .master, .termProcess]) : v.log = [] := by
  have hnot : ¬ v.Signalled := not_or.mpr ⟨hv, hlast⟩
  rw [Proc.log, if_neg hnot, if_neg hsignal]

theorem Proc.log_congr {v v' : Proc u m} (hv : v.phase ≠ .dead) (hv' : v'.phase ≠ .dead)
    (hcode : v'.code = v.code) : v'.log = v.log := by
  have hsame : v'.Signalled ↔ v.Signalled := by
    rw [Proc.Signalled, Proc.Signalled, hcode, or_iff_right hv, or_iff_right hv']
  simp only [Proc.log, hsame, hcode]

theorem Working.log {v : Proc u m} (h : Working v.code) (hv : v.phase ≠ .dead) : v.log = [] := by
  refine Proc.log_nil hv (fun hcode ↦ ?_) fun hcode ↦ ?_ <;> rw [hcode] at h
  · exact h.head
  · exact h.head rfl

theorem signal_of_working (h : i.Working) : i.signal = [] := by
  cases i with
  | verhogen x =>
      cases x with
      | master => exact absurd rfl h
      | _ => rfl
  | listAdd b next => exact h.elim
  | _ => rfl

/-- Until its frames are free the U-proc has completed nothing. -/
theorem log_freeing {v : Proc u m} (hv : v.phase ≠ .dead) (pre : List (Instr u m))
    (hcode : v.code = pre ++ [.deallocate, .verhogen .master, .termProcess]) : v.log = [] := by
  have hlength : v.code.length = pre.length + 3 := by rw [hcode, List.length_append]; rfl
  refine Proc.log_nil hv (fun he ↦ ?_) fun he ↦ ?_ <;> rw [he] at hlength
  · change 1 = pre.length + 3 at hlength
    omega
  · change 2 = pre.length + 3 at hlength
    omega

/-! ## A step -/

/-- A step logs what it completes. -/
theorem Running.log (hr : Running s mode) (hf : Frames s) (hstep : SupStep cfg s a t)
    {log : Fin u → List Signal}
    (hlog : log j = (s.proc (.uproc j)).log)
    (hdies : (t.proc (.uproc j)).phase = .dead → (s.proc (.uproc j)).Signalled) :
    logged s a t log j = (t.proc (.uproc j)).log := by
  have hstays : (t.proc (.uproc j)).code = (s.proc (.uproc j)).code →
      logged s a t log j = (s.proc (.uproc j)).log := by
    intro hcode
    unfold logged
    split
    · exact hlog
    · rename_i hs
      rw [if_neg, hlog]
      rw [hcode, hs]
      exact List.cons_ne_self _ _
  have hgoes : ∀ {i rest}, (s.proc (.uproc j)).code = i :: rest →
      (t.proc (.uproc j)).code = rest →
      logged s a t log j = (s.proc (.uproc j)).log ++ i.signal := by
    intro i rest hs ht
    rw [logged, hs]
    change (if _ then _ else _) = _
    rw [if_pos ht, hlog]
  have hquiet : ∀ {i rest}, (s.proc (.uproc j)).code = i :: rest → i.signal = [] →
      logged s a t log j = (s.proc (.uproc j)).log := by
    intro i rest hs hi
    rw [logged, hs]
    change (if _ then _ else _) = _
    rw [hi, List.append_nil, ite_self, hlog]
  cases hstep.goes hr.placed hr.fresh (.uproc j) with
  | still ha h => rw [hstays (by rw [h]), h]
  | blocked c i rest x ha hready hcode hi h =>
      rw [hstays (by rw [h])]
      refine (Proc.log_congr ?_ ?_ (by rw [h])).symm
      · rw [hready]
        rintro ⟨⟩
      · rw [h]
        rintro ⟨⟩
  | passed i rest x hphase hcode hi h =>
      have hdead : (s.proc (.uproc j)).phase ≠ .dead := by
        rcases hphase with ⟨hphase, -⟩ | ⟨hphase, -⟩ <;> rw [hphase] <;> rintro ⟨⟩
      have ht : (t.proc (.uproc j)).phase ≠ .dead := by rw [h]; rintro ⟨⟩
      rw [hgoes hcode (by rw [h])]
      have hall := hr.shapes j hdead
      rcases hall with hw | hend
      · rw [hw.log hdead]
        rw [hcode] at hw
        rw [signal_of_working hw.head, Working.log (by rw [h]; exact hw.tail) ht]
        rfl
      · have hend' := hend
        rw [hcode] at hend'
        rcases hend'.cons with ⟨pre, hpre, hrest⟩ | ⟨rfl, -⟩ | ⟨_, _, rfl, -⟩ | ⟨rfl, rfl⟩ |
          ⟨rfl, -⟩
        · have hsignal : i.signal = [] := by
            rcases mem_freeFrames (hpre.subset List.mem_cons_self) with rfl | ⟨_, rfl⟩ | ⟨_, rfl⟩ |
              rfl <;> rfl
          rw [hsignal, log_freeing ht pre (by rw [h]; exact hrest),
            log_freeing hdead (i :: pre) (by rw [hcode, hrest]; rfl)]
          rfl
        · cases hi
        · cases hi
        · rw [Proc.log_returned hdead hcode, Proc.log_of_signalled (.inr (by rw [h]))]
          rfl
        · cases hi
  | ran c i rest ha hready hcode h =>
      have hdead : (s.proc (.uproc j)).phase ≠ .dead := by rw [hready]; rintro ⟨⟩
      obtain ⟨hsem, hterm⟩ := h.not_sem
      have ht : (t.proc (.uproc j)).phase ≠ .dead := by
        rcases h.waiting with ⟨d, w, -, -, he⟩ | ⟨hphase, -⟩
        · rw [he]
          rintro ⟨⟩
        · rw [hphase]
          exact hdead
      rcases hr.shapes j hdead with hw | hend
      · have hs := hw.log hdead
        rw [hcode] at hw
        rw [hquiet hcode (signal_of_working hw.head), hs]
        rcases h.working hcode (fun _ b hb ↦ (hr.owns.has hready hcode hsem hterm hb).2) hw with
          hw' | ⟨-, he⟩
        · rw [hw'.log ht]
        · rw [SupportLevel.terminate, freeFrames] at he
          exact (Proc.log_nil ht (by rw [he]; rintro ⟨⟩) (by rw [he]; rintro ⟨⟩)).symm
      · rw [hcode] at hend
        rcases h.ending hend with ⟨rfl, b, -, -, he⟩ | ⟨hplain, he⟩
        · rw [hquiet hcode rfl, Proc.log_nil ht (by rw [he]; rintro ⟨⟩) (by rw [he]; rintro ⟨⟩),
            Proc.log_nil hdead (by rw [hcode]; rintro ⟨⟩) (by rw [hcode]; rintro ⟨⟩)]
        · rcases hend.cons with ⟨pre, hpre, hrest⟩ | ⟨rfl, -⟩ | ⟨b, next, rfl, rfl⟩ | ⟨rfl, -⟩ |
            ⟨rfl, -⟩
          · have hsignal : i.signal = [] := by
              rcases mem_freeFrames (hpre.subset List.mem_cons_self) with rfl | ⟨_, rfl⟩ |
                ⟨_, rfl⟩ | rfl <;> rfl
            rw [hquiet hcode hsignal, log_freeing ht pre (he.trans hrest),
              log_freeing hdead (i :: pre) (by rw [hcode, hrest]; rfl)]
          · cases hplain
          · rw [hgoes hcode he, Proc.log_returned ht he,
              Proc.log_nil hdead (by rw [hcode]; rintro ⟨⟩) (by rw [hcode]; rintro ⟨⟩)]
            rfl
          · cases hplain
          · cases hplain
  | left i j' hq hready hcode hcalm hi h =>
      have hs : (s.proc (.uproc j)).log = [] :=
        Working.log (by rw [hcode]; exact .nil) (by rw [hready]; rintro ⟨⟩)
      have ht : (t.proc (.uproc j)).log = [] := by
        refine Working.log ?_ ?_ <;> rw [h]
        · refine .cons ?_ .nil
          rcases hi with ⟨b, rfl⟩ | ⟨b, w, rfl⟩ | rfl <;> exact trivial
        · rw [Proc.goto, hready]
          rintro ⟨⟩
      rw [ht, logged, hcode]
      exact hlog.trans hs
  | answered d w rest status ha hwaiting hcode h =>
      have hdead : (s.proc (.uproc j)).phase ≠ .dead := by rw [hwaiting]; rintro ⟨⟩
      rw [hquiet hcode rfl]
      rcases hr.shapes j hdead with hw | hend
      · rw [hw.log hdead]
        rw [hcode] at hw
        refine (Working.log ?_ ?_).symm <;> rw [h]
        · exact hw.tail
        · rintro ⟨⟩
      · rw [hcode] at hend
        rcases hend.head with hi | hi | hi | hi
        · exact absurd rfl hi
        · cases hi
        · cases hi
        · cases hi
  | creates i b rest ha hready hcode h => exact absurd trivial (hr.shapes.not_test hready hcode)
  | created i b p rest hq ha hready hcode hunborn hmem h =>
      obtain rfl := Actor.uproc.inj hq
      have hnil := (hr.fresh p j b rest hready hcode).2
      have hs : (s.proc (.uproc j)).log = [] :=
        Working.log (by rw [hnil]; exact .nil) (by rw [hunborn]; rintro ⟨⟩)
      have ht : (t.proc (.uproc j)).log = [] := by
        refine Working.log ?_ ?_ <;> rw [h]
        · exact .nil
        · rintro ⟨⟩
      rw [ht, logged, hnil]
      exact hlog.trans hs
  | killed p i rest ha hready hcode hi hq h =>
      have ht : (t.proc (.uproc j)).phase = .dead := by rw [h]
      have hs := hdies ht
      rw [Proc.log_of_signalled (.inl ht), ← Proc.log_of_signalled hs]
      rcases hs with hs | hs
      · exact hstays (by rw [h, hf.idle j hs])
      · exact hquiet hs rfl

/-! ## Runs -/

variable (cfg) in
/-- A step in which no header read fails, and no operation on the free list begins in the
middle of another as long as `test` takes from it. -/
def OrderlyStep (s : System u m k) (a : Event u k) (t : System u m k) : Prop :=
  SerialStep cfg s a t ∧ ¬ HeaderFails s a

/-- What holds in every state of a run of such steps. -/
structure Orderly (s : System u m k) : Prop where
  sound : Sound s
  supported : Supported s
  signals : (s.proc .test).phase ≠ .dead → Signals s

/-- When `test` is dead, everyone is, and nothing can happen any more. -/
theorem Sound.active (h : Sound s) (hstep : SupStep cfg s a t) : (s.proc .test).phase ≠ .dead := by
  intro htest
  obtain ⟨mode, hr⟩ := h.running
  have hdead := h.allDead htest
  have hno : ∀ {p}, (s.proc p).phase = .ready → False := fun hp ↦ by cases hp.symm.trans (hdead _)
  cases hstep.moved with
  | passeren hready => exact hno hready
  | verhogen hready => exact hno hready
  | terminated hready => exact hno hready
  | created hready => exact hno hready
  | ran hready => exact hno hready
  | faulted hready => exact hno hready
  | left hready => exact hno hready
  | completed hwaiting =>
      obtain ⟨hphase, -⟩ := Proc.of_waitsFor (hr.placed.waiting.place_head hwaiting)
      cases hphase.symm.trans (hdead _)

/-- `test` dies of its own TERMPROCESS. -/
theorem Orderly.last (h : Orderly s) (hstep : SupStep cfg s a t)
    (htest : (t.proc .test).phase = .dead) : (s.proc .test).code = [.termProcess] := by
  have hs := h.sound.active hstep
  obtain ⟨mode, hr⟩ := h.sound.running
  rcases h.supported.spared hstep .test hs htest with ⟨j, hj, -⟩ | ⟨-, hhead⟩
  · cases hj
  obtain ⟨rest, hcode⟩ := List.head?_eq_some_iff.mp hhead
  obtain ⟨n, hand, hscript⟩ := hr.script.resolve_left hs
  have hheads := hscript.code
  rw [hcode] at hheads
  cases hheads.heads with
  | termProcess => exact hcode
  | read j b hread => rcases hread with ⟨w, hi⟩ | ⟨w, hi⟩ | hi <;> cases hi

/-- Whoever dies has signalled. -/
theorem Orderly.dies (h : Orderly s) (hstep : SupStep cfg s a t)
    (hj : (t.proc (.uproc j)).phase = .dead) : (s.proc (.uproc j)).Signalled := by
  have hs := h.sound.active hstep
  obtain ⟨mode, hr⟩ := h.sound.running
  by_cases htest : (t.proc .test).phase = .dead
  · refine (h.signals hs).all ?_ j
    rw [System.awaited, h.last hstep htest]
    rfl
  · rcases hr.signalled (h.sound.frames hs) hstep htest j with hsame | ⟨-, -, hready, -⟩
    · exact hsame.mp (.inl hj)
    · cases hready.symm.trans hj

theorem Orderly.step (h : Orderly s) (hu : u < 64) (hstep : OrderlyStep cfg s a t) : Orderly t := by
  obtain ⟨hstep, hok⟩ := hstep
  have hs := h.sound.active hstep.1
  obtain ⟨mode, hr⟩ := h.sound.running
  exact ⟨h.sound.step hu hstep, h.supported.step hstep.1 hok, fun htest ↦
    (h.signals hs).step hr (h.sound.frames hs) h.supported hstep.1 hok htest⟩

/-- At first nobody has signalled. -/
theorem Signals.new (hsem : s.sem = initialSem)
    (hcode : (s.proc .test).code.count (.passeren .master) = u)
    (hnot : ∀ j, ¬ (s.proc (.uproc j)).Signalled) : Signals s := by
  have hnone : s.signals = 0 := by
    rw [System.signals, Finset.card_eq_zero, Finset.filter_eq_empty_iff]
    exact fun j _ ↦ hnot j
  have hmaster : s.sem .master = { val := 0, queue := [] } := by rw [hsem]; rfl
  refine ⟨.inl (by rw [hmaster]), fun p hp ↦ ?_, ?_⟩
  · rw [hmaster] at hp
    exact absurd hp List.not_mem_nil
  · rw [hmaster, hnone, System.awaited, hcode]
    rfl

theorem count_awaits (n : Nat) : (awaits n : List (Instr u m)).count (.passeren .master) = n := by
  rw [awaits, List.count_append, List.count_replicate_self]
  rfl

theorem Booted.orderly (h : Booted s) : Orderly s := by
  refine ⟨h.sound, h.supported, fun _ ↦ ?_⟩
  obtain ⟨-, -, -, -, -, hsem, -, hcode, -, hborn⟩ := h
  refine .new hsem ?_ fun j ↦ ?_
  · have hallocate : ∀ l : List (Fin u), (l.map Instr.allocate : List (Instr u m)).count
        (.passeren .master) = 0 := fun l ↦ by
      rw [List.count_eq_zero]
      intro hmem
      obtain ⟨_, -, hi⟩ := List.mem_map.mp hmem
      cases hi
    rw [hcode, ← remaining_zero, remaining, List.count_append, hallocate, count_awaits,
      Nat.zero_add]
  · refine Working.not_signalled ?_ (by rw [(hborn j).1]; rintro ⟨⟩)
    rw [(hborn j).2]
    exact .nil

theorem Started.supported (h : Started s) : Supported s := by
  refine ⟨h.waits.2.2, fun i hi ↦ ?_, fun j hj ↦ ?_⟩
  · rw [h.waits.2.1] at hi
    rcases List.mem_append.mp hi with hi | hi
    · obtain rfl := List.eq_of_mem_replicate hi
      trivial
    · obtain rfl := List.mem_singleton.mp hi
      trivial
  · obtain ⟨f, -, hf⟩ := h.support
    cases (hf j).1.symm.trans hj

theorem Started.orderly (h : Started s) : Orderly s := by
  refine ⟨h.sound, h.supported, fun _ ↦ .new h.sem ?_ fun j ↦ ?_⟩
  · rw [h.waits.2.1]
    exact count_awaits u
  · refine Working.not_signalled ?_ (by rw [(h.born j).1]; rintro ⟨⟩)
    rw [(h.born j).2]
    exact .nil

/-- When the U-procs have been started there is no header to read, and nobody takes from the
free list. -/
theorem Waits.orderly (h : Waits s) (hstep : SupStep cfg s a t) : OrderlyStep cfg s a t := by
  refine ⟨⟨hstep, h.serial a⟩, ?_⟩
  rintro ⟨-, hhead, -⟩
  rcases h with h | ⟨n, h⟩ <;> rw [h] at hhead
  · cases hhead
  · cases n <;> cases hhead

/-- What holds in the runs after the start. -/
def Waiting (s : System u m k) : Prop := (∃ mode, Running s mode) ∧ Waits s

theorem Started.waiting (h : Started s) : Waiting s := ⟨⟨_, h.running⟩, .inr ⟨u, h.waits.2.1⟩⟩

theorem Waiting.step (h : Waiting s) (hstep : SupStep cfg s a t) :
    Waiting t ∧ OrderlyStep cfg s a t := by
  obtain ⟨⟨mode, hr⟩, hwaits⟩ := h
  exact ⟨⟨⟨_, hr.step (hwaits.serial a) hstep⟩, hwaits.step hr.placed hr.fresh hstep⟩,
    hwaits.orderly hstep⟩

/-- Each U-proc that is dead has returned its support structure and signalled, once and in
this order.  When `test` is about to call its TERMPROCESS all U-procs have, none of them has
a frame of the swap pool left, and there is nothing left for them to do but to terminate. -/
structure ShutDown (s : System u m k) (log : Fin u → List Signal) : Prop where
  once : ∀ j, (s.proc (.uproc j)).phase = .dead → log j = [.deallocated, .signalled]
  last : (s.proc .test).phase = .ready → (s.proc .test).code = [.termProcess] → ∀ j,
    log j = [.deallocated, .signalled] ∧
    (∀ f, (s.mem.swap_pool_table f).sw_asid ≠ asidOf j) ∧
    ((s.proc (.uproc j)).phase = .dead ∨ (s.proc (.uproc j)).code = [.termProcess])

theorem Orderly.shutDown (h : Orderly s) {log : Fin u → List Signal}
    (hlog : ∀ j, log j = (s.proc (.uproc j)).log) : ShutDown s log := by
  refine ⟨fun j hj ↦ ?_, fun hready hcode j ↦ ?_⟩
  · rw [hlog, Proc.log_of_signalled (.inl hj)]
  have hs : (s.proc .test).phase ≠ .dead := by rw [hready]; rintro ⟨⟩
  have hall := (h.signals hs).all (by rw [System.awaited, hcode]; rfl)
  refine ⟨by rw [hlog, Proc.log_of_signalled (hall j)], fun f hf ↦ ?_, hall j⟩
  rcases (h.sound.frames hs).pool f with hfree | ⟨i, b, n, hlisted, hhas, -⟩
  · rw [hfree] at hf
    exact asidOf_ne_NOPROC j hf.symm
  · rw [hlisted] at hf
    obtain rfl := asidOf_injective hf
    rcases hall i with hdead | hend
    · exact hhas.alive.2 hdead
    · exact hhas.stays (.inr hend)

theorem run_orderly {log : Fin u → List Signal} {s₀ : System u m k} {as : List (Event u k)}
    (hu : u < 64) (h₀ : Orderly s₀) (hnil : ∀ j, (s₀.proc (.uproc j)).log = [])
    (hrun : Run (WithHistory (OrderlyStep cfg) logged) (s₀, fun _ ↦ []) as (s, log)) :
    Orderly s ∧ ∀ j, log j = (s.proc (.uproc j)).log :=
  hrun.invariant (I := fun x ↦ Orderly x.1 ∧ ∀ j, x.2 j = (x.1.proc (.uproc j)).log)
    (fun x a y ⟨h, hlog⟩ ⟨hstep, hupd⟩ ↦ by
      obtain ⟨mode, hr⟩ := h.sound.running
      have hf := h.sound.frames (h.sound.active hstep.1.1)
      refine ⟨h.step hu hstep, fun j ↦ ?_⟩
      rw [hupd]
      exact hr.log hf hstep.1.1 (hlog j) (h.dies hstep.1.1))
    ⟨h₀, fun j ↦ (hnil j).symm⟩

/-- A step of this kind, computed. -/
def orderlyStep (cfg : PoolConfig m) (s : System u m k) (a : Event u k) : Option (System u m k) :=
  if HeaderFails s a then none else serialStep cfg s a

theorem orderlyStep_step (s : System u m k) (a : Event u k) (t : System u m k)
    (h : orderlyStep cfg s a = some t) : OrderlyStep cfg s a t := by
  obtain ⟨hok, hstep⟩ := Option.ite_none_left_eq_some.mp h
  exact ⟨serialStep_step s a t hstep, hok⟩

end PandosPlus.SupportLevel
