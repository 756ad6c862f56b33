import PandosPlus.Lib.Stopwatch
import PandosPlus.Phase2.Family

/-!
# CPU time

`timer_start` is one stopwatch for all processes: a dispatch hands it over, and
`updateProcessCPUTime` charges the current process.  Every run of a handler is a sequence
of such events, so that `p_time` only ever counts disjoint intervals during which the
process was the current one.
-/

namespace PandosPlus

open Flow Lts Stopwatch

variable {n : Nat}

/-- `p_time` of every PCB. -/
def Nucleus.cpuTime (s : Nucleus n) (p : Fin n) : Int := (s.pcbFree_table p).p_time

/-- What the CPU times depend on. -/
def Nucleus.times (s : Nucleus n) : (Fin n → Int) × Int × Nat × Option (Fin n) :=
  (s.cpuTime, s.timer_start, s.clock, s.curr_process)

/-- The stopwatch shows the times of the nucleus, and belongs to the current process. -/
structure Keeps (w : Watch (Fin n)) (s : Nucleus n) : Prop where
  total : w.total = s.cpuTime
  start : w.start = s.timer_start
  reads : w.reads = s.clock
  owner : w.owner.map Prod.fst = s.curr_process

/-- The nucleus does to the times what these events do to the stopwatch. -/
def TimeMove (cfg : Config n) (es : List (Event (Fin n))) (s t : Nucleus n) : Prop :=
  ∀ w, Keeps w s → Keeps (w.run cfg.tod es) t

/-- No total is reset. -/
def TimesRun (cfg : Config n) (s t : Nucleus n) : Prop :=
  ∃ es, (∀ p, .reset p ∉ es) ∧ TimeMove cfg es s t

variable {cfg : Config n} {s t u : Nucleus n} {c p q : Fin n} {K held : List (Fin n)} {e : Exit}

/-! ## Single events -/

theorem TimeMove.trans {es es' : List (Event (Fin n))} (h : TimeMove cfg es s t)
    (h' : TimeMove cfg es' t u) : TimeMove cfg (es ++ es') s u := fun w hw ↦ by
  rw [Watch.run_append]
  exact h' _ (h w hw)

theorem TimeMove.still (h : t.times = s.times) : TimeMove cfg [] s t := fun w hw ↦ by
  refine ⟨hw.total.trans ?_, hw.start.trans ?_, hw.reads.trans ?_, hw.owner.trans ?_⟩
  · exact (congrArg Prod.fst h).symm
  · exact (congrArg (·.2.1) h).symm
  · exact (congrArg (·.2.2.1) h).symm
  · exact (congrArg (·.2.2.2) h).symm

namespace TimesRun

theorem trans (h : TimesRun cfg s t) (h' : TimesRun cfg t u) : TimesRun cfg s u := by
  obtain ⟨es, hes, hmove⟩ := h
  obtain ⟨es', hes', hmove'⟩ := h'
  refine ⟨es ++ es', fun p hp ↦ ?_, hmove.trans hmove'⟩
  exact (List.mem_append.mp hp).elim (hes p) (hes' p)

theorem still (h : t.times = s.times) : TimesRun cfg s t := ⟨[], by simp, .still h⟩

/-- Nothing happens to the times before. -/
theorem after (h : t.times = s.times) (hrun : TimesRun cfg t u) : TimesRun cfg s u :=
  (still h).trans hrun

variable (cfg) in
/-- `updateProcessCPUTime` -/
theorem charge (hc : s.curr_process = some c) : TimesRun cfg s (s.charge cfg c) := by
  refine ⟨[.charge], by simp, fun w hw ↦ ?_⟩
  obtain ⟨⟨a, taken⟩, ho, rfl⟩ : ∃ o, w.owner = some o ∧ o.1 = c :=
    Option.map_eq_some_iff.mp (hw.owner.trans hc)
  have hstep : w.run cfg.tod [.charge] = { w.flush cfg.tod 0 with
      total := Function.update w.total a (w.total a + (cfg.tod w.reads - w.start))
      log := w.log ++ [⟨a, taken, w.start, cfg.tod w.reads⟩] } := by
    simp only [Watch.run_cons, Watch.run_nil, Watch.step, ho]
  rw [hstep]
  refine ⟨funext fun q ↦ ?_, ?_, ?_, hw.owner⟩
  · rw [Nucleus.cpuTime, Nucleus.charge, Nucleus.modifyPcb_table, ← hw.start, ← hw.reads]
    change Function.update w.total a _ q = _
    split
    · rename_i hq
      rw [hq, Function.update_self, hw.total]
      rfl
    · rename_i hq
      rw [Function.update_of_ne hq, hw.total]
      rfl
  · exact congrArg (fun k ↦ cfg.tod (k + 1)) hw.reads
  · exact congrArg (· + 2) hw.reads

/-- `timerFlush`, when the clock has been read before. -/
theorem flush (k : Nat) (htotal : t.cpuTime = s.cpuTime)
    (hstart : t.timer_start = cfg.tod (s.clock + k + 1)) (hclock : t.clock = s.clock + k + 2)
    (hcurr : t.curr_process = s.curr_process) : TimesRun cfg s t := by
  refine ⟨[.flush k], by simp, fun w hw ↦ ⟨hw.total.trans htotal.symm, ?_, ?_, ?_⟩⟩
  · rw [hstart, ← hw.reads]
    rfl
  · rw [hclock, ← hw.reads]
    rfl
  · rw [hcurr]
    exact hw.owner

/-- The processor is left. -/
theorem leave (h : t.times = { s with curr_process := none }.times) : TimesRun cfg s t := by
  have hstill : TimeMove cfg [] { s with curr_process := none } t := .still h
  exact ⟨[.leave], by simp, fun w hw ↦ hstill _ ⟨hw.total, hw.start, hw.reads, rfl⟩⟩

end TimesRun

/-! ## The handlers -/

theorem setReadyQueue_times (l : List (Fin n)) (pr : Prio) (s : Nucleus n) :
    (s.setReadyQueue l pr).times = s.times := by
  cases pr <;> rfl

theorem wake_times (p : Fin n) (s : Nucleus n) : (s.wake p).times = s.times := by
  unfold Nucleus.wake
  split
  · rfl
  · exact setReadyQueue_times _ _ s

/-- A PCB is changed, but for its time. -/
theorem modifyPcb_times (s : Nucleus n) (p : Fin n) {f : Pcb n → Pcb n}
    (hf : ∀ x, (f x).p_time = x.p_time) : (s.modifyPcb p f).times = s.times :=
  congrArg (fun g ↦ (g, s.timer_start, s.clock, s.curr_process))
    (funext fun q ↦ Nucleus.modifyPcb_field Pcb.p_time hf s p q)

variable (cfg) in
theorem load_times (p : Fin n) (s : Nucleus n) : (s.load cfg p).times = (s.flush cfg).times := by
  unfold Nucleus.load
  split
  · exact modifyPcb_times
      (f := fun x ↦ { x with p_s := { x.p_s with status := x.p_s.status ||| TEBITON } })
      (s.flush cfg) p fun _ ↦ rfl
  · exact modifyPcb_times
      (f := fun x ↦ { x with p_s := { x.p_s with status := x.p_s.status &&& ~~~TEBITON } })
      (s.flush cfg) p fun _ ↦ rfl

theorem unblock_times (k : Word) (p : Fin n) (s : Nucleus n) : (s.unblock k p).times = s.times :=
  modifyPcb_times { s with asl := s.asl.leave k p } p fun _ ↦ rfl

theorem block_times (k : Word) (p : Fin n) (s : Nucleus n) : (s.block k p).times = s.times :=
  modifyPcb_times { s with asl := s.asl.join k p } p fun _ ↦ rfl

theorem saveState_times (p : Fin n) (x : State) (s : Nucleus n) :
    (s.saveState p x).times = s.times := modifyPcb_times s p fun _ ↦ rfl

/-- A dispatch hands the stopwatch over. -/
theorem Scheduled.timesRun (h : Scheduled cfg s e t) : TimesRun cfg s t := by
  cases h with
  | halt => exact .still rfl
  | wait => exact .leave rfl
  | deadlock => exact .leave rfl
  | dispatch p prio rest hcount hnext hqueue =>
      refine ⟨[.take p], by simp, fun w hw ↦ ?_⟩
      have hpick : (s.pick p prio rest).times = { s with curr_process := some p }.times := by
        cases prio <;> rfl
      have hload := load_times cfg p (s.pick p prio rest)
      have hclock : (s.pick p prio rest).clock = s.clock := congrArg (·.2.2.1) hpick
      have hstill : TimeMove cfg [] ((s.pick p prio rest).flush cfg) _ := .still hload
      refine hstill _ ⟨hw.total.trans (congrArg Prod.fst hpick).symm, ?_, ?_, ?_⟩
      · change cfg.tod (w.reads + 1) = cfg.tod ((s.pick p prio rest).clock + 1)
        rw [hclock, hw.reads]
      · change w.reads + 2 = (s.pick p prio rest).clock + 2
        rw [hclock, hw.reads]
      · exact (congrArg (·.2.2.2) hpick).symm

theorem Finished.timesRun {live : Prop} (h : Finished cfg s live e t) : TimesRun cfg s t := by
  cases h with
  | resume => exact .still rfl
  | schedule hdead hnext => exact hnext.timesRun

theorem SemCall.timesRun {full k : Word} (hc : s.curr_process = some c)
    (h : SemCall cfg full k c s e t) : TimesRun cfg s t := by
  cases h with
  | block hfull hnext =>
      have hsave : ((s.block k c).saveState c s.prev).times = s.times :=
        (saveState_times c s.prev _).trans (block_times k c s)
      have hcurr : ((s.block k c).saveState c s.prev).curr_process = some c := hc
      exact (TimesRun.still hsave).trans ((TimesRun.charge cfg hcurr).trans hnext.timesRun)
  | release p rest hfull hqueue => exact .still ((wake_times p _).trans (unblock_times k p s))
  | write hfull hqueue => exact .still rfl

theorem Torn.times {D F : List (Fin n)} (h : Torn cfg D F s t) : t.times = s.times := by
  have htotal : t.cpuTime = s.cpuTime := funext fun q ↦ by
    rw [Nucleus.cpuTime, h.table]
    rfl
  have hstart : t.timer_start = s.timer_start := congrArg (·.1.2.2.1) h.kept
  have hclock : t.clock = s.clock := congrArg (·.2.2.2.2.2) h.kept
  have hcurr : t.curr_process = s.curr_process := congrArg (·.1.2.1) h.kept
  rw [Nucleus.times, htotal, hstart, hclock, hcurr]
  rfl

theorem PassedUp.timesRun {i : Fin 2} (h : PassedUp cfg i c s e t) : TimesRun cfg s t := by
  cases h with
  | up a ha => exact .still rfl
  | die K u ha hkill hnext => exact (TimesRun.still hkill.torn.times).trans hnext.timesRun

theorem insertChild_times (s : Nucleus n) (c p : Fin n) :
    (insertChild c p s).times = s.times :=
  (modifyPcb_times (f := fun x ↦ { x with p_parent := some c })
    (s.modifyPcb c fun x ↦ { x with p_child := x.p_child ++ [p] }) p fun _ ↦ rfl).trans
    (modifyPcb_times s c fun _ ↦ rfl)

/-- The time of a new process is zero. -/
theorem created_timeMove (c p : Fin n) (rest : List (Fin n)) (statep : Word) (s : Nucleus n) :
    TimeMove cfg [.reset p] s (s.created cfg c p rest statep) := by
  intro w hw
  have hchild : (s.created cfg c p rest statep).times = (s.enroll p rest).times := by
    refine (insertChild_times _ c p).trans ((setReadyQueue_times _ _ _).trans ?_)
    exact modifyPcb_times _ p fun _ ↦ rfl
  have hstill : TimeMove cfg [] (s.enroll p rest) (s.created cfg c p rest statep) := .still hchild
  refine hstill _ ⟨funext fun q ↦ ?_, hw.start, hw.reads, hw.owner⟩
  rw [Nucleus.cpuTime, Nucleus.enroll_table]
  change Function.update w.total p 0 q = _
  split
  · rename_i hq
    rw [hq, Function.update_self]
    rfl
  · rename_i hq
    rw [Function.update_of_ne hq, hw.total]
    rfl

theorem yielded_timesRun (hc : s.curr_process = some c) : TimesRun cfg s (s.yielded cfg c) := by
  have hsave : (({ s.saveState c s.prev with process_to_skip := some c } : Nucleus n).wake
      c).times = s.times := (wake_times c _).trans (saveState_times c s.prev s)
  have hcurr : (({ s.saveState c s.prev with process_to_skip := some c } : Nucleus n).wake
      c).curr_process = some c := (Nucleus.wake_curr c _).trans hc
  exact (TimesRun.still hsave).trans ((TimesRun.charge cfg hcurr).trans (.leave rfl))

/-- A system call lets the times run on or creates a process. -/
theorem Called.timesRun {code : Int} (hc : s.curr_process = some c)
    (h : Called cfg c s code e t) :
    TimesRun cfg s t ∨ ∃ p ∈ s.pcbFree_h, TimeMove cfg [.reset p] s t := by
  cases h with
  | createFails hfree => exact .inl (.still rfl)
  | create p rest statep hfree hstate =>
      exact .inr ⟨p, by rw [hfree]; exact List.mem_cons_self, created_timeMove c p rest statep s⟩
  | kill p K u htarget hkill hend =>
      exact .inl ((TimesRun.still hkill.torn.times).trans hend.timesRun)
  | killNone htarget hend => exact .inl hend.timesRun
  | passeren k hk hsem => exact .inl (hsem.timesRun hc)
  | verhogen k hk hsem => exact .inl (hsem.timesRun hc)
  | doIo i hi hsem =>
      exact .inl (TimesRun.after (s := s) (t := s.issue i) rfl (hsem.timesRun hc))
  | getTime => exact .inl ((TimesRun.charge cfg hc).trans (.still rfl))
  | clockWait hsem =>
      exact .inl (TimesRun.after (s := s)
        (t := { s with softblocked_count := s.softblocked_count + 1 }) rfl (hsem.timesRun hc))
  | getSupportPtr => exact .inl (.still rfl)
  | getProcessId => exact .inl (.still rfl)
  | yield hnext => exact .inl ((yielded_timesRun hc).trans hnext.timesRun)
  | invalid hcode hend =>
      exact .inl (TimesRun.after (s := s) (t := s.invalidated) rfl hend.timesRun)

theorem wakeClocks_times (k : Word) (l : List (Fin n)) (s : Nucleus n) :
    (l.foldl (fun s p ↦ s.wakeClock k p) s).times = s.times := by
  induction l generalizing s with
  | nil => rfl
  | cons p l ih =>
      rw [List.foldl_cons, ih]
      exact (wake_times p (s.unblock k p)).trans (unblock_times k p s)

theorem DeviceReturn.times {i : Fin TOTAL_IO_DEVICES} (h : DeviceReturn cfg i s u) :
    u.times = s.times := by
  cases h with
  | wake p rest hv hqueue hp =>
      have hstatus := modifyPcb_times
        (f := fun x ↦ { x with p_s := { x.p_s with reg_v0 := s.mem (statusAddr i) } })
        (((s.store (commandAddr i) ACK).unblock (cfg.devSem i) p).makeReady p) p fun _ ↦ rfl
      refine Eq.trans (b := Nucleus.times _) hstatus ((setReadyQueue_times _ _ _).trans ?_)
      exact unblock_times (cfg.devSem i) p (s.store (commandAddr i) ACK)
  | drop p rest hv hqueue hp => exact unblock_times (cfg.devSem i) p (s.store (commandAddr i) ACK)
  | late hv hqueue hnull => rfl

theorem leaving_timesRun (s : Nucleus n) : TimesRun cfg s (s.leaving cfg) := .flush 0 rfl rfl rfl rfl

theorem Interrupted.timesRun (h : Interrupted cfg s e t) : TimesRun cfg s t := by
  cases h with
  | plt c hc hip hnext =>
      have hcurr : ((startPLT s).saveState c s.prev).curr_process = some c := hc
      have hsave : ((startPLT s).saveState c s.prev).times = s.times :=
        saveState_times c s.prev (startPLT s)
      have hwake := wake_times c (((startPLT s).saveState c s.prev).charge cfg c)
      exact (TimesRun.still hsave).trans ((TimesRun.charge cfg hcurr).trans
        ((TimesRun.still hwake).trans ((TimesRun.leave rfl).trans hnext.timesRun)))
  | clock l hl hip hend =>
      have hwake := wakeClocks_times cfg.semaphore_it l s
      have htick : TimesRun cfg s ((s.ticked cfg l).leaving cfg) := by
        refine (TimesRun.still hwake).trans (.flush 1 rfl ?_ rfl rfl)
        rfl
      exact htick.trans hend.timesRun
  | device i u hi hret hend =>
      exact (TimesRun.still hret.times).trans ((leaving_timesRun u).trans hend.timesRun)
  | none hi hend => exact (leaving_timesRun s).trans hend.timesRun

theorem interrupted_timesRun (s : Nucleus n) : TimesRun cfg s (s.interrupted cfg) := by
  unfold Nucleus.interrupted
  cases hc : s.curr_process with
  | none => exact .still rfl
  | some c => exact (TimesRun.charge cfg hc).trans (.still rfl)

theorem Handled.timesRun (h : Handled cfg s e t) :
    TimesRun cfg s t ∨ ∃ p ∈ s.pcbFree_h, TimeMove cfg [.reset p] s t := by
  cases h with
  | interrupt hcode hend => exact .inl ((interrupted_timesRun s).trans hend.timesRun)
  | call c code hc hcall hend =>
      rcases Called.timesRun (s := s.advanced) hc hend with hrun | ⟨p, hp, hmove⟩
      · exact .inl (.after (t := s.advanced) rfl hrun)
      · exact .inr ⟨p, hp, TimeMove.trans (.still (show s.advanced.times = s.times from rfl)) hmove⟩
  | passUp c i hc hcall hcode hend => exact .inl hend.timesRun
  | trap c hc hcall hcode hend =>
      exact .inl (TimesRun.after (s := s) (t := s.invalidated) rfl hend.timesRun)

/-! ## Every run -/

theorem NucStep.timesRun {a : Action} (hs : Inv cfg s) (h : NucStep cfg s a t) :
    TimesRun cfg s t ∨ ∃ p ∈ s.pcbFree_h, TimeMove cfg [.reset p] s t := by
  obtain ⟨hstep, -⟩ := h
  cases a with
  | store b v =>
      simp only [step, Option.ite_none_left_eq_some, Option.some.injEq] at hstep
      obtain ⟨-, rfl⟩ := hstep
      exact .inl (.still rfl)
  | support b x =>
      simp only [step, Option.some.injEq] at hstep
      subst hstep
      exact .inl (.still rfl)
  | exception state =>
      obtain ⟨e, -, -, hend⟩ := step_handled hs hstep
      have henter : (enter state s).times = s.times := rfl
      rcases hend.timesRun with hrun | ⟨p, hp, hmove⟩
      · exact .inl (.after henter hrun)
      · exact .inr ⟨p, hp, TimeMove.trans (.still henter) hmove⟩

variable (cfg) in
/-- A step of the nucleus and its effect on the stopwatch, whose total is reset only for a
process taken from the free list. -/
def TimedStep (x : Nucleus n × Watch (Fin n)) (a : Action) (y : Nucleus n × Watch (Fin n)) : Prop :=
  NucStep cfg x.1 a y.1 ∧ ∃ es, y.2 = x.2.run cfg.tod es ∧ Keeps y.2 y.1 ∧
    ∀ p, .reset p ∈ es → p ∈ x.1.pcbFree_h

/-- The stopwatch when the current process has just been dispatched. -/
def Nucleus.watch (s : Nucleus n) : Watch (Fin n) :=
  { total := s.cpuTime, start := s.timer_start, reads := s.clock
    owner := s.curr_process.map fun p ↦ (p, s.timer_start), log := [] }

/-- What holds of the nucleus and its stopwatch. -/
structure Timed (cfg : Config n) (x : Nucleus n × Watch (Fin n)) : Prop where
  inv : Inv cfg x.1
  keeps : Keeps x.2 x.1
  good : x.2.Good cfg.tod

theorem Start.timed (h : Start cfg s) : Timed cfg (s, s.watch) := by
  refine ⟨h.inv, ⟨rfl, rfl, rfl, ?_⟩, ?_⟩
  · change Option.map Prod.fst (Option.map _ s.curr_process) = s.curr_process
    cases s.curr_process <;> rfl
  obtain ⟨mem, support, p, rest, e, -, -, hdone, hend⟩ := h.scheduled
  obtain ⟨hclock, hstart⟩ : 0 < s.clock ∧ s.timer_start = cfg.tod (s.clock - 1) := by
    cases hend with
    | halt => exact absurd rfl hdone.ne_halt
    | wait hcount hhigh hlow => exact absurd hlow (List.append_ne_nil_of_right_ne_nil _ (by simp))
    | deadlock hcount hhigh hlow =>
        exact absurd hlow (List.append_ne_nil_of_right_ne_nil _ (by simp))
    | dispatch q prio rest' hcount hnext hqueue =>
        have hload := load_times cfg q
          ((((Nucleus.initial cfg mem support).first cfg p rest)).pick q prio rest')
        have hclock := congrArg (·.2.2.1) hload
        have hstart := congrArg (·.2.1) hload
        simp only [Nucleus.times, Nucleus.flush] at hclock hstart
        rw [hclock, hstart]
        exact ⟨Nat.succ_pos _, rfl⟩
  refine ⟨hclock, hstart, fun a taken ho ↦ ?_, fun c hc ↦ absurd hc List.not_mem_nil, .nil⟩
  obtain ⟨q, -, ho⟩ := Option.map_eq_some_iff.mp ho
  cases ho
  exact le_refl _

theorem TimedStep.timed {x y : Nucleus n × Watch (Fin n)} {a : Action} (htod : Monotone cfg.tod)
    (hx : Timed cfg x) (h : TimedStep cfg x a y) :
    Timed cfg y ∧ ∃ new, x.2.Accounted y.2 new ∧
      ∀ p, p ∉ x.1.pcbFree_h → y.1.cpuTime p = x.1.cpuTime p + chargedTo p new := by
  obtain ⟨hstep, es, hrun, hkeeps, hreset⟩ := h
  obtain ⟨hgood, new, hnew, htotal⟩ := hx.good.run htod es
  rw [← hrun] at hgood hnew htotal
  refine ⟨⟨hstep.inv hx.inv, hkeeps, hgood⟩, new, hnew, fun p hp ↦ ?_⟩
  rw [← hkeeps.total, ← hx.keeps.total]
  exact htotal p fun hmem ↦ hp (hreset p hmem)

/-- A part of a run: the charges, and the totals of the processes that are there all along. -/
theorem timedRun_accounted {x y : Nucleus n × Watch (Fin n)} {as : List Action}
    {A : Fin n → Prop} (htod : Monotone cfg.tod) (hx : Timed cfg x)
    (hrun : Run (fun x a y ↦ TimedStep cfg x a y ∧ ∀ p, A p → p ∉ x.1.pcbFree_h) x as y) :
    Timed cfg y ∧ ∃ new, x.2.Accounted y.2 new ∧
      ∀ p, A p → y.1.cpuTime p = x.1.cpuTime p + chargedTo p new := by
  induction hrun with
  | nil => exact ⟨hx, [], .refl x.2, fun p _ ↦ (Int.add_zero _).symm⟩
  | snoc _ hstep ih =>
      obtain ⟨hy, new, hnew, htotal⟩ := ih
      obtain ⟨hz, new', hnew', htotal'⟩ := hstep.1.timed htod hy
      refine ⟨hz, new ++ new', hnew.trans hnew', fun p hp ↦ ?_⟩
      rw [htotal' p (hstep.2 p hp), htotal p hp, Watch.chargedTo_append]
      omega

/-- Every run of the nucleus keeps a stopwatch. -/
theorem run_timed {w : Watch (Fin n)} {as : List Action} {P : Nucleus n → Prop} (hs : Inv cfg s)
    (hw : Keeps w s) (hrun : Run (fun s a t ↦ NucStep cfg s a t ∧ P s) s as t) :
    ∃ w', Run (fun x a y ↦ TimedStep cfg x a y ∧ P x.1) (s, w) as (t, w') := by
  suffices h : Inv cfg t ∧ ∃ w', Keeps w' t ∧
      Run (fun x a y ↦ TimedStep cfg x a y ∧ P x.1) (s, w) as (t, w') by
    obtain ⟨-, w', -, hrun'⟩ := h
    exact ⟨w', hrun'⟩
  induction hrun with
  | nil => exact ⟨hs, w, hw, .nil⟩
  | @snoc t u as a _ hstep ih =>
      obtain ⟨ht, w', hw', hrun'⟩ := ih
      refine ⟨hstep.1.inv ht, ?_⟩
      rcases hstep.1.timesRun ht with ⟨es, hes, hmove⟩ | ⟨p, hp, hmove⟩
      · exact ⟨_, hmove w' hw',
          .snoc hrun' ⟨⟨hstep.1, es, rfl, hmove w' hw', fun p hp ↦ absurd hp (hes p)⟩, hstep.2⟩⟩
      · refine ⟨_, hmove w' hw', .snoc hrun' ⟨⟨hstep.1, _, rfl, hmove w' hw', fun q hq ↦ ?_⟩,
          hstep.2⟩⟩
        cases List.mem_singleton.mp hq
        exact hp

/-! ## GETTIME -/

/-- A step that is the GETTIME of `c`. -/
def GetTime (cfg : Config n) (c : Fin n) (s t : Nucleus n) : Prop :=
  ∃ state, NucStep cfg s (.exception state) t ∧ s.curr_process = some c ∧ IsCall state GETTIME

theorem GetTime.eq (hs : Inv cfg s) (h : GetTime cfg c s t) :
    t.cpuTime c = s.cpuTime c + (cfg.tod s.clock - s.timer_start) ∧
      t.timer_start = cfg.tod (s.clock + 1) ∧
      t.prev.reg_v0 = BitVec.ofInt 32 (t.cpuTime c) := by
  obtain ⟨state, ⟨hstep, -⟩, hc, hcall⟩ := h
  obtain ⟨e, -, -, hend⟩ := step_handled hs hstep
  have hmem : GETTIME ∈ syscallCodes := by decide
  cases hend with
  | interrupt hcode hend => exact absurd hcode hcall.excCode_ne
  | call c' code hc' hcall' hend =>
      obtain rfl : code = GETTIME := hcall'.code hcall
      obtain rfl : c' = c := Option.some.inj (hc'.symm.trans hc)
      cases hend with
      | getTime =>
          have htime : ((enter state s).advanced.charge cfg c').cpuTime c' =
              s.cpuTime c' + (cfg.tod s.clock - s.timer_start) := by
            rw [Nucleus.cpuTime, Nucleus.charge, Nucleus.modifyPcb_table, if_pos rfl]
            rfl
          exact ⟨htime, rfl, rfl⟩
      | invalid hcode hend => exact absurd hmem hcode
  | passUp c' i hc' hcall' hcode hend => exact absurd hcall (hcall' _ hmem)
  | trap c' hc' hcall' hcode hend => exact absurd hcall (hcall' _ hmem)

/-- Two results of GETTIME differ by no more than the time between their readings of the
clock. -/
theorem getTime_between {t₁ t₂ : Nucleus n} {w : Watch (Fin n)} {as : List Action}
    (htod : Monotone cfg.tod) (hs : Timed cfg (s, w)) (h₁ : GetTime cfg c s t₁)
    (hrun : Run (fun s a t ↦ NucStep cfg s a t ∧ c ∉ s.pcbFree_h) t₁ as u)
    (h₂ : GetTime cfg c u t₂) :
    0 ≤ t₂.cpuTime c - t₁.cpuTime c ∧
      t₂.cpuTime c - t₁.cpuTime c ≤ cfg.tod u.clock - cfg.tod s.clock := by
  obtain ⟨-, hstart, -⟩ := h₁.eq hs.inv
  obtain ⟨state, hstep, -, -⟩ := h₁
  obtain ⟨w₁, hrun₁⟩ := run_timed (P := fun _ ↦ True) hs.inv hs.keeps (.single ⟨hstep, trivial⟩)
  obtain ⟨ht₁, -⟩ := timedRun_accounted (A := fun _ ↦ False) htod hs
    (hrun₁.mono fun _ _ _ h ↦ ⟨h.1, fun _ h ↦ h.elim⟩)
  obtain ⟨w₂, hrun₂⟩ := run_timed (P := fun s ↦ c ∉ s.pcbFree_h) ht₁.inv ht₁.keeps hrun
  obtain ⟨hu, new, hnew, htotal⟩ := timedRun_accounted (A := fun p ↦ p = c) htod ht₁
    (hrun₂.mono fun _ _ _ h ↦ ⟨h.1, fun p hp ↦ hp ▸ h.2⟩)
  obtain ⟨htime, -, -⟩ := h₂.eq hu.inv
  have hcharged := htotal c rfl
  obtain ⟨hpos, hle⟩ := Watch.chargedTo_le c hnew.nonneg
  have helapsed := hnew.elapsed
  have hu_start : w₂.start = u.timer_start := hu.keeps.start
  have ht_start : w₁.start = t₁.timer_start := ht₁.keeps.start
  -- the stopwatch was started at the last reading before the second call
  have hlast : u.timer_start ≤ cfg.tod u.clock := by
    rw [← hu_start, hu.good.start, hu.keeps.reads]
    exact htod (Nat.sub_le _ _)
  have hfirst : cfg.tod s.clock ≤ cfg.tod (s.clock + 1) := htod (Nat.le_succ _)
  simp only at helapsed hcharged htime hstart
  constructor <;> omega

/-- Every run of the nucleus keeps a stopwatch.  The intervals charged are disjoint, and
each lies in the period since its process was dispatched.  In no part of a run are the
charges longer than the time that passes, and `p_time` of a process counts the charges to
it.  So two results of GETTIME differ by no more than the time between the readings. -/
theorem cpuTime_exact (htod : Monotone cfg.tod) {s₀ : Nucleus n} (h₀ : Start cfg s₀) :
    (∀ as t, Run (NucStep cfg) s₀ as t → ∃ w, Run (TimedStep cfg) (s₀, s₀.watch) as (t, w)) ∧
    (∀ as x, Run (TimedStep cfg) (s₀, s₀.watch) as x →
      x.2.log.Pairwise (fun c d ↦ c.till ≤ d.since) ∧
      (∀ c ∈ x.2.log, c.taken ≤ c.since ∧ c.since ≤ c.till) ∧
      ∀ bs y, Run (TimedStep cfg) x bs y → ∃ new, y.2.log = x.2.log ++ new ∧
        (new.map Charge.length).sum ≤ cfg.tod (y.1.clock - 1) - cfg.tod (x.1.clock - 1) ∧
        ∀ p, Run (fun x a y ↦ TimedStep cfg x a y ∧ p ∉ x.1.pcbFree_h) x bs y →
          y.1.cpuTime p = x.1.cpuTime p + chargedTo p new) ∧
    ∀ c as s t₁ bs u t₂, Run (NucStep cfg) s₀ as s → GetTime cfg c s t₁ →
      Run (fun s a t ↦ NucStep cfg s a t ∧ c ∉ s.pcbFree_h) t₁ bs u → GetTime cfg c u t₂ →
      t₁.prev.reg_v0 = BitVec.ofInt 32 (t₁.cpuTime c) ∧
      t₂.prev.reg_v0 = BitVec.ofInt 32 (t₂.cpuTime c) ∧
      0 ≤ t₂.cpuTime c - t₁.cpuTime c ∧
      t₂.cpuTime c - t₁.cpuTime c ≤ cfg.tod u.clock - cfg.tod s.clock := by
  have hstart := h₀.timed
  have htimed : ∀ {x y : Nucleus n × Watch (Fin n)} {as}, Timed cfg x →
      Run (TimedStep cfg) x as y → Timed cfg y ∧ ∃ new, x.2.Accounted y.2 new := by
    intro x y as hx hrun
    obtain ⟨hy, new, hnew, -⟩ := timedRun_accounted (A := fun _ ↦ False) htod hx
      (hrun.mono fun _ _ _ h ↦ ⟨h, fun _ h ↦ h.elim⟩)
    exact ⟨hy, new, hnew⟩
  have hkeep : ∀ {as t}, Run (NucStep cfg) s₀ as t →
      ∃ w, Run (TimedStep cfg) (s₀, s₀.watch) as (t, w) := by
    intro as t hrun
    obtain ⟨w, hrun⟩ := run_timed (P := fun _ ↦ True) h₀.inv hstart.keeps
      (hrun.mono fun _ _ _ h ↦ ⟨h, trivial⟩)
    exact ⟨w, hrun.mono fun _ _ _ h ↦ h.1⟩
  refine ⟨fun as t ↦ hkeep, fun as x hrun ↦ ?_, fun c as s t₁ bs u t₂ hrun h₁ hrun' h₂ ↦ ?_⟩
  · obtain ⟨hx, -⟩ := htimed hstart hrun
    refine ⟨hx.good.disjoint, fun c hc ↦ ?_, fun bs y hrun' ↦ ?_⟩
    · obtain ⟨htaken, hsince, -⟩ := hx.good.charge c hc
      exact ⟨htaken, hsince⟩
    · obtain ⟨hy, new, hnew⟩ := htimed hx hrun'
      refine ⟨new, hnew.log, ?_, fun p halive ↦ ?_⟩
      · rw [← hy.keeps.reads, ← hx.keeps.reads, ← hy.good.start, ← hx.good.start]
        exact hnew.elapsed
      · obtain ⟨-, new', hnew', htotal⟩ := timedRun_accounted (A := fun q ↦ q = p) htod hx
          (halive.mono fun _ _ _ h ↦ ⟨h.1, fun q hq ↦ hq ▸ h.2⟩)
        have hsame : new' = new := List.append_cancel_left (hnew'.log.symm.trans hnew.log)
        rw [← hsame]
        exact htotal p rfl
  · obtain ⟨w, hkept⟩ := hkeep hrun
    obtain ⟨hs, -⟩ := htimed hstart hkept
    have hu : Inv cfg u := by
      obtain ⟨state, hstep, -, -⟩ := id h₁
      exact hrun'.invariant (I := fun s ↦ Inv cfg s) (fun _ _ _ h hstep ↦ hstep.1.inv h)
        (hstep.inv hs.inv)
    exact ⟨(h₁.eq hs.inv).2.2, (h₂.eq hu).2.2, getTime_between htod hs h₁ hrun' h₂⟩

/-- The first process calls GETTIME twice in a row. -/
theorem cpuTime_exact_sample :
    ∃ s t₁ t₂ : Nucleus 2, GetTime (.sample 2 (by decide) .faults) 0 s t₁ ∧
      GetTime (.sample 2 (by decide) .faults) 0 t₁ t₂ ∧
      0 ≤ t₂.cpuTime 0 - t₁.cpuTime 0 ∧ t₂.cpuTime 0 - t₁.cpuTime 0 ≤ t₁.clock - s.clock := by
  let cfg := Config.sample 2 (by decide) .faults
  let a := Action.call GETTIME 0 0 0
  have hruns : ((firstState cfg).any fun s ↦ (step cfg s a).any fun t₁ ↦
      decide (s.curr_process = some 0 ∧ t₁.curr_process = some 0) && (step cfg t₁ a).isSome) =
      true := by decide +kernel
  obtain ⟨s, hs, hruns⟩ := (Option.any_eq_true _ _).mp hruns
  obtain ⟨t₁, ht₁, hruns⟩ := (Option.any_eq_true _ _).mp hruns
  obtain ⟨hcurr, hruns⟩ := Bool.and_eq_true_iff.mp hruns
  obtain ⟨hc, hc₁⟩ := of_decide_eq_true hcurr
  obtain ⟨t₂, ht₂⟩ := Option.isSome_iff_exists.mp hruns
  have hlaw : a.Lawful cfg := by decide
  have h₁ : GetTime cfg 0 s t₁ := ⟨_, ⟨ht₁, hlaw⟩, hc, by decide⟩
  have h₂ : GetTime cfg 0 t₁ t₂ := ⟨_, ⟨ht₂, hlaw⟩, hc₁, by decide⟩
  have htod : Monotone cfg.tod := fun _ _ h ↦ Int.ofNat_le.mpr h
  obtain ⟨-, -, hget⟩ := cpuTime_exact htod (firstState_start hs)
  obtain ⟨-, -, hpos, hle⟩ := hget 0 [] s t₁ [] t₁ t₂ .nil h₁ .nil h₂
  exact ⟨s, t₁, t₂, h₁, h₂, hpos, hle⟩

end PandosPlus
