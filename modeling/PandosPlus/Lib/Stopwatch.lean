import Mathlib

/-!
# A stopwatch with changing owners

A clock gives a non-decreasing sequence of readings `tod 0`, `tod 1`, ….  A stopwatch has
at most one owner at a time.  It remembers when it was last started; a charge adds the time
since then to the total of its owner, and starts it again.  Everything else that starts it
again discards the time.

Since a new owner starts it, and a charge is made to the owner, the intervals charged are
disjoint, and each lies in a period in which the one charged is the owner.
-/

namespace Stopwatch

universe u

variable {α : Type u}

/-- An interval charged to an owner. -/
structure Charge (α : Type u) where
  who : α
  /-- When the owner took the stopwatch. -/
  taken : Int
  since : Int
  till : Int

/-- The time charged. -/
def Charge.length (c : Charge α) : Int := c.till - c.since

/-- A stopwatch, with the number of readings of the clock so far. -/
structure Watch (α : Type u) where
  total : α → Int
  start : Int
  reads : Nat
  /-- The owner, and when it took the stopwatch. -/
  owner : Option (α × Int)
  /-- The charges made, in order. -/
  log : List (Charge α)

/-- What happens to a stopwatch. -/
inductive Event (α : Type u) where
  /-- After `k` readings that serve another purpose, the stopwatch is started again. -/
  | flush (k : Nat)
  | charge
  | take (a : α)
  | leave
  | reset (a : α)

/-- What a list of charges adds to the total of `a`. -/
def chargedTo [DecidableEq α] (a : α) (l : List (Charge α)) : Int :=
  ((l.filter (·.who = a)).map Charge.length).sum

namespace Watch

variable [DecidableEq α] (tod : Nat → Int)

/-- Starting the stopwatch takes two readings: the time up to the first is the time since
it was last started, and the second is the new start. -/
def flush (k : Nat) (w : Watch α) : Watch α :=
  { w with reads := w.reads + k + 2, start := tod (w.reads + k + 1) }

/-- One event. -/
def step (w : Watch α) : Event α → Watch α
  | .flush k => w.flush tod k
  | .charge => match w.owner with
      | none => w
      | some (a, taken) =>
          { w.flush tod 0 with
            total := Function.update w.total a (w.total a + (tod w.reads - w.start))
            log := w.log ++ [⟨a, taken, w.start, tod w.reads⟩] }
  | .take a => { w.flush tod 0 with owner := some (a, tod (w.reads + 1)) }
  | .leave => { w with owner := none }
  | .reset a => { w with total := Function.update w.total a 0 }

/-- A list of events. -/
def run (w : Watch α) (es : List (Event α)) : Watch α := es.foldl (step tod) w

@[simp] theorem run_nil (w : Watch α) : w.run tod [] = w := rfl

@[simp] theorem run_cons (w : Watch α) (e : Event α) (es : List (Event α)) :
    w.run tod (e :: es) = (w.step tod e).run tod es := rfl

theorem run_append (w : Watch α) (es es' : List (Event α)) :
    w.run tod (es ++ es') = (w.run tod es).run tod es' := List.foldl_append

/-- The start is the last reading, and the charges are disjoint intervals in the order they
were made, each within the period of its owner. -/
structure Good (w : Watch α) : Prop where
  read : 0 < w.reads
  start : w.start = tod (w.reads - 1)
  owner : ∀ a taken, w.owner = some (a, taken) → taken ≤ w.start
  charge : ∀ c ∈ w.log, c.taken ≤ c.since ∧ c.since ≤ c.till ∧ c.till ≤ w.start
  disjoint : w.log.Pairwise fun c d ↦ c.till ≤ d.since

/-- What happens between two states of a stopwatch: the charges made last no longer than
the time that has passed. -/
structure Accounted (w w' : Watch α) (new : List (Charge α)) : Prop where
  log : w'.log = w.log ++ new
  nonneg : ∀ c ∈ new, 0 ≤ c.length
  elapsed : (new.map Charge.length).sum ≤ w'.start - w.start

variable {tod} {w w' w'' : Watch α} {new new' : List (Charge α)} {e : Event α}

namespace Good

omit [DecidableEq α] in
/-- Starting the stopwatch again. -/
theorem flush (htod : Monotone tod) (h : w.Good tod) (k : Nat) :
    (w.flush tod k).Good tod ∧ w.start ≤ (w.flush tod k).start := by
  have hle : w.start ≤ tod (w.reads + k + 1) := by
    rw [h.start]
    exact htod (by omega)
  refine ⟨⟨Nat.succ_pos _, rfl, fun a taken ho ↦ (h.owner a taken ho).trans hle, fun c hc ↦ ?_,
    h.disjoint⟩, hle⟩
  obtain ⟨htaken, hsince, htill⟩ := h.charge c hc
  exact ⟨htaken, hsince, htill.trans hle⟩

/-- What one event preserves, and the charge it makes. -/
theorem step (htod : Monotone tod) (h : w.Good tod) (e : Event α) :
    (w.step tod e).Good tod ∧ ∃ new, w.Accounted (w.step tod e) new ∧
      ∀ a, e ≠ .reset a → (w.step tod e).total a = w.total a + chargedTo a new := by
  cases e with
  | flush k =>
      obtain ⟨hgood, hle⟩ := h.flush htod k
      refine ⟨hgood, [], ⟨(List.append_nil _).symm, by simp, ?_⟩, fun a _ ↦ ?_⟩
      · exact sub_nonneg.mpr hle
      · exact (Int.add_zero _).symm
  | charge =>
      cases ho : w.owner with
      | none =>
          have hstep : w.step tod .charge = w := by simp only [Watch.step, ho]
          rw [hstep]
          refine ⟨h, [], ⟨(List.append_nil _).symm, by simp, by simp⟩, fun a _ ↦ ?_⟩
          exact (Int.add_zero _).symm
      | some o =>
          obtain ⟨a, taken⟩ := o
          have hstep : w.step tod .charge = { w.flush tod 0 with
              total := Function.update w.total a (w.total a + (tod w.reads - w.start))
              log := w.log ++ [⟨a, taken, w.start, tod w.reads⟩] } := by
            simp only [Watch.step, ho]
          rw [hstep]
          obtain ⟨hgood, -⟩ := h.flush htod 0
          have hsince : w.start ≤ tod w.reads := by
            rw [h.start]
            exact htod (Nat.sub_le _ _)
          have htill : tod w.reads ≤ (w.flush tod 0).start := htod (Nat.le_succ _)
          refine ⟨⟨hgood.read, hgood.start, hgood.owner, fun c hc ↦ ?_, ?_⟩,
            [⟨a, taken, w.start, tod w.reads⟩], ⟨rfl, ?_, ?_⟩, fun b _ ↦ ?_⟩
          · rcases List.mem_append.mp hc with hc | hc
            · exact hgood.charge c hc
            · rw [List.mem_singleton.mp hc]
              exact ⟨h.owner a taken ho, hsince, htill⟩
          · refine List.pairwise_append.mpr ⟨h.disjoint, List.pairwise_singleton _ _, ?_⟩
            intro c hc d hd
            rw [List.mem_singleton.mp hd]
            exact (h.charge c hc).2.2
          · intro c hc
            rw [List.mem_singleton.mp hc]
            exact sub_nonneg.mpr hsince
          · rw [List.map_singleton, List.sum_singleton]
            exact Int.sub_le_sub_right htill _
          · change Function.update w.total a _ b = _
            by_cases hab : a = b
            · subst hab
              simp [chargedTo, Charge.length]
            · rw [Function.update_of_ne (Ne.symm hab)]
              simp [chargedTo, hab]
  | take a =>
      obtain ⟨hgood, hle⟩ := h.flush htod 0
      refine ⟨⟨hgood.read, hgood.start, fun b taken ho ↦ ?_, hgood.charge, hgood.disjoint⟩, [],
        ⟨(List.append_nil _).symm, by simp, ?_⟩, fun a _ ↦ ?_⟩
      · cases ho
        exact le_refl _
      · exact sub_nonneg.mpr hle
      · exact (Int.add_zero _).symm
  | leave =>
      refine ⟨⟨h.read, h.start, fun b taken ho ↦ (nomatch ho), h.charge, h.disjoint⟩, [],
        ⟨(List.append_nil _).symm, by simp, ?_⟩, fun a _ ↦ ?_⟩
      · exact sub_nonneg.mpr (le_refl w.start)
      · exact (Int.add_zero _).symm
  | reset b =>
      refine ⟨⟨h.read, h.start, h.owner, h.charge, h.disjoint⟩, [],
        ⟨(List.append_nil _).symm, by simp, ?_⟩, fun a hne ↦ ?_⟩
      · exact sub_nonneg.mpr (le_refl w.start)
      · have hab : a ≠ b := by
          rintro rfl
          exact hne rfl
        refine (Function.update_of_ne hab 0 w.total).trans ?_
        exact (Int.add_zero _).symm

end Good

/-! ## Several events -/

omit [DecidableEq α] in
theorem Accounted.refl (w : Watch α) : w.Accounted w [] :=
  ⟨(List.append_nil _).symm, by simp, by simp⟩

omit [DecidableEq α] in
theorem Accounted.trans (h : w.Accounted w' new) (h' : w'.Accounted w'' new') :
    w.Accounted w'' (new ++ new') where
  log := by rw [h'.log, h.log, List.append_assoc]
  nonneg c hc := (List.mem_append.mp hc).elim (h.nonneg c) (h'.nonneg c)
  elapsed := by
    have hle := h.elapsed
    have hle' := h'.elapsed
    rw [List.map_append, List.sum_append]
    omega

theorem chargedTo_append (a : α) (l l' : List (Charge α)) :
    chargedTo a (l ++ l') = chargedTo a l + chargedTo a l' := by
  rw [chargedTo, List.filter_append, List.map_append, List.sum_append]
  rfl

/-- One owner is charged no more than all of them together. -/
theorem chargedTo_le (a : α) {l : List (Charge α)} (h : ∀ c ∈ l, 0 ≤ c.length) :
    0 ≤ chargedTo a l ∧ chargedTo a l ≤ (l.map Charge.length).sum := by
  induction l with
  | nil => exact ⟨le_refl _, le_refl _⟩
  | cons c l ih =>
      obtain ⟨hpos, hle⟩ := ih fun d hd ↦ h d (List.mem_cons_of_mem c hd)
      have hc := h c List.mem_cons_self
      have hcons := chargedTo_append a [c] l
      rw [List.singleton_append] at hcons
      rw [hcons, List.map_cons, List.sum_cons]
      by_cases hw : c.who = a
      · have hone : chargedTo a [c] = c.length := by simp [chargedTo, hw]
        omega
      · have hone : chargedTo a [c] = 0 := by simp [chargedTo, hw]
        omega

/-- What a list of events preserves, and the charges it makes. -/
theorem Good.run (htod : Monotone tod) (h : w.Good tod) (es : List (Event α)) :
    (w.run tod es).Good tod ∧ ∃ new, w.Accounted (w.run tod es) new ∧
      ∀ a, .reset a ∉ es → (w.run tod es).total a = w.total a + chargedTo a new := by
  induction es generalizing w with
  | nil => exact ⟨h, [], .refl w, fun a _ ↦ (Int.add_zero _).symm⟩
  | cons e es ih =>
      obtain ⟨hgood, new, hnew, htotal⟩ := h.step htod e
      obtain ⟨hgood', new', hnew', htotal'⟩ := ih hgood
      refine ⟨hgood', new ++ new', hnew.trans hnew', fun a ha ↦ ?_⟩
      rw [List.mem_cons, not_or] at ha
      rw [run_cons, htotal' a ha.2, htotal a (Ne.symm ha.1), chargedTo_append]
      omega

end Watch

end Stopwatch
