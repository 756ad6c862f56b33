/-!
# Runs of a labelled transition system

A system is a relation `step s a t`: from state `s` the action `a` may lead to
`t`.  A run is a finite sequence of steps, presented with its last step at the
end, so that what holds of every state reached is proved by induction on the
prefixes of a run.

Facts about the *history* of a run (what has been counted, who came first) are
stated over a history variable: a value carried along the run and updated from
the states before and after each step.  The variable constrains nothing, so every
run can be decorated with one and the decoration erased again.
-/

namespace Lts

universe u v w

variable {σ : Type u} {α : Type v} {γ : Type w} {step : σ → α → σ → Prop}

/-- `Run step s as t`: the actions `as`, in order, lead from `s` to `t`. -/
inductive Run (step : σ → α → σ → Prop) (s : σ) : List α → σ → Prop
  /-- The empty run. -/
  | nil : Run step s [] s
  /-- A run and one more step. -/
  | snoc {t u : σ} {as : List α} {a : α} :
      Run step s as t → step t a u → Run step s (as ++ [a]) u

/-- The states reached from a start state. -/
def Reachable (start : σ → Prop) (step : σ → α → σ → Prop) (t : σ) : Prop :=
  ∃ s as, start s ∧ Run step s as t

theorem Run.single {s t : σ} {a : α} (h : step s a t) : Run step s [a] t := .snoc .nil h

theorem Run.eq_of_nil {s t : σ} (h : Run step s [] t) : t = s := by
  generalize hl : ([] : List α) = as at h
  cases h with
  | nil => rfl
  | snoc h hs => exact absurd hl.symm (List.append_ne_nil_of_right_ne_nil _ (List.cons_ne_nil _ _))

theorem Run.append {s t u : σ} {as bs : List α} (h : Run step s as t) (h' : Run step t bs u) :
    Run step s (as ++ bs) u := by
  induction h' with
  | nil => rwa [List.append_nil]
  | snoc _ hs ih => rw [← List.append_assoc]; exact .snoc ih hs

theorem Run.cons {s t u : σ} {as : List α} {a : α} (h : step s a t) (h' : Run step t as u) :
    Run step s (a :: as) u := (Run.single h).append h'

/-- What every step preserves, every run preserves. -/
theorem Run.invariant {I : σ → Prop} (hstep : ∀ s a t, I s → step s a t → I t)
    {s t : σ} {as : List α} (h : Run step s as t) (hs : I s) : I t := by
  induction h with
  | nil => exact hs
  | snoc _ ha ih => exact hstep _ _ _ ih ha

/-- A run of a system is a run of any system with more steps. -/
theorem Run.mono {step' : σ → α → σ → Prop} (hstep : ∀ s a t, step s a t → step' s a t)
    {s t : σ} {as : List α} (h : Run step s as t) : Run step' s as t := by
  induction h with
  | nil => exact .nil
  | snoc _ ha ih => exact .snoc ih (hstep _ _ _ ha)

/-- Two conditions on steps that agree, as long as the invariant they keep holds, allow the same
runs. -/
theorem Run.congr {I : σ → Prop} {P Q : σ → α → σ → Prop}
    (hstep : ∀ s a t, I s → step s a t → P s a t → I t)
    (hiff : ∀ s a t, I s → step s a t → (P s a t ↔ Q s a t)) {s t : σ} {as : List α} (hs : I s) :
    Run (fun s a t ↦ step s a t ∧ P s a t) s as t ↔
      Run (fun s a t ↦ step s a t ∧ Q s a t) s as t := by
  constructor
  · intro h
    suffices h' : I t ∧ Run (fun s a t ↦ step s a t ∧ Q s a t) s as t from h'.2
    induction h with
    | nil => exact ⟨hs, .nil⟩
    | snoc _ ha ih =>
        obtain ⟨ht, hrun⟩ := ih
        exact ⟨hstep _ _ _ ht ha.1 ha.2, .snoc hrun ⟨ha.1, (hiff _ _ _ ht ha.1).mp ha.2⟩⟩
  · intro h
    suffices h' : I t ∧ Run (fun s a t ↦ step s a t ∧ P s a t) s as t from h'.2
    induction h with
    | nil => exact ⟨hs, .nil⟩
    | snoc _ ha ih =>
        obtain ⟨ht, hrun⟩ := ih
        have hp := (hiff _ _ _ ht ha.1).mpr ha.2
        exact ⟨hstep _ _ _ ht ha.1 hp, .snoc hrun ⟨ha.1, hp⟩⟩

/-- As long as an invariant holds the steps of a system are steps of another. -/
theorem Run.under {I : σ → Prop} {step' : σ → α → σ → Prop}
    (hstep : ∀ s a t, I s → step s a t → I t ∧ step' s a t) {s t : σ} {as : List α}
    (h : Run step s as t) (hs : I s) : Run step' s as t := by
  suffices h' : I t ∧ Run step' s as t from h'.2
  induction h with
  | nil => exact ⟨hs, .nil⟩
  | snoc _ ha ih =>
      obtain ⟨ht, hrun⟩ := ih
      obtain ⟨hu, ha'⟩ := hstep _ _ _ ht ha
      exact ⟨hu, hrun.snoc ha'⟩

theorem Reachable.start {start : σ → Prop} {s : σ} (h : start s) : Reachable start step s :=
  ⟨s, [], h, .nil⟩

theorem Reachable.snoc {start : σ → Prop} {s t : σ} {a : α} (h : Reachable start step s)
    (ha : step s a t) : Reachable start step t := by
  obtain ⟨s₀, as, h₀, hr⟩ := h
  exact ⟨s₀, as ++ [a], h₀, .snoc hr ha⟩

theorem Reachable.run {start : σ → Prop} {s t : σ} {as : List α}
    (h : Reachable start step s) (hr : Run step s as t) : Reachable start step t := by
  obtain ⟨s₀, bs, h₀, hb⟩ := h
  exact ⟨s₀, bs ++ as, h₀, hb.append hr⟩

theorem Reachable.invariant {start : σ → Prop} {I : σ → Prop} (hstart : ∀ s, start s → I s)
    (hstep : ∀ s a t, I s → step s a t → I t) {t : σ} (h : Reachable start step t) : I t := by
  obtain ⟨s, _, hs, hr⟩ := h
  exact hr.invariant hstep (hstart s hs)

theorem Reachable.mono {start : σ → Prop} {step' : σ → α → σ → Prop}
    (hstep : ∀ s a t, step s a t → step' s a t) {t : σ}
    (h : Reachable start step t) : Reachable start step' t := by
  obtain ⟨s, as, hs, hr⟩ := h
  exact ⟨s, as, hs, hr.mono hstep⟩

/-! ## History variables -/

/-- The system decorated with a history variable, updated by `upd` at each step. -/
def WithHistory (step : σ → α → σ → Prop) (upd : σ → α → σ → γ → γ) :
    σ × γ → α → σ × γ → Prop :=
  fun p a q ↦ step p.1 a q.1 ∧ q.2 = upd p.1 a q.1 p.2

variable {upd : σ → α → σ → γ → γ}

/-- Erasing the history variable. -/
theorem Run.erase {p q : σ × γ} {as : List α} (h : Run (WithHistory step upd) p as q) :
    Run step p.1 as q.1 := by
  induction h with
  | nil => exact .nil
  | snoc _ ha ih => exact .snoc ih ha.1

variable (upd) in
/-- Every run can be decorated, from any first value of the variable. -/
theorem Run.decorate {s t : σ} {as : List α} (h : Run step s as t) (g : γ) :
    ∃ g', Run (WithHistory step upd) (s, g) as (t, g') := by
  induction h with
  | nil => exact ⟨g, .nil⟩
  | @snoc t u as a _ ha ih =>
      obtain ⟨g', hr⟩ := ih
      exact ⟨upd t a u g', .snoc hr ⟨ha, rfl⟩⟩

/-! ## Runs that are computed -/

/-- The actions of a list, one after the other, when a function gives the steps. -/
def execute (f : σ → α → Option σ) (s : σ) (as : List α) : Option σ := as.foldlM f s

theorem Run.of_exec {f : σ → α → Option σ} (hf : ∀ s a t, f s a = some t → step s a t)
    {as : List α} {s t : σ} (h : execute f s as = some t) : Run step s as t := by
  induction as generalizing s with
  | nil =>
      cases h
      exact .nil
  | cons a as ih =>
      rw [execute, List.foldlM_cons] at h
      obtain ⟨r, hr, h⟩ := Option.bind_eq_some_iff.mp h
      exact Run.cons (hf s a r hr) (ih h)

/-- The step with a history variable beside the state. -/
def withHistory (f : σ → α → Option σ) (upd : σ → α → σ → γ → γ) (p : σ × γ) (a : α) :
    Option (σ × γ) := (f p.1 a).map fun t ↦ (t, upd p.1 a t p.2)

theorem WithHistory.of_exec {f : σ → α → Option σ} (hf : ∀ s a t, f s a = some t → step s a t)
    {p q : σ × γ} {a : α} (h : withHistory f upd p a = some q) : WithHistory step upd p a q := by
  obtain ⟨t, ht, rfl⟩ := Option.map_eq_some_iff.mp h
  exact ⟨hf _ _ _ ht, rfl⟩

end Lts
