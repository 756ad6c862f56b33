import Mathlib.Logic.Function.Basic

/-!
# Paging

There are more pages than frames.  A page is in the frame it is mapped to, or else on the
disk.  The owner of a mapped page writes to it at any time.  One process at a time brings a
missing page into a frame: the page that the frame is listed for is unmapped and saved on the
disk, the missing page is loaded, recorded as that of the frame and mapped.  A transfer may
fail, and the process may give up after it.

Whatever fails, a page is only mapped to a frame that is listed for it (`Isolated`).  If
nobody gives up once a page has been unmapped, the list says what is mapped (`Accurate`).  If
no transfer fails either, all pages together are a flat memory (`Holds`).
-/

namespace Pager

universe u v w

variable {π : Type u} {φ : Type v} {δ : Type w}

/-- How far the process has come. -/
inductive Stage where
  /-- The page of the frame is still mapped. -/
  | chosen
  | unmapped
  /-- The page has been saved, or the frame was free. -/
  | saved
  /-- The missing page has been loaded. -/
  | loaded
  | recorded

/-- The missing page that is brought into a frame. -/
structure Task (π : Type u) (φ : Type v) where
  page : π
  frame : φ
  stage : Stage

structure State (π : Type u) (φ : Type v) (δ : Type w) where
  map : π → Option φ
  list : φ → Option π
  ram : φ → δ
  disk : π → δ
  task : Option (Task π φ)

inductive Action (π : Type u) (φ : Type v) (δ : Type w) where
  | write (p : π) (d : δ)
  | choose (p : π) (f : φ)
  | unmap
  | save (ok : Bool)
  | load (ok : Bool)
  | quit
  | record
  | install
  /-- The frame is given back by the owner of its page, for good. -/
  | free (f : φ)

variable {s t : State π φ δ} {a : Action π φ δ} {p q : π} {f g : φ} {σ : Stage}

/-! ## What holds between two actions -/

/-- A page is mapped only to a frame that is listed for it, and none to a frame that a page
is brought into. -/
structure Isolated (s : State π φ δ) : Prop where
  listed : ∀ p f, s.map p = some f → s.list f = some p
  clear : ∀ p f σ, s.task = some ⟨p, f, σ⟩ → σ ≠ .chosen → ∀ q, s.map q ≠ some f
  recorded : ∀ p f, s.task = some ⟨p, f, .recorded⟩ → s.list f = some p

/-- No frame is shared. -/
theorem Isolated.alone (h : Isolated s) (hp : s.map p = some f) (hq : s.map q = some f) : p = q :=
  Option.some.inj ((h.listed p f hp).symm.trans (h.listed q f hq))

/-- The page has been unmapped and not yet saved. -/
def State.Leaves (s : State π φ δ) (q : π) (f : φ) : Prop :=
  s.list f = some q ∧ ∃ p, s.task = some ⟨p, f, .unmapped⟩

/-- A page that a frame is listed for is mapped to it, unless another is being brought into
the frame, and the page that is brought in is not mapped. -/
structure Accurate (s : State π φ δ) : Prop where
  mapped : ∀ q f, s.list f = some q →
    s.map q = some f ∨ ∃ p σ, s.task = some ⟨p, f, σ⟩ ∧ σ ≠ .chosen
  missing : ∀ p f σ, s.task = some ⟨p, f, σ⟩ → s.map p = none
  leaves : ∀ q f, s.Leaves q f → s.map q = none

/-- When no page is brought in, the list says what is mapped. -/
theorem Accurate.idle (h : Accurate s) (hidle : s.task = none) (hq : s.list f = some q) :
    s.map q = some f := by
  refine (h.mapped q f hq).resolve_right ?_
  rintro ⟨p, σ, htask, -⟩
  cases hidle.symm.trans htask

/-- A frame that no page is brought into is mapped as the list says. -/
theorem Accurate.other (h : Accurate s) (htask : s.task = some ⟨p, f, σ⟩) (hg : g ≠ f)
    (hq : s.list g = some q) : s.map q = some g := by
  refine (h.mapped q g hq).resolve_right ?_
  rintro ⟨p', τ, htask', -⟩
  obtain ⟨-, rfl, -⟩ := Task.mk.inj (Option.some.inj (htask.symm.trans htask'))
  exact hg rfl

/-- Before the page of the frame is unmapped it is mapped to it. -/
theorem Accurate.chosen (h : Accurate s) (htask : s.task = some ⟨p, f, .chosen⟩)
    (hq : s.list f = some q) : s.map q = some f := by
  refine (h.mapped q f hq).resolve_right ?_
  rintro ⟨p', σ, htask', hσ⟩
  obtain ⟨-, -, rfl⟩ := Task.mk.inj (Option.some.inj (htask.symm.trans htask'))
  exact hσ rfl

/-- The pages whose owners are still at work are those of a flat memory: a page that is not
mapped is on the disk, or in the frame it is about to be saved from. -/
structure Holds (live : π → Prop) (flat : π → δ) (s : State π φ δ) : Prop where
  mapped : ∀ p f, live p → s.map p = some f → s.ram f = flat p
  leaves : ∀ p f, live p → s.Leaves p f → s.ram f = flat p
  stored : ∀ p, live p → s.map p = none → (∀ f, ¬ s.Leaves p f) → s.disk p = flat p
  loaded : ∀ p f σ, live p → s.task = some ⟨p, f, σ⟩ → σ = .loaded ∨ σ = .recorded →
    s.ram f = flat p

/-- Owners stop working, and that is all. -/
theorem Holds.mono {live live' : π → Prop} {flat : π → δ} (h : Holds live flat s)
    (hlive : ∀ p, live' p → live p) : Holds live' flat s :=
  ⟨fun p f hp ↦ h.mapped p f (hlive p hp), fun p f hp ↦ h.leaves p f (hlive p hp),
    fun p hp ↦ h.stored p (hlive p hp), fun p f σ hp ↦ h.loaded p f σ (hlive p hp)⟩

/-- The page that an action writes to. -/
def Action.written? : Action π φ δ → Option π
  | .write p _ => some p
  | _ => none

/-- Nobody gives up when the frame has been taken from a page. -/
def Harmless (s : State π φ δ) (a : Action π φ δ) : Prop :=
  a = .quit → ∀ p f σ, s.task = some ⟨p, f, σ⟩ → s.list f = none

/-- No transfer fails. -/
def Action.Succeeds : Action π φ δ → Prop
  | .save ok | .load ok => ok = true
  | _ => True

/-! ## Actions -/

variable [DecidableEq π] [DecidableEq φ]

/-- What an action does. -/
inductive Step (s : State π φ δ) : Action π φ δ → State π φ δ → Prop
  | write {p : π} {f : φ} (d : δ) (hp : s.map p = some f) :
      Step s (.write p d) { s with ram := Function.update s.ram f d }
  | choose {p : π} {f : φ} (hidle : s.task = none) (hp : s.map p = none) :
      Step s (.choose p f)
        { s with task := some ⟨p, f, if s.list f = none then .saved else .chosen⟩ }
  | unmap {p q : π} {f : φ} (htask : s.task = some ⟨p, f, .chosen⟩) (hq : s.list f = some q) :
      Step s .unmap
        { s with map := Function.update s.map q none, task := some ⟨p, f, .unmapped⟩ }
  | save {p q : π} {f : φ} (ok : Bool) (htask : s.task = some ⟨p, f, .unmapped⟩)
      (hq : s.list f = some q) :
      Step s (.save ok)
        { s with
          disk := if ok then Function.update s.disk q (s.ram f) else s.disk
          task := some ⟨p, f, .saved⟩ }
  | load {p : π} {f : φ} (ok : Bool) (htask : s.task = some ⟨p, f, .saved⟩) :
      Step s (.load ok)
        { s with
          ram := if ok then Function.update s.ram f (s.disk p) else s.ram
          task := some ⟨p, f, .loaded⟩ }
  | quit {p : π} {f : φ} {σ : Stage} (htask : s.task = some ⟨p, f, σ⟩)
      (hσ : σ = .saved ∨ σ = .loaded) : Step s .quit { s with task := none }
  | record {p : π} {f : φ} (htask : s.task = some ⟨p, f, .loaded⟩) :
      Step s .record
        { s with list := Function.update s.list f (some p), task := some ⟨p, f, .recorded⟩ }
  | install {p : π} {f : φ} (htask : s.task = some ⟨p, f, .recorded⟩) :
      Step s .install { s with map := Function.update s.map p (some f), task := none }
  | free {q : π} {f : φ} (hidle : s.task = none) (hq : s.list f = some q) :
      Step s (.free f)
        { s with
          map := fun p ↦ if s.map p = some f then none else s.map p
          list := Function.update s.list f none }

/-- A page is written back to the disk from the frame it is about to leave. -/
theorem Step.disk (hstep : Step s a t) (q : π) :
    t.disk q = s.disk q ∨ ∃ f, s.Leaves q f ∧ t.disk q = s.ram f := by
  cases hstep with
  | @save p q' f ok htask hq =>
      change (if ok then Function.update s.disk q' (s.ram f) else s.disk) q = _ ∨
        ∃ g, s.Leaves q g ∧ (if ok then Function.update s.disk q' (s.ram f) else s.disk) q = _
      split
      · by_cases he : q = q'
        · subst he
          rw [Function.update_self]
          exact .inr ⟨f, ⟨hq, p, htask⟩, rfl⟩
        · exact .inl (Function.update_of_ne he ..)
      · exact .inl rfl
  | _ => exact .inl rfl

theorem Isolated.step (h : Isolated s) (hstep : Step s a t) : Isolated t := by
  cases hstep with
  | write d hp => exact ⟨h.listed, h.clear, h.recorded⟩
  | @choose p f hidle hp =>
      refine ⟨h.listed, ?_, ?_⟩
      · rintro p' f' σ htask hσ q hq
        obtain ⟨rfl, rfl, rfl⟩ := Task.mk.inj (Option.some.inj htask)
        split at hσ
        · cases (h.listed q f hq).symm.trans ‹_›
        · exact hσ rfl
      · rintro p' f' htask
        obtain ⟨-, -, hσ⟩ := Task.mk.inj (Option.some.inj htask)
        split at hσ <;> cases hσ
  | @unmap p q f htask hq =>
      have hmap : ∀ q' f', Function.update s.map q none q' = some f' →
          q' ≠ q ∧ s.map q' = some f' := by
        intro q' f' hq'
        by_cases he : q' = q
        · rw [he, Function.update_self] at hq'
          cases hq'
        · exact ⟨he, by rwa [Function.update_of_ne he] at hq'⟩
      refine ⟨fun q' f' hq' ↦ h.listed q' f' (hmap q' f' hq').2, ?_, ?_⟩
      · rintro p' f' σ htask' - q' hq'
        obtain ⟨rfl, rfl, rfl⟩ := Task.mk.inj (Option.some.inj htask')
        obtain ⟨hne, hq'⟩ := hmap q' f hq'
        exact hne (Option.some.inj ((h.listed q' f hq').symm.trans hq))
      · rintro p' f' htask'
        cases htask'
  | save ok htask hq =>
      refine ⟨h.listed, ?_, ?_⟩
      · rintro p' f' σ htask' -
        obtain ⟨rfl, rfl, rfl⟩ := Task.mk.inj (Option.some.inj htask')
        exact h.clear _ _ _ htask (by rintro ⟨⟩)
      · rintro p' f' htask'
        cases htask'
  | load ok htask =>
      refine ⟨h.listed, ?_, ?_⟩
      · rintro p' f' σ htask' -
        obtain ⟨rfl, rfl, rfl⟩ := Task.mk.inj (Option.some.inj htask')
        exact h.clear _ _ _ htask (by rintro ⟨⟩)
      · rintro p' f' htask'
        cases htask'
  | quit htask hσ =>
      refine ⟨h.listed, ?_, ?_⟩
      · rintro p' f' σ htask'
        cases htask'
      · rintro p' f' htask'
        cases htask'
  | @record p f htask =>
      have hclear := h.clear p f _ htask (by rintro ⟨⟩)
      refine ⟨fun q g hq ↦ ?_, ?_, ?_⟩
      · have hg : g ≠ f := by
          rintro rfl
          exact hclear q hq
        exact (Function.update_of_ne hg ..).trans (h.listed q g hq)
      · rintro p' f' σ htask' -
        obtain ⟨rfl, rfl, rfl⟩ := Task.mk.inj (Option.some.inj htask')
        exact hclear
      · rintro p' f' htask'
        obtain ⟨rfl, rfl, -⟩ := Task.mk.inj (Option.some.inj htask')
        exact Function.update_self ..
  | @install p f htask =>
      refine ⟨fun q g hq ↦ ?_, ?_, ?_⟩
      · change Function.update s.map p (some f) q = some g at hq
        by_cases he : q = p
        · rw [he, Function.update_self] at hq
          obtain rfl := Option.some.inj hq
          exact he ▸ h.recorded p f htask
        · rw [Function.update_of_ne he] at hq
          exact h.listed q g hq
      · rintro p' f' σ htask'
        cases htask'
      · rintro p' f' htask'
        cases htask'
  | @free q f hidle hq =>
      refine ⟨fun p g hp ↦ ?_, fun p' f' σ htask' ↦ ?_, fun p' f' htask' ↦ ?_⟩
      · obtain ⟨hne, hmap⟩ := Option.ite_none_left_eq_some.mp hp
        have hg : g ≠ f := by
          rintro rfl
          exact hne hmap
        exact (Function.update_of_ne hg ..).trans (h.listed p g hmap)
      · cases hidle.symm.trans htask'
      · cases hidle.symm.trans htask'

theorem Accurate.step (h : Accurate s) (hi : Isolated s) (hstep : Step s a t)
    (ha : Harmless s a) : Accurate t := by
  -- the task goes on with the same page and frame, and nothing changes that matters
  have hgoes : ∀ {p f σ σ'} {t : State π φ δ}, s.task = some ⟨p, f, σ⟩ → σ ≠ .chosen →
      σ' ≠ .chosen → σ' ≠ .unmapped → t.map = s.map → t.list = s.list →
      t.task = some ⟨p, f, σ'⟩ → Accurate t := by
    intro p f σ σ' t htask hσ hσ' hne hmap hlist htask'
    refine ⟨fun q g hq ↦ ?_, fun p' f' σ'' ht ↦ ?_, ?_⟩
    · rw [hmap]
      rw [hlist] at hq
      refine (h.mapped q g hq).imp_right ?_
      rintro ⟨p', τ, hτ, -⟩
      obtain ⟨rfl, rfl, -⟩ := Task.mk.inj (Option.some.inj (htask.symm.trans hτ))
      exact ⟨p, σ', htask', hσ'⟩
    · obtain ⟨rfl, rfl, -⟩ := Task.mk.inj (Option.some.inj (htask'.symm.trans ht))
      rw [hmap]
      exact h.missing _ _ _ htask
    · rintro q g ⟨-, p', ht⟩
      obtain ⟨-, -, rfl⟩ := Task.mk.inj (Option.some.inj (htask'.symm.trans ht))
      exact absurd rfl hne
  cases hstep with
  | write d hp => exact ⟨h.mapped, h.missing, h.leaves⟩
  | @choose p f hidle hp =>
      refine ⟨fun q g hq ↦ .inl (h.idle hidle hq), fun p' f' σ htask ↦ ?_, ?_⟩
      · obtain ⟨rfl, -⟩ := Task.mk.inj (Option.some.inj htask)
        exact hp
      · rintro q g ⟨-, p', htask⟩
        obtain ⟨-, -, hσ⟩ := Task.mk.inj (Option.some.inj htask)
        split at hσ <;> cases hσ
  | @unmap p q f htask hq =>
      have hmap := h.chosen htask hq
      refine ⟨fun q' g hq' ↦ ?_, fun p' f' σ htask' ↦ ?_, ?_⟩
      · by_cases hg : g = f
        · exact .inr ⟨p, .unmapped, by rw [hg], by rintro ⟨⟩⟩
        · have hq'g := h.other htask hg hq'
          have hne : q' ≠ q := by
            rintro rfl
            exact hg (Option.some.inj (hq'g.symm.trans hmap))
          exact .inl ((Function.update_of_ne hne ..).trans hq'g)
      · obtain ⟨rfl, -⟩ := Task.mk.inj (Option.some.inj htask')
        have hp := h.missing _ _ _ htask
        have hne : p ≠ q := by
          rintro rfl
          cases hp.symm.trans hmap
        exact (Function.update_of_ne hne ..).trans hp
      · rintro q' g ⟨hlist, p', htask'⟩
        obtain ⟨-, rfl, -⟩ := Task.mk.inj (Option.some.inj htask')
        obtain rfl := Option.some.inj (hlist.symm.trans hq)
        exact Function.update_self ..
  | save ok htask hq =>
      exact hgoes htask (by rintro ⟨⟩) (by rintro ⟨⟩) (by rintro ⟨⟩) rfl rfl rfl
  | load ok htask =>
      exact hgoes htask (by rintro ⟨⟩) (by rintro ⟨⟩) (by rintro ⟨⟩) rfl rfl rfl
  | @quit p f σ htask hσ =>
      have hfree := ha rfl p f σ htask
      refine ⟨fun q g hq ↦ .inl (h.other htask ?_ hq), fun p' f' σ' ht ↦ (by cases ht), ?_⟩
      · rintro rfl
        cases hfree.symm.trans hq
      · rintro q g ⟨-, p', ht⟩
        cases ht
  | @record p f htask =>
      refine ⟨fun q g hq ↦ ?_, fun p' f' σ htask' ↦ ?_, ?_⟩
      · by_cases hg : g = f
        · exact .inr ⟨p, .recorded, by rw [hg], by rintro ⟨⟩⟩
        · exact .inl (h.other htask hg ((Function.update_of_ne hg ..).symm.trans hq))
      · obtain ⟨rfl, -⟩ := Task.mk.inj (Option.some.inj htask')
        exact h.missing _ _ _ htask
      · rintro q g ⟨-, p', ht⟩
        cases ht
  | @install p f htask =>
      refine ⟨fun q g hq ↦ .inl ?_, fun p' f' σ ht ↦ (by cases ht), ?_⟩
      · change Function.update s.map p (some f) q = some g
        by_cases hg : g = f
        · subst hg
          obtain rfl := Option.some.inj (hq.symm.trans (hi.recorded p g htask))
          exact Function.update_self ..
        · have hmap := h.other htask hg hq
          have hne : q ≠ p := by
            rintro rfl
            cases (h.missing _ _ _ htask).symm.trans hmap
          exact (Function.update_of_ne hne ..).trans hmap
      · rintro q g ⟨-, p', ht⟩
        cases ht
  | @free q f hidle hq =>
      refine ⟨fun q' g hq' ↦ .inl ?_, fun p' f' σ htask' ↦ (by cases hidle.symm.trans htask'), ?_⟩
      · have hg : g ≠ f := by
          rintro rfl
          cases (Function.update_self ..).symm.trans hq'
        have hmap := h.idle hidle ((Function.update_of_ne hg ..).symm.trans hq')
        change (if s.map q' = some f then none else s.map q') = some g
        rw [if_neg, hmap]
        rw [hmap]
        exact fun he ↦ hg (Option.some.inj he)
      · rintro q' g ⟨-, p', htask'⟩
        cases hidle.symm.trans htask'

/-- What the flat memory becomes. -/
def Action.flat (flat : π → δ) : Action π φ δ → π → δ
  | .write p d => Function.update flat p d
  | _ => flat

theorem Holds.step {live : π → Prop} {flat : π → δ} (h : Holds live flat s) (hi : Isolated s)
    (ha : Accurate s) (hstep : Step s a t) (hgood : a.Succeeds)
    (hfree : ∀ f, a = .free f → ∀ q, s.list f = some q → ¬ live q) :
    Holds live (a.flat flat) t := by
  -- no page leaves its frame at another stage
  have hstays : ∀ {p f σ q g}, s.task = some ⟨p, f, σ⟩ → σ ≠ .unmapped → ¬ s.Leaves q g := by
    rintro p f σ q g htask hσ ⟨-, p', htask'⟩
    obtain ⟨-, -, rfl⟩ := Task.mk.inj (Option.some.inj (htask.symm.trans htask'))
    exact hσ rfl
  have hidles : s.task = none → ∀ {q g}, ¬ s.Leaves q g := by
    rintro hidle q g ⟨-, p', htask'⟩
    cases hidle.symm.trans htask'
  cases hstep with
  | @write p f d hp =>
      have hram : ∀ g, g ≠ f → Function.update s.ram f d g = s.ram g := fun g hg ↦
        Function.update_of_ne hg ..
      have hflat : ∀ q, q ≠ p → Function.update flat p d q = flat q := fun q hq ↦
        Function.update_of_ne hq ..
      -- another page, in another frame
      have hother : ∀ q g, q ≠ p → g ≠ f → s.ram g = flat q →
          Function.update s.ram f d g = Function.update flat p d q := fun q g hq hg hsame ↦ by
        rw [hram g hg, hflat q hq, hsame]
      refine ⟨fun q g hq hmap ↦ ?_, fun q g hq hleaves ↦ ?_, fun q hq hmap hstay ↦ ?_,
        fun q g σ hq htask hσ ↦ ?_⟩
      · by_cases hg : g = f
        · subst hg
          obtain rfl := hi.alone hmap hp
          change Function.update s.ram g d g = Function.update flat q d q
          rw [Function.update_self, Function.update_self]
        · refine hother q g ?_ hg (h.mapped q g hq hmap)
          rintro rfl
          exact hg (Option.some.inj (hmap.symm.trans hp))
      · obtain ⟨hlist, p', htask⟩ := id hleaves
        have hg : g ≠ f := by
          rintro rfl
          exact hi.clear p' g _ htask (by rintro ⟨⟩) p hp
        refine hother q g ?_ hg (h.leaves q g hq hleaves)
        rintro rfl
        cases (ha.leaves q g hleaves).symm.trans hp
      · have hne : q ≠ p := by
          rintro rfl
          cases hmap.symm.trans hp
        exact (h.stored q hq hmap hstay).trans (hflat q hne).symm
      · have hne : q ≠ p := by
          rintro rfl
          cases (ha.missing _ _ _ htask).symm.trans hp
        have hg : g ≠ f := by
          rintro rfl
          refine hi.clear q g σ htask ?_ p hp
          rcases hσ with rfl | rfl <;> rintro ⟨⟩
        exact hother q g hne hg (h.loaded q g σ hq htask hσ)
  | @choose p f hidle hp =>
      refine ⟨h.mapped, fun q g hq hleaves ↦ ?_, fun q hq hmap _ ↦ ?_, fun q g σ hq htask hσ ↦ ?_⟩
      · obtain ⟨-, p', htask⟩ := hleaves
        obtain ⟨-, -, hσ⟩ := Task.mk.inj (Option.some.inj htask)
        split at hσ <;> cases hσ
      · exact h.stored q hq hmap fun f ↦ hidles hidle
      · obtain ⟨-, -, rfl⟩ := Task.mk.inj (Option.some.inj htask)
        split at hσ <;> rcases hσ with hσ | hσ <;> cases hσ
  | @unmap p q f htask hq =>
      have hmapped := ha.chosen htask hq
      refine ⟨fun q' g hlive hmap ↦ ?_, fun q' g hlive hleaves ↦ ?_, fun q' hlive hmap hstay ↦ ?_,
        fun q' g σ hlive htask' hσ ↦ ?_⟩
      · by_cases hne : q' = q
        · rw [hne] at hmap
          cases (Function.update_self ..).symm.trans hmap
        · exact h.mapped q' g hlive ((Function.update_of_ne hne ..).symm.trans hmap)
      · obtain ⟨hlist, p', htask'⟩ := hleaves
        obtain ⟨-, rfl, -⟩ := Task.mk.inj (Option.some.inj htask')
        obtain rfl := Option.some.inj (hlist.symm.trans hq)
        exact h.mapped q' f hlive hmapped
      · have hne : q' ≠ q := by
          rintro rfl
          exact hstay f ⟨hq, p, rfl⟩
        exact h.stored q' hlive ((Function.update_of_ne hne ..).symm.trans hmap) fun g ↦
          hstays htask (by rintro ⟨⟩)
      · obtain ⟨-, -, rfl⟩ := Task.mk.inj (Option.some.inj htask')
        rcases hσ with hσ | hσ <;> cases hσ
  | @save p q f ok htask hq =>
      obtain rfl : ok = true := hgood
      refine ⟨h.mapped, fun q' g hlive hleaves ↦ ?_, fun q' hlive hmap _ ↦ ?_,
        fun q' g σ hlive htask' hσ ↦ ?_⟩
      · obtain ⟨-, p', htask'⟩ := hleaves
        cases htask'
      · by_cases hne : q' = q
        · subst hne
          exact (Function.update_self ..).trans (h.leaves q' f hlive ⟨hq, p, htask⟩)
        · refine (Function.update_of_ne hne ..).trans (h.stored q' hlive hmap ?_)
          rintro g ⟨hlist, p', htask'⟩
          obtain ⟨-, rfl, -⟩ := Task.mk.inj (Option.some.inj (htask.symm.trans htask'))
          exact hne (Option.some.inj (hlist.symm.trans hq))
      · obtain ⟨-, -, rfl⟩ := Task.mk.inj (Option.some.inj htask')
        rcases hσ with hσ | hσ <;> cases hσ
  | @load p f ok htask =>
      obtain rfl : ok = true := hgood
      have hclear := hi.clear p f _ htask (by rintro ⟨⟩)
      have hstored : ∀ q, live q → s.map q = none → s.disk q = flat q := fun q hq hmap ↦
        h.stored q hq hmap fun g ↦ hstays htask (by rintro ⟨⟩)
      refine ⟨fun q g hq hmap ↦ ?_, fun q g hq hleaves ↦ ?_, fun q hq hmap _ ↦ hstored q hq hmap,
        fun q g σ hq htask' hσ ↦ ?_⟩
      · have hg : g ≠ f := by
          rintro rfl
          exact hclear q hmap
        exact (Function.update_of_ne hg ..).trans (h.mapped q g hq hmap)
      · obtain ⟨-, p', htask'⟩ := hleaves
        cases htask'
      · obtain ⟨rfl, rfl, -⟩ := Task.mk.inj (Option.some.inj htask')
        exact (Function.update_self ..).trans (hstored p hq (ha.missing _ _ _ htask))
  | @quit p f σ htask hσ =>
      refine ⟨h.mapped, fun q g hq hleaves ↦ ?_, fun q hq hmap _ ↦ ?_,
        fun q g σ' hq htask' ↦ by cases htask'⟩
      · obtain ⟨-, p', htask'⟩ := hleaves
        cases htask'
      · refine h.stored q hq hmap fun g ↦ hstays htask ?_
        rcases hσ with rfl | rfl <;> rintro ⟨⟩
  | @record p f htask =>
      refine ⟨h.mapped, fun q g hq hleaves ↦ ?_, fun q hq hmap _ ↦ ?_, fun q g σ hq htask' hσ ↦ ?_⟩
      · obtain ⟨-, p', htask'⟩ := hleaves
        cases htask'
      · exact h.stored q hq hmap fun g ↦ hstays htask (by rintro ⟨⟩)
      · obtain ⟨rfl, rfl, -⟩ := Task.mk.inj (Option.some.inj htask')
        exact h.loaded p f _ hq htask (.inl rfl)
  | @install p f htask =>
      refine ⟨fun q g hq hmap ↦ ?_, fun q g hq hleaves ↦ ?_, fun q hq hmap _ ↦ ?_,
        fun q g σ hq htask' ↦ by cases htask'⟩
      · change Function.update s.map p (some f) q = some g at hmap
        by_cases hne : q = p
        · subst hne
          rw [Function.update_self] at hmap
          obtain rfl := Option.some.inj hmap
          exact h.loaded q f _ hq htask (.inr rfl)
        · rw [Function.update_of_ne hne] at hmap
          exact h.mapped q g hq hmap
      · obtain ⟨-, p', htask'⟩ := hleaves
        cases htask'
      · change Function.update s.map p (some f) q = none at hmap
        have hne : q ≠ p := by
          rintro rfl
          rw [Function.update_self] at hmap
          cases hmap
        rw [Function.update_of_ne hne] at hmap
        exact h.stored q hq hmap fun g ↦ hstays htask (by rintro ⟨⟩)
  | @free q f hidle hq =>
      refine ⟨fun q' g hlive hmap ↦ ?_, fun q' g hlive hleaves ↦ ?_, fun q' hlive hmap _ ↦ ?_,
        fun q' g σ hlive htask ↦ by cases hidle.symm.trans htask⟩
      · exact h.mapped q' g hlive (Option.ite_none_left_eq_some.mp hmap).2
      · obtain ⟨-, p', htask'⟩ := hleaves
        cases hidle.symm.trans htask'
      · refine h.stored q' hlive ?_ fun g ↦ hidles hidle
        by_contra hne
        have hsome : s.map q' = some f := by
          by_contra hf
          exact hne ((if_neg hf).symm.trans hmap)
        exact hfree f rfl q' (hi.listed q' f hsome) hlive

end Pager
