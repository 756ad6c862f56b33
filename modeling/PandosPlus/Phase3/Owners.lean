import PandosPlus.Phase3.Shapes

/-!
# The support structures of the U-procs

Until it has given it back, each U-proc that is there has a support structure with its ASID
(`Owns`).  A step keeps it so, as long as `test` initialises no support structure that a
U-proc has.
-/

namespace PandosPlus.SupportLevel

variable {u m k : Nat} {cfg : PoolConfig m} {s t : System u m k} {p q : Actor u}
variable {a : Event u k} {c : Choice k} {i : Instr u m} {rest : List (Instr u m)} {j b : Fin u}

/-- A process that has been created and not killed. -/
def Phase.Alive (φ : Phase) : Prop := φ ≠ .unborn ∧ φ ≠ .dead

theorem Phase.Alive.ready : Phase.Alive .ready := ⟨nofun, nofun⟩

theorem Phase.Alive.asleep : Phase.Alive .asleep := ⟨nofun, nofun⟩

theorem Phase.Alive.waiting : Phase.Alive .waiting := ⟨nofun, nofun⟩

/-- The U-proc `j` is there and has not given back the support structure `b`. -/
structure Has (s : System u m k) (j b : Fin u) : Prop where
  alive : (s.proc (.uproc j)).phase.Alive
  stays : ¬ Leaving (s.proc (.uproc j)).code
  support : (s.proc (.uproc j)).p_supportStruct = some b

/-- The U-procs that are there have a support structure with their ASID. -/
structure Owns (s : System u m k) : Prop where
  test : (s.proc .test).p_supportStruct = none
  own : ∀ j, (s.proc (.uproc j)).phase.Alive → ¬ Leaving (s.proc (.uproc j)).code →
    ∃ b, (s.proc (.uproc j)).p_supportStruct = some b ∧ (s.mem.support_arr b).sup_asid = asidOf j

/-- The support structure that is being initialised is nobody's, and that which is given to
a new U-proc has its ASID. -/
structure Careful (s : System u m k) : Prop where
  initialised : ∀ p j b rest, (s.proc p).phase = .ready →
    (s.proc p).code = .initSupport j b :: rest → ∀ i, ¬ Has s i b
  given : ∀ p j b rest, (s.proc p).phase = .ready →
    (s.proc p).code = .createProcess j b :: rest → (s.mem.support_arr b).sup_asid = asidOf j

theorem Has.asid (h : Has s j b) (ho : Owns s) : (s.mem.support_arr b).sup_asid = asidOf j := by
  obtain ⟨b', hb', hasid⟩ := ho.own j h.alive h.stays
  rwa [Option.some.inj (h.support.symm.trans hb')]

/-- Nobody shares a support structure. -/
theorem Has.unique {i : Fin u} (h : Has s i b) (h' : Has s j b) (ho : Owns s) : i = j := by
  have heq := (h.asid ho).symm.trans (h'.asid ho)
  change (i : Int) + 1 = j + 1 at heq
  exact Fin.ext (by omega)

/-- What a process runs is not the end of a U-proc that has given its structure back. -/
theorem not_leaving_cons (hsem : i.sem? = none) (hterm : i ≠ .termProcess) :
    ¬ Leaving (i :: rest) := by
  rintro (h | h)
  · obtain ⟨rfl, -⟩ := List.cons.inj h
    cases hsem
  · obtain ⟨rfl, -⟩ := List.cons.inj h
    exact hterm rfl

/-- The support structure of a process that runs has its ASID. -/
theorem Owns.tagged (h : Owns s) (hready : (s.proc p).phase = .ready)
    (hcode : (s.proc p).code = i :: rest) (hsem : i.sem? = none) (hterm : i ≠ .termProcess)
    (hb : (s.proc p).p_supportStruct = some b) :
    ∃ j, p = .uproc j ∧ (s.mem.support_arr b).sup_asid = asidOf j := by
  cases p with
  | test => cases h.test.symm.trans hb
  | uproc j =>
      have hhas : Has s j b :=
        ⟨hready ▸ .ready, hcode ▸ not_leaving_cons hsem hterm, hb⟩
      exact ⟨j, rfl, hhas.asid h⟩

theorem Executed.support {id : Actor u} {r s' : Memory u m k} {v v' : Proc u m}
    (h : Executed cfg c id r v i rest s' v') : v'.p_supportStruct = v.p_supportStruct := by
  cases h with
  | expand hcalm hexp hv => exact hv.2.1
  | _ => rfl

/-- Only `_initSupportStructure` changes `sup_asid`. -/
theorem Executed.sup_asid {id : Actor u} {r s' : Memory u m k} {v v' : Proc u m}
    (h : Executed cfg c id r v i rest s' v') (hi : ∀ j, i ≠ .initSupport j b) :
    (s'.support_arr b).sup_asid = (r.support_arr b).sup_asid := by
  have htlb : ∀ (r : Memory u m k) e, (r.updateTLB e).support_arr = r.support_arr := fun r e ↦ by
    obtain ⟨tlb, he⟩ := updateTLB_eq r e
    rw [he]
  have hkeep : ∀ b' (f : SupportStruct → SupportStruct), (∀ x, (f x).sup_asid = x.sup_asid) →
      ((r.setSupport b' f).support_arr b).sup_asid = (r.support_arr b).sup_asid :=
    fun b' f hf ↦ setSupport_field (·.sup_asid) r b' hf b
  cases h with
  | expand hcalm hexp hv => exact hcalm.sup_asid b
  | pageFault j a hid hi a' => exact hkeep a' _ fun _ ↦ rfl
  | storePage f e hpte =>
      rw [htlb]
      exact hkeep e.1 _ fun _ ↦ rfl
  | mapPage e f =>
      rw [htlb]
      exact hkeep e.1 _ fun _ ↦ rfl
  | initSupport j b' =>
      have hne : b ≠ b' := by
        rintro rfl
        exact hi j rfl
      exact congrArg SupportStruct.sup_asid (setSupport_ne r hne fun x ↦
        { x with sup_asid := asidOf j })
  | initPageTable j b' w => exact hkeep b' _ fun _ ↦ rfl
  | _ => rfl

theorem SupStep.sup_asid (h : SupStep cfg s a t)
    (hb : ∀ p j rest, a.actor = some p → (s.proc p).phase = .ready →
      (s.proc p).code ≠ .initSupport j b :: rest) :
    (t.mem.support_arr b).sup_asid = (s.mem.support_arr b).sup_asid := by
  cases h.touches with
  | nothing h => rw [h]
  | calm h => exact h.sup_asid b
  | ran p c i rest ha hready hcode h =>
      refine h.sup_asid fun j hj ↦ hb p j rest (by rw [ha]; rfl) hready ?_
      rw [hcode, hj]
  | answered d status p rest ha hwaiting h =>
      obtain ⟨ram, flash, he⟩ := completed_eq s.mem status d
      rw [h, he]
      rfl
  | killed dies h => rw [h]; rfl

/-- A U-proc that is there and has not given its support structure back was there before
with the same one, or has been created. -/
theorem SupStep.stays (hstep : SupStep cfg s a t) (hp : Placed s) (hnew : Fresh s)
    (halive : (t.proc (.uproc j)).phase.Alive) (hstays : ¬ Leaving (t.proc (.uproc j)).code) :
    ((s.proc (.uproc j)).phase.Alive ∧ ¬ Leaving (s.proc (.uproc j)).code ∧
      (t.proc (.uproc j)).p_supportStruct = (s.proc (.uproc j)).p_supportStruct) ∨
    ∃ p b rest, a.actor = some p ∧ (s.proc p).phase = .ready ∧
      (s.proc p).code = .createProcess j b :: rest ∧
      (t.proc (.uproc j)).p_supportStruct = some b ∧ t.mem = s.mem := by
  cases hstep.goes hp hnew (.uproc j) with
  | still ha h =>
      rw [h] at halive hstays ⊢
      exact .inl ⟨halive, hstays, rfl⟩
  | blocked c i rest x ha hready hcode hi h =>
      rw [h] at hstays ⊢
      exact .inl ⟨hready ▸ .ready, hstays, rfl⟩
  | passed i rest x hphase hcode hi h =>
      rw [h] at hstays ⊢
      refine .inl ⟨?_, fun hl ↦ hstays ?_, rfl⟩
      · rcases hphase with ⟨hphase, -⟩ | ⟨hphase, -⟩
        · exact hphase ▸ .ready
        · exact hphase ▸ .asleep
      · rw [hcode] at hl
        rcases hl with hl | hl
        · exact .inr (List.cons.inj hl).2
        · obtain ⟨rfl, -⟩ := List.cons.inj hl
          cases hi
  | ran c i rest ha hready hcode h =>
      obtain ⟨hsem, hterm⟩ := h.not_sem
      exact .inl ⟨hready ▸ .ready, hcode ▸ not_leaving_cons hsem hterm, h.support⟩
  | left i j' hq hready hcode hcalm hi h =>
      rw [h]
      refine .inl ⟨hready ▸ .ready, ?_, rfl⟩
      rw [hcode]
      rintro (h | h) <;> cases h
  | answered d c rest status ha hwaiting hcode h =>
      rw [h]
      exact .inl ⟨hwaiting ▸ .waiting, hcode ▸ not_leaving_cons rfl nofun, rfl⟩
  | creates i b' rest ha hready hcode h =>
      rw [h]
      exact .inl ⟨hready ▸ .ready, hcode ▸ not_leaving_cons rfl nofun, rfl⟩
  | created i b p rest hq ha hready hcode hunborn hmem h =>
      obtain rfl := Actor.uproc.inj hq
      rw [h]
      exact .inr ⟨p, b, rest, ha, hready, hcode, rfl, hmem⟩
  | killed p i rest ha hready hcode hi hq h =>
      rw [h] at halive
      exact absurd rfl halive.2

/-- A U-proc that has a support structure had it before, or is created with it. -/
theorem Has.of_step (h : Has t j b) (hstep : SupStep cfg s a t) (hp : Placed s) (hnew : Fresh s) :
    Has s j b ∨ ∃ p rest, a.actor = some p ∧ (s.proc p).phase = .ready ∧
      (s.proc p).code = .createProcess j b :: rest := by
  rcases hstep.stays hp hnew h.alive h.stays with
    ⟨halive, hstays, hsame⟩ | ⟨p, b', rest, ha, hready, hcode, hsupport, -⟩
  · exact .inl ⟨halive, hstays, hsame.symm.trans h.support⟩
  · obtain rfl := Option.some.inj (hsupport.symm.trans h.support)
    exact .inr ⟨p, rest, ha, hready, hcode⟩

/-- A step keeps the support structures where they are. -/
theorem Owns.step (h : Owns s) (hp : Placed s) (hnew : Fresh s) (hcareful : Careful s)
    (hstep : SupStep cfg s a t) : Owns t := by
  constructor
  · cases hstep.goes hp hnew .test with
    | ran c i rest ha hready hcode h' => exact h'.support.trans h.test
    | left i j hq => cases hq
    | created i b p rest hq => cases hq
    | killed p i rest ha hready hcode hi hq h' =>
        rw [h']
        exact h.test
    | _ =>
        rename_i h'
        rw [h']
        exact h.test
  · intro j halive hstays
    rcases hstep.stays hp hnew halive hstays with
      ⟨halive, hstays, hsame⟩ | ⟨p, b, rest, -, hready, hcode, hsupport, hmem⟩
    · obtain ⟨b, hb, hasid⟩ := h.own j halive hstays
      refine ⟨b, hsame.trans hb, ?_⟩
      rw [hstep.sup_asid fun p j' rest _ hready hcode ↦
        hcareful.initialised p j' b rest hready hcode j ⟨halive, hstays, hb⟩]
      exact hasid
    · refine ⟨b, hsupport, ?_⟩
      rw [hmem]
      exact hcareful.given p j b rest hready hcode

/-- A step keeps the code of the U-procs in shape. -/
theorem Shapes.step (h : Shapes s) (ho : Owns s) (hp : Placed s) (hnew : Fresh s)
    (hstep : SupStep cfg s a t) : Shapes t := by
  intro j hdead
  cases hstep.goes hp hnew (.uproc j) with
  | still ha h' =>
      rw [h'] at hdead ⊢
      exact h j hdead
  | blocked c i rest x ha hready hcode hi h' =>
      rw [h']
      exact h j (by rw [hready]; exact nofun)
  | passed i rest x hphase hcode hi h' =>
      have hall := h j (by rcases hphase with ⟨h, -⟩ | ⟨h, -⟩ <;> rw [h] <;> exact nofun)
      rw [hcode] at hall
      rw [h']
      exact shaped_of_sem hall hi
  | ran c i rest ha hready hcode h' =>
      have hall := h j (by rw [hready]; exact nofun)
      rw [hcode] at hall
      refine h'.shaped hcode (fun hi b hb ↦ ?_) hall
      obtain ⟨j', he, hasid⟩ := ho.tagged hready hcode (by rw [hi]; rfl) (by rw [hi]; exact nofun) hb
      rwa [Actor.uproc.inj he]
  | left i j' hq hready hcode hcalm hi h' =>
      rw [h']
      refine .inl (.cons ?_ .nil)
      rcases hi with ⟨b, rfl⟩ | ⟨b, w, rfl⟩ | rfl <;> exact trivial
  | answered d c rest status ha hwaiting hcode h' =>
      have hall := h j (by rw [hwaiting]; exact nofun)
      rw [hcode] at hall
      rw [h']
      rcases hall with hall | hall
      · exact .inl hall.tail
      · rcases hall.head with h | h | h | h
        · exact absurd rfl h
        · cases h
        · cases h
        · cases h
  | creates i b rest ha hready hcode h' =>
      have hall := h j (by rw [hready]; exact nofun)
      rw [hcode] at hall
      rcases hall with hall | hall
      · exact absurd hall.head id
      · rcases hall.head with h | h | h | h
        · exact absurd rfl h
        · cases h
        · cases h
        · cases h
  | created i b p rest hq ha hready hcode hunborn hmem h' =>
      rw [h']
      exact .inl .nil
  | killed p i rest ha hready hcode hi hq h' =>
      rw [h'] at hdead
      exact absurd rfl hdead

end PandosPlus.SupportLevel
