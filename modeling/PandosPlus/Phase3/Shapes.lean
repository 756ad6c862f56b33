import PandosPlus.Phase3.Blocked

/-!
# The end of a U-proc

What a U-proc has still to do is either work, which never frees a frame or signals anything,
or what is left of `_terminate`: the frames are freed, the support structure is given back,
the signal is sent and the process terminates, each once and in this order (`Ending`).
-/

namespace PandosPlus.SupportLevel

variable {u m k : Nat} {cfg : PoolConfig m} {s t : System u m k} {p q : Actor u} {x y : SemId}
variable {a : Event u k} {c : Choice k} {i : Instr u m} {code rest : List (Instr u m)}
variable {asid : Int} {j : Fin u}

/-- The instructions of a U-proc that is not at its end. -/
def Instr.Working : Instr u m → Prop
  | .passeren x | .verhogen x | .release x => x ≠ .master
  | .freeFrame _ _ | .deallocate | .listAdd _ _ | .termProcess => False
  | .allocate _ | .listDel _ _ | .initSupport _ _ | .initPageTable _ _ _ | .createProcess _ _ => False
  | _ => True

/-- The code of a U-proc that is not at its end. -/
def Working (code : List (Instr u m)) : Prop := ∀ i ∈ code, i.Working

/-- The code of a U-proc at its end. -/
inductive Ending (asid : Int) : List (Instr u m) → Prop
  | freeing {pre : List (Instr u m)} (h : pre <:+ freeFrames asid) :
      Ending asid (pre ++ [.deallocate, .verhogen .master, .termProcess])
  | returning (b : Fin u) (next : Option (Fin u)) :
      Ending asid [.listAdd b next, .verhogen .master, .termProcess]
  | signalling : Ending asid [.verhogen .master, .termProcess]
  | ended : Ending asid [.termProcess]

/-- A U-proc that has given its support structure back. -/
def Leaving (code : List (Instr u m)) : Prop :=
  code = [.verhogen .master, .termProcess] ∨ code = [.termProcess]

/-- What each U-proc has still to do. -/
def Shapes (s : System u m k) : Prop := ∀ j, (s.proc (.uproc j)).phase ≠ .dead →
  Working (s.proc (.uproc j)).code ∨ Ending (asidOf j) (s.proc (.uproc j)).code

/-! ## Work -/

theorem Working.nil : Working ([] : List (Instr u m)) := fun _ h ↦ absurd h List.not_mem_nil

theorem Working.cons (hi : i.Working) (h : Working rest) : Working (i :: rest) :=
  List.forall_mem_cons.mpr ⟨hi, h⟩

theorem Working.head (h : Working (i :: rest)) : i.Working := h i List.mem_cons_self

theorem Working.tail (h : Working (i :: rest)) : Working rest := (List.forall_mem_cons.mp h).2

theorem Working.append (h : Working code) (h' : Working rest) : Working (code ++ rest) :=
  List.forall_mem_append.mpr ⟨h, h'⟩

theorem Working.P (hy : y ≠ .master) (h : Working rest) : Working (P y asid ++ rest) :=
  .cons hy (.cons trivial h)

theorem Working.V (hy : y ≠ .master) (h : Working rest) : Working (V y ++ rest) :=
  .cons trivial (.cons hy h)

theorem Working.trap : Working (trapExceptionHandler : List (Instr u m)) := by
  refine .append (fun i hi ↦ ?_) (.cons nofun (.cons trivial .nil))
  obtain ⟨j, -, hi⟩ := List.mem_flatMap.mp hi
  rcases List.mem_pair.mp hi with rfl | rfl <;> exact nofun

theorem Working.backingStoreOperation {operation_command : Word} {page_num : Nat}
    {frame_address : Word} (h : Working rest) :
    Working (backingStoreOperation operation_command asid page_num frame_address ++ rest) :=
  .cons trivial (.cons trivial (.cons trivial h))

theorem port_sem_ne_master {port : Port} : port.sem asid ≠ .master := by cases port <;> exact nofun

theorem CallCode.working (h : CallCode asid code) : Working code := by
  cases h with
  | getTOD => exact .cons trivial .nil
  | terminate => exact .cons trivial .nil
  | writePort port string length =>
      unfold SupportLevel.writePort
      split
      · exact .cons trivial .nil
      · exact .P port_sem_ne_master (.cons trivial (.cons trivial .nil))
  | readTerminal buffer =>
      unfold SupportLevel.readTerminal
      split
      · exact .cons trivial .nil
      · exact .P nofun (.cons trivial (.cons trivial .nil))
  | trap => exact .trap

/-- An instruction of a working U-proc is replaced by work, or by its end. -/
theorem Expands.working {r : Memory u m k} {v : Proc u m} (h : Expands cfg r v i rest code)
    (hall : Working (i :: rest)) : Working code ∨
      i = .terminate ∧ ∃ b, v.p_supportStruct = some b ∧
        code = SupportLevel.terminate (r.support_arr b).sup_asid := by
  have hrest := hall.tail
  have hhead := hall.head
  cases h with
  | call b hsupport h => exact .inl h.working
  | trap hi => exact .inl .trap
  | held y b hsupport huser => exact .inl (.V hhead hrest)
  | notHeld y b hsupport huser => exact .inl hrest
  | terminate b hsupport => exact .inr ⟨rfl, b, hsupport, rfl⟩
  | written port asid string sent => exact .inl (.V port_sem_ne_master (.cons trivial hrest))
  | write port asid string left sent =>
      exact .inl (.cons trivial (.cons trivial (.cons trivial hrest)))
  | print asid w => exact .inl (.cons trivial (.cons trivial hrest))
  | transmit asid w => exact .inl (.cons trivial hrest)
  | writeFailed port asid string left sent w =>
      exact .inl (.cons trivial (.V port_sem_ne_master (.cons trivial hrest)))
  | sent port asid string left sent => exact .inl (.cons trivial hrest)
  | receive asid buffer received => exact .inl (.cons trivial (.cons trivial hrest))
  | readFailed asid buffer received w => exact .inl (.cons trivial (.V nofun (.cons trivial hrest)))
  | received asid buffer received read => exact .inl (.cons trivial (.cons trivial hrest))
  | newline asid buffer received read => exact .inl (.V nofun (.cons trivial hrest))
  | readOn asid buffer received read => exact .inl (.cons trivial hrest)
  | done hi => exact .inl hrest
  | invalid b hsupport hcause =>
      refine .inl ?_
      rw [TLBInvalidHandler, List.append_assoc]
      exact .P nofun (.cons trivial hrest)
  | frame b hsupport page_index hslot =>
      refine .inl (.append (.append ?_ (.cons trivial (.V nofun .nil))) (.cons trivial hrest))
      split
      · exact .nil
      · exact .cons trivial (.cons trivial .nil)
  | writePage f => exact .inl (.backingStoreOperation hrest)
  | readPage e f => exact .inl (.backingStoreOperation (.cons trivial (.cons trivial hrest)))
  | deallocate b hsupport => exact absurd hhead id
  | allocate j b hhead' => exact absurd hhead id

/-! ## The end -/

theorem Ending.terminate : Ending asid (terminate asid : List (Instr u m)) := by
  rw [SupportLevel.terminate, List.append_assoc]
  exact .freeing (List.suffix_refl _)

/-- The instructions of the end come one after the other. -/
theorem Ending.cons (h : Ending asid (i :: rest)) :
    (∃ pre, i :: pre <:+ freeFrames asid ∧
      rest = pre ++ [.deallocate, .verhogen .master, .termProcess]) ∨
    i = .deallocate ∧ rest = [.verhogen .master, .termProcess] ∨
    (∃ b next, i = .listAdd b next ∧ rest = [.verhogen .master, .termProcess]) ∨
    i = .verhogen .master ∧ rest = [.termProcess] ∨ i = .termProcess ∧ rest = [] := by
  generalize hcode : i :: rest = code at h
  cases h with
  | @freeing pre h =>
      cases pre with
      | nil =>
          obtain ⟨rfl, rfl⟩ := List.cons.inj hcode
          exact .inr (.inl ⟨rfl, rfl⟩)
      | cons i' pre =>
          obtain ⟨rfl, rfl⟩ := List.cons.inj hcode
          exact .inl ⟨pre, h, rfl⟩
  | returning b next =>
      obtain ⟨rfl, rfl⟩ := List.cons.inj hcode
      exact .inr (.inr (.inl ⟨b, next, rfl, rfl⟩))
  | signalling =>
      obtain ⟨rfl, rfl⟩ := List.cons.inj hcode
      exact .inr (.inr (.inr (.inl ⟨rfl, rfl⟩)))
  | ended =>
      obtain ⟨rfl, rfl⟩ := List.cons.inj hcode
      exact .inr (.inr (.inr (.inr ⟨rfl, rfl⟩)))

theorem mem_freeFrames (h : i ∈ (freeFrames asid : List (Instr u m))) :
    i = .passeren .swapPool ∨ (∃ n, i = .setUser .swapPool n) ∨ (∃ f, i = .freeFrame asid f) ∨
      i = .verhogen .swapPool := by
  rw [freeFrames, List.mem_append, List.mem_append] at h
  rcases h with (h | h) | h
  · rcases List.mem_pair.mp h with rfl | rfl
    · exact .inl rfl
    · exact .inr (.inl ⟨_, rfl⟩)
  · obtain ⟨f, -, rfl⟩ := List.mem_map.mp h
    exact .inr (.inr (.inl ⟨f, rfl⟩))
  · rcases List.mem_pair.mp h with rfl | rfl
    · exact .inr (.inl ⟨_, rfl⟩)
    · exact .inr (.inr (.inr rfl))

/-- An instruction that neither expands nor traps. -/
def Instr.Plain : Instr u m → Prop
  | .setUser _ _ | .freeFrame _ _ | .listAdd _ _ | .storePage _ | .recordFrame _ _ _ _ |
      .mapPage _ _ => True
  | _ => False

theorem Executed.code_of_plain {id : Actor u} {r s' : Memory u m k} {v v' : Proc u m}
    (h : Executed cfg c id r v i rest s' v') (hi : i.Plain) : v'.code = rest := by
  cases h with
  | expand hcalm hexp hv =>
      rw [hv.2.2]
      cases hexp with
      | trap h => rcases h with rfl | rfl | rfl | ⟨b, rfl⟩ | ⟨b, w, rfl⟩ <;> cases hi
      | done h => rfl
      | _ => cases hi
  | refill j b hid h => rcases h with rfl | ⟨w, rfl⟩ <;> cases hi
  | pageFault j b hid h => rcases h with rfl | ⟨w, rfl⟩ <;> cases hi
  | _ => first | rfl | cases hi

theorem Executed.not_sem {id : Actor u} {r s' : Memory u m k} {v v' : Proc u m}
    (h : Executed cfg c id r v i rest s' v') : i.sem? = none ∧ i ≠ .termProcess := by
  cases h with
  | expand hcalm hexp hv =>
      cases hexp with
      | trap h => rcases h with rfl | rfl | rfl | ⟨b, rfl⟩ | ⟨b, w, rfl⟩ <;> exact ⟨rfl, nofun⟩
      | done h =>
          rcases h with ⟨w, rfl⟩ | ⟨j, rfl⟩ | ⟨rfl, -⟩ | ⟨n, f, rfl, -⟩ <;> exact ⟨rfl, nofun⟩
      | _ => exact ⟨rfl, nofun⟩
  | refill j b hid h => rcases h with rfl | ⟨w, rfl⟩ <;> exact ⟨rfl, nofun⟩
  | pageFault j b hid h => rcases h with rfl | ⟨w, rfl⟩ <;> exact ⟨rfl, nofun⟩
  | _ => exact ⟨rfl, nofun⟩

theorem Executed.code_of_deallocate {id : Actor u} {r s' : Memory u m k} {v v' : Proc u m}
    (h : Executed cfg c id r v .deallocate rest s' v') :
    ∃ b, v.p_supportStruct = some b ∧ v'.phase = v.phase ∧
      v'.code = .listAdd b (r.next none) :: rest := by
  cases h with
  | expand hcalm hexp hv =>
      cases hexp with
      | deallocate b hsupport => exact ⟨b, hsupport, hv.1, hv.2.2⟩
      | trap h => rcases h with h | h | h | ⟨b, h⟩ | ⟨b, w, h⟩ <;> cases h
      | done h => rcases h with ⟨w, h⟩ | ⟨j, h⟩ | ⟨h, -⟩ | ⟨n, f, h, -⟩ <;> cases h
  | refill j b hid h => rcases h with h | ⟨w, h⟩ <;> cases h
  | pageFault j b hid h => rcases h with h | ⟨w, h⟩ <;> cases h

/-- The end has no other instructions. -/
theorem Ending.head (h : Ending asid (i :: rest)) :
    i.sem? ≠ none ∨ i.Plain ∨ i = .deallocate ∨ i = .termProcess := by
  rcases h.cons with ⟨pre, hpre, -⟩ | ⟨rfl, -⟩ | ⟨b, next, rfl, -⟩ | ⟨rfl, -⟩ | ⟨rfl, -⟩
  · rcases mem_freeFrames (hpre.subset List.mem_cons_self) with rfl | ⟨n, rfl⟩ | ⟨f, rfl⟩ | rfl
    · exact .inl nofun
    · exact .inr (.inl trivial)
    · exact .inr (.inl trivial)
    · exact .inl nofun
  · exact .inr (.inr (.inl rfl))
  · exact .inr (.inl trivial)
  · exact .inl nofun
  · exact .inr (.inr (.inr rfl))

/-- A working U-proc goes on working, or comes to its end. -/
theorem Executed.working {r s' : Memory u m k} {v v' : Proc u m}
    (h : Executed cfg c (.uproc j) r v i rest s' v') (hcode : v.code = i :: rest)
    (hown : i = .terminate → ∀ b, v.p_supportStruct = some b →
      (r.support_arr b).sup_asid = asidOf j)
    (hall : Working (i :: rest)) :
    Working v'.code ∨ i = .terminate ∧ v'.code = SupportLevel.terminate (asidOf j) := by
  have hrest := hall.tail
  have hhead := hall.head
  cases h with
  | expand hcalm hexp hv =>
      rw [hv.2.2]
      rcases hexp.working hall with hw | ⟨rfl, b, hb, rfl⟩
      · exact .inl hw
      · rw [hown rfl b hb]
        exact .inr ⟨rfl, rfl⟩
  | refill => exact .inl hall
  | pageFault => exact .inl (.cons trivial hall)
  | doIo d w =>
      change Working v.code ∨ _
      rw [hcode]
      exact .inl hall
  | freeFrame => exact absurd hhead id
  | listAdd => exact absurd hhead id
  | listDel => exact absurd hhead id
  | initSupport => exact absurd hhead id
  | initPageTable => exact absurd hhead id
  | _ => exact .inl hrest

/-- A U-proc at its end does the next thing there. -/
theorem Executed.ending {id : Actor u} {r s' : Memory u m k} {v v' : Proc u m}
    (h : Executed cfg c id r v i rest s' v') (hall : Ending asid (i :: rest)) :
    (i = .deallocate ∧ ∃ b, v.p_supportStruct = some b ∧ v'.phase = v.phase ∧
      v'.code = [.listAdd b (r.next none), .verhogen .master, .termProcess]) ∨
    i.Plain ∧ v'.code = rest := by
  obtain ⟨hsem, hterm⟩ := h.not_sem
  rcases hall.cons with ⟨pre, hpre, rfl⟩ | ⟨rfl, rfl⟩ | ⟨b, next, rfl, rfl⟩ | ⟨rfl, -⟩ | ⟨rfl, -⟩
  · rcases mem_freeFrames (hpre.subset List.mem_cons_self) with rfl | ⟨n, rfl⟩ | ⟨f, rfl⟩ | rfl
    · cases hsem
    · exact .inr ⟨trivial, h.code_of_plain trivial⟩
    · exact .inr ⟨trivial, h.code_of_plain trivial⟩
    · cases hsem
  · exact .inl ⟨rfl, h.code_of_deallocate⟩
  · exact .inr ⟨trivial, h.code_of_plain trivial⟩
  · cases hsem
  · exact absurd rfl hterm

theorem Ending.tail (h : Ending asid (i :: rest)) (hi : i.Plain ∨ i.sem? ≠ none) :
    Ending asid rest := by
  rcases h.cons with ⟨pre, hpre, rfl⟩ | ⟨rfl, -⟩ | ⟨b, next, rfl, rfl⟩ | ⟨-, rfl⟩ | ⟨rfl, -⟩
  · exact .freeing ((List.suffix_cons _ _).trans hpre)
  · rcases hi with h | h
    · cases h
    · exact absurd rfl h
  · exact .signalling
  · exact .ended
  · rcases hi with h | h
    · cases h
    · exact absurd rfl h

/-- The support structure is added to the free list by what the return of it is replaced with. -/
theorem Ending.tail_ne_listAdd {b : Fin u} {next : Option (Fin u)} {rest' : List (Instr u m)}
    (h : Ending asid (i :: rest)) : rest ≠ .listAdd b next :: rest' := by
  intro hrest
  rcases h.cons with ⟨pre, hpre, rfl⟩ | ⟨-, rfl⟩ | ⟨b, next, -, rfl⟩ | ⟨-, rfl⟩ | ⟨-, rfl⟩
  · cases pre with
    | nil => cases (List.cons.inj hrest).1
    | cons i' pre =>
        obtain ⟨rfl, -⟩ := List.cons.inj hrest
        have hmem := hpre.subset (List.mem_cons_of_mem _ List.mem_cons_self)
        rcases mem_freeFrames hmem with h | ⟨n, h⟩ | ⟨f, h⟩ | h <;> cases h
  · cases (List.cons.inj hrest).1
  · cases (List.cons.inj hrest).1
  · cases (List.cons.inj hrest).1
  · cases hrest

/-- What an instruction of a U-proc leaves is in shape. -/
theorem Executed.shaped {r s' : Memory u m k} {v v' : Proc u m}
    (h : Executed cfg c (.uproc j) r v i rest s' v') (hcode : v.code = i :: rest)
    (hown : i = .terminate → ∀ b, v.p_supportStruct = some b →
      (r.support_arr b).sup_asid = asidOf j)
    (hall : Working (i :: rest) ∨ Ending (asidOf j) (i :: rest)) :
    Working v'.code ∨ Ending (asidOf j) v'.code := by
  rcases hall with hall | hall
  · refine (h.working hcode hown hall).imp_right ?_
    rintro ⟨-, he⟩
    rw [he]
    exact .terminate
  · right
    rcases h.ending hall with ⟨rfl, b, -, -, hb⟩ | ⟨hi, hrest⟩
    · rw [hb]
      exact .returning b _
    · rw [hrest]
      exact hall.tail (.inl hi)

/-- After a call of PASSEREN or VERHOGEN the rest of the code is in shape. -/
theorem shaped_of_sem (h : Working (i :: rest) ∨ Ending asid (i :: rest)) (hi : i.sem? = some x) :
    Working rest ∨ Ending asid rest := by
  refine h.imp Working.tail fun h ↦ h.tail (.inr ?_)
  rw [hi]
  exact nofun

end PandosPlus.SupportLevel
