import PandosPlus.Phase3.Runs
import PandosPlus.Phase3.Steps

/-!
# The transfers of a system call

WRITEPRINTER, WRITETERMINAL and READTERMINAL, as the process that calls them goes through
them.  Its instructions are those of the support level; what they meet outside it is put
together in a `Call`: the P and V of a lock return, an access to the memory of the process is
served, and the operations it starts end with the statuses `answer 0`, `answer 1`, ...

The routine ends with two writes to the register of the result: where an operation has failed
the negated status is put there, and then overwritten with the number of characters.
-/

namespace PandosPlus.SupportLevel

variable {u m k : Nat}

/-- A process in a system call, with what it meets there. -/
structure Call (u m k : Nat) where
  mem : Memory u m k
  proc : Proc u m
  /-- The semaphores it holds. -/
  held : List SemId
  /-- Its memory as it sees it. -/
  page : Word → BitVec 8
  /-- The operations it has started, with the character each gives to its device. -/
  started : List (Dev × BitVec 8)

/-- The character a device is given by a command: a printer has it in `data0`. -/
def Memory.given (s : Memory u m k) (command : Word) : Dev → BitVec 8
  | .printer i => (s.dev (.printer i)).data0.setWidth 8
  | _ => (command >>> 8).setWidth 8

variable (cfg : PoolConfig m) (answer : Nat → Word) (id : Actor u) (c : Choice k)

/-- The process goes on. -/
def Call.next (x : Call u m k) : Option (Call u m k) :=
  match x.proc.code with
  | [] => none
  | .passeren y :: rest => some { x with held := y :: x.held, proc := x.proc.goto rest }
  | .verhogen y :: rest => some { x with held := x.held.erase y, proc := x.proc.goto rest }
  | .load a :: rest => some { x with proc := { x.proc with char := x.page a, code := rest } }
  | .store a v :: rest =>
      some { x with page := Function.update x.page a v, proc := x.proc.goto rest }
  | .doIo d command :: rest =>
      some { x with
        mem := x.mem.setDev d fun r ↦ { r with command := command }
        started := x.started ++ [(d, x.mem.given command d)]
        proc := { x.proc with status := answer x.started.length, code := rest } }
  | i :: rest =>
      match exec cfg c id x.mem x.proc i rest with
      | .ok mem v => some { x with mem := mem, proc := v }
      | _ => none

/-- The process comes from `x` to `y`. -/
def Comes : Call u m k → Call u m k → Prop :=
  Relation.ReflTransGen fun x y ↦ x.next cfg answer id c = some y

/-- The state that the support structure `b` keeps for the system call. -/
def Call.saved (x : Call u m k) (b : Fin u) : State :=
  (x.mem.support_arr b).sup_exceptState GENERALEXCEPT

/-- The register of the result in the state that the support structure `b` keeps. -/
def Call.v0 (x : Call u m k) (b : Fin u) : Word := (x.saved b).reg_v0

/-- The ASID of the caller. -/
def Call.asid (x : Call u m k) (b : Fin u) : Int := (x.mem.support_arr b).sup_asid

/-- The number of the system call that writes to a port. -/
def Port.number : Port → Int
  | .printer => WRITEPRINTER
  | .terminal => WRITETERMINAL

/-- The device that a port writes to. -/
def Port.dev (asid : Int) : Port → Dev
  | .printer => .printer (DEVICE_OF asid)
  | .terminal => .transm (DEVICE_OF asid)

/-- The process has made a system call, with the state in the support structure `b`. -/
structure Call.Begins (x : Call u m k) (b : Fin u) (number : Int) : Prop where
  code : x.proc.code = [.generalException]
  support : x.proc.p_supportStruct = some b
  cause : excCode (x.saved b).cause = 8
  number : (x.saved b).reg_a0.toInt = number
  started : x.started = []

/-- The call is over: the process is in user mode again, and has given the semaphore back. -/
structure Returns (x : Call u m k) (s : SemId) (y : Call u m k) : Prop where
  comes : Comes cfg answer id c x y
  code : y.proc.code = []
  held : y.held = x.held
  user : y.mem.user_asid s = NOPROC

/-- The characters of a string. -/
def chars (page : Word → BitVec 8) (string : Word) (n : Nat) : List (BitVec 8) :=
  (List.range n).map fun j ↦ page (string + BitVec.ofNat 32 j)

/-- Characters are stored one after the other from `buffer` on. -/
def stored (page : Word → BitVec 8) (buffer : Word) (char : Nat → BitVec 8) :
    Nat → Word → BitVec 8
  | 0 => page
  | n + 1 => Function.update (stored page buffer char n) (buffer + BitVec.ofNat 32 n) (char n)

/-- The character of a status of the receiver. -/
def received (status : Word) : BitVec 8 := (status >>> 8).setWidth 8

variable {cfg answer id c} {x y z : Call u m k} {b : Fin u} {asid : Int} {port : Port}
variable {rest : List (Instr u m)} {string buffer : Word} {n left : Nat} {s : SemId}

/-! ## The steps of a call -/

/-- The processor finds the page of the address `a` in the TLB, in the frame `frame`. -/
def Served (r : Memory u m k) (j : Fin u) (a : Word) (writes : Prop) (frame : Word) : Prop :=
  slotOf a ≠ none ∧ ∃ e, r.tlbHit (entryHi (a >>> 12) (asidOf j)) = some e ∧
    e.pte_entryLO &&& VALIDON ≠ 0 ∧ (writes → e.pte_entryLO &&& ENTRYLO_DIRTY ≠ 0) ∧
    frame = e.pte_entryLO &&& ENTRYLO_PFN_MASK

/-- What a process of the system does, it does in its call: an access is served with what is
in the frame of the page, and any other instruction but a DOIO is carried out as it is. -/
theorem exec_next {i : Instr u m} {mem : Memory u m k} {v : Proc u m} {j : Fin u}
    (hcode : x.proc.code = i :: rest)
    (hexec : exec cfg c (.uproc j) x.mem x.proc i rest = .ok mem v)
    (hload : ∀ a, i = .load a → ∃ frame, Served x.mem j a False frame ∧
      x.page a = x.mem.ram frame (pageOffset a))
    (hstore : ∀ a w, i = .store a w → ∃ frame, Served x.mem j a True frame)
    (hio : ∀ d w, i ≠ .doIo d w) :
    ∃ y, x.next cfg answer (.uproc j) c = some y ∧ y.proc = v ∧
      ((∃ a w, i = .store a w) ∨ y.mem = mem) := by
  cases i with
  | passeren y => cases hexec
  | verhogen y => cases hexec
  | doIo d w => exact absurd rfl (hio d w)
  | load a =>
      obtain ⟨frame, ⟨hslot, e, hhit, hvalid, -, rfl⟩, hpage⟩ := hload a rfl
      obtain ⟨slot, hslot⟩ := Option.ne_none_iff_exists'.mp hslot
      simp only [exec, hslot, access, hhit, if_neg hvalid, Bool.false_eq_true, false_and,
        if_false] at hexec
      obtain ⟨rfl, rfl⟩ := Outcome.ok.inj hexec
      refine ⟨{ x with proc := { x.proc with char := x.page a, code := rest } },
        by rw [Call.next, hcode], ?_, .inr rfl⟩
      rw [hpage]
  | store a w =>
      obtain ⟨frame, ⟨hslot, e, hhit, hvalid, hdirty, rfl⟩⟩ := hstore a w rfl
      obtain ⟨slot, hslot⟩ := Option.ne_none_iff_exists'.mp hslot
      simp only [exec, hslot, access, hhit, if_neg hvalid, true_and, if_neg (hdirty trivial)]
        at hexec
      obtain ⟨rfl, rfl⟩ := Outcome.ok.inj hexec
      exact ⟨{ x with page := Function.update x.page a w, proc := x.proc.goto rest },
        by rw [Call.next, hcode], rfl, .inl ⟨a, w, rfl⟩⟩
  | _ =>
      refine ⟨{ x with mem := mem, proc := v }, ?_, rfl, .inr rfl⟩
      simp only [Call.next, hcode, hexec]

theorem Comes.trans (h : Comes cfg answer id c x y) (h' : Comes cfg answer id c y z) :
    Comes cfg answer id c x z := Relation.ReflTransGen.trans h h'

theorem Comes.head (h : x.next cfg answer id c = some y) (h' : Comes cfg answer id c y z) :
    Comes cfg answer id c x z := Relation.ReflTransGen.head h h'

theorem Comes.refl : Comes cfg answer id c x x := Relation.ReflTransGen.refl

/-- Only the device and the code have changed. -/
structure Call.Like (x y : Call u m k) : Prop where
  held : y.held = x.held
  support : y.proc.p_supportStruct = x.proc.p_supportStruct

theorem Call.Like.trans (h : x.Like y) (h' : y.Like z) : x.Like z :=
  ⟨h'.held.trans h.held, h'.support.trans h.support⟩

theorem printed (ch : BitVec 8) : (ch.signExtend 32).setWidth 8 = ch := by
  revert ch
  decide +kernel

theorem transmitted (ch : BitVec 8) :
    ((TERMINALWRITE + (ch.signExtend 32 <<< 8)) >>> 8).setWidth 8 = ch := by
  revert ch
  decide +kernel

/-- The result is written to the saved state. -/
def SupportStruct.setV0 (v : Word) (a : SupportStruct) : SupportStruct :=
  { a with
    sup_exceptState := Function.update a.sup_exceptState GENERALEXCEPT
      { a.sup_exceptState GENERALEXCEPT with reg_v0 := v } }

theorem SupportStruct.setV0_v0 (v : Word) (a : SupportStruct) :
    ((a.setV0 v).sup_exceptState GENERALEXCEPT).reg_v0 = v := by
  simp only [SupportStruct.setV0, Function.update_self]

/-- The lock of `s` has been given back and the result `v` written. -/
structure Call.Gives (x y : Call u m k) (b : Fin u) (s : SemId) (v : Word)
    (rest : List (Instr u m)) : Prop where
  code : y.proc.code = rest
  v0 : y.v0 b = v
  page : y.page = x.page
  started : y.started = x.started
  held : y.held = x.held.erase s
  user : y.mem.user_asid s = NOPROC

theorem Call.Gives.of_goto {v : Proc u m} {w : Word}
    (h : ({ x with proc := v } : Call u m k).Gives y b s w rest) : x.Gives y b s w rest :=
  ⟨h.code, h.v0, h.page, h.started, h.held, h.user⟩

variable (cfg answer id c)

/-- The result is written over what was there before. -/
theorem comes_result {v : Word} (hcode : x.proc.code = V s ++ .sysReturn v :: rest)
    (hb : x.proc.p_supportStruct = some b) :
    ∃ y, Comes cfg answer id c x y ∧ x.Gives y b s v rest := by
  obtain ⟨mem, ⟨phase, code, sup, status, ch⟩, held, page, started⟩ := x
  obtain rfl := hcode
  obtain rfl := hb
  let mem' := { mem with user_asid := Function.update mem.user_asid s NOPROC }
  let y : Call u m k := ⟨mem'.setSupport b (.setV0 v), ⟨phase, rest, some b, status, ch⟩,
    held.erase s, page, started⟩
  refine ⟨y, .head rfl (.head rfl (.head rfl .refl)), rfl, ?_, rfl, rfl, rfl,
    Function.update_self ..⟩
  change (((mem'.setSupport b (.setV0 v)).support_arr b).sup_exceptState GENERALEXCEPT).reg_v0 = v
  rw [setSupport_self, SupportStruct.setV0_v0]

/-- A result that is written first is lost. -/
theorem comes_failure {v w : Word}
    (hcode : x.proc.code = .sysReturn w :: V s ++ .sysReturn v :: rest)
    (hb : x.proc.p_supportStruct = some b) :
    ∃ y, Comes cfg answer id c x y ∧ x.Gives y b s v rest := by
  obtain ⟨mem, ⟨phase, code, sup, status, ch⟩, held, page, started⟩ := x
  obtain rfl := hcode
  obtain rfl := hb
  let x' : Call u m k := ⟨mem.setSupport b (.setV0 w),
    ⟨phase, V s ++ .sysReturn v :: rest, some b, status, ch⟩, held, page, started⟩
  obtain ⟨y, hy, hcode, hv, hpage, hstarted, hheld, huser⟩ :=
    comes_result cfg answer id c (x := x') rfl rfl
  exact ⟨y, .head rfl hy, hcode, hv, hpage, hstarted, hheld, huser⟩

/-- What the first P leaves. -/
theorem comes_P (hcode : x.proc.code = P s asid ++ rest) :
    ∃ y, Comes cfg answer id c x y ∧ y.proc.code = rest ∧ y.held = s :: x.held ∧
      y.page = x.page ∧ y.started = x.started ∧
      y.proc.p_supportStruct = x.proc.p_supportStruct := by
  obtain ⟨mem, ⟨phase, code, sup, status, ch⟩, held, page, started⟩ := x
  obtain rfl := hcode
  exact ⟨_, .head rfl (.head rfl .refl), rfl, rfl, rfl, rfl, rfl⟩

/-! ## WRITEPRINTER and WRITETERMINAL -/

/-- A character is sent, and its status is there to be checked. -/
theorem comes_send {sent : Int}
    (hcode : x.proc.code = .writeChars port asid string (left + 1) sent :: rest) :
    ∃ y, Comes cfg answer id c x y ∧
      y.proc.code = .checkSent port asid string left sent :: rest ∧
      y.proc.status = answer x.started.length ∧ y.page = x.page ∧
      y.started = x.started ++ [(port.dev asid, x.page string)] ∧ x.Like y := by
  obtain ⟨mem, ⟨phase, code, sup, status, ch⟩, held, page, started⟩ := x
  obtain rfl := hcode
  cases port with
  | printer =>
      let d : Dev := .printer (DEVICE_OF asid)
      let w : Word := (page string).signExtend 32
      have hgiven : (mem.setDev d fun r ↦ { r with data0 := w }).given PRINTERWRITE d =
          page string := by
        change (((mem.setDev d fun r ↦ { r with data0 := w }).dev d).data0).setWidth 8 = _
        rw [setDev_self]
        exact printed _
      exact ⟨_, .head rfl (.head rfl (.head rfl (.head rfl (.head rfl .refl)))), rfl, rfl, rfl,
        congrArg (fun ch ↦ started ++ [(d, ch)]) hgiven, rfl, rfl⟩
  | terminal =>
      exact ⟨_, .head rfl (.head rfl (.head rfl (.head rfl .refl))), rfl, rfl, rfl,
        congrArg (fun ch ↦ started ++ [(.transm (DEVICE_OF asid), ch)]) (transmitted _), rfl, rfl⟩

theorem ofNat_succ (n : Nat) : BitVec.ofNat 32 (n + 1) = BitVec.ofNat 32 n + 1 :=
  BitVec.ofNat_add n 1

theorem chars_succ (page : Word → BitVec 8) (string : Word) (n : Nat) :
    chars page string (n + 1) = chars page string n ++ [page (string + BitVec.ofNat 32 n)] := by
  rw [chars, List.range_succ, List.map_append]
  rfl

theorem next_written {sent : Int}
    (hcode : x.proc.code = .writeChars port asid string 0 sent :: rest) :
    x.next cfg answer id c = some { x with
      proc := x.proc.goto (V (port.sem asid) ++ .sysReturn (BitVec.ofInt 32 sent) :: rest) } := by
  simp only [Call.next, hcode, exec]

theorem next_sent {sent : Int}
    (hcode : x.proc.code = .checkSent port asid string left sent :: rest)
    (hok : port.failed x.proc.status = false) : x.next cfg answer id c = some { x with
      proc := x.proc.goto (.writeChars port asid (string + 1) left (sent + 1) :: rest) } := by
  simp only [Call.next, hcode, exec, hok, Bool.false_eq_true, if_false]

theorem next_writeFailed {sent : Int}
    (hcode : x.proc.code = .checkSent port asid string left sent :: rest)
    (hfailed : port.failed x.proc.status = true) : x.next cfg answer id c = some { x with
      proc := x.proc.goto (.sysReturn (-x.proc.status) :: V (port.sem asid) ++
        .sysReturn (BitVec.ofInt 32 sent) :: rest) } := by
  simp only [Call.next, hcode, exec, hfailed, if_true]

/-- As long as the operations succeed the characters are sent in order. -/
theorem comes_sent {sent : Int} (n left : Nat)
    (hcode : x.proc.code = .writeChars port asid string (n + left) sent :: rest)
    (hok : ∀ j < n, port.failed (answer (x.started.length + j)) = false) :
    ∃ y, Comes cfg answer id c x y ∧
      y.proc.code = .writeChars port asid (string + BitVec.ofNat 32 n) left (sent + n) :: rest ∧
      y.page = x.page ∧ y.started = x.started ++ (chars x.page string n).map (port.dev asid, ·) ∧
      x.Like y := by
  induction n generalizing left with
  | zero =>
      refine ⟨x, .refl, ?_, rfl, (List.append_nil _).symm, rfl, rfl⟩
      rw [hcode, Nat.zero_add, Int.natCast_zero, Int.add_zero, BitVec.add_zero]
  | succ n ih =>
      obtain ⟨y, hy, hcode', hpage, hstarted, hlike⟩ := ih (left + 1)
        (by rw [hcode, Nat.add_right_comm, Nat.add_assoc]) fun j hj ↦ hok j (Nat.lt_succ_of_lt hj)
      obtain ⟨z, hz, hcheck, hstatus, hpage', hstarted', hlike'⟩ :=
        comes_send cfg answer id c hcode'
      have hlength : y.started.length = x.started.length + n := by
        rw [hstarted, List.length_append, List.length_map, chars, List.length_map,
          List.length_range]
      have hsent := next_sent cfg answer id c hcheck
        (by rw [hstatus, hlength]; exact hok n (Nat.lt_succ_self n))
      refine ⟨_, hy.trans (hz.trans (.head hsent .refl)), ?_, hpage'.trans hpage, ?_,
        hlike'.held.trans hlike.held, hlike'.support.trans hlike.support⟩
      · change _ :: rest = _
        rw [BitVec.add_assoc, Int.add_assoc, ← ofNat_succ]
        rfl
      · change z.started = _
        rw [hstarted', hstarted, hpage, chars_succ, List.map_append, List.append_assoc]
        rfl

/-- The routine comes to its end with the number of characters that have been sent. -/
theorem comes_written {length : Nat} (hb : x.proc.p_supportStruct = some b)
    (hcode : x.proc.code = .writeChars port asid string length 0 :: rest)
    (hstarted : x.started = []) (hn : n ≤ length)
    (hok : ∀ j < n, port.failed (answer j) = false)
    (hfailed : n < length → port.failed (answer n) = true) :
    ∃ y z : Call u m k, Comes cfg answer id c x z ∧ y.page = x.page ∧ y.held = x.held ∧
      y.started = (chars x.page string (min (n + 1) length)).map (port.dev asid, ·) ∧
      y.Gives z b (port.sem asid) (BitVec.ofNat 32 n) rest := by
  obtain ⟨left, rfl⟩ := Nat.exists_eq_add_of_le hn
  obtain ⟨y, hy, hcode', hpage, hsent, hlike⟩ := comes_sent cfg answer id c n left hcode
    (by rw [hstarted]; simpa using hok)
  have hcount : BitVec.ofInt 32 (0 + n) = BitVec.ofNat 32 n := by
    rw [Int.zero_add, BitVec.ofInt_natCast]
  rw [hstarted, List.nil_append] at hsent
  cases left with
  | zero =>
      -- every operation has succeeded
      obtain ⟨z, hz, hgives⟩ := comes_result cfg answer id c
        (x := { y with proc := y.proc.goto _ }) rfl (hlike.support.trans hb)
      rw [← hcount]
      refine ⟨y, z, hy.trans (.head (next_written cfg answer id c hcode') hz), hpage, hlike.held,
        ?_, hgives.of_goto⟩
      rw [Nat.min_eq_right (by omega)]
      exact hsent
  | succ left =>
      obtain ⟨z, hz, hcheck, hstatus, hpage', hsent', hlike'⟩ := comes_send cfg answer id c hcode'
      have hlength : y.started.length = n := by
        rw [hsent, List.length_map, chars, List.length_map, List.length_range]
      have hnext := next_writeFailed cfg answer id c hcheck
        (by rw [hstatus, hlength]; exact hfailed (by omega))
      obtain ⟨w, hw, hgives⟩ := comes_failure cfg answer id c
        (x := { z with proc := z.proc.goto _ }) rfl ((hlike.trans hlike').support.trans hb)
      rw [← hcount]
      refine ⟨z, w, hy.trans (hz.trans (.head hnext hw)), hpage'.trans hpage,
        (hlike.trans hlike').held, ?_, hgives.of_goto⟩
      rw [Nat.min_eq_left (by omega), chars_succ, List.map_append, ← hsent]
      exact hsent'.trans (by rw [hpage]; rfl)

/-! ## READTERMINAL -/

/-- The status is not that of a character received. -/
def readFailed (status : Word) : Bool := TERMINAL_STATUS status ≠ CHAR_RECEIVED

/-- The status is that of the last character of a line, or of none. -/
def LineEnds (status : Word) : Prop := readFailed status = true ∨ received status = 10

instance : DecidablePred LineEnds := fun _ ↦ inferInstanceAs (Decidable (_ ∨ _))

/-- A character is asked for, and the status is there to be checked. -/
theorem comes_receive {r : Int} (hcode : x.proc.code = .readChar asid buffer r :: rest) :
    ∃ y, Comes cfg answer id c x y ∧ y.proc.code = .checkRead asid buffer r :: rest ∧
      y.proc.status = answer x.started.length ∧ y.page = x.page ∧
      y.started = x.started ++ [(.recv (DEVICE_OF asid), 0)] ∧ x.Like y := by
  obtain ⟨mem, ⟨phase, code, sup, status, ch⟩, held, page, started⟩ := x
  obtain rfl := hcode
  exact ⟨_, .head rfl (.head rfl .refl), rfl, rfl, rfl, rfl, rfl, rfl⟩

theorem next_readFailed {r : Int} (hcode : x.proc.code = .checkRead asid buffer r :: rest)
    (hfailed : readFailed x.proc.status = true) : x.next cfg answer id c = some { x with
      proc := x.proc.goto (.sysReturn (-x.proc.status) :: V (.terminal (DEVICE_OF asid)) ++
        .sysReturn (BitVec.ofInt 32 r) :: rest) } := by
  have hstatus : TERMINAL_STATUS x.proc.status ≠ CHAR_RECEIVED := of_decide_eq_true hfailed
  simp only [Call.next, hcode, exec, if_pos hstatus]

/-- A character that has been received is stored. -/
theorem comes_store {r : Int} (hcode : x.proc.code = .checkRead asid buffer r :: rest)
    (hok : readFailed x.proc.status = false) : ∃ y, Comes cfg answer id c x y ∧
      y.proc.code = .nextRead asid buffer (r + 1) (received x.proc.status) :: rest ∧
      y.page = Function.update x.page (buffer + BitVec.ofInt 32 r) (received x.proc.status) ∧
      y.started = x.started ∧ x.Like y := by
  have hstatus : ¬ TERMINAL_STATUS x.proc.status ≠ CHAR_RECEIVED := of_decide_eq_false hok
  let y : Call u m k := { x with
    proc := x.proc.goto (.store (buffer + BitVec.ofInt 32 r) (received x.proc.status) ::
      .nextRead asid buffer (r + 1) (received x.proc.status) :: rest) }
  have hnext : x.next cfg answer id c = some y := by
    simp only [Call.next, hcode, exec, if_neg hstatus]
    rfl
  exact ⟨_, .head hnext (.head rfl .refl), rfl, rfl, rfl, rfl, rfl⟩

theorem next_newline {r : Int} {ch : BitVec 8}
    (hcode : x.proc.code = .nextRead asid buffer r ch :: rest) (hch : ch = 10) :
    x.next cfg answer id c = some { x with
      proc := x.proc.goto (V (.terminal (DEVICE_OF asid)) ++
        .sysReturn (BitVec.ofInt 32 r) :: rest) } := by
  simp only [Call.next, hcode, exec, if_pos hch]

theorem next_readOn {r : Int} {ch : BitVec 8}
    (hcode : x.proc.code = .nextRead asid buffer r ch :: rest) (hch : ch ≠ 10) :
    x.next cfg answer id c = some { x with
      proc := x.proc.goto (.readChar asid buffer r :: rest) } := by
  simp only [Call.next, hcode, exec, if_neg hch]

/-- As long as the line does not end the characters are stored in order. -/
theorem comes_received (hcode : x.proc.code = .readChar asid buffer 0 :: rest)
    (hstarted : x.started = []) (n : Nat) (hok : ∀ j < n, ¬ LineEnds (answer j)) :
    ∃ y, Comes cfg answer id c x y ∧ y.proc.code = .readChar asid buffer n :: rest ∧
      y.page = stored x.page buffer (received ∘ answer) n ∧
      y.started = List.replicate n (.recv (DEVICE_OF asid), 0) ∧ x.Like y := by
  induction n with
  | zero => exact ⟨x, .refl, hcode, rfl, hstarted, rfl, rfl⟩
  | succ n ih =>
      obtain ⟨y, hy, hcode', hpage, hsent, hlike⟩ := ih fun j hj ↦ hok j (Nat.lt_succ_of_lt hj)
      obtain ⟨z, hz, hcheck, hstatus, hpage', hsent', hlike'⟩ :=
        comes_receive cfg answer id c hcode'
      rw [hsent, List.length_replicate] at hstatus
      obtain ⟨hread, hline⟩ := not_or.mp (hok n (Nat.lt_succ_self n))
      obtain ⟨w, hw, hcode'', hpage'', hsent'', hlike''⟩ := comes_store cfg answer id c hcheck
        (by rw [hstatus]; exact Bool.eq_false_iff.mpr hread)
      have hnext := next_readOn cfg answer id c hcode'' (by rwa [hstatus])
      have hlike := (hlike.trans hlike').trans hlike''
      refine ⟨_, hy.trans (hz.trans (hw.trans (.head hnext .refl))), rfl, ?_, ?_, hlike.held,
        hlike.support⟩
      · change w.page = _
        rw [hpage'', hpage', hpage, hstatus, stored, BitVec.ofInt_natCast]
        rfl
      · change w.started = _
        rw [hsent'', hsent', hsent, List.replicate_succ']

/-- The routine comes to its end with the number of characters that have been stored. -/
theorem comes_read (hb : x.proc.p_supportStruct = some b)
    (hcode : x.proc.code = .readChar asid buffer 0 :: rest) (hstarted : x.started = [])
    (hok : ∀ j < n, ¬ LineEnds (answer j)) (hends : LineEnds (answer n)) :
    ∃ y z : Call u m k, Comes cfg answer id c x z ∧ y.held = x.held ∧
      y.page = stored x.page buffer (received ∘ answer)
        (if readFailed (answer n) then n else n + 1) ∧
      y.started = List.replicate (n + 1) (.recv (DEVICE_OF asid), 0) ∧
      y.Gives z b (.terminal (DEVICE_OF asid))
        (BitVec.ofNat 32 (if readFailed (answer n) then n else n + 1)) rest := by
  obtain ⟨y, hy, hcode', hpage, hsent, hlike⟩ :=
    comes_received cfg answer id c hcode hstarted n hok
  obtain ⟨z, hz, hcheck, hstatus, hpage', hsent', hlike'⟩ := comes_receive cfg answer id c hcode'
  rw [hsent, List.length_replicate] at hstatus
  rw [hsent, ← List.replicate_succ'] at hsent'
  by_cases hfailed : readFailed (answer n) = true
  · rw [if_pos hfailed, ← BitVec.ofInt_natCast]
    obtain ⟨w, hw, hgives⟩ := comes_failure cfg answer id c
      (x := { z with proc := z.proc.goto _ }) rfl ((hlike.trans hlike').support.trans hb)
    have hnext := next_readFailed cfg answer id c hcheck (by rw [hstatus]; exact hfailed)
    exact ⟨z, w, hy.trans (hz.trans (.head hnext hw)), (hlike.trans hlike').held,
      hpage'.trans hpage, hsent', hgives.of_goto⟩
  · rw [if_neg hfailed, ← BitVec.ofInt_natCast]
    obtain ⟨w, hw, hcode'', hpage'', hsent'', hlike''⟩ := comes_store cfg answer id c hcheck
      (by rw [hstatus]; exact Bool.eq_false_iff.mpr hfailed)
    have hnext := next_newline cfg answer id c hcode''
      (by rw [hstatus]; exact hends.resolve_left hfailed)
    have hlike := (hlike.trans hlike').trans hlike''
    obtain ⟨v, hv, hgives⟩ := comes_result cfg answer id c
      (x := { w with proc := w.proc.goto _ }) rfl (hlike.support.trans hb)
    refine ⟨w, v, hy.trans (hz.trans (hw.trans (.head hnext hv))), hlike.held, ?_,
      hsent''.trans hsent', hgives.of_goto⟩
    rw [hpage'', hpage', hpage, hstatus, stored, BitVec.ofInt_natCast]
    rfl

/-! ## The calls -/

variable {cfg answer id c}

/-- A call comes back in one state only. -/
theorem Returns.eq {s' : SemId} (h : Returns cfg answer id c x s y)
    (h' : Returns cfg answer id c x s' z) : y = z := by
  have hstuck : ∀ {y z : Call u m k}, y.proc.code = [] → Comes cfg answer id c y z → y = z := by
    intro y z hcode hcomes
    refine (Relation.ReflTransGen.cases_head hcomes).resolve_right ?_
    rintro ⟨w, hnext, -⟩
    rw [Call.next, hcode] at hnext
    cases hnext
  have hunique : Relator.RightUnique fun x y : Call u m k ↦ x.next cfg answer id c = some y :=
    fun _ _ _ h h' ↦ Option.some.inj (h.symm.trans h')
  rcases Relation.ReflTransGen.total_of_right_unique hunique h.comes h'.comes with hyz | hzy
  · exact hstuck h.code hyz
  · exact (hstuck h'.code hzy).symm

/-- The call is decoded, and the program counter of the saved state moved past it. -/
theorem Call.Begins.next {number : Int} {code : List (Instr u m)} {mem : Memory u m k}
    (h : x.Begins b number)
    (hcall : systemcallHandler x.mem x.proc c b = .ok mem (x.proc.goto code)) :
    x.next cfg answer id c = some { x with mem := mem, proc := x.proc.goto code } := by
  have hcause : excCode ((x.mem.support_arr b).sup_exceptState GENERALEXCEPT).cause = 8 := h.cause
  simp only [Call.next, h.code, exec, h.support, if_pos hcause, hcall]

theorem Call.Begins.write (h : x.Begins b port.number) :
    ∃ mem, systemcallHandler x.mem x.proc c b = .ok mem
      (x.proc.goto (writePort port (x.asid b) (x.saved b).reg_a1 (x.saved b).reg_a2.toInt)) := by
  have hnumber : ((x.mem.support_arr b).sup_exceptState GENERALEXCEPT).reg_a0.toInt =
    port.number := h.number
  unfold systemcallHandler
  dsimp only
  rw [hnumber]
  cases port <;> exact ⟨_, rfl⟩

theorem Call.Begins.read (h : x.Begins b READTERMINAL) :
    ∃ mem, systemcallHandler x.mem x.proc c b = .ok mem
      (x.proc.goto (readTerminal (x.asid b) (x.saved b).reg_a1)) := by
  have hnumber : ((x.mem.support_arr b).sup_exceptState GENERALEXCEPT).reg_a0.toInt =
    READTERMINAL := h.number
  unfold systemcallHandler
  dsimp only
  rw [hnumber]
  exact ⟨_, rfl⟩

/-- The last LDST takes the process back to user mode. -/
theorem Comes.returns {v : Word} (h : Comes cfg answer id c x z)
    (hgives : y.Gives z b s v [.ldst GENERALEXCEPT]) (hheld : y.held = s :: x.held) :
    ∃ z', Returns cfg answer id c x s z' ∧ z'.v0 b = v ∧ z'.page = y.page ∧
      z'.started = y.started := by
  obtain ⟨mem, ⟨phase, code, sup, status, ch⟩, held, page, started⟩ := z
  obtain ⟨hcode, hv, hpage, hstarted, hback, huser⟩ := hgives
  obtain rfl := hcode
  refine ⟨⟨mem, ⟨phase, [], sup, status, ch⟩, held, page, started⟩,
    ⟨h.trans (.head rfl .refl), rfl, ?_, huser⟩, hv, hpage, hstarted⟩
  rw [hheld, List.erase_cons_head] at hback
  exact hback

variable (cfg answer id c)

/-- WRITEPRINTER and WRITETERMINAL send the characters up to the first operation that fails,
and return how many have been sent before it. -/
theorem write_returns (h : x.Begins b port.number)
    (hlength : 0 ≤ (x.saved b).reg_a2.toInt ∧ (x.saved b).reg_a2.toInt ≤ MAXSTRLENG)
    (hstring : KUSEG ≤ (x.saved b).reg_a1) (hn : n ≤ (x.saved b).reg_a2.toInt.toNat)
    (hok : ∀ j < n, port.failed (answer j) = false)
    (hfailed : n < (x.saved b).reg_a2.toInt.toNat → port.failed (answer n) = true) :
    ∃ y, Returns cfg answer id c x (port.sem (x.asid b)) y ∧ y.v0 b = BitVec.ofNat 32 n ∧
      y.page = x.page ∧
      y.started = (chars x.page (x.saved b).reg_a1
        (min (n + 1) (x.saved b).reg_a2.toInt.toNat)).map (port.dev (x.asid b), ·) := by
  obtain ⟨mem, hcall⟩ := h.write (c := c)
  have haccepted : ¬ ((x.saved b).reg_a2.toInt < 0 ∨ (x.saved b).reg_a2.toInt > MAXSTRLENG ∨
      (x.saved b).reg_a1 < KUSEG) := by
    rintro (hneg | hlong | hlow)
    · omega
    · omega
    · exact absurd hlow (not_lt.mpr hstring)
  obtain ⟨y, hy, hcode, hheld, hpage, hstarted, hsupport⟩ := comes_P cfg answer id c
    (x := { x with mem := mem, proc := x.proc.goto _ }) (if_neg haccepted)
  obtain ⟨z, w, hw, hpage', hheld', hsent, hgives⟩ := comes_written cfg answer id c
    (hsupport.trans h.support) hcode (hstarted.trans h.started) hn hok hfailed
  obtain ⟨w', hreturns, hv, hpage'', hsent'⟩ :=
    Comes.returns (.head (h.next hcall) (hy.trans hw)) hgives (hheld'.trans hheld)
  refine ⟨w', hreturns, hv, hpage''.trans (hpage'.trans hpage), ?_⟩
  rw [hsent', hsent, hpage]

/-- READTERMINAL comes to its first read. -/
theorem read_begins (h : x.Begins b READTERMINAL) (hbuffer : KUSEG ≤ (x.saved b).reg_a1) :
    ∃ y, Comes cfg answer id c x y ∧
      y.proc.code = [.readChar (x.asid b) (x.saved b).reg_a1 0, .ldst GENERALEXCEPT] ∧
      y.held = .terminal (DEVICE_OF (x.asid b)) :: x.held ∧ y.page = x.page ∧
      y.started = x.started ∧ y.proc.p_supportStruct = some b := by
  obtain ⟨mem, hcall⟩ := h.read (c := c)
  obtain ⟨y, hy, hcode, hheld, hpage, hstarted, hsupport⟩ := comes_P cfg answer id c
    (x := { x with mem := mem, proc := x.proc.goto _ }) (if_neg (not_lt.mpr hbuffer))
  exact ⟨y, .head (h.next hcall) hy, hcode, hheld, hpage, hstarted, hsupport.trans h.support⟩

/-- READTERMINAL stores the characters up to the first newline or the first read that fails,
and returns how many it has stored. -/
theorem read_returns (h : x.Begins b READTERMINAL) (hbuffer : KUSEG ≤ (x.saved b).reg_a1)
    (hok : ∀ j < n, ¬ LineEnds (answer j)) (hends : LineEnds (answer n)) :
    ∃ y, Returns cfg answer id c x (.terminal (DEVICE_OF (x.asid b))) y ∧
      y.v0 b = BitVec.ofNat 32 (if readFailed (answer n) then n else n + 1) ∧
      y.page = stored x.page (x.saved b).reg_a1 (received ∘ answer)
        (if readFailed (answer n) then n else n + 1) ∧
      y.started = List.replicate (n + 1) (.recv (DEVICE_OF (x.asid b)), 0) := by
  obtain ⟨y, hy, hcode, hheld, hpage, hstarted, hsupport⟩ := read_begins cfg answer id c h hbuffer
  obtain ⟨z, w, hw, hheld', hpage', hsent, hgives⟩ := comes_read cfg answer id c hsupport hcode
    (hstarted.trans h.started) hok hends
  obtain ⟨w', hreturns, hv, hpage'', hsent'⟩ := (hy.trans hw).returns hgives (hheld'.trans hheld)
  refine ⟨w', hreturns, hv, ?_, hsent'.trans hsent⟩
  rw [hpage'', hpage', hpage]

/-- What a call that writes a string is to return, when the first `n` operations succeed. -/
def writeResult (length n : Nat) : Word :=
  if n = length then BitVec.ofNat 32 length else -answer n

/-- What a call that reads a line is to return, when the line ends with the operation `n`. -/
def readResult (n : Nat) : Word :=
  if readFailed (answer n) then -answer n else BitVec.ofNat 32 (n + 1)

/-- A system call with two characters at the beginning of the memory of the U-proc. -/
def Call.sample (number length : Word) : Call 1 0 0 where
  mem := { (System.boot 1 0 0).mem with
    support_arr := fun _ ↦ { emptySupport with
      sup_asid := 1
      sup_exceptState := fun _ ↦ { State.zero with
        cause := causeOf 8, reg_a0 := number, reg_a1 := KUSEG, reg_a2 := length } } }
  proc := .idle .ready [.generalException] (some 0)
  held := []
  page a := if a = KUSEG then 65 else 66
  started := []

theorem Call.sample_begins (number length : Word) :
    (Call.sample number length).Begins 0 number.toInt :=
  ⟨rfl, rfl, show excCode (causeOf 8) = 8 by decide, rfl, rfl⟩

end PandosPlus.SupportLevel
