import Machine6809.Proofs.Machine.Agreement
import Machine6809.Proofs.Machine.Events
import Machine6809.Proofs.Histories
import Mathlib.Data.Nat.Notation

/-!
# NMI is armed once and triggered by edges

NMI does not interrupt a program that has no stack yet: it stays off from a reset to the first load
of S after it. From then on each edge of the line, from released to asserted, is latched until the
machine works the next time, and that work enters NMI.

Both bits are memories of the past. NMI is armed if S has been loaded since the last reset
(`armed_run_iff`), and an edge is latched if there has been one since the machine worked the last
time (`latched_run_iff`). The work of the machine arms NMI with an instruction that loads S
(`Machine.loadsS`), it takes an edge off the latch, and it does nothing else to the lines
(`lines_work`).
-/

namespace Machine6809

/-- The lines with NMI armed. -/
def InterruptLines.arm (lines : InterruptLines) : InterruptLines := { lines with nmiArmed := true }

/-- The operation loads S, given the operand byte: an LDS or LEAS, a TFR or EXG that names S as a
target, or a PULU that lists S. -/
def Operation.loadsS (operation : Operation) (operand : Byte) : Bool :=
  match operation with
  | .loadWord name | .lea name => name = .s
  | .transfer => RegisterName.ofTransferCode? (operand.toNat % 16) = some .s
  | .exchange =>
    RegisterName.ofTransferCode? (operand.toNat / 16) = some .s ||
      RegisterName.ofTransferCode? (operand.toNat % 16) = some .s
  | .pull .user => bitOf operand 6
  | _ => false

/-- An operation that cannot load S does not. -/
theorem Operation.loadsS_of_not_mayLoadS {operation : Operation}
    (h : operation.mayLoadS = false) (operand : Byte) : operation.loadsS operand = false := by
  cases operation with
  | loadWord name | lea name => exact h
  | pull stack =>
    cases stack with
    | system => rfl
    | user => exact absurd h (by decide)
  | transfer | exchange => exact absurd h (by decide)
  | _ => rfl

/-- S is pulled from the user stack if bit 6 of the list is set. -/
theorem Stack.s_mem_selected_user (list : Byte) :
    .s ∈ Stack.user.selected list ↔ bitOf list 6 = true := by
  simp [selected, registers, Stack.other]

/-- The level that the NMI line is driven to, a reset counting as a release. -/
def Event.level? : Event → Option Bool
  | .nmi asserted => some asserted
  | .reset => some false
  | .write _ | .firq _ | .irq _ | .tick | .step => none

namespace Machine

variable {μ α : Type} [Memory μ] {m : Machine μ}

/-! ### What actions do to the lines -/

/-- An action that is made of the usual parts leaves the lines alone. -/
theorem lines_kept {x : Exec μ α} (h : ∀ {R : Machine μ → Machine μ → Prop}, Frame R → Agree R x x)
    (m : Machine μ) : (m.after x).cpu.lines = m.cpu.lines := by
  have absorb : ∀ cpu signal, (Cpu.absorb cpu signal).lines = cpu.lines := by
    intro cpu signal
    cases signal <;> rfl
  exact (h (frame_kept absorb (fun _ plain => plain.lines) m.cpu.lines)).kept m

omit [Memory μ] in
/-- Loading S arms NMI, and loading another register does nothing to the lines. -/
theorem lines_setRegister (name : RegisterName) (value : Word) (m : Machine μ) :
    (m.after (setRegister name value)).cpu.lines =
      if name = .s then m.cpu.lines.arm else m.cpu.lines := rfl

omit [Memory μ] in
theorem lines_transferTo (code : ℕ) (value : Word) (m : Machine μ) :
    (m.after (transferTo code value)).cpu.lines =
      if RegisterName.ofTransferCode? code = some .s then m.cpu.lines.arm else m.cpu.lines := by
  unfold transferTo
  cases RegisterName.ofTransferCode? code with
  | none => rfl
  | some name =>
    simp only [Option.some.injEq]
    exact lines_setRegister name value m

theorem lines_pullRegister (stack : Stack) (name : RegisterName) (m : Machine μ) :
    (m.after (pullRegister stack name)).cpu.lines =
      if name = .s then m.cpu.lines.arm else m.cpu.lines := by
  by_cases hs : name = .s
  · subst hs
    -- S is pulled as two bytes and then loaded
    show InterruptLines.arm ((m.after (pullByte stack)).after (pullByte stack)).cpu.lines = _
    rw [lines_kept fun h => h.pullByte stack, lines_kept fun h => h.pullByte stack]
    rfl
  · rw [if_neg hs]
    exact lines_kept (fun h => h.pullRegister stack fun h => absurd h hs) m

/-- Of several registers pulled, S is the one that matters. -/
theorem lines_pullRegisters (stack : Stack) (names : List RegisterName) (m : Machine μ) :
    (m.after (pullRegisters stack names)).cpu.lines =
      if .s ∈ names then m.cpu.lines.arm else m.cpu.lines := by
  induction names generalizing m with
  | nil => rfl
  | cons name names ih =>
    show ((m.after (pullRegister stack name)).after (pullRegisters stack names)).cpu.lines = _
    rw [ih, lines_pullRegister]
    simp only [List.mem_cons, eq_comm (a := RegisterName.s)]
    by_cases hname : name = .s <;> by_cases hnames : .s ∈ names <;>
      simp [hname, hnames, InterruptLines.arm]

/-- **Operations and NMI.** An operation arms NMI if it loads S and does nothing else to the
lines. -/
theorem lines_perform (operation : Operation) (address : Word) (m : Machine μ) :
    (m.after (perform operation address)).cpu.lines =
      if operation.loadsS (m.gives (load address)) then m.cpu.lines.arm else m.cpu.lines := by
  cases hmay : operation.mayLoadS with
  -- nothing that could arm NMI
  | false =>
    rw [Operation.loadsS_of_not_mayLoadS hmay]
    exact lines_kept (fun h => h.perform (fun hs => absurd (hmay.symm.trans hs) (by decide)) _) m
  | true =>
    have loaded := lines_kept (fun h => h.load address) m
    cases operation with
    | loadWord name =>
      obtain rfl : name = .s := of_decide_eq_true hmay
      show InterruptLines.arm (m.after (loadWord address)).cpu.lines = _
      rw [lines_kept fun h => h.loadWord address]
      rfl
    | lea name =>
      obtain rfl : name = .s := of_decide_eq_true hmay
      rfl
    | pull stack =>
      -- the system stack never holds S itself
      obtain rfl : stack = .user := of_decide_eq_true hmay
      show ((m.after (load address)).after
        (pullRegisters .user (Stack.user.selected (m.gives (load address))))).cpu.lines = _
      rw [lines_pullRegisters, loaded]
      simp only [Stack.s_mem_selected_user]
      rfl
    | transfer =>
      show ((m.after (load address)).after
        (transferTo ((m.gives (load address)).toNat % 16) _)).cpu.lines = _
      rw [lines_transferTo, loaded]
      simp only [Operation.loadsS, decide_eq_true_eq]
    -- either of the two registers may be S
    | exchange =>
      show (((m.after (load address)).after
        (transferTo ((m.gives (load address)).toNat / 16) _)).after
        (transferTo ((m.gives (load address)).toNat % 16) _)).cpu.lines = _
      rw [lines_transferTo, lines_transferTo, loaded]
      simp only [Operation.loadsS, Bool.or_eq_true, decide_eq_true_eq]
      split_ifs <;> simp_all [InterruptLines.arm]
    | _ => exact absurd hmay Bool.false_ne_true

/-! ### What work does to the lines -/

/-- The instruction at PC loads S. -/
def loadsS (m : Machine μ) : Prop :=
  ∃ row operand, OpcodeMap.lookup? (m.gives fetchOpcode).1 = some row ∧
    m.opened.gives (resolve row.mode row.code m.cpu.registers.pc) = .ok operand ∧
    row.operation.loadsS ((m.opened.after (resolve row.mode row.code m.cpu.registers.pc)).gives
      (load operand.address)) = true

theorem lines_opened (m : Machine μ) : m.opened.cpu.lines = m.cpu.lines :=
  lines_kept (x := fetchOpcode) (fun h => h.fetchOpcode) m

/-- An instruction arms NMI or leaves the lines alone. -/
theorem lines_executeNext (m : Machine μ) :
    m.loadsS ∧ (m.after executeNext).cpu.lines = m.cpu.lines.arm ∨
      ¬m.loadsS ∧ (m.after executeNext).cpu.lines = m.cpu.lines := by
  unfold loadsS
  cases hrow : OpcodeMap.lookup? (m.gives fetchOpcode).1 with
  | none =>
    refine .inr ⟨by simp, ?_⟩
    rw [(executeNext_of_unknown hrow).2]
    exact lines_kept (fun h => h.fetchOpcode) m
  | some row =>
    have located := lines_kept (fun h => h.resolve row.mode row.code m.cpu.registers.pc) m.opened
    rw [(executeNext_of_row hrow).2]
    cases hresolve : m.opened.gives (resolve row.mode row.code m.cpu.registers.pc) with
    | error fault =>
      -- nothing is located, so nothing is loaded
      refine .inr ⟨by simp [hresolve], ?_⟩
      rw [(executeRow_of_fault _ hresolve).2, located, lines_opened]
    | ok operand =>
      -- past the operation there is nothing but a message
      have performed := (executeRow_of_located (m.gives fetchOpcode).2 hresolve).2
      rw [performed, lines_kept fun h => h.noteExecuted _ _ _]
      rw [lines_perform, located, lines_opened]
      split_ifs with hloads
      · exact .inl ⟨⟨row, operand, rfl, hresolve, hloads⟩, rfl⟩
      · refine .inr ⟨?_, rfl⟩
        -- the row and the operand are the only ones
        rintro ⟨row', operand', hrow', hoperand, hloads'⟩
        obtain rfl := Option.some.inj hrow'
        obtain rfl := Except.ok.inj (hresolve.symm.trans hoperand)
        exact hloads hloads'

/-- Entering NMI takes its latch away, and entering another interrupt leaves the lines alone. -/
theorem lines_enterInterrupt (source : InterruptSource) (stacked : Bool) (m : Machine μ) :
    (m.after (enterInterrupt source stacked)).cpu.lines =
      if source = .nmi then { m.cpu.lines with nmiLatched := false } else m.cpu.lines := by
  cases source with
  | nmi =>
    show (Machine.after _ (leaveFor .nmi stacked)).cpu.lines = _
    rw [lines_kept fun h => h.leaveFor .nmi stacked]
    rfl
  | firq | irq => exact lines_kept (fun h => h.enterInterrupt (by simp) stacked) m

/-- The instruction that the next work executes loads S. -/
def LoadsNext (m : Machine μ) : Prop := m.Executes ∧ m.awake.loadsS

/-- **Work and NMI.** Work enters NMI, which takes the edge off the latch, or it executes an
instruction that loads S, which arms NMI, or it leaves the lines alone. -/
theorem lines_work (m : Machine μ) :
    m.cpu.lines.accepted m.cpu.registers.cc = some .nmi ∧
        (m.after work).cpu.lines = { m.cpu.lines with nmiLatched := false } ∨
      m.LoadsNext ∧ (m.after work).cpu.lines = m.cpu.lines.arm ∨
      m.cpu.lines.accepted m.cpu.registers.cc ≠ some .nmi ∧ ¬m.LoadsNext ∧
        (m.after work).cpu.lines = m.cpu.lines := by
  cases accepted : m.cpu.lines.accepted m.cpu.registers.cc with
  | some source =>
    have entered : (m.after work).cpu.lines =
        if source = .nmi then { m.cpu.lines with nmiLatched := false } else m.cpu.lines := by
      -- from CWAI or not, the latch goes with NMI alone
      by_cases hw : m.cpu.wait = .cwai
      · rw [(work_of_wake hw accepted).1, lines_enterInterrupt]
        rfl
      · rw [(work_of_accepted hw accepted).1, lines_enterInterrupt]
        rfl
    -- an interrupt is entered in place of the instruction
    have executes : ¬m.LoadsNext := fun h => absurd (accepted.symm.trans h.1.1) (by simp)
    rw [entered]
    split_ifs with hsource
    · exact .inl ⟨congrArg some hsource, rfl⟩
    · exact .inr (.inr ⟨fun h => hsource (Option.some.inj h), executes, rfl⟩)
  | none =>
    refine .inr ?_
    by_cases executes : m.Executes
    · rw [(work_of_executes executes).1]
      obtain ⟨loads, lines⟩ | ⟨loads, lines⟩ := lines_executeNext m.awake
      · exact .inl ⟨⟨executes, loads⟩, lines⟩
      · exact .inr ⟨by simp, fun h => loads h.2, lines⟩
    · rw [(work_of_idle accepted executes).1]
      exact .inr ⟨by simp, fun h => executes h.1, rfl⟩

/-- NMI comes before the others, and no mask holds it back. -/
theorem accepted_nmi_iff {lines : InterruptLines} {cc : Flags} :
    lines.accepted cc = some .nmi ↔ lines.nmiLatched = true ∧ lines.nmiArmed = true := by
  unfold InterruptLines.accepted
  split_ifs <;> simp_all

/-- Work arms NMI if it loads S, and never disarms it. -/
theorem armed_work (m : Machine μ) : (m.after work).cpu.lines.nmiArmed = true ↔
    m.LoadsNext ∨ m.cpu.lines.nmiArmed = true := by
  obtain ⟨accepted, lines⟩ | ⟨loads, lines⟩ | ⟨-, loads, lines⟩ := lines_work m
  · rw [lines]
    exact ⟨.inr, fun _ => (accepted_nmi_iff.mp accepted).2⟩
  · rw [lines]
    exact ⟨fun _ => .inl loads, fun _ => rfl⟩
  · rw [lines, or_iff_right loads]

/-- No edge that can be taken is left on the latch. -/
theorem latched_work (h : m.cpu.lines.nmiLatched = true → m.cpu.lines.nmiArmed = true) :
    (m.after work).cpu.lines.nmiLatched = false := by
  -- what is latched and armed is accepted, whatever else is asserted
  have latched : m.cpu.lines.accepted m.cpu.registers.cc ≠ some .nmi →
      m.cpu.lines.nmiLatched = false := by
    intro accepted
    refine Bool.eq_false_iff.mpr fun hlatched => accepted ?_
    exact accepted_nmi_iff.mpr ⟨hlatched, h hlatched⟩
  obtain ⟨-, lines⟩ | ⟨loads, lines⟩ | ⟨accepted, -, lines⟩ := lines_work m
  · rw [lines]
  · rw [lines]
    exact latched fun hnmi => absurd (loads.1.1.symm.trans hnmi) (by simp)
  · rw [lines]
    exact latched accepted

/-- The level of the line is not changed by work. -/
theorem nmi_work (m : Machine μ) : (m.after work).cpu.lines.nmi = m.cpu.lines.nmi := by
  obtain ⟨-, lines⟩ | ⟨-, lines⟩ | ⟨-, -, lines⟩ := lines_work m
  · rw [lines]
  · rw [lines]
    rfl
  · rw [lines]

/-! ### What happens to the lines -/

/-- S is loaded: the processor takes a write to S over, or executes an instruction that loads S. -/
def LoadsS (m : Machine μ) (e : Event) : Prop :=
  m.Works e ∧ (m.cpu.file.posted.s.isSome = true ∨ m.started.LoadsNext)

/-- The NMI line goes from released to asserted while NMI is armed. -/
def Edge {μ : Type} (m : Machine μ) (e : Event) : Prop :=
  e = .nmi true ∧ m.cpu.lines.nmi = false ∧ m.cpu.lines.nmiArmed = true

/-- The machine is reset. -/
def Resets {μ : Type} (_ : Machine μ) (e : Event) : Prop := e = .reset

/-- The machine works or is reset. -/
def Settles {μ : Type} (m : Machine μ) (e : Event) : Prop := m.Works e ∨ e = .reset

/-- The machine works, and NMI is the interrupt that it accepts. -/
def EntersNmi {μ : Type} (m : Machine μ) (e : Event) : Prop :=
  m.Works e ∧ m.started.cpu.lines.accepted m.started.cpu.registers.cc = some .nmi

variable {e : Event} {es : List Event}

omit [Memory μ] in
/-- A write to S that was posted before arms NMI when work starts. -/
theorem lines_started_eq (m : Machine μ) : m.started.cpu.lines =
    if m.cpu.file.posted.s.isSome then m.cpu.lines.arm else m.cpu.lines := rfl

/-- What happens without work, and is no reset, arms nothing. -/
theorem armed_happen (m : Machine μ) (e : Event) :
    (m.happen e).cpu.lines.nmiArmed = true ↔
      LoadsS m e ∨ ¬Resets m e ∧ m.cpu.lines.nmiArmed = true := by
  unfold LoadsS Resets
  by_cases h : m.Works e
  · have reset : e ≠ .reset := by
      rintro rfl
      exact h
    rw [(cpu_of_works h).2.1, armed_work, lines_started_eq]
    -- whether or not a write to S was posted
    split_ifs with posted <;> simp [InterruptLines.arm, h, reset, posted]
  · cases e with
    | step => exact absurd trivial h
    | tick => rw [happen_tick_of_not_works h]; simp [h, withCountdown]
    | reset => simp [h, happen, after_reset, InterruptLines.released]
    | write _ | nmi _ | firq _ | irq _ =>
      simp [h, happen, Cpu.post, Cpu.driveNmi, Cpu.driveFirq, Cpu.driveIrq,
        InterruptLines.driveNmi]

/-- An edge is latched by driving the line, and work or a reset settles it. -/
theorem latched_happen (h : m.cpu.lines.nmiLatched = true → m.cpu.lines.nmiArmed = true)
    (e : Event) : (m.happen e).cpu.lines.nmiLatched = true ↔
      Edge m e ∨ ¬Settles m e ∧ m.cpu.lines.nmiLatched = true := by
  unfold Edge Settles
  by_cases hw : m.Works e
  · -- what work starts with: armed, if an edge is latched
    have started : m.started.cpu.lines.nmiLatched = true →
        m.started.cpu.lines.nmiArmed = true := by
      rw [lines_started_eq]
      split_ifs
      · exact fun _ => rfl
      · exact h
    -- what works is not a change of the line
    have edge : e ≠ .nmi true := by
      rintro rfl
      exact hw
    rw [(cpu_of_works hw).2.1, latched_work started]
    simp [hw, edge]
  · cases e with
    | step => exact absurd trivial hw
    | tick => rw [happen_tick_of_not_works hw]; simp [hw, withCountdown]
    | reset => simp [happen, after_reset, InterruptLines.released]
    | nmi asserted =>
      cases asserted <;> simp [hw, happen, Cpu.driveNmi, InterruptLines.driveNmi, or_comm]
    | write _ | firq _ | irq _ => simp [hw, happen, Cpu.post, Cpu.driveFirq, Cpu.driveIrq]

/-- The line has the level to which it is driven. -/
theorem nmi_happen (m : Machine μ) (e : Event) :
    (m.happen e).cpu.lines.nmi = (Event.level? e).getD m.cpu.lines.nmi := by
  by_cases h : m.Works e
  · -- only an NMI event changes the level, and it never works
    have level : Event.level? e = none := by
      cases e <;> first | rfl | exact absurd h id
    rw [(cpu_of_works h).2.1, nmi_work, lines_started_eq, level]
    split_ifs <;> rfl
  · cases e with
    | step => exact absurd trivial h
    | tick => rw [happen_tick_of_not_works h]; rfl
    | reset | write _ | nmi _ | firq _ | irq _ => rfl

/-! ### What has happened to the lines -/

/-- Over any run, only what is armed is latched. -/
theorem latched_armed_run (h : m.cpu.lines.nmiLatched = false) (es : List Event) :
    (m.run es).cpu.lines.nmiLatched = true → (m.run es).cpu.lines.nmiArmed = true := by
  induction es using List.reverseRecOn with
  | nil => exact fun hlatched => absurd (h.symm.trans hlatched) (by simp)
  | append_singleton es e ih =>
    rw [run_concat, latched_happen ih, armed_happen]
    -- a new edge is armed when it comes, and an old one would not have outlived a reset
    rintro (⟨rfl, -, armed⟩ | ⟨settles, latched⟩)
    · exact .inr ⟨by simp [Resets], armed⟩
    · exact .inr ⟨fun reset => settles (.inr reset), ih latched⟩

/-- NMI is armed if S has been loaded since the last reset. -/
theorem armed_run_iff (h : m.cpu.lines.nmiArmed = false) (es : List Event) :
    (m.run es).cpu.lines.nmiArmed = true ↔ Since LoadsS Resets m es :=
  run_iff_since (P := fun m => m.cpu.lines.nmiArmed = true) (by simp [h])
    (fun es e => armed_happen (m.run es) e) es

/-- An edge is latched if there has been one since the machine worked or was reset. -/
theorem latched_run_iff (h : m.cpu.lines.nmiLatched = false) (es : List Event) :
    (m.run es).cpu.lines.nmiLatched = true ↔ Since Edge Settles m es :=
  run_iff_since (P := fun m => m.cpu.lines.nmiLatched = true) (by simp [h])
    (fun es e => latched_happen (latched_armed_run h es) e) es

theorem nmi_run (m : Machine μ) (es : List Event) : (m.run es).cpu.lines.nmi =
    (lastValue? Event.level? es).getD m.cpu.lines.nmi := by
  induction es using List.reverseRecOn with
  | nil => rfl
  | append_singleton es e ih =>
    rw [run_concat, nmi_happen, ih, lastValue?_concat, Option.getD_or]

/-! ### Entering NMI -/

omit [Memory μ] in
/-- Work enters NMI if and only if an edge is latched. -/
theorem entersNmi_iff (h : m.cpu.lines.nmiLatched = true → m.cpu.lines.nmiArmed = true)
    (hw : m.Works e) : EntersNmi m e ↔ m.cpu.lines.nmiLatched = true := by
  unfold EntersNmi
  rw [accepted_nmi_iff, lines_started_eq]
  split_ifs
  · simp [hw, InterruptLines.arm]
  · simpa [hw] using h

/-- Leaving for a handler ends with its vector. -/
theorem after_leaveFor (source : InterruptSource) (stacked : Bool) (m : Machine μ) :
    ∃ m₁ : Machine μ, m.after (leaveFor source stacked) = m₁.after (gotoVector source.vector) := by
  cases stacked with
  | false => exact ⟨(m.after (pushInterruptFrame source)).after maskInterrupts, rfl⟩
  | true => exact ⟨m.after maskInterrupts, rfl⟩

/-- So does entering NMI. -/
theorem after_enterInterrupt_nmi (m : Machine μ) (stacked : Bool) :
    ∃ m₁ : Machine μ, m.after (enterInterrupt .nmi stacked)
      = m₁.after (gotoVector VectorAddress.nmi) :=
  after_leaveFor .nmi stacked
    ((m.after (note (.interrupt .nmi m.cpu.registers.pc))).after
      (modifyCpu fun cpu => { cpu with lines := { cpu.lines with nmiLatched := false } }))

/-- Whatever the masks, and whether the machine waits or not, it goes where the vector says. -/
theorem work_of_entersNmi (h : EntersNmi m e) :
    (∃ used, m.started.gives work = .ok used) ∧
      m.started.after work = m.started.awake.after (enterInterrupt .nmi (m.cpu.wait = .cwai)) ∧
      ∃ m₁ : Machine μ, m.started.after work = m₁.after (gotoVector VectorAddress.nmi) := by
  obtain ⟨-, accepted⟩ := h
  by_cases hw : m.cpu.wait = .cwai
  · obtain ⟨after, gives⟩ := work_of_wake (m := m.started) hw accepted
    rw [after, decide_eq_true hw]
    exact ⟨⟨_, gives⟩, rfl, after_enterInterrupt_nmi _ true⟩
  · obtain ⟨after, gives⟩ := work_of_accepted (m := m.started) hw accepted
    rw [after, decide_eq_false hw]
    exact ⟨⟨_, gives⟩, rfl, after_enterInterrupt_nmi _ false⟩

/-- Work that does not enter NMI enters another interrupt, executes an instruction or idles. -/
theorem work_of_not_entersNmi (hw : m.Works e) (h : ¬EntersNmi m e) :
    (∃ source stacked, source ≠ .nmi ∧
      m.started.after work = m.started.awake.after (enterInterrupt source stacked)) ∨
    m.started.after work = m.started.awake.after executeNext ∨
    m.started.after work = m.started := by
  cases accepted : m.started.cpu.lines.accepted m.started.cpu.registers.cc with
  | some source =>
    -- what is accepted is not NMI, since NMI is not entered
    have other : source ≠ .nmi := by
      rintro rfl
      exact h ⟨hw, accepted⟩
    by_cases wait : m.started.cpu.wait = .cwai
    · exact .inl ⟨source, true, other, (work_of_wake wait accepted).1⟩
    · exact .inl ⟨source, false, other, (work_of_accepted wait accepted).1⟩
  | none =>
    by_cases executes : m.started.Executes
    · exact .inr (.inl (work_of_executes executes).1)
    · exact .inr (.inr (work_of_idle accepted executes).1)

/-- What the NMI line and the loads of S have done to a machine since `m₀`. -/
structure EdgeTriggered (m₀ : Machine μ) (es : List Event) (m : Machine μ) : Prop where
  /-- Only what is armed is latched. -/
  latched_armed : m.cpu.lines.nmiLatched = true → m.cpu.lines.nmiArmed = true
  /-- Nothing but a load of S arms NMI, and nothing but a reset disarms it. -/
  armed_iff : m.cpu.lines.nmiArmed = true ↔ Since LoadsS Resets m₀ es
  /-- As long as NMI is not armed no edge is remembered and NMI is not entered. -/
  unarmed : m.cpu.lines.nmiArmed = false →
    m.cpu.lines.nmiLatched = false ∧
      (m.happen (.nmi true)).cpu.lines.nmiLatched = false ∧ ∀ e, ¬EntersNmi m e
  /-- The line is where it was driven last, and released after a reset. -/
  line : m.cpu.lines.nmi = (lastValue? Event.level? es).getD false
  /-- An edge is remembered until the machine works or is reset. -/
  latched_iff : m.cpu.lines.nmiLatched = true ↔ Since Edge Settles m₀ es
  /-- Work enters NMI if there has been an edge since the last work, and only then. -/
  enters_iff : ∀ e, m.Works e → (EntersNmi m e ↔ Since Edge Settles m₀ es)
  /-- To enter NMI is to go through its vector. -/
  enters : ∀ e, EntersNmi m e → (∃ used, m.started.gives work = .ok used) ∧
    m.started.after work = m.started.awake.after (enterInterrupt .nmi (m.cpu.wait = .cwai)) ∧
    ∃ m₁ : Machine μ, m.started.after work = m₁.after (gotoVector VectorAddress.nmi)
  /-- Other work does something else. -/
  otherwise : ∀ e, m.Works e → ¬EntersNmi m e →
    (∃ source stacked, source ≠ .nmi ∧
      m.started.after work = m.started.awake.after (enterInterrupt source stacked)) ∨
    m.started.after work = m.started.awake.after executeNext ∨
    m.started.after work = m.started
  /-- Between two entries there is an edge. -/
  between : ∀ before first mid e, es = before ++ first :: mid →
    EntersNmi (m₀.run before) first → EntersNmi m e →
      ∃ earlier edge later, mid = earlier ++ edge :: later ∧
        Edge (m₀.run (before ++ first :: earlier)) edge

/-- **NMI is triggered by edges.** Whatever happens to a new machine, NMI is armed by the first load
of S, and each edge from then on is entered by the next work, and once only. -/
theorem nmi_edge_triggered (memory : μ) (es : List Event) :
    EdgeTriggered (ofMemory memory) es ((ofMemory memory).run es) := by
  have latched_armed := latched_armed_run (m := ofMemory memory) rfl
  have latched_iff := latched_run_iff (m := ofMemory memory) rfl
  constructor
  case latched_armed => exact latched_armed es
  case armed_iff => exact armed_run_iff rfl es
  case unarmed =>
    intro unarmed
    have unlatched : ((ofMemory memory).run es).cpu.lines.nmiLatched = false := by
      refine Bool.eq_false_iff.mpr fun latched => ?_
      exact absurd (unarmed.symm.trans (latched_armed es latched)) (by simp)
    -- no edge is taken up, and no entry follows from an old one
    refine ⟨unlatched, ?_, fun e enters => ?_⟩
    · refine Bool.eq_false_iff.mpr fun latched => ?_
      obtain ⟨-, -, armed⟩ | ⟨-, latched⟩ := (latched_happen (latched_armed es) _).mp latched
      · exact absurd (unarmed.symm.trans armed) (by simp)
      · exact absurd (unlatched.symm.trans latched) (by simp)
    · have latched := (entersNmi_iff (latched_armed es) enters.1).mp enters
      exact absurd (unlatched.symm.trans latched) (by simp)
  case line => exact nmi_run (ofMemory memory) es
  case latched_iff => exact latched_iff es
  case enters_iff => exact fun e hw => (entersNmi_iff (latched_armed es) hw).trans (latched_iff es)
  case enters => exact fun e => work_of_entersNmi
  case otherwise => exact fun e => work_of_not_entersNmi
  case between =>
    rintro before first mid e rfl hfirst hlast
    -- the first entry leaves nothing on the latch, and the second one finds an edge there
    have settled : ((ofMemory memory).run (before ++ [first])).cpu.lines.nmiLatched = false := by
      refine Bool.eq_false_iff.mpr fun latched => ?_
      rw [run_concat, latched_happen (latched_armed before)] at latched
      obtain ⟨rfl, -⟩ | ⟨settles, -⟩ := latched
      · exact hfirst.1
      · exact settles (.inl hfirst.1)
    have latched := (entersNmi_iff (latched_armed _) hlast.1).mp hlast
    rw [List.append_cons, run_append, latched_run_iff settled] at latched
    obtain ⟨earlier, edge, later, rfl, hedge, -⟩ := latched
    rw [← run_append, ← List.append_cons] at hedge
    exact ⟨earlier, edge, later, rfl, hedge⟩

/-- LDS #$0800 at address 0. -/
def stacking : Ram := { contents := #[0x10, 0xCE, 0x08, 0x00] }

/-- The edge before LDS is forgotten, also while the line is held. The one after it is entered. -/
theorem nmi_edge_triggered_lds :
    ¬EntersNmi ((ofMemory stacking).run [.nmi true, .step]) .step ∧
      EntersNmi ((ofMemory stacking).run [.nmi true, .step, .nmi false, .nmi true]) .step := by
  have early := nmi_edge_triggered stacking [.nmi true, .step]
  have late := nmi_edge_triggered stacking [.nmi true, .step, .nmi false, .nmi true]
  constructor
  · rw [early.enters_iff .step trivial, ← early.latched_iff]
    decide +kernel
  · rw [late.enters_iff .step trivial, ← late.latched_iff]
    decide +kernel

end Machine

end Machine6809
