import Machine6809.Memory.Ram
import Machine6809.Proofs.Machine.Agreement
import Machine6809.Proofs.Machine.Locating
import Mathlib.Data.Nat.Notation

/-!
# Ticks keep pace with steps

A tick that has nothing to count down does the whole work of an instruction, and the ticks after it
count down its cost. A step drops what is left of a countdown and does the work of the next
instruction at once. The two ways of running the machine lead to the same states at the same times,
as far as instructions begin and end, because

* work leaves the clock alone (`clock_work`), whatever it does to the rest of the machine,
* no work is free (`one_le_work`), so that the first tick is one of those that are paid for,
* counting down changes nothing but the count (`ticks_go_countdown`).

`ticks_go_of_steps` is the run, by induction over its steps. It says nothing about the countdown
that the run begins with, since a step drops it.
-/

namespace Machine6809

namespace Machine

/-- What the machine knows of time: the cycles it has still to count down and those it has used. -/
def clock {μ : Type} (m : Machine μ) : ℕ × ℕ := (m.cpu.countdown, m.cpu.totalCycles)

/-- Whatever work does, the cycles are not charged by it but afterwards. -/
theorem clock_work {μ : Type} [Memory μ] (m : Machine μ) : (m.after work).clock = m.clock := by
  have frame : Frame (Kept (μ := μ) (fun cpu => (cpu.countdown, cpu.totalCycles)) m.clock) := by
    refine frame_kept ?absorb ?plain _
    case absorb =>
      -- a signal is a message or a posted write, and neither has to do with time
      intro cpu signal
      cases signal <;> rfl
    case plain =>
      intro f plain cpu
      exact Prod.ext (plain.countdown cpu) (plain.totalCycles cpu)
  refine (frame.work ?arms (agree_kept fun _ => rfl) ?visits).kept m
  case arms => exact fun _ => agree_kept fun _ => rfl
  case visits => exact fun _ => agree_kept fun _ => rfl

/-! ### Nothing is free

A cost of zero would be fatal: the countdown after it is zero as well, and so the first tick would
go unpaid. -/

section Costs

variable {μ : Type} [Memory μ] {m : Machine μ} {used : ℕ}

/-- Each instruction takes time. -/
theorem one_le_cycles : ∀ row ∈ OpcodeMap.rows, 1 ≤ row.cycles := by decide +kernel

/-- So does an instruction that has run. -/
theorem one_le_executeNext (h : m.gives executeNext = .ok used) : 1 ≤ used := by
  obtain ⟨row, operand, locates⟩ := exists_locates h
  obtain ⟨⟨extra, cost⟩, -⟩ := executeRow_of_located (m.gives fetchOpcode).2 locates.resolved
  rw [(executeNext_of_row locates.lookup).1, cost] at h
  have hused : row.cycles + operand.cycles + extra = used := Except.ok.inj h
  have := one_le_cycles row locates.row_mem
  omega

/-- So does the entry into an interrupt. -/
theorem one_le_entryCycles (source : InterruptSource) : 1 ≤ entryCycles source := by
  cases source <;> decide

/-- So does any work that succeeds. -/
theorem one_le_work (h : m.gives work = .ok used) : 1 ≤ used := by
  cases accepted : m.cpu.lines.accepted m.cpu.registers.cc with
  -- an entry, with or without a frame to push
  | some source =>
    by_cases wait : m.cpu.wait = .cwai
    · have cost := Except.ok.inj ((work_of_wake wait accepted).2.symm.trans h)
      exact cost ▸ (by decide : 1 ≤ wakeCycles)
    · have cost := Except.ok.inj ((work_of_accepted wait accepted).2.symm.trans h)
      exact cost ▸ one_le_entryCycles source
  -- an instruction, or a cycle of waiting
  | none =>
    by_cases executes : m.Executes
    · exact one_le_executeNext ((work_of_executes executes).2.symm.trans h)
    · exact Nat.le_of_eq (Except.ok.inj ((work_of_idle accepted executes).2.symm.trans h))

end Costs

/-! ### Steps and their ticks -/

section Ticks

variable {μ : Type} [Memory μ] {m m' : Machine μ} {fault : Fault} {c n : ℕ}

omit [Memory μ] in
/-- A countdown set to what it is. -/
theorem withCountdown_self (hm : m.cpu.countdown = c) : m.withCountdown c = m := by
  subst hm
  rfl

/-- A tick with something to wait for only counts down. -/
theorem tick_withCountdown_succ (m : Machine μ) (k : ℕ) :
    (m.withCountdown (k + 1)).tick = (.ok (), m.withCountdown k) := rfl

/-- A step that succeeds is a tick that succeeds and leaves the rest of the cost to count down. -/
theorem tick_of_step_ok (h : m.step = (.ok c, m')) :
    1 ≤ c ∧ (m.withCountdown 0).tick = (.ok (), m'.withCountdown (c - 1)) ∧
      m'.cpu.totalCycles = m.cpu.totalCycles + c := by
  cases hw : m.started.gives work with
  | error fault =>
    rw [step_of_error hw] at h
    exact nomatch h
  | ok used =>
    -- The step gives the difference of two totals, which is the cost since work leaves them alone.
    have total : (m.started.after work).cpu.totalCycles = m.cpu.totalCycles :=
      congrArg Prod.snd (clock_work m.started)
    rw [step_of_ok hw] at h
    obtain ⟨hc, rfl⟩ := Prod.mk.inj h
    have hc : used = c := by
      have := Except.ok.inj hc
      simp only [finished] at this
      omega
    subst hc
    refine ⟨one_le_work hw, ?_, ?_⟩
    · -- one of the cycles passes with the tick itself
      rw [tick_withCountdown_zero, hw]
      rfl
    · simp only [finished]
      omega

/-- A step that faults is a tick that faults. -/
theorem tick_of_step_error (h : m.step = (.error fault, m')) :
    (m.withCountdown 0).tick = (.error fault, m') := by
  cases hw : m.started.gives work with
  | error fault' =>
    rw [step_of_error hw] at h
    obtain ⟨hf, rfl⟩ := Prod.mk.inj h
    rw [tick_withCountdown_zero, hw, Except.error.inj hf]
  | ok used =>
    rw [step_of_ok hw] at h
    exact nomatch h

/-- As many ticks as there are left to wait only count down. -/
theorem ticks_go_countdown (m : Machine μ) (k : ℕ) : ∀ j d : ℕ,
    ticks.go d j (m.withCountdown (j + k)) = (.ok (), m.withCountdown k) := by
  intro j
  induction j with
  | zero => intro d; rw [Nat.zero_add]; rfl
  | succ j ih =>
    intro d
    rw [Nat.succ_add, ticks.go, tick_withCountdown_succ]
    exact ih (d + 1)

/-- Ticks in two parts, of which the first succeeds. -/
theorem ticks_go_add {d a : ℕ} (h : ticks.go d a m = (.ok (), m')) (b : ℕ) :
    ticks.go d (a + b) m = ticks.go (d + a) b m' := by
  -- over the first ticks, none of which has failed
  induction a generalizing d m with
  | zero =>
    cases (Prod.mk.inj h).2
    rw [Nat.zero_add, Nat.add_zero]
  | succ a ih =>
    rw [Nat.succ_add]
    rw [ticks.go] at h ⊢
    split at h
    · rw [ih h, Nat.add_right_comm, Nat.add_assoc]
    · exact nomatch h

/-- Within its cost a step takes as many ticks as one asks for. -/
theorem ticks_go_of_step (h : m.step = (.ok c, m')) {j : ℕ} (hj : 1 ≤ j) (hjc : j ≤ c) (d : ℕ) :
    ticks.go d j (m.withCountdown 0) = (.ok (), m'.withCountdown (c - j)) := by
  obtain ⟨-, tick, -⟩ := tick_of_step_ok h
  obtain ⟨j, rfl⟩ := Nat.exists_eq_add_of_le' hj
  -- The first tick is the step, the others count down.
  calc ticks.go d (j + 1) (m.withCountdown 0)
    _ = ticks.go (d + 1) j (m'.withCountdown (c - 1)) := by rw [ticks.go, tick]
    _ = ticks.go (d + 1) j (m'.withCountdown (j + (c - (j + 1)))) := by
      rw [show c - 1 = j + (c - (j + 1)) by omega]
    _ = (.ok (), m'.withCountdown (c - (j + 1))) := ticks_go_countdown m' _ j (d + 1)

/-- A run of steps is a run of as many ticks as it uses cycles. -/
theorem ticks_go_of_steps (h : m.steps n = (.ok (), m')) :
    ∃ T, m'.cpu.totalCycles = m.cpu.totalCycles + T ∧
      ∀ d, ticks.go d T (m.withCountdown 0) = (.ok (), m'.withCountdown 0) := by
  induction n generalizing m with
  | zero =>
    cases (Prod.mk.inj h).2
    exact ⟨0, rfl, fun _ => rfl⟩
  -- the steps after the first one take as many ticks as the induction says
  | succ n ih =>
    rw [steps] at h
    split at h
    · rename_i c m₁ hstep
      obtain ⟨T, total, hT⟩ := ih h
      obtain ⟨hc, -, total₁⟩ := tick_of_step_ok hstep
      refine ⟨c + T, by omega, fun d => ?_⟩
      -- The first step's ticks run its countdown out, and there the others begin.
      have first := ticks_go_of_step hstep hc (Nat.le_refl c) d
      rw [Nat.sub_self] at first
      calc ticks.go d (c + T) (m.withCountdown 0)
        _ = ticks.go (d + c) T (m₁.withCountdown 0) := ticks_go_add first T
        _ = (.ok (), m'.withCountdown 0) := hT (d + c)
    · exact nomatch h

/-- If steps fail, then after some steps that succeed one fails. -/
theorem exists_step_of_steps_error (h : m.steps n = (.error fault, m')) :
    ∃ k < n, ∃ m₁, m.steps k = (.ok (), m₁) ∧ m₁.step = (.error fault, m') := by
  induction n generalizing m with
  | zero => exact nomatch h
  | succ n ih =>
    rw [steps] at h
    split at h
    · -- the first step succeeds, so the failure comes later
      rename_i c m₁ hstep
      obtain ⟨k, hk, m₂, hm₂, fails⟩ := ih h
      refine ⟨k + 1, by omega, m₂, ?_, fails⟩
      rw [steps, hstep]
      exact hm₂
    · -- the first step fails
      rename_i fault' m₁ hstep
      obtain ⟨hf, rfl⟩ := Prod.mk.inj h
      exact ⟨0, by omega, m, rfl, Except.error.inj hf ▸ hstep⟩

/-- Steps that succeed are as many ticks as they use cycles, and the two end in the same state but
for the countdown that the last step leaves. The first step that fails is the tick after those, with
the same fault and the same state. One step alone counts its cost down, tick by tick. -/
theorem ticks_keep_pace_with_steps (m : Machine μ) (hm : m.cpu.countdown = 0) (n : ℕ) :
    (∀ m', m.steps n = (.ok (), m') →
      ∃ T, m'.cpu.totalCycles = m.cpu.totalCycles + T ∧
        m.ticks T = (.ok (), m'.withCountdown 0)) ∧
    (∀ fault m', m.steps n = (.error fault, m') →
      ∃ k < n, ∃ m₁, m.steps k = (.ok (), m₁) ∧ m₁.step = (.error fault, m') ∧
        ∃ T, m₁.cpu.totalCycles = m.cpu.totalCycles + T ∧
          m.ticks T = (.ok (), m₁.withCountdown 0) ∧
          (m₁.withCountdown 0).tick = (.error fault, m') ∧
          m.ticks (T + 1) = (.error (fault, T), m')) ∧
    ∀ c m', m.step = (.ok c, m') →
      1 ≤ c ∧ m'.cpu.totalCycles = m.cpu.totalCycles + c ∧
        ∀ j, 1 ≤ j → j ≤ c → m.ticks j = (.ok (), m'.withCountdown (c - j)) := by
  have start : m.withCountdown 0 = m := withCountdown_self hm
  refine ⟨fun m' h => ?_, fun fault m' h => ?_, fun c m' h => ?_⟩
  · -- all steps succeed
    obtain ⟨T, total, hT⟩ := ticks_go_of_steps h
    exact ⟨T, total, start ▸ hT 0⟩
  · -- the first fault: the ticks reach its step, and the next tick faults
    obtain ⟨k, hk, m₁, hm₁, fails⟩ := exists_step_of_steps_error h
    obtain ⟨T, total, hT⟩ := ticks_go_of_steps hm₁
    rw [start] at hT
    have tick := tick_of_step_error fails
    refine ⟨k, hk, m₁, hm₁, fails, T, total, hT 0, tick, ?_⟩
    rw [ticks, ticks_go_add (hT 0), Nat.zero_add, ticks.go, tick]
  · -- inside of one step: the work is done in its first tick
    obtain ⟨hc, -, total⟩ := tick_of_step_ok h
    refine ⟨hc, total, fun j hj hjc => ?_⟩
    have := ticks_go_of_step h hj hjc 0
    rwa [start] at this

/-- A machine before NOP, MUL and an opcode without a row. -/
def nopMul : Machine Ram := ofMemory { contents := #[0x12, 0x3D, 0x01] }

/-- Two and eleven cycles, and then the fault. -/
theorem ticks_keep_pace_with_steps_nopMul :
    nopMul.cpu.countdown = 0 ∧
      (∃ m', nopMul.steps 2 = (.ok (), m') ∧ nopMul.ticks 13 = (.ok (), m'.withCountdown 0)) ∧
      ∃ m' T, nopMul.steps 5 = (.error (.invalidOpcode 0x01 2), m') ∧
        nopMul.ticks (T + 1) = (.error (.invalidOpcode 0x01 2, T), m') := by
  have h : nopMul.cpu.countdown = 0 := rfl
  have two : nopMul.steps 2 = (.ok (), (nopMul.steps 2).2) := rfl
  have five : nopMul.steps 5 = (.error (.invalidOpcode 0x01 2), (nopMul.steps 5).2) := rfl
  obtain ⟨T, total, ticks⟩ := (ticks_keep_pace_with_steps nopMul h 2).1 _ two
  obtain ⟨-, -, -, -, -, T', -, -, -, fails⟩ :=
    (ticks_keep_pace_with_steps nopMul h 5).2.1 _ _ five
  have : T = 13 := (Nat.zero_add T).symm.trans total.symm
  exact ⟨h, ⟨_, two, this ▸ ticks⟩, _, T', five, fails⟩

end Ticks

end Machine

end Machine6809
