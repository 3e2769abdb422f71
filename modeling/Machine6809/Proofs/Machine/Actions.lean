import Machine6809.Machine.Tick
import Mathlib.Data.Nat.Notation
import Mathlib.Tactic.SplitIfs

/-!
# What an action leaves and what it gives

An action of the machine is a function on states, and most statements about it are about one half
of its result only: the machine afterwards (`Machine.after`) or the value (`Machine.gives`). The
equations for the two run through an action from its first line to its last.

A step is the machine's `work` between a beginning and an end. `Machine.started` is the machine as
the work finds it, with nothing left to count down and the posted writes adopted, and
`Machine.finished` is what becomes of it once the cost of the work is known.
-/

namespace Machine6809

/-- Signals leave alone what each of them leaves alone. -/
theorem Cpu.foldl_absorb {γ : Type} {part : Cpu → γ}
    (h : ∀ cpu signal, part (Cpu.absorb cpu signal) = part cpu) (signals : List Signal)
    (cpu : Cpu) : part (signals.foldl Cpu.absorb cpu) = part cpu := by
  induction signals generalizing cpu with
  | nil => rfl
  | cons signal signals ih => exact (ih _).trans (h cpu signal)

namespace Machine

variable {μ α β : Type}

/-- The machine after an action. -/
def after (m : Machine μ) (x : Exec μ α) : Machine μ := (x m).2

/-- The value that an action gives. -/
def gives (m : Machine μ) (x : Exec μ α) : α := (x m).1

section Actions

variable (m : Machine μ)

-- With a bare `rfl` for a proof, `simp` would rewrite the condition of an `if` and leave the old
-- one in its `Decidable` instance, and `after_ite` would not match any more.

@[simp] theorem after_pure (a : α) : m.after (pure a) = m := (rfl)

@[simp] theorem gives_pure (a : α) : m.gives (pure a) = a := (rfl)

/-- The second action starts where the first has ended. -/
@[simp] theorem after_bind (x : Exec μ α) (f : α → Exec μ β) :
    m.after (x >>= f) = (m.after x).after (f (m.gives x)) := (rfl)

/-- It gives what the second action gives. -/
@[simp] theorem gives_bind (x : Exec μ α) (f : α → Exec μ β) :
    m.gives (x >>= f) = (m.after x).gives (f (m.gives x)) := (rfl)

@[simp] theorem after_map (f : α → β) (x : Exec μ α) : m.after (f <$> x) = m.after x := (rfl)

@[simp] theorem gives_map (f : α → β) (x : Exec μ α) : m.gives (f <$> x) = f (m.gives x) := (rfl)

@[simp] theorem after_ite (c : Prop) [Decidable c] (x y : Exec μ α) :
    m.after (if c then x else y) = if c then m.after x else m.after y := by
  split_ifs <;> rfl

@[simp] theorem gives_ite (c : Prop) [Decidable c] (x y : Exec μ α) :
    m.gives (if c then x else y) = if c then m.gives x else m.gives y := by
  split_ifs <;> rfl

@[simp] theorem after_get : m.after (get : Exec μ (Machine μ)) = m := (rfl)

@[simp] theorem gives_get : m.gives (get : Exec μ (Machine μ)) = m := (rfl)

@[simp] theorem after_registers : m.after registers = m := (rfl)

@[simp] theorem gives_registers : m.gives registers = m.cpu.registers := (rfl)

/-- A change of the processor leaves the rest of the machine alone. -/
@[simp] theorem after_modifyCpu (f : Cpu → Cpu) :
    m.after (modifyCpu f) = { m with cpu := f m.cpu } := (rfl)

/-- A change of the registers leaves the rest of the processor alone. -/
@[simp] theorem after_modifyRegisters (f : Registers → Registers) :
    m.after (modifyRegisters f) =
      { m with cpu := { m.cpu with registers := f m.cpu.registers } } := (rfl)

end Actions

/-! ### Steps -/

/-- The machine with `k` cycles left to count down. -/
def withCountdown (m : Machine μ) (k : ℕ) : Machine μ :=
  { m with cpu := { m.cpu with countdown := k } }

/-- The machine as its next work finds it. -/
def started (m : Machine μ) : Machine μ := { m with cpu := (m.withCountdown 0).cpu.adopt }

/-- The machine with its registers published. -/
def published (m : Machine μ) : Machine μ := { m with cpu := m.cpu.publish }

/-- The machine after work that cost `used` cycles, the first of which is over. -/
def finished (m : Machine μ) (used : ℕ) : Machine μ :=
  { m with
    cpu := { m.cpu.publish with countdown := used - 1, totalCycles := m.cpu.totalCycles + used } }

variable [Memory μ] {m : Machine μ} {used : ℕ} {fault : Fault}

/-- A tick with nothing left to wait for does the work of a step. -/
theorem tick_withCountdown_zero (m : Machine μ) : (m.withCountdown 0).tick =
    match m.started.gives work with
    | .error fault => (Except.error fault, (m.started.after work).published)
    | .ok used => (Except.ok (), (m.started.after work).finished used) := rfl

/-- A step is such a tick, and it reports the cycles that were used. -/
theorem step_eq (m : Machine μ) : m.step =
    ((m.withCountdown 0).tick.1.map fun () =>
        (m.withCountdown 0).tick.2.cpu.totalCycles - m.cpu.totalCycles,
      (m.withCountdown 0).tick.2) := rfl

/-- A step that succeeds. -/
theorem step_of_ok (h : m.started.gives work = .ok used) :
    m.step = (.ok (((m.started.after work).finished used).cpu.totalCycles - m.cpu.totalCycles),
      (m.started.after work).finished used) := by
  rw [step_eq, tick_withCountdown_zero, h]
  rfl

/-- A step that faults. -/
theorem step_of_error (h : m.started.gives work = .error fault) :
    m.step = (.error fault, (m.started.after work).published) := by
  rw [step_eq, tick_withCountdown_zero, h]
  rfl

end Machine

end Machine6809
