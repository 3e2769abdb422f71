import Machine6809.Proofs.Machine.Actions
import Mathlib.Data.List.Induction
import Mathlib.Data.Nat.Notation

/-!
# What happens to a machine

Between two cycles of the clock observers post writes to the register file and the interrupt lines
are driven. `Event` lists what can happen, and `Machine.run` is the machine after it has happened. A
tick with nothing to count down and any step do the machine's work (`Machine.Works`), and all such
events do the same to everything but the clock (`happen_of_works`).

Statements about the past of a machine say that something has occurred and that nothing has ended it
since then (`Machine.Since`). Such a statement follows from what a single event does
(`run_iff_since`), by induction from the end.
-/

namespace Machine6809

/-- What can happen to the machine. -/
inductive Event where
  /-- An observer posts a write to the register file. -/
  | write (w : RegisterWrite)
  | nmi (asserted : Bool)
  | firq (asserted : Bool)
  | irq (asserted : Bool)
  | tick
  | step
  | reset

namespace Machine

variable {μ : Type} [Memory μ]

/-- The machine after something has happened. -/
def happen (m : Machine μ) : Event → Machine μ
  | .write w => { m with cpu := m.cpu.post w }
  | .nmi asserted => { m with cpu := m.cpu.driveNmi asserted }
  | .firq asserted => { m with cpu := m.cpu.driveFirq asserted }
  | .irq asserted => { m with cpu := m.cpu.driveIrq asserted }
  | .tick => m.tick.2
  | .step => m.step.2
  | .reset => m.after reset

/-- The machine after many things have happened one after the other. -/
def run (m : Machine μ) (events : List Event) : Machine μ := events.foldl happen m

/-- What happens makes the machine adopt the writes that wait, work and publish its registers. -/
def Works {μ : Type} (m : Machine μ) : Event → Prop
  | .step => True
  | .tick => m.cpu.countdown = 0
  | .write _ | .nmi _ | .firq _ | .irq _ | .reset => False

instance {μ : Type} (m : Machine μ) (e : Event) : Decidable (m.Works e) := by
  unfold Works
  split <;> infer_instance

/-- The first part of a reset, with its only accesses to memory. -/
def restart : Exec μ Unit := do
  modifyRegisters fun r => { r with dp := 0, cc := { r.cc with i := true, f := true } }
  gotoVector VectorAddress.reset

/-- A reset restarts the processor and lets go of everything else. -/
theorem after_reset (m : Machine μ) : m.after reset =
    { m.after restart with
      cpu := { (m.after restart).cpu with
        lines := InterruptLines.released
        wait := .normal
        countdown := 0
        file := (m.after restart).cpu.file.take.2.publish (m.after restart).cpu.registers } } := rfl

variable {m : Machine μ} {e : Event}

theorem run_append (m : Machine μ) (before after : List Event) :
    m.run (before ++ after) = (m.run before).run after :=
  List.foldl_append

theorem run_concat (m : Machine μ) (es : List Event) (e : Event) :
    m.run (es ++ [e]) = (m.run es).happen e :=
  run_append m es [e]

/-- Work ends with a publication, and if it succeeds with a count of cycles as well. -/
theorem happen_of_works (h : m.Works e) :
    m.happen e = (m.started.after work).published ∨
      ∃ used, m.happen e = (m.started.after work).finished used := by
  -- both kinds of events do the work of one tick
  have tick : (m.withCountdown 0).tick.2 = (m.started.after work).published ∨
      ∃ used, (m.withCountdown 0).tick.2 = (m.started.after work).finished used := by
    rw [tick_withCountdown_zero]
    cases m.started.gives work with
    | error fault => exact .inl rfl
    | ok used => exact .inr ⟨used, rfl⟩
  cases e with
  | step => exact tick
  | tick =>
    have start : m.withCountdown 0 = m := by
      have hzero : m.cpu.countdown = 0 := h
      show ({ m with cpu := { m.cpu with countdown := 0 } } : Machine μ) = m
      rw [← hzero]
    rwa [start] at tick
  | write _ | nmi _ | firq _ | irq _ | reset => exact absurd h id

/-- What work leaves in the processor stays there, the clock and the register file apart. -/
theorem cpu_of_works (h : m.Works e) :
    (m.happen e).cpu.registers = (m.started.after work).cpu.registers ∧
      (m.happen e).cpu.lines = (m.started.after work).cpu.lines ∧
      (m.happen e).cpu.file
        = (m.started.after work).cpu.file.publish (m.started.after work).cpu.registers := by
  obtain hfailed | ⟨used, hdone⟩ := happen_of_works h
  · rw [hfailed]
    exact ⟨rfl, rfl, rfl⟩
  · rw [hdone]
    exact ⟨rfl, rfl, rfl⟩

/-- A tick that only counts down. -/
theorem happen_tick_of_not_works (h : ¬m.Works .tick) :
    m.happen .tick = m.withCountdown (m.cpu.countdown - 1) := by
  have hpos : ¬m.cpu.countdown = 0 := h
  show (if m.cpu.countdown = 0 then _ else _ : Except Fault Unit × Machine μ).2 = _
  rw [if_neg hpos]
  rfl

/-! ### The past -/

/-- Something of the first kind has happened, and since then nothing of the second kind. -/
def Since (occurs ends : Machine μ → Event → Prop) (m : Machine μ) (es : List Event) : Prop :=
  ∃ before e after, es = before ++ e :: after ∧ occurs (m.run before) e ∧
    ∀ between e' rest, after = between ++ e' :: rest → ¬ends (m.run (before ++ e :: between)) e'

variable {occurs ends : Machine μ → Event → Prop} {es : List Event}

/-- Nothing has occurred since nothing. -/
theorem not_since_nil : ¬Since occurs ends m [] := by
  rintro ⟨before, e, after, h, -⟩
  exact absurd h (by simp)

/-- One event more: it occurs now, or it has occurred before and has not been ended. -/
theorem since_concat_iff : Since occurs ends m (es ++ [e]) ↔
    occurs (m.run es) e ∨ ¬ends (m.run es) e ∧ Since occurs ends m es := by
  constructor
  · rintro ⟨before, e₁, after, h, hoccurs, hends⟩
    -- either the last event is the one that occurred, or it is among those after it
    obtain rfl | ⟨after, last, rfl⟩ := after.eq_nil_or_concat
    · obtain ⟨rfl, hlast⟩ := List.append_inj' h rfl
      obtain ⟨rfl, -⟩ := List.cons.inj hlast
      exact .inl hoccurs
    · rw [List.concat_eq_append, ← List.cons_append, ← List.append_assoc] at h
      obtain ⟨rfl, hlast⟩ := List.append_inj' h rfl
      obtain ⟨rfl, -⟩ := List.cons.inj hlast
      refine .inr ⟨hends after _ [] (List.concat_eq_append ..), before, e₁, after, rfl, hoccurs, ?_⟩
      rintro between e' rest rfl
      exact hends between e' (rest ++ [e]) (by simp)
  · -- it occurs now, or the last event does not end it
    rintro (hoccurs | ⟨hends, before, e₁, after, rfl, hoccurs, hafter⟩)
    · exact ⟨es, e, [], rfl, hoccurs, fun between e' rest h => absurd h (by simp)⟩
    · refine ⟨before, e₁, after ++ [e], by simp, hoccurs, ?_⟩
      intro between e' rest h
      obtain rfl | ⟨rest, last, rfl⟩ := rest.eq_nil_or_concat
      · obtain ⟨rfl, hlast⟩ := List.append_inj' h rfl
        obtain ⟨rfl, -⟩ := List.cons.inj hlast
        exact hends
      · rw [List.concat_eq_append, ← List.cons_append, ← List.append_assoc] at h
        exact hafter between e' rest (List.append_inj' h rfl).1

/-- What occurrences bring about and nothing but an end undoes is the case exactly as long as there
has been an occurrence and no end since then. -/
theorem run_iff_since {P : Machine μ → Prop} (start : ¬P m)
    (step : ∀ es e, P ((m.run es).happen e) ↔
      occurs (m.run es) e ∨ ¬ends (m.run es) e ∧ P (m.run es)) (es : List Event) :
    P (m.run es) ↔ Since occurs ends m es := by
  induction es using List.reverseRecOn with
  | nil => exact iff_of_false start not_since_nil
  | append_singleton es e ih => rw [run_concat, step, since_concat_iff, ih]

end Machine

end Machine6809
