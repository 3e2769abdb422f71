import Machine6809.Proofs.Machine.Executing
import Machine6809.Proofs.Machine.Simulation
import Mathlib.Data.Nat.Notation

/-!
# Where vectors lead

An interrupt, a software interrupt and a reset all end with a jump through a vector. If memory
always holds the same address there (`Points`), then that is where they lead, whatever is stacked or
accessed before. The parts of an action before the jump have to leave memory that way
(`Leads.bind`), and for this they only have to be made of loads and stores.
-/

namespace Machine6809

/-- The vector of a software interrupt. -/
def Operation.vector? : Operation → Option Word
  | .swi vector _ => some vector
  | _ => none

/-- An operation with a vector is a software interrupt. -/
theorem Operation.exists_of_vector? {operation : Operation} {vector : Word}
    (h : operation.vector? = some vector) : ∃ masks, operation = .swi vector masks := by
  cases operation with
  | swi v masks =>
    obtain rfl := Option.some.inj h
    exact ⟨masks, rfl⟩
  | _ => exact nomatch h

namespace Machine

/-- As long as memory has the property, the vector holds this address. -/
def Points {μ : Type} [Memory μ] (I : μ → Prop) (vector target : Word) : Prop :=
  ∃ high low, target = wordOf high low ∧ ∀ M, I M →
    (Memory.load M vector).value = high ∧ (Memory.load M (vector + 1)).value = low

/-- If memory has the property, then the action ends with PC at this address. -/
def Leads {μ α : Type} (I : μ → Prop) (target : Word) (x : Exec μ α) : Prop :=
  ∀ m : Machine μ, I m.memory → (m.after x).cpu.registers.pc = target

variable {μ α β : Type} {I : μ → Prop} {vector target : Word}

section Leads

theorem Leads.bind {x : Exec μ α} {f : α → Exec μ β} (hx : Agree (Holds I) x x)
    (hf : ∀ a, Leads I target (f a)) : Leads I target (x >>= f) :=
  fun _ hm => hf _ _ (holds_after hx hm)

/-- What comes after the jump may leave PC alone. -/
theorem Leads.andThen {x : Exec μ α} {f : α → Exec μ β} (hx : Leads I target x)
    (hf : ∀ (m : Machine μ) a, (m.after (f a)).cpu.registers.pc = m.cpu.registers.pc) :
    Leads I target (x >>= f) :=
  fun m hm => (hf _ _).trans (hx m hm)

theorem Leads.ite {x y : Exec μ α} {c : Prop} [Decidable c] (hx : Leads I target x)
    (hy : Leads I target y) : Leads I target (if c then x else y) := by
  split_ifs
  · exact hx
  · exact hy

end Leads

variable [Memory μ]

section Jumps

variable (lasting : Lasting I) (points : Points I vector target)
include lasting points

/-- Going to a vector leads to the address that it holds. -/
theorem leads_gotoVector : Leads I target (gotoVector vector) := by
  intro m hm
  obtain ⟨high, low, rfl, values⟩ := points
  have next := holds_after (lasting.frame.load vector) hm
  show wordOf (Memory.load m.memory vector).value
    (Memory.load (m.after (load vector)).memory (vector + 1)).value = _
  rw [(values _ hm).1, (values _ next).2]

end Jumps

section Entries

variable (lasting : Lasting I)
include lasting

theorem leads_leaveFor {source : InterruptSource} (points : Points I source.vector target)
    (stacked : Bool) : Leads I target (leaveFor source stacked) := by
  have rest : Leads I target (maskInterrupts >>= fun _ => gotoVector source.vector) :=
    .bind lasting.frame.maskInterrupts fun _ => leads_gotoVector lasting points
  exact .ite (.bind (lasting.frame.pushInterruptFrame source) fun _ => rest) rest

/-- Entering an interrupt leads to its handler. -/
theorem leads_enterInterrupt {source : InterruptSource} (points : Points I source.vector target)
    (stacked : Bool) : Leads I target (enterInterrupt source stacked) := by
  have frame := lasting.frame
  refine .bind frame.registers fun r => .bind (frame.note _) fun _ => ?_
  cases source with
  | nmi => exact .bind unlatches_relates fun _ => leads_leaveFor lasting points stacked
  | firq | irq => exact leads_leaveFor lasting points stacked

theorem leads_swi (points : Points I vector target) (masks : Bool) (address : Word) :
    Leads I target (perform (.swi vector masks) address) := by
  have frame := lasting.frame
  have jump : Leads I target (gotoVector vector >>= fun _ => (pure 0 : Exec μ ℕ)) :=
    (leads_gotoVector lasting points).andThen fun _ _ => rfl
  exact .bind frame.pushEntireState fun _ => .ite (.bind frame.maskInterrupts fun _ => jump) jump

/-- A restart leads to where the reset vector points. -/
theorem leads_restart (points : Points I VectorAddress.reset target) :
    Leads I target (restart : Exec μ Unit) :=
  .bind (lasting.frame.modifyRegisters _) fun _ => leads_gotoVector lasting points

end Entries

/-! ### Events -/

/-- No software interrupt has an operand, and their vectors are these three. -/
theorem swi_rows : ∀ row ∈ OpcodeMap.rows, row.operation.vector? = none ∨
    row.mode = .inherent ∧ row.operation.vector?
      ∈ [VectorAddress.swi, VectorAddress.swi2, VectorAddress.swi3].map some := by
  decide +kernel

section Events

variable {m : Machine μ} {e : Event} (lasting : Lasting I)
include lasting

/-- An interrupt that is accepted leads through its vector. -/
theorem pc_of_accepted {source : InterruptSource} (points : Points I source.vector target)
    (hm : I m.memory) (works : m.Works e)
    (accepted : m.started.cpu.lines.accepted m.started.cpu.registers.cc = some source) :
    (m.happen e).cpu.registers.pc = target := by
  rw [(cpu_of_works works).1]
  by_cases hw : m.started.cpu.wait = .cwai
  · rw [(work_of_wake hw accepted).1]
    exact leads_enterInterrupt lasting points true _ hm
  · rw [(work_of_accepted hw accepted).1]
    exact leads_enterInterrupt lasting points false _ hm

/-- A software interrupt that is executed leads through its vector. -/
theorem pc_of_swi {row : Instruction} (points : Points I vector target) (hm : I m.memory)
    (works : m.Works e) (executes : m.started.Executes)
    (hrow : OpcodeMap.lookup? (m.started.awake.gives fetchOpcode).1 = some row)
    (hvector : row.operation.vector? = some vector) :
    (m.happen e).cpu.registers.pc = target := by
  obtain ⟨masks, hswi⟩ := Operation.exists_of_vector? hvector
  -- a row that has a vector is one of the three software interrupts
  have hmode : row.mode = .inherent := by
    obtain hnone | ⟨hmode, -⟩ := swi_rows row (List.mem_of_find?_eq_some hrow)
    · exact nomatch hnone.symm.trans hvector
    · exact hmode
  -- the opcode is fetched, and there is no operand to locate
  -- nothing that is executed moves the vector
  have fetched : I (m.started.awake.after fetchOpcode).memory :=
    holds_after (m := m.started.awake) lasting.frame.fetchOpcode hm
  have opened : I m.started.awake.opened.memory := fetched
  have located (m' : Machine μ) (start : Word) :
      m'.gives (resolve row.mode row.code start) = .ok ⟨0, [], 0⟩ ∧
        m'.after (resolve row.mode row.code start) = m' := by
    rw [hmode]
    exact ⟨rfl, rfl⟩
  obtain ⟨-, done⟩ := executeNext_of_row hrow
  obtain ⟨gives, stays⟩ := located m.started.awake.opened m.started.awake.cpu.registers.pc
  rw [(executeRow_of_located _ gives).2, stays, hswi] at done
  dsimp only at done
  rw [(cpu_of_works works).1, (work_of_executes executes).1, done, registers_noteExecuted]
  exact leads_swi lasting points masks 0 m.started.awake.opened opened

/-- A reset leads through the reset vector. -/
theorem pc_of_reset (points : Points I VectorAddress.reset target) (hm : I m.memory) :
    (m.after reset).cpu.registers.pc = target :=
  leads_restart lasting points m hm

end Events

end Machine

end Machine6809
