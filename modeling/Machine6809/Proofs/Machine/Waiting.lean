import Machine6809.Proofs.Machine.Edges
import Machine6809.Proofs.Machine.Pacing
import Machine6809.Proofs.Machine.Stores
import Machine6809.Proofs.Machine.Vectors

/-!
# Waiting for an interrupt

SYNC and CWAI halt the machine until an interrupt line calls it (`Machine.Called`). SYNC listens to
all lines, masked or not; CWAI only to those that are not masked. As long as nothing calls, a tick
does nothing but to charge one cycle (`tick_of_uncalled`), and so a machine that waits can be left
alone for any time, whatever is done to its lines meanwhile (`rested_run`, by induction over what
happens).

The tick that finds the machine called ends the wait. There are three ways to go on: from SYNC into
an interrupt, with a new frame (`EntersFresh`); from SYNC on to the next instruction if all that
calls is masked (`Resumes`); and from CWAI into an interrupt, without a frame, because CWAI has
pushed it (`EntersStacked`). Which interrupt it is (`Chooses`) depends on the lines and the masks
alone, here as everywhere: nothing enters FIRQ or IRQ past its mask (`unmasked`).
-/

namespace Machine6809

/-- The frame of an interrupt ends with the address to return to. -/
theorem Entry.exists_frame_interrupt (source : InterruptSource) (r : Registers) :
    ∃ rest, (Entry.interrupt source).frame r = rest ++ [highByte r.pc, lowByte r.pc] := by
  rw [Entry.frame, Entry.saved_interrupt]
  cases source with
  | firq => exact ⟨[_], rfl⟩
  | nmi | irq => exact ⟨[_, _, _, _, _, _, _, _, _, _], rfl⟩

/-- It may happen while the machine waits: time passes or a line is driven. -/
def Event.Passes : Event → Prop
  | .tick | .nmi _ | .firq _ | .irq _ => True
  | .write _ | .step | .reset => False

/-- A cycle of the clock passes. -/
def Event.isTick : Event → Bool
  | .tick => true
  | _ => false

/-- The lines after something has happened to them from outside. -/
def InterruptLines.drive (lines : InterruptLines) : Event → InterruptLines
  | .nmi asserted => lines.driveNmi asserted
  | .firq asserted => { lines with firq := asserted }
  | .irq asserted => { lines with irq := asserted }
  | .write _ | .tick | .step | .reset => lines

namespace Machine

/-! ### What calls a machine -/

section Calls

variable {μ : Type}

/-- The machine waits, with no cycles left to count down, and no observer has written to its
registers. -/
structure Idle (m : Machine μ) : Prop where
  waiting : m.cpu.wait ≠ .normal
  countdown : m.cpu.countdown = 0
  posted : m.cpu.file.posted = Posted.empty

/-- An edge of NMI is latched. NMI is then armed in all states that come about
(`latched_armed_run`). -/
def Latched (m : Machine μ) : Prop :=
  m.cpu.lines.nmiLatched = true ∧ m.cpu.lines.nmiArmed = true

instance (m : Machine μ) : Decidable m.Latched := inferInstanceAs (Decidable (_ ∧ _))

/-- Something calls the machine that waits. -/
def Called (m : Machine μ) : Prop :=
  match m.cpu.wait with
  | .normal => False
  | .sync =>
    m.cpu.lines.nmiLatched = true ∨ m.cpu.lines.firq = true ∨ m.cpu.lines.irq = true
  | .cwai =>
    m.Latched ∨
      m.cpu.lines.firq = true ∧ m.cpu.registers.cc.f = false ∨
      m.cpu.lines.irq = true ∧ m.cpu.registers.cc.i = false

instance (m : Machine μ) : Decidable m.Called := by
  unfold Called
  split <;> infer_instance

/-- The interrupt that comes first among those that are not masked: NMI, then FIRQ, then IRQ. -/
def Chooses (m : Machine μ) : InterruptSource → Prop
  | .nmi => m.Latched
  | .firq => ¬m.Latched ∧ m.cpu.lines.firq = true ∧ m.cpu.registers.cc.f = false
  | .irq =>
    ¬m.Latched ∧ ¬(m.cpu.lines.firq = true ∧ m.cpu.registers.cc.f = false) ∧
      m.cpu.lines.irq = true ∧ m.cpu.registers.cc.i = false

variable {m : Machine μ} {source : InterruptSource}

/-- An interrupt is accepted if it is the first in order that calls without being masked. -/
theorem accepted_iff_chooses :
    m.cpu.lines.accepted m.cpu.registers.cc = some source ↔ m.Chooses source := by
  unfold InterruptLines.accepted Chooses Latched
  cases source <;> split_ifs <;> simp_all

/-- The machine as its work finds it is the machine itself. -/
theorem started_of_idle (idle : m.Idle) : m.started = m := by
  have hposted := idle.posted
  have hcountdown := idle.countdown
  obtain ⟨⟨registers, ⟨published, posted⟩, lines, wait, countdown, total, visited, tracing,
    journal⟩, memory⟩ := m
  obtain rfl : posted = Posted.empty := hposted
  obtain rfl : countdown = 0 := hcountdown
  rfl

/-- An idle machine that is not called goes on waiting. -/
theorem not_called_iff (idle : m.Idle) : ¬m.Called ↔
    m.cpu.lines.accepted m.cpu.registers.cc = none ∧ ¬m.Executes := by
  have waiting := idle.waiting
  unfold Called Latched Executes InterruptLines.accepted InterruptLines.wakes
  cases wait : m.cpu.wait with
  | normal => exact absurd wait waiting
  -- SYNC wakes up for lines that it does not accept, CWAI does not
  | sync => split_ifs <;> simp_all [and_assoc]
  | cwai => split_ifs <;> simp_all

end Calls

variable {μ : Type} [Memory μ] {m u : Machine μ} {source : InterruptSource} {es : List Event}
  {e : Event}

/-- No writes wait for an idle machine, so a tick is its work and nothing before it. -/
theorem tick_of_idle (idle : m.Idle) : m.tick =
    match m.gives work with
    | .error fault => (Except.error fault, (m.after work).published)
    | .ok used => (Except.ok (), (m.after work).finished used) := by
  have htick := tick_withCountdown_zero m
  rw [started_of_idle idle] at htick
  rwa [withCountdown_self idle.countdown] at htick

/-- **A tick without a call** charges its cycle and changes nothing. -/
theorem tick_of_uncalled (idle : m.Idle) (h : ¬m.Called) : m.tick = (.ok (), m.finished 1) := by
  obtain ⟨accepted, executes⟩ := (not_called_iff idle).mp h
  obtain ⟨after, gives⟩ := work_of_idle accepted executes
  rw [tick_of_idle idle, gives, after]

/-! ### As long as nothing calls -/

/-- Time passes for `m` and its lines are driven, but no tick finds it called. -/
structure Uncalled (m : Machine μ) (es : List Event) : Prop where
  passes : ∀ e ∈ es, e.Passes
  quiet : ∀ before after, es = before ++ .tick :: after → ¬(m.run before).Called

/-- Uncalled over one event more: that event does not call, and a tick finds nobody calling. -/
theorem uncalled_concat_iff : m.Uncalled (es ++ [e]) ↔
    m.Uncalled es ∧ e.Passes ∧ (e = .tick → ¬(m.run es).Called) := by
  constructor
  · -- the events before the last one, and then the last one by itself
    rintro ⟨passes, quiet⟩
    refine ⟨⟨fun e' he' => passes e' (List.mem_append_left _ he'), ?_⟩, passes e (by simp), ?_⟩
    · rintro before after rfl
      exact quiet before (after ++ [e]) (by rw [List.append_assoc, List.cons_append])
    · rintro rfl
      exact quiet es [] rfl
  · -- both together
    rintro ⟨⟨passes, quiet⟩, hpasses, hquiet⟩
    refine ⟨fun e' he' => ?_, fun before after hes => ?_⟩
    · obtain hmem | hlast := List.mem_append.mp he'
      · exact passes e' hmem
      · rwa [List.mem_singleton.mp hlast]
    · -- the tick is the last event or one before it
      obtain rfl | ⟨rest, last, rfl⟩ := after.eq_nil_or_concat
      · obtain ⟨rfl, hlast⟩ := List.append_inj' hes rfl
        exact hquiet (List.cons.inj hlast).1
      · rw [List.concat_eq_append, ← List.cons_append, ← List.append_assoc] at hes
        exact quiet before rest (List.append_inj' hes rfl).1

/-- After `es` the machine `m` has become `u` by waiting: every tick has succeeded and charged one
cycle, and the lines are as they have been driven. -/
structure Rested (m : Machine μ) (es : List Event) (u : Machine μ) : Prop where
  registers : u.cpu.registers = m.cpu.registers
  memory : u.memory = m.memory
  lines : u.cpu.lines = es.foldl InterruptLines.drive m.cpu.lines
  visited : u.cpu.visited = m.cpu.visited
  wait : u.cpu.wait = m.cpu.wait
  totalCycles : u.cpu.totalCycles = m.cpu.totalCycles + es.countP Event.isTick
  idle : u.Idle
  succeeds : ∀ before after, es = before ++ .tick :: after → (m.run before).tick.1 = .ok ()

/-- A tick that finds nobody calling counts one cycle. -/
theorem happen_tick_of_uncalled (idle : m.Idle) (h : ¬m.Called) :
    m.happen .tick = m.finished 1 :=
  congrArg Prod.snd (tick_of_uncalled idle h)

/-- What happens to a machine that waits is an event of waiting. -/
theorem Rested.happen (rested : m.Rested es (m.run es)) (passes : e.Passes)
    (quiet : e = .tick → ¬(m.run es).Called) : m.Rested (es ++ [e]) (m.run (es ++ [e])) := by
  obtain ⟨registers, memory, lines, visited, wait, totalCycles, idle, succeeds⟩ := rested
  -- the ticks before, and the one that is added if it is one
  have succeeds' : ∀ before after, es ++ [e] = before ++ .tick :: after →
      (m.run before).tick.1 = .ok () := by
    intro before after hes
    obtain rfl | ⟨rest, last, rfl⟩ := after.eq_nil_or_concat
    · obtain ⟨rfl, hlast⟩ := List.append_inj' hes rfl
      obtain ⟨rfl, -⟩ := List.cons.inj hlast
      rw [tick_of_uncalled idle (quiet rfl)]
    · rw [List.concat_eq_append, ← List.cons_append, ← List.append_assoc] at hes
      exact succeeds before rest (List.append_inj' hes rfl).1
  rw [run_concat]
  cases e with
  | write _ | step | reset => exact absurd passes id
  | tick =>
    rw [happen_tick_of_uncalled idle (quiet rfl)]
    refine ⟨registers, memory, ?_, visited, wait, ?_, ?_, succeeds'⟩
    · rw [List.foldl_append, ← lines]
      rfl
    · -- a tick at rest adds one to the total, and nothing else
      show (m.run es).cpu.totalCycles + 1 = _
      rw [totalCycles, List.countP_append, Nat.add_assoc]
      rfl
    · exact ⟨idle.waiting, rfl, idle.posted⟩
  -- a line is driven, which is all that changes
  | nmi asserted | firq asserted | irq asserted =>
    refine ⟨registers, memory, ?_, visited, wait, ?_, ?_, succeeds'⟩
    · rw [List.foldl_append, ← lines]
      rfl
    · show (m.run es).cpu.totalCycles = _
      rw [totalCycles, List.countP_append]
      rfl
    · exact ⟨idle.waiting, idle.countdown, idle.posted⟩

/-- **A wait of any length** leaves the machine as it was. -/
theorem rested_run (idle : m.Idle) (uncalled : m.Uncalled es) : m.Rested es (m.run es) := by
  induction es using List.reverseRecOn with
  | nil =>
    refine ⟨rfl, rfl, rfl, rfl, rfl, rfl, idle, fun before after hes => ?_⟩
    exact absurd hes (by simp)
  | append_singleton es e ih =>
    obtain ⟨before, passes, quiet⟩ := uncalled_concat_iff.mp uncalled
    exact (ih before).happen passes quiet

/-! ### Being called -/

/-- The machine enters the interrupt with the next tick, and with a new frame. -/
structure EntersFresh (m : Machine μ) (source : InterruptSource) : Prop where
  tick_eq : m.tick
    = (.ok (), (m.awake.after (enterInterrupt source false)).finished (entryCycles source))
  wait : m.tick.2.cpu.wait = .normal
  totalCycles : m.tick.2.cpu.totalCycles = m.cpu.totalCycles + entryCycles source
  pushed : Pushed (if source = .firq then 3 else 12)
    ((Entry.interrupt source).frame m.cpu.registers).reverse m.cpu.registers.s
    m.tick.2.cpu.registers.s (m.eventStores .tick)
  /-- The handler returns to where PC has been. -/
  returns : ∃ rest, (Entry.interrupt source).frame m.cpu.registers
    = rest ++ [highByte m.cpu.registers.pc, lowByte m.cpu.registers.pc]
  masks : m.tick.2.cpu.registers.cc.f = true ∧ m.tick.2.cpu.registers.cc.i = true
  vector : ∀ {I : μ → Prop} {target}, Lasting I → Points I source.vector target → I m.memory →
    m.tick.2.cpu.registers.pc = target

/-- The machine enters the interrupt with the next tick. The frame is on the stack already, and but
for the masks and PC the registers are as they were. -/
structure EntersStacked (m : Machine μ) (source : InterruptSource) : Prop where
  tick_eq : m.tick = (.ok (), (m.awake.after (enterInterrupt source true)).finished wakeCycles)
  wait : m.tick.2.cpu.wait = .normal
  totalCycles : m.tick.2.cpu.totalCycles = m.cpu.totalCycles + wakeCycles
  stores : m.eventStores .tick = []
  registers : ∃ pc, m.tick.2.cpu.registers
    = { m.cpu.registers with pc, cc := { m.cpu.registers.cc with f := true, i := true } }
  vector : ∀ {I : μ → Prop} {target}, Lasting I → Points I source.vector target → I m.memory →
    m.tick.2.cpu.registers.pc = target

/-- The machine executes the instruction at PC with the next tick, as one that does not wait. -/
structure Resumes (m : Machine μ) : Prop where
  executed : ∀ used, m.awake.gives executeNext = .ok used →
    m.tick = (.ok (), (m.awake.after executeNext).finished used)
  failed : ∀ fault, m.awake.gives executeNext = .error fault →
    m.tick = (.error fault, (m.awake.after executeNext).published)

/-- The next tick ends the wait. -/
structure Woken (m : Machine μ) : Prop where
  enters : m.cpu.wait = .sync → ∀ source, m.Chooses source → m.EntersFresh source
  resumes : m.cpu.wait = .sync → (∀ source, ¬m.Chooses source) → m.Resumes
  returns : m.cpu.wait = .cwai → ∃ source, m.Chooses source ∧ m.EntersStacked source

theorem wait_foldl_absorb (signals : List Signal) (cpu : Cpu) :
    (signals.foldl Cpu.absorb cpu).wait = cpu.wait :=
  Cpu.foldl_absorb (fun _ signal => by cases signal <;> rfl) signals cpu

theorem fetching_wait : Fetching fun m m' : Machine μ => m'.cpu.wait = m.cpu.wait where
  refl _ := rfl
  trans _ _ _ first second := second.trans first
  load _ _ := wait_foldl_absorb _ _
  goto _ _ := rfl

theorem wait_pushBytes (stack : Stack) (bytes : List Byte) (m : Machine μ) :
    (m.after (pushBytes stack bytes)).cpu.wait = m.cpu.wait := by
  induction bytes generalizing m with
  | nil => rfl
  | cons byte bytes ih =>
    show ((m.after (pushByte stack byte)).after (pushBytes stack bytes)).cpu.wait = _
    rw [ih]
    exact wait_foldl_absorb _ _

theorem wait_pushInterruptFrame (source : InterruptSource) (m : Machine μ) :
    (m.after (pushInterruptFrame source)).cpu.wait = m.cpu.wait := by
  have pushed : ∀ (list : Byte) (m : Machine μ),
      (m.after (pushFrame .system list)).cpu.wait = m.cpu.wait :=
    fun _ _ => wait_pushBytes .system _ _
  cases source with
  -- E is cleared before the codes and PC are pushed
  | firq =>
    rw [pushInterruptFrame, after_bind, after_bind, after_pure, pushed]
    rfl
  | nmi | irq =>
    rw [pushInterruptFrame, pushEntireState, after_bind, after_bind, after_pure, pushed]
    rfl

/-- The last things done on the way into an interrupt are to set the masks and to go through the
vector. Only the frame, if there is one to push, changes registers before that. -/
theorem exists_after_enterInterrupt (source : InterruptSource) (stacked : Bool) (m : Machine μ) :
    ∃ m₁ : Machine μ, m.after (enterInterrupt source stacked)
        = (m₁.after maskInterrupts).after (gotoVector source.vector) ∧
      m₁.cpu.wait = m.cpu.wait ∧ (stacked = true → m₁.cpu.registers = m.cpu.registers) := by
  -- a message is left first, and NMI is taken off the latch
  obtain ⟨m₀, hafter, hregisters, hwait⟩ : ∃ m₀ : Machine μ,
      m.after (enterInterrupt source stacked) = m₀.after (leaveFor source stacked) ∧
        m₀.cpu.registers = m.cpu.registers ∧ m₀.cpu.wait = m.cpu.wait := by
    cases source <;> exact ⟨_, rfl, rfl, rfl⟩
  rw [hafter]
  cases stacked with
  | false => exact ⟨m₀.after (pushInterruptFrame source), rfl,
      (wait_pushInterruptFrame source m₀).trans hwait, nofun⟩
  | true => exact ⟨m₀, rfl, hwait, fun _ => hregisters⟩

/-- An interrupt that is entered leaves its masks set and the wait as it was. -/
theorem entered (source : InterruptSource) (stacked : Bool) (m : Machine μ) :
    (m.after (enterInterrupt source stacked)).cpu.wait = m.cpu.wait ∧
      (m.after (enterInterrupt source stacked)).cpu.registers.cc.f = true ∧
      (m.after (enterInterrupt source stacked)).cpu.registers.cc.i = true ∧
      (stacked = true → ∃ pc, (m.after (enterInterrupt source stacked)).cpu.registers
        = { m.cpu.registers with pc, cc := { m.cpu.registers.cc with f := true, i := true } }) := by
  obtain ⟨m₁, hafter, hwait, hregisters⟩ := exists_after_enterInterrupt source stacked m
  obtain ⟨pc, hpc⟩ := fetching_pc.gotoVector source.vector (m₁.after maskInterrupts)
  rw [hafter, hpc]
  refine ⟨?_, rfl, rfl, fun hstacked => ⟨pc, ?_⟩⟩
  · exact (fetching_wait.gotoVector source.vector (m₁.after maskInterrupts)).trans hwait
  · show { m₁.cpu.registers with
      pc, cc := { m₁.cpu.registers.cc with f := true, i := true } } = _
    rw [hregisters hstacked]

/-- The work itself does not count its cycles. -/
theorem totalCycles_work (m : Machine μ) : (m.after work).cpu.totalCycles = m.cpu.totalCycles :=
  congrArg Prod.snd (clock_work m)

/-- What is stored and where it leads when the machine that waits accepts an interrupt. -/
theorem accepted_of_idle (idle : m.Idle)
    (accepted : m.cpu.lines.accepted m.cpu.registers.cc = some source) :
    EntryStored source m (m.after work).cpu.registers (m.eventStores .tick) ∧
      ∀ {I : μ → Prop} {target}, Lasting I → Points I source.vector target → I m.memory →
        (m.after work).cpu.registers.pc = target := by
  have works : m.Works .tick := idle.countdown
  -- nothing is adopted before the lines are looked at
  have hstarted := started_of_idle idle
  have haccepted := accepted
  rw [← hstarted] at haccepted
  constructor
  · have hstored := entryStored_work accepted
    rw [eventStores_of_works works, hstarted]
    exact hstored
  · intro I target lasting points hm
    have hpc := pc_of_accepted lasting points hm works haccepted
    rwa [(cpu_of_works works).1, hstarted] at hpc

/-- A machine halted by SYNC enters the chosen interrupt with a frame of its own. -/
theorem entersFresh_of_chooses (idle : m.Idle) (wait : m.cpu.wait = .sync)
    (chooses : m.Chooses source) : m.EntersFresh source := by
  have accepted := accepted_iff_chooses.mpr chooses
  have hne : m.cpu.wait ≠ .cwai := by rw [wait]; exact nofun
  obtain ⟨after, gives⟩ := work_of_accepted hne accepted
  obtain ⟨stored, vector⟩ := accepted_of_idle idle accepted
  have pushed := stored.pushed hne
  have tick := tick_of_idle idle
  have total := totalCycles_work m
  rw [gives] at tick
  rw [after] at tick pushed total vector
  -- what the handler finds, after the frame
  obtain ⟨hwait, hf, hi, -⟩ := entered source false m.awake
  refine ⟨tick, ?_, ?_, ?_, Entry.exists_frame_interrupt source _, ?_, ?_⟩ <;> rw [tick]
  · exact hwait
  · exact congrArg (· + entryCycles source) total
  · exact pushed
  · exact ⟨hf, hi⟩
  · exact vector

/-- One halted by CWAI enters it with the frame that it has pushed before. -/
theorem entersStacked_of_chooses (idle : m.Idle) (wait : m.cpu.wait = .cwai)
    (chooses : m.Chooses source) : m.EntersStacked source := by
  have accepted := accepted_iff_chooses.mpr chooses
  obtain ⟨after, gives⟩ := work_of_wake wait accepted
  obtain ⟨stored, vector⟩ := accepted_of_idle idle accepted
  have tick := tick_of_idle idle
  have total := totalCycles_work m
  rw [gives] at tick
  rw [after] at tick total vector
  -- the frame is on the stack since CWAI, so the entry only masks and jumps
  obtain ⟨hwait, -, -, hregisters⟩ := entered source true m.awake
  refine ⟨tick, ?_, ?_, stored.nothing wait, ?_, ?_⟩ <;> rw [tick]
  · exact hwait
  · exact congrArg (· + wakeCycles) total
  · exact hregisters rfl
  · exact vector

/-- If all that calls is masked, SYNC ends and the next instruction runs. -/
theorem resumes_of_called (idle : m.Idle) (called : m.Called)
    (masked : ∀ source, ¬m.Chooses source) : m.Resumes := by
  have accepted : m.cpu.lines.accepted m.cpu.registers.cc = none := by
    rw [Option.eq_none_iff_forall_ne_some]
    exact fun source haccepted => masked source (accepted_iff_chooses.mp haccepted)
  -- it is called and nothing is accepted, so it has woken up
  have executes : m.Executes := by
    by_contra hidle
    exact (not_called_iff idle).mpr ⟨accepted, hidle⟩ called
  obtain ⟨after, gives⟩ := work_of_executes executes
  have tick := tick_of_idle idle
  rw [gives, after] at tick
  constructor
  · intro used hused
    rw [tick, hused]
  · intro fault hfault
    rw [tick, hfault]

omit [Memory μ] in
/-- CWAI is ended by nothing but an interrupt that is chosen. -/
theorem exists_chooses (idle : m.Idle) (wait : m.cpu.wait = .cwai) (called : m.Called) :
    ∃ source, m.Chooses source := by
  cases accepted : m.cpu.lines.accepted m.cpu.registers.cc with
  | some source => exact ⟨source, accepted_iff_chooses.mp accepted⟩
  | none =>
    -- CWAI listens to what can be accepted only
    refine absurd called ((not_called_iff idle).mpr ⟨accepted, ?_⟩)
    rintro ⟨-, hnormal | ⟨hsync, -⟩⟩
    · exact idle.waiting hnormal
    · exact nomatch hsync.symm.trans wait

/-- **A call ends the wait** with the tick that finds it. -/
theorem woken_of_called (idle : m.Idle) (called : m.Called) : m.Woken := by
  refine ⟨fun wait source => entersFresh_of_chooses idle wait,
    fun _ => resumes_of_called idle called, fun wait => ?_⟩
  obtain ⟨source, chooses⟩ := exists_chooses idle wait called
  exact ⟨source, chooses, entersStacked_of_chooses idle wait chooses⟩

/-! ### Going into the wait, and into interrupts -/

/-- Looking at the lines leads into an interrupt that is not masked, or into none. -/
structure Unmasked (m : Machine μ) : Prop where
  entered : ∀ used, m.gives serviceInterrupts = some used → ∃ source stacked,
    m.after serviceInterrupts = m.awake.after (enterInterrupt source stacked) ∧
      (source = .nmi → m.Latched) ∧
      (source = .firq → m.cpu.lines.firq = true ∧ m.cpu.registers.cc.f = false) ∧
      (source = .irq → m.cpu.lines.irq = true ∧ m.cpu.registers.cc.i = false)
  otherwise : m.gives serviceInterrupts = none →
    m.after serviceInterrupts = m ∨ m.after serviceInterrupts = m.awake

omit [Memory μ] in
/-- What is accepted has called and is not masked. -/
theorem unmasked_of_accepted
    (accepted : m.cpu.lines.accepted m.cpu.registers.cc = some source) :
    (source = .nmi → m.Latched) ∧
      (source = .firq → m.cpu.lines.firq = true ∧ m.cpu.registers.cc.f = false) ∧
      (source = .irq → m.cpu.lines.irq = true ∧ m.cpu.registers.cc.i = false) := by
  unfold InterruptLines.accepted at accepted
  unfold Latched
  split_ifs at accepted with hnmi hfirq hirq <;> cases accepted <;> simp_all

/-- **No interrupt gets past its mask**, in whatever state the machine is. -/
theorem unmasked (m : Machine μ) : m.Unmasked := by
  cases accepted : m.cpu.lines.accepted m.cpu.registers.cc with
  | some source =>
    -- whatever the machine does, it goes into the interrupt that is accepted
    obtain ⟨stacked, used, gives, after⟩ : ∃ stacked used, m.gives serviceInterrupts = some used ∧
        m.after serviceInterrupts = m.awake.after (enterInterrupt source stacked) := by
      by_cases wait : m.cpu.wait = .cwai
      · exact ⟨true, wakeCycles, serviceInterrupts_of_wake wait accepted⟩
      · exact ⟨false, entryCycles source, serviceInterrupts_of_accepted wait accepted⟩
    -- so it never says that nothing was accepted
    refine ⟨fun _ _ => ⟨source, stacked, after, unmasked_of_accepted accepted⟩, fun hnone => ?_⟩
    rw [gives] at hnone
    cases hnone
  | none =>
    obtain ⟨gives, after⟩ : m.gives serviceInterrupts = none ∧
        (m.after serviceInterrupts = m ∨ m.after serviceInterrupts = m.awake) := by
      by_cases executes : m.Executes
      · exact (serviceInterrupts_of_executes executes).imp_right .inr
      · exact (serviceInterrupts_of_idle accepted executes).imp_right .inl
    refine ⟨fun used hsome => ?_, fun _ => after⟩
    rw [gives] at hsome
    cases hsome

/-- SYNC puts the machine into the wait with PC at the next instruction. -/
theorem executeNext_sync (h : m.gives (load m.cpu.registers.pc) = 0x13) :
    (m.after executeNext).cpu.wait = .sync ∧ (m.after executeNext).cpu.registers
      = { m.cpu.registers with pc := m.cpu.registers.pc + 1 } := by
  -- the opcode has no prefix
  have first : m.gives fetch = 0x13 := h
  have gives : (m.gives fetchOpcode).1 = 0x13 := by simp [fetchOpcode, first]
  have after : m.after fetchOpcode = m.after fetch := by simp [fetchOpcode, first]
  -- the row of SYNC, which has no operand
  obtain ⟨row, lookup, mode, operation⟩ : ∃ row,
      OpcodeMap.lookup? (m.gives fetchOpcode).1 = some row ∧ row.mode = .inherent ∧
        row.operation = .sync := by
    rw [gives]
    exact ⟨_, OpcodeMap.lookup_systemRow (Instruction.inherent 0x13 "SYNC" 4 .sync)
      (by simp [OpcodeMap.systemRows]), rfl, rfl⟩
  have located : m.opened.gives (resolve row.mode row.code m.cpu.registers.pc)
      = .ok ⟨0, [], 0⟩ := by
    rw [mode]
    rfl
  have done := (executeNext_of_row lookup).2
  rw [(executeRow_of_located _ located).2, mode, operation] at done
  rw [done]
  refine ⟨wait_noteExecuted _ _ _ _, ?_⟩
  rw [registers_noteExecuted]
  show (m.after fetchOpcode).cpu.registers = _
  rw [after, registers_fetch]

/-- **Waiting holds the machine and wakes it.** After SYNC and after CWAI the machine rests for any
time in which nothing calls it, and the first tick that finds it called ends the wait: with an
interrupt and a new frame, with the next instruction, or with an interrupt whose frame CWAI has
pushed. SYNC leaves PC at the instruction after it, which is where that frame returns to. No
interrupt is ever entered that is masked, and whatever happens to a new machine, its latch alone
tells that NMI calls. -/
theorem waiting_rests_and_wakes (idle : m.Idle) (uncalled : m.Uncalled es) :
    m.Rested es (m.run es) ∧ ((m.run es).Called → (m.run es).Woken) ∧
      (∀ m' : Machine μ, m'.gives (load m'.cpu.registers.pc) = 0x13 →
        (m'.after executeNext).cpu.wait = .sync ∧ (m'.after executeNext).cpu.registers
          = { m'.cpu.registers with pc := m'.cpu.registers.pc + 1 }) ∧
      (∀ m' : Machine μ, m'.Unmasked) ∧
      ∀ (memory : μ) (past : List Event), let m' := (ofMemory memory).run past
        m'.Latched ↔ m'.cpu.lines.nmiLatched = true := by
  have rested := rested_run idle uncalled
  refine ⟨rested, woken_of_called rested.idle, fun _ => executeNext_sync, unmasked, ?_⟩
  intro memory past
  have start : (ofMemory memory).cpu.lines.nmiLatched = false := rfl
  exact ⟨And.left, fun latched => ⟨latched, latched_armed_run start past latched⟩⟩

/-- ORCC #$10 and CWAI #$FF: the machine waits with IRQ masked and FIRQ not. -/
def halting : Machine Ram :=
  (ofMemory { contents := #[0x1A, 0x10, 0x3C, 0xFF] }).run
    ([.step, .step] ++ List.replicate 19 .tick)

/-- IRQ does not call that machine, and FIRQ does. -/
theorem waiting_rests_and_wakes_halting :
    halting.Idle ∧ halting.Uncalled [.tick, .irq true, .tick, .firq true] ∧
      halting.Rested [.tick, .irq true, .tick, .firq true]
        (halting.run [.tick, .irq true, .tick, .firq true]) ∧
      ∃ source, (halting.run [.tick, .irq true, .tick, .firq true]).EntersStacked source := by
  have idle : halting.Idle := ⟨by decide +kernel, by decide +kernel, by decide +kernel⟩
  -- IRQ is masked, and FIRQ comes after the last tick
  have uncalled : halting.Uncalled [.tick, .irq true, .tick, .firq true] := by
    have events : [Event.tick, .irq true, .tick, .firq true]
        = [] ++ [.tick] ++ [.irq true] ++ [.tick] ++ [.firq true] := rfl
    have start : halting.Uncalled [] := ⟨by simp, by simp⟩
    have first : ¬(halting.run []).Called := by decide +kernel
    have second : ¬(halting.run ([] ++ [.tick] ++ [.irq true])).Called := by decide +kernel
    rw [events]
    simp only [uncalled_concat_iff]
    exact ⟨⟨⟨⟨start, trivial, fun _ => first⟩, trivial, by simp⟩, trivial, fun _ => second⟩,
      trivial, by simp⟩
  have waits := waiting_rests_and_wakes idle uncalled
  have woken : (halting.run [.tick, .irq true, .tick, .firq true]).Woken :=
    waits.2.1 (by decide +kernel)
  -- asleep in CWAI, so that the frame is on the stack
  have wait : (halting.run [.tick, .irq true, .tick, .firq true]).cpu.wait = .cwai := by
    decide +kernel
  obtain ⟨source, -, enters⟩ := woken.returns wait
  exact ⟨idle, uncalled, waits.1, source, enters⟩

end Machine

end Machine6809
