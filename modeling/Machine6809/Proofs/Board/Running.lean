import Machine6809.Proofs.Board.MemoryMap
import Machine6809.Proofs.Machine.Pacing
import Machine6809.Proofs.Machine.Simulation
import Mathlib.Data.Nat.Notation
import Mathlib.Tactic.SplitIfs

/-!
# Running in batches

While the board runs, the clock hands out cycles in batches, and how it does so is beyond its
control. The machine does not notice: batches of ticks are the same as ticks one after the other, up
to the first that fails (`runBatches_of_failsAfter`). By that tick the run ends, whatever the
batches were, as long as there are enough cycles in them.

What is told to the devices before and after the run makes no difference to the ticks either, since
it leaves messages and nothing else (`relates_signal`).

A fault stops the board. On a board that is stopped no way of running it does anything
(`Board.Idle`).
-/

namespace Machine6809

/-! ### Up to the first tick that fails -/

namespace Machine

variable {μ : Type} [Memory μ] {m m' : Machine μ} {fault : Fault}

/-- The tick after `k` others is the first to fail, and leaves the machine `m'`. -/
def FailsAfter (fault : Fault) (m' : Machine μ) : ℕ → Machine μ → Prop
  | 0, m => m.tick = (.error fault, m')
  | k + 1, m => ∃ m₁, m.tick = (.ok (), m₁) ∧ FailsAfter fault m' k m₁

/-- Ticks that fail at the last of them. -/
theorem failsAfter_of_go {d k : ℕ} (h : ticks.go d (k + 1) m = (.error (fault, d + k), m')) :
    FailsAfter fault m' k m := by
  -- over the ticks before the one that fails
  induction k generalizing d m with
  | zero =>
    rw [ticks.go] at h
    split at h
    · cases h
    · next hm =>
      obtain ⟨hfault, rfl⟩ := Prod.mk.inj h
      obtain ⟨rfl, -⟩ := Prod.mk.inj (Except.error.inj hfault)
      exact hm
  | succ k ih =>
    rw [ticks.go] at h
    split at h
    · next m₁ hm =>
      rw [show d + (k + 1) = d + 1 + k by omega] at h
      exact ⟨m₁, hm, ih h⟩
    · -- this tick is too early to be the one that fails
      obtain ⟨hfault, -⟩ := Prod.mk.inj h
      have := (Prod.mk.inj (Except.error.inj hfault)).2
      omega

/-- Fewer ticks succeed, and the failure gets as much nearer. -/
theorem FailsAfter.go_of_le {d n k : ℕ} (h : FailsAfter fault m' k m) (hn : n ≤ k) :
    ∃ m₁, ticks.go d n m = (.ok (), m₁) ∧ FailsAfter fault m' (k - n) m₁ := by
  -- over the ticks before the one that fails
  induction n generalizing d k m with
  | zero => exact ⟨m, rfl, h⟩
  | succ n ih =>
    obtain ⟨k, rfl⟩ := Nat.exists_eq_add_of_le' (Nat.lt_of_lt_of_le n.succ_pos hn)
    obtain ⟨m₁, htick, hrest⟩ := h
    obtain ⟨m₂, hgo, hfails⟩ := ih (d := d + 1) hrest (Nat.le_of_succ_le_succ hn)
    refine ⟨m₂, ?_, by rwa [Nat.add_sub_add_right]⟩
    rw [ticks.go, htick]
    exact hgo

/-- More ticks fail when their turn comes. -/
theorem FailsAfter.go_of_lt {d n k : ℕ} (h : FailsAfter fault m' k m) (hn : k < n) :
    ticks.go d n m = (.error (fault, d + k), m') := by
  -- over the ticks that succeed, after which comes the one that fails
  induction k generalizing d n m with
  | zero =>
    obtain ⟨n, rfl⟩ := Nat.exists_eq_add_of_le' hn
    have htick : m.tick = (.error fault, m') := h
    rw [ticks.go, htick]
    rfl
  | succ k ih =>
    obtain ⟨n, rfl⟩ := Nat.exists_eq_add_of_le' (Nat.lt_of_le_of_lt (Nat.zero_le _) hn)
    obtain ⟨m₁, htick, hrest⟩ := h
    rw [ticks.go, htick]
    show ticks.go (d + 1) n m₁ = _
    rw [ih hrest (Nat.lt_of_succ_lt_succ hn), show d + 1 + k = d + (k + 1) by omega]

end Machine

/-! ### What the devices are told -/

/-- The message of a device that is told of an event, if it leaves one. -/
def Device.told? (event : BusEvent) : Device → Option Message
  | .hardware h => if h.reports then some (.probe h.name (.signalled event)) else none
  | _ => none

namespace Bus

/-- The messages of the devices as each of them is told of an event. -/
def told (bus : Bus) (event : BusEvent) : Journal :=
  ((bus.places.toList.map Place.device).filterMap (Device.told? event)).toArray

/-- A device that is told something else than a reset leaves a message at most. -/
theorem signalDevice_of_ne_reset {event : BusEvent} (h : event ≠ .reset) (bus : Bus)
    (device : Device) : signalDevice event bus device =
      { bus with journal := bus.journal ++ (device.told? event).toList.toArray } := by
  have same (bus : Bus) : { bus with journal := bus.journal ++ #[] } = bus := by
    rw [Array.append_empty]
  cases device with
  -- the register block listens to resets only
  | registers =>
    cases event with
    | reset => exact absurd rfl h
    | init | quit | activate | deactivate | render | update => exact (same bus).symm
  | hardware hw =>
    show bus.report hw _ = _
    -- hardware is told, and leaves a message if it has a probe
    dsimp only [report, Device.told?]
    split_ifs
    · rw [note, Array.push_eq_append]
      rfl
    · exact (same bus).symm
  | ram | rom | windows => exact (same bus).symm

/-- So do all of them together. -/
theorem signal_of_ne_reset {event : BusEvent} (h : event ≠ .reset) (bus : Bus) :
    bus.signal event = { bus with journal := bus.journal ++ bus.told event } := by
  unfold signal told
  generalize bus.places.toList.map Place.device = devices
  induction devices generalizing bus with
  | nil => simp
  | cons device devices ih =>
    rw [List.foldl_cons, ih, signalDevice_of_ne_reset h, List.filterMap_cons]
    cases device.told? event <;> simp

/-- Messages of the bus post no writes. -/
theorem writesOf_signals (journal : Journal) : writesOf (signals journal) = [] := by
  simp [writesOf, signals, Function.comp_def, Signal.write?]

/-- The processor does not notice the messages of the bus. -/
theorem answering_alike : Answering Alike where
  load bus bus' address h := by
    -- whatever a bus tells the processor is messages, which post nothing
    obtain ⟨hvalue, hafter⟩ := deaf_read address bus bus' h
    refine ⟨hvalue.symm, ?_, ?_⟩
    · exact (writesOf_signals _).trans (writesOf_signals _).symm
    · exact ⟨⟨hafter.places_eq, hafter.nextFree_eq⟩, hafter.mmu_eq⟩
  store bus bus' address value h := by
    have hafter := h.write address value
    refine ⟨?_, ?_⟩
    · exact (writesOf_signals _).trans (writesOf_signals _).symm
    · exact ⟨⟨hafter.places_eq, hafter.nextFree_eq⟩, hafter.mmu_eq⟩

end Bus

open Machine

namespace Board

/-! ### Batches -/

/-- The cycles in some batches, beginning with number `k`. -/
def handedOut (due : ℕ → ℕ) (k : ℕ) : ℕ → ℕ
  | 0 => 0
  | n + 1 => due k + handedOut due (k + 1) n

/-- There is no end to the cycles, however many of the batches are empty. -/
def Endless (due : ℕ → ℕ) : Prop := ∀ cycles, ∃ n, cycles < handedOut due 0 n

/-- More batches hand out more cycles. -/
theorem handedOut_mono {due : ℕ → ℕ} {n n' : ℕ} (k : ℕ) (h : n ≤ n') :
    handedOut due k n ≤ handedOut due k n' := by
  induction n generalizing k n' with
  | zero => exact Nat.zero_le _
  | succ n ih =>
    obtain ⟨n', rfl⟩ := Nat.exists_eq_add_of_le' (Nat.lt_of_lt_of_le n.succ_pos h)
    exact Nat.add_le_add_left (ih (k + 1) (Nat.le_of_succ_le_succ h)) _

/-- Where no batch is empty there are at least as many cycles as batches. -/
theorem le_handedOut {due : ℕ → ℕ} {k : ℕ} (h : ∀ j, k ≤ j → 1 ≤ due j) (n : ℕ) :
    n ≤ handedOut due k n := by
  induction n generalizing k with
  | zero => exact Nat.zero_le _
  | succ n ih =>
    have first := h k (Nat.le_refl k)
    have rest := ih (k := k + 1) fun j hj => h j (Nat.le_of_succ_le hj)
    show n + 1 ≤ due k + handedOut due (k + 1) n
    omega

variable {board : Board} {due : ℕ → ℕ} {fault : Fault} {m' : Machine Bus}

theorem runBatch_of_ok {n : ℕ} {m₁ : Machine Bus}
    (h : ticks.go 0 n board.machine = (.ok (), m₁)) :
    board.runBatch n = (.ok (), { board with machine := m₁ }) := by
  obtain ⟨machine, clock, running⟩ := board
  unfold runBatch onMachine ticks
  dsimp only at h ⊢
  rw [h]

/-- A batch with a tick that fails stops the board. -/
theorem runBatch_of_error {n k : ℕ}
    (h : ticks.go 0 n board.machine = (.error (fault, k), m')) :
    board.runBatch n = (.error fault, { board with machine := m' }.stopAtFault) := by
  obtain ⟨machine, clock, running⟩ := board
  unfold runBatch onMachine ticks
  dsimp only at h ⊢
  rw [h]

/-- Batches of ticks end with the first tick that fails, in whichever of them it is. -/
theorem runBatches_of_failsAfter (board : Board) {j : ℕ} (hrun : board.running = true)
    (hfails : FailsAfter fault m' j board.machine) (fuel k : ℕ) (hfuel : j < handedOut due k fuel) :
    runBatches due fuel k board = (.fault fault, { board with machine := m' }.stopAtFault) := by
  have goes : ¬(!board.running) = true := by simp [hrun]
  induction fuel generalizing k j board with
  | zero => exact absurd hfuel (Nat.not_lt_zero _)
  | succ fuel ih =>
    rw [runBatches, if_neg goes]
    by_cases hj : j < due k
    · -- the tick is in this batch
      rw [runBatch_of_error (hfails.go_of_lt hj)]
    · obtain ⟨m₁, hgo, hrest⟩ := hfails.go_of_le (Nat.not_lt.mp hj)
      have hsum : handedOut due k (fuel + 1) = due k + handedOut due (k + 1) fuel := rfl
      rw [runBatch_of_ok hgo]
      have rest : j - due k < handedOut due (k + 1) fuel := by omega
      exact ih { board with machine := m₁ } hrun hrest (k + 1) rest goes

/-- A run is its batches, with the devices told of the beginning and the end. -/
theorem run_eq (due : ℕ → ℕ) (fuel : ℕ) (board : Board) : board.run due fuel =
    ((runBatches due fuel 0 (board.signal .activate)).1,
      (runBatches due fuel 0 (board.signal .activate)).2.signal .deactivate) := rfl

/-! ### What the devices are told -/

/-- Telling devices of anything but a reset changes nothing but messages. -/
theorem relates_signal {e : BusEvent} (h : e ≠ .reset) (board : Board) :
    Relates Bus.Alike board.machine (board.signal e).machine := by
  have told := Bus.signal_of_ne_reset h board.machine.memory
  refine ⟨rfl, ?_⟩
  show Bus.Alike board.machine.memory (board.machine.memory.signal e).drain.2
  rw [told]
  exact ⟨⟨rfl, rfl⟩, rfl⟩

/-- What is done on the bus does not stop the board. -/
theorem running_onBus {α : Type} (board : Board) (f : Bus → α × Bus) :
    (board.onBus f).2.running = board.running := rfl

theorem running_signal (board : Board) (event : BusEvent) :
    (board.signal event).running = board.running := rfl

/-- Every device has been told once, and the messages about that come last. -/
theorem journal_signal {event : BusEvent} (h : event ≠ .reset) (board : Board) :
    (board.signal event).machine.cpu.journal = board.machine.cpu.journal
      ++ (board.machine.memory.journal ++ board.machine.memory.told event) := by
  have told := Bus.signal_of_ne_reset h board.machine.memory
  show board.machine.cpu.journal ++ (board.machine.memory.signal event).journal = _
  rw [told]

/-! ### Faults -/

/-- What the board is after a run in which the tick after `k` others was the first to fail, if ticks
alone lead to the machine `m`. -/
structure RunInto (board : Board) (fault : Fault) (k : ℕ) (m : Machine Bus) (after : Board) :
    Prop where
  /-- Processor and memory are those that ticks alone lead to. -/
  cpu : after.machine.cpu.silent = m.cpu.silent
  memory : Bus.Alike m.memory after.machine.memory
  stopped : after.running = false
  /-- The devices were activated once, then there were the ticks, and then they were deactivated
  once. -/
  signals : ∃ failed, (board.signal .activate).machine.ticks (k + 1) = (.error (fault, k), failed) ∧
    after = ({ board.signal .activate with machine := failed }.stopAtFault).signal .deactivate

/-- A run into a tick that fails ends at that tick, however its cycles are handed out. -/
theorem run_of_failing_tick {k : ℕ} {m : Machine Bus} (hrun : board.running = true)
    (hfails : board.machine.ticks (k + 1) = (.error (fault, k), m)) :
    ∃ after, board.RunInto fault k m after ∧
      ∀ due, Endless due → ∃ n, ∀ fuel, n ≤ fuel → board.run due fuel = (.fault fault, after) := by
  -- on the board whose devices have been activated the same ticks succeed, and the same one fails
  obtain ⟨result, related⟩ :=
    (relates_signal (e := .activate) (by decide) board).ticks Bus.answering_alike (k + 1)
  rw [hfails] at result related
  generalize hticks : (board.signal .activate).machine.ticks (k + 1) = ticks at result related
  obtain ⟨r, failed⟩ := ticks
  obtain rfl : _ = r := result
  have stopped := relates_signal (e := .deactivate) (by decide)
    { board.signal .activate with machine := failed }.stopAtFault
  refine ⟨_, ⟨?cpu, ?memory, rfl, failed, hticks, rfl⟩, fun due endless => ?run⟩
  case cpu => exact stopped.1.symm.trans related.1.symm
  case memory => exact related.2.trans stopped.2
  case run =>
    obtain ⟨n, hn⟩ := endless k
    -- the batches reach the tick as soon as they have handed out its cycles
    have failsAfter : FailsAfter fault failed k (board.signal .activate).machine :=
      failsAfter_of_go (d := 0) (by rw [Nat.zero_add]; exact hticks)
    refine ⟨n, fun fuel hfuel => ?_⟩
    have hlt : k < handedOut due 0 fuel := Nat.lt_of_lt_of_le hn (handedOut_mono 0 hfuel)
    rw [run_eq, runBatches_of_failsAfter (board.signal .activate) hrun failsAfter fuel 0 hlt]

/-! ### Stopped boards -/

/-- The ways of running a board. -/
inductive Entry where
  | run (due : ℕ → ℕ) (fuel : ℕ)
  | runUntil (stop : Word) (fuel : ℕ)
  | runSteps (n : ℕ)

/-- Run the board. -/
def enter (board : Board) : Entry → Outcome × Board
  | .run due fuel => board.run due fuel
  | .runUntil stop fuel => board.runUntil stop fuel
  | .runSteps n =>
    match board.runSteps n with
    | (.ok (), board) => (.finished, board)
    | (.error fault, board) => (.fault fault, board)

/-- However one tries to run the board, it finishes at once and nothing has been executed. -/
structure Idle (board : Board) : Prop where
  stopped : board.running = false
  run : ∀ due fuel,
    board.run due fuel = (.finished, (board.signal .activate).signal .deactivate)
  run_related :
    Relates Bus.Alike board.machine ((board.signal .activate).signal .deactivate).machine
  runUntil : ∀ stop fuel, board.runUntil stop fuel = (.finished, board)
  runSteps : ∀ n, board.runSteps n = (.ok (), board)

variable {board after : Board} {fault : Fault}

/-- A step that faults stops the board. -/
theorem stopped_of_step (h : board.step = (.error fault, after)) : after.running = false := by
  unfold step at h
  split at h
  · exact nomatch h
  · obtain ⟨-, rfl⟩ := Prod.mk.inj h
    rfl

theorem stopped_of_runBatch {n : ℕ} (h : board.runBatch n = (.error fault, after)) :
    after.running = false := by
  unfold runBatch at h
  split at h
  · exact nomatch h
  · obtain ⟨-, rfl⟩ := Prod.mk.inj h
    rfl

theorem stopped_of_runBatches {due : ℕ → ℕ} {fuel k : ℕ}
    (h : runBatches due fuel k board = (.fault fault, after)) : after.running = false := by
  induction fuel generalizing k board with
  | zero =>
    unfold runBatches at h
    split_ifs at h <;> exact nomatch h
  | succ fuel ih =>
    unfold runBatches at h
    split_ifs at h
    · exact nomatch h
    · split at h
      · exact ih h
      -- the fault is in this batch
      · next hbatch =>
        obtain ⟨-, rfl⟩ := Prod.mk.inj h
        exact stopped_of_runBatch hbatch

theorem stopped_of_runUntil {stop : Word} {fuel : ℕ}
    (h : board.runUntil stop fuel = (.fault fault, after)) : after.running = false := by
  induction fuel generalizing board with
  | zero =>
    unfold runUntil at h
    split_ifs at h <;> exact nomatch h
  | succ fuel ih =>
    unfold runUntil at h
    split_ifs at h
    · exact nomatch h
    · split at h
      · exact ih h
      -- the fault is in this step
      · next hstep =>
        obtain ⟨-, rfl⟩ := Prod.mk.inj h
        exact stopped_of_step hstep

theorem stopped_of_runSteps {n : ℕ} (h : board.runSteps n = (.error fault, after)) :
    after.running = false := by
  induction n generalizing board with
  | zero => exact nomatch h
  | succ n ih =>
    unfold runSteps at h
    split_ifs at h
    · exact nomatch h
    · -- the fault is in a later step, or in this one
      split at h
      · exact ih h
      · next hstep =>
        obtain ⟨-, rfl⟩ := Prod.mk.inj h
        exact stopped_of_step hstep

/-- A fault stops the board. -/
theorem stopped_of_enter {e : Entry} (h : board.enter e = (.fault fault, after)) :
    after.running = false := by
  -- by the way in which the board was run
  cases e with
  | run due fuel =>
    obtain ⟨hfault, rfl⟩ := Prod.mk.inj h
    -- telling the devices of the end changes nothing about that
    have batches : runBatches due fuel 0 (board.signal .activate)
        = (.fault fault, (runBatches due fuel 0 (board.signal .activate)).2) := Prod.ext hfault rfl
    show (Board.signal _ .deactivate).running = false
    rw [running_signal]
    exact stopped_of_runBatches batches
  | runUntil stop fuel => exact stopped_of_runUntil h
  | runSteps n =>
    unfold enter at h
    dsimp only at h
    split at h
    · exact nomatch h
    · next hsteps =>
      obtain ⟨-, rfl⟩ := Prod.mk.inj h
      exact stopped_of_runSteps hsteps

/-- A stopped board does nothing, however it is run. -/
theorem idle_of_stopped (h : board.running = false) : board.Idle := by
  have stops : (!board.running) = true := by simp [h]
  constructor
  case stopped => exact h
  case run =>
    intro due fuel
    have batches : runBatches due fuel 0 (board.signal .activate)
        = (.finished, board.signal .activate) := by
      have stopped : ¬(board.signal .activate).running = true := by
        rw [running_signal, h]
        exact Bool.false_ne_true
      cases fuel with
      | zero => rw [runBatches, if_neg stopped]
      | succ fuel => rw [runBatches, if_pos (by simpa using stopped)]
    rw [run_eq, batches]
  -- the devices are told of a beginning and an end, and that is all
  case run_related =>
    have activated := relates_signal (e := .activate) (by decide) board
    have deactivated := relates_signal (e := .deactivate) (by decide) (board.signal .activate)
    exact ⟨activated.1.trans deactivated.1, activated.2.trans deactivated.2⟩
  -- the flag is looked at before each step
  case runUntil =>
    intro stop fuel
    have stops : (!board.running || decide (board.machine.cpu.registers.pc = stop)) = true := by
      simp [h]
    cases fuel with
    | zero => rw [Board.runUntil, if_pos stops]
    | succ fuel => rw [Board.runUntil, if_pos stops]
  case runSteps =>
    intro n
    cases n with
    | zero => rfl
    | succ n => rw [Board.runSteps, if_pos stops]

/-- What may be done to a board that has stopped. -/
inductive Later where
  | enter (e : Entry)
  | call (c : Call)

/-- The board afterwards. -/
def later (board : Board) : Later → Board
  | .enter e => (board.enter e).2
  | .call c => board.call c

/-- The board after many things have been done to it. -/
def laterAll (board : Board) (ls : List Later) : Board := ls.foldl later board

/-- It stays stopped, whatever comes later but a reset. -/
theorem stopped_later {l : Later} (hl : l ≠ .call .reset) (h : board.running = false) :
    (board.later l).running = false := by
  have idle := idle_of_stopped h
  cases l with
  -- what idles stays as it is
  | enter e =>
    cases e with
    | run due fuel =>
      show (board.run due fuel).2.running = false
      rw [idle.run]
      exact h
    | runUntil stop fuel =>
      show (board.runUntil stop fuel).2.running = false
      rw [idle.runUntil]
      exact h
    | runSteps n =>
      have finished : board.enter (.runSteps n) = (.finished, board) := by
        unfold enter
        dsimp only
        rw [idle.runSteps]
      show (board.enter (.runSteps n)).2.running = false
      rw [finished]
      exact h
  -- of the calls from outside only a reset starts the board again
  | call c =>
    cases c with
    | reset => exact absurd rfl hl
    | machine e => exact h
    | signal event => exact h
    | loadImage text =>
      rw [later, call, loadImage, running_onBus]
      exact h

/-- A board that has stopped stays idle until it is reset. -/
theorem idle_laterAll {ls : List Later} (hls : ∀ l ∈ ls, l ≠ .call .reset)
    (h : board.running = false) : (board.laterAll ls).Idle := by
  induction ls generalizing board with
  | nil => exact idle_of_stopped h
  | cons l ls ih =>
    obtain ⟨hl, hrest⟩ := List.forall_mem_cons.mp hls
    exact ih hrest (stopped_later hl h)

/-- How a board runs and how it stops. -/
structure RunsAndStops (board : Board) : Prop where
  /-- A running board goes on up to the first tick that fails. How the cycles are handed out has no
  influence on what it is then, as long as they do not end before. -/
  fails : board.running = true → ∀ fault k m,
    board.machine.ticks (k + 1) = (.error (fault, k), m) →
    ∃ after, board.RunInto fault k m after ∧
      ∀ due, Endless due → ∃ n, ∀ fuel, n ≤ fuel → board.run due fuel = (.fault fault, after)
  /-- What tells the devices tells each of them once. -/
  tells : ∀ event, event ≠ .reset → (board.signal event).machine.cpu.journal
    = board.machine.cpu.journal ++ (board.machine.memory.journal ++ board.machine.memory.told event)
  /-- A stopped board finishes at once. -/
  idle : board.running = false → board.Idle
  /-- After a fault the board is stopped and stays so until it is reset, however it was run. -/
  faulted : ∀ e fault after, board.enter e = (.fault fault, after) →
    ∀ ls : List Later, (∀ l ∈ ls, l ≠ .call .reset) → (after.laterAll ls).Idle
  faulted_step : ∀ fault after, board.step = (.error fault, after) →
    ∀ ls : List Later, (∀ l ∈ ls, l ≠ .call .reset) → (after.laterAll ls).Idle

/-- **Running a board does not depend on the clock's batches**, and a fault ends it for good. -/
theorem run_regardless_of_batches (board : Board) : board.RunsAndStops where
  fails hrun _ _ _ hfails := run_of_failing_tick hrun hfails
  tells _ h := journal_signal h board
  idle := idle_of_stopped
  faulted _ _ _ h _ hls := idle_laterAll hls (stopped_of_enter h)
  faulted_step _ _ h _ hls := idle_laterAll hls (stopped_of_step h)

/-- A board of two bytes, NOP and an opcode without a row, and a device that reports. -/
def nopBoard : Board :=
  { machine := Machine.ofMemory
      (Bus.empty.callAll [.attach (.ram "ram" #[0x12, 0x01]),
        .attach (.hardware { name := "probe", size := 1, reports := true }), .drain])
    clock := Clock.initial
    running := true }

/-- Its third tick is the first to fail. The clock begins with an empty batch, and each batch after
it has one cycle more than the one before. -/
theorem run_regardless_of_batches_nopBoard : ∃ m after,
    nopBoard.machine.ticks 3 = (.error (.invalidOpcode 0x01 1, 2), m) ∧
      nopBoard.RunInto (.invalidOpcode 0x01 1) 2 m after ∧
      (∃ fuel, nopBoard.run id fuel = (.fault (.invalidOpcode 0x01 1), after)) ∧
      (after.laterAll [.enter (.runSteps 5), .enter (.run id 5)]).Idle := by
  have runs := run_regardless_of_batches nopBoard
  have fails : (nopBoard.machine.ticks 3).1 = .error (.invalidOpcode 0x01 1, 2) := by
    decide +kernel
  -- one cycle more in each batch is endless
  have endless : Endless id := fun cycles => by
    refine ⟨cycles + 2, Nat.lt_of_lt_of_le (Nat.lt_succ_self cycles) ?_⟩
    show cycles + 1 ≤ 0 + handedOut id 1 (cycles + 1)
    rw [Nat.zero_add]
    exact le_handedOut (fun _ h => h) _
  obtain ⟨after, into, ends⟩ := runs.fails rfl _ 2 _ (Prod.ext fails rfl)
  obtain ⟨fuel, hfuel⟩ := ends id endless
  have hrun := hfuel fuel (Nat.le_refl fuel)
  exact ⟨_, after, Prod.ext fails rfl, into, ⟨fuel, hrun⟩,
    runs.faulted (.run id fuel) _ _ hrun _ (by simp)⟩

end Board

end Machine6809
