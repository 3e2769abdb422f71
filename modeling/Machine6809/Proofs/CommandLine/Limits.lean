import Machine6809.CommandLine.Program
import Machine6809.Proofs.Board.Running

/-!
# The limits of a run

The command line can limit a run by a number of instructions and by an address at which to stop.
Each of the two is a limit when it is given alone. With the number the run ends whatever the program
does (`stepped_runSteps`); with the address it ends not later than when PC is there for the first
time (`runUntil_of_stepped`), which need not happen at all.

Given together they are not two limits. The address decides and the number is dropped, although the
text that explains the options promises that no more than this number of instructions are executed.
`run_within_limits` says what holds for both, and `steps_unlimited_beside_stop` shows a run with
twice as many instructions as the command line allows.

To count them, `Board.Stepped` describes a run of a board step by step, with the number of steps and
the number of instructions executed in them. A step executes one instruction or, if it enters an
interrupt or waits, none.
-/

namespace Machine6809

instance {μ : Type} (m : Machine μ) : Decidable m.Executes :=
  inferInstanceAs (Decidable (_ ∧ _))

namespace Board

/-! ### Runs step by step -/

/-- The number of instructions that the next step executes. -/
def executions (board : Board) : ℕ := if board.machine.started.Executes then 1 else 0

/-- **A run step by step.** A running board takes a number of steps, in which it executes a number
of instructions, and is then another board. If the last of the steps failed the fault is told. -/
inductive Stepped : Board → ℕ → ℕ → Option Fault → Board → Prop where
  | rest (board : Board) : Stepped board 0 0 none board
  | step {board next after : Board} {used steps executed : ℕ} {fault : Option Fault}
      (running : board.running = true) (ok : board.step = (.ok used, next))
      (more : Stepped next steps executed fault after) :
      Stepped board (steps + 1) (board.executions + executed) fault after
  | fault {board after : Board} {fault : Fault} (running : board.running = true)
      (error : board.step = (.error fault, after)) :
      Stepped board 1 board.executions (some fault) after

variable {board after : Board} {steps executed : ℕ} {fault : Option Fault}

/-- A step executes one instruction at most. -/
theorem executions_le (board : Board) : board.executions ≤ 1 := by
  unfold executions
  split_ifs
  · exact Nat.le_refl 1
  · exact Nat.zero_le 1

/-- No step executes more than one instruction. -/
theorem Stepped.executed_le (h : board.Stepped steps executed fault after) : executed ≤ steps := by
  induction h with
  | rest board => exact Nat.le_refl 0
  | @step board _ _ _ steps executed _ running ok more ih =>
    rw [Nat.add_comm steps]
    exact Nat.add_le_add board.executions_le ih
  | @fault board _ _ running error => exact board.executions_le

/-- **A number of steps is a limit.** The board takes no more, and it takes fewer only if one fails
or it is stopped. -/
theorem stepped_runSteps (n : ℕ) (board : Board) : ∃ steps executed fault after,
    board.Stepped steps executed fault after ∧ steps ≤ n ∧
      (steps = n ∨ fault.isSome ∨ after.running = false) ∧
      board.runSteps n =
        (match (fault : Option Fault) with
          | none => .ok ()
          | some fault => .error fault, after) := by
  -- by the number of steps that are left
  induction n generalizing board with
  | zero => exact ⟨0, 0, none, board, .rest board, Nat.le_refl 0, .inl rfl, rfl⟩
  | succ n ih =>
    unfold runSteps
    cases running : board.running with
    -- somebody has stopped the board
    | false => exact ⟨0, 0, none, board, .rest board, Nat.zero_le _, .inr (.inr running), rfl⟩
    | true =>
      rw [if_neg (by decide)]
      cases stepped : board.step with
      | mk result next =>
        cases result with
        | error fault =>
          exact ⟨1, _, some fault, next, .fault running stepped, Nat.succ_le_succ (Nat.zero_le n),
            .inr (.inl rfl), rfl⟩
        | ok used =>
          -- after the first step the same holds of the next board and one step less
          obtain ⟨steps, executed, fault, after, more, le, ends, same⟩ := ih next
          exact ⟨steps + 1, _, fault, after, .step running stepped more, Nat.succ_le_succ le,
            ends.imp_left (congrArg (· + 1)), same⟩

/-- **An address is a limit** if it is reached. With enough fuel the run ends there, and not later
than when PC is there for the first time. -/
theorem runUntil_of_stepped {stop : Word} {reached : Board}
    (h : board.Stepped steps executed none reached)
    (there : reached.machine.cpu.registers.pc = stop) {fuel : ℕ} (hf : steps ≤ fuel) :
    ∃ steps' executed' after, steps' ≤ steps ∧ board.Stepped steps' executed' none after ∧
      after.machine.cpu.registers.pc = stop ∧ board.runUntil stop fuel = (.finished, after) := by
  -- a board with PC at the address is where the run ends
  have atOnce : ∀ board : Board, board.machine.cpu.registers.pc = stop → ∀ fuel,
      board.runUntil stop fuel = (.finished, board) := by
    intro board there fuel
    have stops : (!board.running || decide (board.machine.cpu.registers.pc = stop)) = true := by
      simp [there]
    cases fuel with
    | zero => rw [runUntil, if_pos stops]
    | succ fuel => rw [runUntil, if_pos stops]
  generalize hending : (none : Option Fault) = ending at h
  -- along the steps that lead to the address
  induction h generalizing fuel with
  | rest board => exact ⟨0, 0, board, Nat.le_refl 0, .rest board, there, atOnce board there fuel⟩
  | @step board next reached used steps executed ending running ok more ih =>
    subst hending
    -- the address may be met before the board that is known to be there
    by_cases here : board.machine.cpu.registers.pc = stop
    · exact ⟨0, 0, board, Nat.zero_le _, .rest board, here, atOnce board here fuel⟩
    · -- not yet: one step is made, for which there is fuel
      cases fuel with
      | zero => exact absurd hf (Nat.not_succ_le_zero steps)
      | succ fuel =>
        obtain ⟨steps', executed', after, le, stepped, stopped, same⟩ :=
          ih there (Nat.le_of_succ_le_succ hf) rfl
        have goes : ¬(!board.running || decide (board.machine.cpu.registers.pc = stop)) = true := by
          simp [running, here]
        refine ⟨steps' + 1, _, after, Nat.succ_le_succ le, .step running ok stepped, stopped, ?_⟩
        rw [runUntil, if_neg goes, ok]
        exact same
  | fault running error => cases hending

end Board

namespace CommandLine

/-! ### The program -/

/-- The command line is right and asks for no more than to run some files, which can be loaded. The
board is then ready to run as far as `extent` says. -/
structure Prepared (read : String → Except FileError String) (args : List String)
    (arguments : Arguments) (extent : Extent) (board : Board) : Prop where
  parsed : Arguments.read args = .ok arguments
  quiet : arguments.requests = []
  files : arguments.files ≠ []
  ready : setUp read arguments = .ok (extent, board)

/-- The report on a run that has ended. -/
def Report.ofRun : Option Fault → Board → Report
  | none, board => .success (registersLine board)
  | some fault, board => .failure (registersLine board) fault.message

section Limits

variable {read : String → Except FileError String} {args : List String} {arguments : Arguments}
  {extent : Extent} {board : Board}

/-- What comes out of two parts has come through both. -/
theorem exists_of_bind_eq_ok {ε α β : Type} {x : Except ε α} {f : α → Except ε β} {b : β}
    (h : x >>= f = .ok b) : ∃ a, x = .ok a ∧ f a = .ok b := by
  cases x with
  | error e => exact nomatch h
  | ok a => exact ⟨a, rfl, h⟩

/-- What the settings of the board were when it was set up. -/
theorem exists_settings (h : setUp read arguments = .ok (extent, board)) :
    ∃ steps stop, arguments.number? .steps = .ok steps ∧ arguments.address? .stop = .ok stop ∧
      extent = .choose stop steps := by
  unfold setUp at h
  -- files, begin and speed do not matter here
  obtain ⟨_, -, h⟩ := exists_of_bind_eq_ok h
  obtain ⟨_, -, h⟩ := exists_of_bind_eq_ok h
  obtain ⟨_, -, h⟩ := exists_of_bind_eq_ok h
  obtain ⟨_, -, h⟩ := exists_of_bind_eq_ok h
  obtain ⟨steps, hsteps, h⟩ := exists_of_bind_eq_ok h
  obtain ⟨stop, hstop, h⟩ := exists_of_bind_eq_ok h
  obtain ⟨rfl, -⟩ := Prod.mk.inj (Except.ok.inj h)
  exact ⟨steps, stop, hsteps, hstop, rfl⟩

/-- The program runs the board that has been set up. -/
theorem Prepared.run_eq (h : Prepared read args arguments extent board) (fuel : ℕ) :
    run read fuel args =
      match extent.run fuel board with
      | (.finished, board) => some (.success (registersLine board))
      | (.fault fault, board) => some (.failure (registersLine board) fault.message)
      | (.outOfFuel, _) => none := by
  -- nothing else is asked for than to run
  have asks : ∀ request, arguments.asks request = false := by
    intro request
    rw [Arguments.asks, h.quiet]
    rfl
  have ready := h.ready
  unfold run
  rw [h.parsed]
  dsimp only
  rw [asks, asks, asks, if_neg Bool.false_ne_true, if_neg Bool.false_ne_true,
    if_neg Bool.false_ne_true, if_neg h.files]
  unfold emulate
  generalize setUp read arguments = prepared at ready ⊢
  subst ready
  rfl

/-- **The limits of a run.** Suppose that the command line is right and gives a number of
instructions.
* If it gives no address at which to stop, the program ends with a report. The board has taken at
  most that many steps and executed at most that many instructions.
* If it gives an address too, the run is that of the address alone, whatever the number is. If PC
  can get to the address without a fault the program ends with a report, and the board has been
  there and has taken no more steps than until PC was there for the first time. -/
theorem run_within_limits (h : Prepared read args arguments extent board) {n : ℕ}
    (limited : arguments.number? .steps = .ok (some n)) :
    (arguments.address? .stop = .ok none → ∀ fuel, ∃ steps executed fault after,
      board.Stepped steps executed fault after ∧ steps ≤ n ∧ executed ≤ n ∧
        run read fuel args = some (.ofRun fault after)) ∧
    ∀ stop, arguments.address? .stop = .ok (some stop) → extent = .upTo stop ∧
      ∀ steps executed reached, board.Stepped steps executed none reached →
        reached.machine.cpu.registers.pc = stop → ∀ fuel, steps ≤ fuel →
          ∃ steps' executed' after, steps' ≤ steps ∧ board.Stepped steps' executed' none after ∧
            after.machine.cpu.registers.pc = stop ∧
            run read fuel args = some (.ofRun none after) := by
  obtain ⟨steps, stop, hsteps, hstop, rfl⟩ := exists_settings h.ready
  obtain rfl : steps = some n := Except.ok.inj (hsteps.symm.trans limited)
  refine ⟨fun unstopped fuel => ?_, fun address given => ?_⟩
  · -- only the number of steps is limited
    obtain rfl : stop = none := Except.ok.inj (hstop.symm.trans unstopped)
    obtain ⟨steps, executed, fault, after, stepped, le, -, ran⟩ := Board.stepped_runSteps n board
    refine ⟨steps, executed, fault, after, stepped, le, Nat.le_trans stepped.executed_le le, ?_⟩
    rw [h.run_eq, Extent.choose, Extent.run, ran]
    cases fault <;> rfl
  · -- an address is given as well, and the run goes on up to it
    obtain rfl : stop = some address := Except.ok.inj (hstop.symm.trans given)
    refine ⟨rfl, fun steps executed reached stepped there fuel enough => ?_⟩
    obtain ⟨steps', executed', after, le, stepped', stopped, ran⟩ :=
      Board.runUntil_of_stepped stepped there enough
    refine ⟨steps', executed', after, le, stepped', stopped, ?_⟩
    rw [h.run_eq, Extent.choose, Extent.run, ran]
    rfl

end Limits

/-! ### Four instructions -/

/-- A file with four NOPs at address 0. -/
def fourNops (_ : String) : Except FileError String :=
  .ok ":0400000012121212B4\n:00000001FF\n"

/-- The file with a begin at address 0, a limit of two instructions and perhaps another setting. -/
def twoOfFour (more : List (Setting × String)) : Arguments :=
  { settings := (.entry, "0") :: more ++ [(.steps, "2")], requests := [], files := ["a"] }

/-- The board as it is set up for that. -/
def fourNopsBoard (more : List (Setting × String)) : Board :=
  match setUp fourNops (twoOfFour more) with
  | .ok (_, board) => board
  | .error _ => Board.initial

/-- Where the extent is known the board is the other half of what has been set up. -/
theorem setUp_fourNops {more : List (Setting × String)} {extent : Extent}
    (h : (setUp fourNops (twoOfFour more)).toOption.map Prod.fst = some extent) :
    setUp fourNops (twoOfFour more) = .ok (extent, fourNopsBoard more) := by
  unfold fourNopsBoard
  generalize setUp fourNops (twoOfFour more) = result at h
  cases result with
  | error e => exact nomatch h
  | ok pair =>
    obtain ⟨extent', board⟩ := pair
    obtain rfl : extent' = extent := Option.some.inj h
    rfl

/-- With the number alone there are two steps at most, and with an address that is one NOP away
there is one. -/
theorem run_within_limits_fourNops :
    (∃ steps executed fault after,
      (fourNopsBoard []).Stepped steps executed fault after ∧ steps ≤ 2 ∧ executed ≤ 2 ∧
        run fourNops 0 ["-e", "0", "-n", "2", "a"] = some (.ofRun fault after)) ∧
    ∃ steps executed after, steps ≤ 1 ∧
      (fourNopsBoard [(.stop, "1")]).Stepped steps executed none after ∧
        after.machine.cpu.registers.pc = 1 ∧
        run fourNops 1 ["-e", "0", "-u", "1", "-n", "2", "a"] = some (.ofRun none after) := by
  have alone : Prepared fourNops ["-e", "0", "-n", "2", "a"] (twoOfFour []) (.instructions 2)
      (fourNopsBoard []) :=
    ⟨by decide +kernel, rfl, by decide, setUp_fourNops (by decide +kernel)⟩
  have both : Prepared fourNops ["-e", "0", "-u", "1", "-n", "2", "a"] (twoOfFour [(.stop, "1")])
      (.upTo 1) (fourNopsBoard [(.stop, "1")]) :=
    ⟨by decide +kernel, rfl, by decide, setUp_fourNops (by decide +kernel)⟩
  -- the first NOP is executed and leads to the address
  obtain ⟨running, ok, there⟩ : (fourNopsBoard [(.stop, "1")]).running = true ∧
      (fourNopsBoard [(.stop, "1")]).step.1 = .ok 2 ∧
      (fourNopsBoard [(.stop, "1")]).step.2.machine.cpu.registers.pc = 1 := by decide +kernel
  have stepped := Board.Stepped.step running (Prod.ext ok rfl) (.rest _)
  refine ⟨(run_within_limits alone (n := 2) (by decide +kernel)).1 (by decide +kernel) 0, ?_⟩
  exact ((run_within_limits both (n := 2) (by decide +kernel)).2 1 (by decide +kernel)).2 _ _ _
    stepped there 1 (Nat.le_refl 1)

/-- **The number is no limit beside an address.** With the number alone two instructions are
executed, and PC is at 2. With an address too the same number does not keep four from being
executed. -/
theorem steps_unlimited_beside_stop :
    run fourNops 10 ["-e", "0", "-n", "2", "a"] = some (.success
      "A=00 B=00 X=0000 Y=0000 U=0000 S=0000 PC=0002 DP=00 CC=50 (FI)\n") ∧
    run fourNops 10 ["-e", "0", "-u", "4", "-n", "2", "a"] = some (.success
      "A=00 B=00 X=0000 Y=0000 U=0000 S=0000 PC=0004 DP=00 CC=50 (FI)\n") := by
  decide +kernel

end CommandLine

end Machine6809
