import Machine6809.Proofs.Mmu.Runs
import Machine6809.Proofs.Pool.Reading

/-!
# Invariants of the memory management unit

What holds in every state of the unit, in terms of its nodes and counters: the links of all nodes
fit together and chains are read off in full, and the counters and break marks are exact. Both
follow from the invariant of the pool; here they are put together with what the guest sees of
them, the length of a chain and the outcome of the size command.
-/

namespace Machine6809

/-! ### Positions as words -/

/-- The positions of nodes fit a word. -/
theorem toNat_positionWord {n : ℕ} (hn : n < 65536) (i : Fin n) :
    (positionWord i).toNat = i.val := by
  unfold positionWord
  rw [UInt16.toNat_ofNat']
  exact Nat.mod_eq_of_lt (i.isLt.trans hn)

/-- A node is found by its position. -/
theorem Pool.index?_positionWord {n : ℕ} (hn : n < 65536) (i : Fin n) :
    (Pool.index? (positionWord i) : Option (Fin n)) = some i := by
  have hv := toNat_positionWord hn i
  unfold Pool.index?
  rw [dif_pos (hv.symm ▸ i.isLt)]
  exact congrArg some (Fin.ext hv)

/-- So is the handle of a chain. -/
theorem Pool.handle?_positionWord {n : ℕ} (hn : n < 65536) {p : Pool n} {h : Fin n}
    (hh : p.isHandle h = true) : p.handle? (positionWord h) = some h := by
  unfold Pool.handle?
  rw [Pool.index?_positionWord hn, Option.filter_some, if_pos hh]

namespace Mmu

variable {n : ℕ} {m : Mmu n} {h : Fin n}

/-! ### Commands by name -/

/-- A command is found by its code. -/
theorem ofCode?_code (command : Command) : Command.ofCode? command.code = some command := by
  cases command <;> rfl

/-- Running a command by its code performs it and records the outcome. -/
theorem run_code (m : Mmu n) (command : Command) :
    m.run command.code = conclude ((m.announce command).perform command) := by
  unfold run
  rw [ofCode?_code]

/-! ### Chains -/

/-- The nodes whose root is `h`. -/
def membersOf (m : Mmu n) (h : Fin n) : Finset (Fin n) :=
  Finset.univ.filter fun i => (m.pool.node i).root = some h

/-- The chain of handle `h` is read off in full, and its length is the number of nodes with root
`h`, whether one asks the unit for it directly or by the size command. -/
structure Measured (m : Mmu n) (h : Fin n) : Prop where
  walk : m.pool.FullChain h (m.pool.chain h)
  length : m.chainLength (positionWord h) = .ok (m.membersOf h).card
  size : ({ m with arg1 := positionWord h }.run Command.size.code).error = .none ∧
    ({ m with arg1 := positionWord h }.run Command.size.code).arg2.toNat = (m.membersOf h).card

/-- SIZE reports the length that has been measured. -/
theorem measure_eq {k : ℕ} (hk : m.chainLength m.arg1 = .ok k) :
    m.measure = (.none, { m with arg2 := UInt16.ofNat k }) := by
  unfold measure
  rw [hk]

/-- The length that SIZE reports is that of the chain. -/
theorem measured_of_chained {S : List (List (Fin n))} (hn : n < 65536) (hc : m.pool.Chained S)
    (hh : m.pool.isHandle h = true) : m.Measured h := by
  have hwalk := hc.fullChain hh
  -- no node is counted twice, and none of the chain is left out
  have hcard : (m.pool.chain h).length = (m.membersOf h).card :=
    Pool.length_eq_card hwalk.nodup hwalk.mem_iff
  have hlength : m.chainLength (positionWord h) = .ok (m.membersOf h).card := by
    unfold chainLength
    rw [Pool.handle?_positionWord hn hh, ← hcard]
  refine ⟨hwalk, hlength, ?_⟩
  -- so the length fits in the register
  have hlt : (m.membersOf h).card < 65536 := by
    have hle := Finset.card_le_univ (m.membersOf h)
    rw [Fintype.card_fin] at hle
    omega
  have hsize := measure_eq (m := { m with arg1 := positionWord h }.announce .size) hlength
  rw [run_code]
  refine ⟨?_, ?_⟩
  · change (conclude (Mmu.measure _)).error = _
    rw [hsize]
    rfl
  · change (conclude (Mmu.measure _)).arg2.toNat = _
    rw [hsize]
    change (UInt16.ofNat _).toNat = _
    rw [UInt16.toNat_ofNat']
    exact Nat.mod_eq_of_lt hlt

/-- **Chains are well formed.** In every state of the unit the links of all nodes fit together,
and the chain of every handle is read off in full. -/
theorem chains_wellFormed (hn : n < 65536) (hm : m.Reachable) :
    m.pool.WellLinked ∧ ∀ h, m.pool.isHandle h = true → m.Measured h := by
  obtain ⟨S, hS⟩ := hm.exists_chained hn
  exact ⟨hS.wellLinked, fun h hh => measured_of_chained hn hS hh⟩

/-- The small unit has a handle, so both parts say something about it. -/
theorem chains_wellFormed_sample :
    sampleUnit.pool.WellLinked ∧ sampleUnit.pool.isHandle 0 = true ∧ sampleUnit.Measured 0 := by
  have hh : sampleUnit.pool.isHandle 0 = true := by decide +kernel
  obtain ⟨hlinked, hmeasured⟩ := chains_wellFormed (m := sampleUnit) (by decide)
    ⟨by decide, sampleRequests, fun _ _ => trivial, rfl⟩
  exact ⟨hlinked, hh, hmeasured 0 hh⟩

/-! ### Counters and marks -/

/-- **Counters and break marks are exact.** As long as no chain is allocated with break marks from
the start, the three counters give the numbers of nodes and breaks and have never gone past an end
of their range, and a node carries the break mark if and only if it is allocated and linked to one
that is not its neighbour. -/
theorem counters_exact (hn : n < 65536) (hm : m.ReachableBy Request.Plain) :
    m.pool.Counted ∧ ∀ i, (m.pool.node i).status.fragged = true ↔
      (m.pool.node i).isAllocated = true ∧ (m.pool.BreaksBefore i ∨ m.pool.BreaksAfter i) := by
  obtain ⟨S, hS⟩ := hm.exists_chained hn
  exact ⟨hS.counted, fun i => (hm.marked hn i).iff⟩

/-- On the board, free and allocated nodes add up to the size of the pool. -/
theorem counters_exact_board :
    ((initial poolNodes_pos).serveAll sampleRequests).pool.freeCount
      + ((initial poolNodes_pos).serveAll sampleRequests).pool.allocatedCount = 52428 :=
  (counters_exact (by decide) ⟨poolNodes_pos, sampleRequests, by decide, rfl⟩).1.total

end Mmu

end Machine6809
