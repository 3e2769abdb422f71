import Machine6809.Proofs.Mmu.Defragmentation
import Machine6809.Proofs.Pool.Settling

/-!
# Defragmenting until nothing moves

A guest that wants its chains closed up as far as they can be repeats the command for that until the
first argument register says that no node has moved. It does not wait forever
(`Mmu.defrag_settles`), and what it has then is a pool in which no break can be closed. That is not
to say that there are no breaks: the slot behind a node may belong to someone else.
-/

namespace Machine6809

namespace Mmu

variable {n : ℕ}

/-- The unit after the command to defragment has been given `k` times. -/
def defragTimes (m : Mmu n) (k : ℕ) : Mmu n := (fun m => m.run Command.defrag.code)^[k] m

/-- From `m` to `m'` no node, no counter, no window and no cursor has changed. -/
structure Unmoved (m m' : Mmu n) : Prop where
  pool_eq : m'.pool = m.pool
  windows_eq : m'.windows = m.windows
  cursor_eq : m'.cursor = m.cursor

section Settling

variable {m : Mmu n} {S : List (List (Fin n))}

/-- One DEFRAG, and then the others. -/
theorem defragTimes_succ (m : Mmu n) (k : ℕ) :
    m.defragTimes (k + 1) = (m.run Command.defrag.code).defragTimes k :=
  Function.iterate_succ_apply _ k m

/-- DEFRAG closes breaks in the pool. -/
theorem run_defrag_pool (m : Mmu n) : (m.run Command.defrag.code).pool = m.pool.defrag.1 := by
  rw [run_defrag]
  rfl

/-- The first argument register tells the number of moves. -/
theorem run_defrag_arg1 (m : Mmu n) :
    (m.run Command.defrag.code).arg1 = UInt16.ofNat m.pool.defrag.2.length := by
  rw [run_defrag]
  rfl

/-- The register can hold the number of moves, so it says zero only if there was none. -/
theorem arg1_eq_zero_iff (hc : m.pool.Chained S) :
    (m.run Command.defrag.code).arg1 = 0 ↔ m.pool.Settled := by
  have hlt : m.pool.defrag.2.length < 65536 := hc.length_defrag_le.trans_lt hc.size_lt
  rw [run_defrag_arg1, ← hc.defrag_eq_nil_iff, ← List.length_eq_zero_iff, ← UInt16.toNat_inj,
    UInt16.toNat_ofNat', Nat.mod_eq_of_lt hlt]
  rfl

/-- In a settled pool it moves nothing. -/
theorem unmoved_of_settled (hs : m.pool.Settled) : Unmoved m (m.run Command.defrag.code) := by
  rw [run_defrag]
  refine ⟨?_, rfl, ?_⟩
  · change m.pool.defrag.1 = m.pool
    rw [hs.defrag]
  · change m.pool.defrag.2.foldl Move.apply m.cursor = m.cursor
    rw [hs.defrag]
    rfl

/-- A settled pool stays settled. -/
theorem arg1_defragTimes_of_settled : ∀ (j : ℕ) {m : Mmu n}, m.pool.Settled →
    (m.defragTimes (j + 1)).arg1 = 0 := by
  intro j
  -- by the number of commands before the last, none of which changes the pool
  induction j with
  | zero =>
    intro m hs
    change (m.run Command.defrag.code).arg1 = 0
    rw [run_defrag_arg1, hs.defrag]
    rfl
  | succ j ih =>
    intro m hs
    rw [defragTimes_succ]
    exact ih ((unmoved_of_settled hs).pool_eq ▸ hs)

/-- **The burden bounds the number of commands.** Each of them lowers it, or there is nothing to do
any more. -/
theorem arg1_defragTimes : ∀ (j : ℕ) {m : Mmu n} {S : List (List (Fin n))}, m.pool.Chained S →
    Pool.burdens S ≤ j → (m.defragTimes (j + 1)).arg1 = 0 := by
  intro j
  -- by a bound on the total burden
  induction j with
  | zero =>
    intro m S hc hle
    -- without any burden there can be no move
    obtain ⟨S', -, hlower⟩ := hc.defrag_burden
    refine arg1_defragTimes_of_settled 0 (hc.defrag_eq_nil_iff.mp ?_)
    rw [← List.length_eq_zero_iff]
    omega
  | succ j ih =>
    intro m S hc hle
    by_cases hmoves : m.pool.defrag.2 = []
    · -- no move: settled from here on
      exact arg1_defragTimes_of_settled (j + 1) (hc.defrag_eq_nil_iff.mp hmoves)
    · -- a move: the burden is less than before
      obtain ⟨S', hS', hlower⟩ := hc.defrag_burden
      have hpos := List.length_pos_of_ne_nil hmoves
      rw [← run_defrag_pool] at hS'
      rw [defragTimes_succ]
      exact ih hS' (by omega)

/-- **Repeated defragmentation comes to rest.** From some point on, and not later than after `n * n`
commands, the command reports that nothing has moved. It reports that exactly if every node that is
linked to another one than its neighbour has no free slot behind it, and then it has changed
nothing. -/
theorem defrag_settles (hn : n < 65536) (hm : m.Reachable) :
    (∃ k, k ≤ n * n ∧ ∀ j, k ≤ j → (m.defragTimes (j + 1)).arg1 = 0) ∧
      ((m.run Command.defrag.code).arg1 = 0 ↔ m.pool.Settled) ∧
      ((m.run Command.defrag.code).arg1 = 0 → Unmoved m (m.run Command.defrag.code)) := by
  obtain ⟨S, hS⟩ := hm.exists_chained hn
  have hiff := arg1_eq_zero_iff hS
  refine ⟨⟨n * n, le_rfl, fun j hj => ?_⟩, hiff, fun hzero => unmoved_of_settled (hiff.mp hzero)⟩
  have hburden : Pool.burdens S ≤ n * n :=
    (Pool.burdens_le_sq S).trans (Nat.mul_le_mul hS.length_le hS.length_le)
  exact arg1_defragTimes j hS (hburden.trans hj)

/-- The chain of the small unit is closed up by the first command, and the second has nothing to
do. -/
theorem defrag_settles_sample :
    (∃ k, k ≤ 6 * 6 ∧ ∀ j, k ≤ j → (sampleUnit.defragTimes (j + 1)).arg1 = 0) ∧
      ¬sampleUnit.pool.Settled ∧ (sampleUnit.defragTimes 1).pool.Settled := by
  have hreachable : sampleUnit.Reachable := ⟨by decide, sampleRequests, fun _ _ => trivial, rfl⟩
  obtain ⟨hrest, hfirst, -⟩ := defrag_settles (m := sampleUnit) (by decide) hreachable
  obtain ⟨-, hsecond, -⟩ := defrag_settles (m := sampleUnit.defragTimes 1) (by decide)
    (hreachable.serveAll [.command Command.defrag.code])
  exact ⟨hrest, fun hs => absurd (hfirst.mpr hs) (by decide +kernel),
    hsecond.mp (by decide +kernel)⟩

end Settling

end Mmu

end Machine6809
