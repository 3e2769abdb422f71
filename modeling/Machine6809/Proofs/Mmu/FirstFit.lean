import Machine6809.Proofs.Mmu.Runs
import Machine6809.Proofs.Pool.FirstFit

/-!
# What the unit allocates

Whatever has been asked of the unit before, an allocation gets the first free nodes in the order of
the pool (`Mmu.allocate_first_fit`). It fails for want of nodes only if there are fewer than it asks
for, however they are scattered, and what it then keeps is a chain of all of them. The pool of a
reachable unit may carry wrong break marks, since a board may have allocated with a marked template;
the new nodes carry the right ones all the same.
-/

namespace Machine6809

namespace Mmu

variable {n : ℕ}

/-- How an allocation goes, depending on the length and on the free positions, and what the command
makes of it. -/
structure AllocatesFirstFit (m : Mmu n) (count : ℕ) (template : NodeStatus) : Prop where
  bad_length : count = 0 ∨ maxChain < count →
    m.allocate count template = (.badLength, m) ∧
      m.allocateChain count template = (.argument, m)
  none_free : 0 < count → count ≤ maxChain → m.pool.freePositions = [] →
    m.allocate count template = (.noneFree, m) ∧
      m.allocateChain count template = (.outOfMemory, m)
  enough : 0 < count → count ≤ maxChain → count ≤ m.pool.freePositions.length →
    ∃ first q, m.pool.freePositions.head? = some first ∧
      Pool.Builds m.pool q template (m.pool.freePositions.take count) ∧
      m.allocate count template = (.built first, { m with pool := q }) ∧
      m.allocateChain count template
        = (.none, { m with pool := q, arg1 := positionWord first })
  /-- All the free nodes there are become a chain, and a message says so. -/
  too_few : ∀ k, m.pool.freePositions.length = k → 0 < k → k < count → count ≤ maxChain →
    ∃ first q, m.pool.freePositions.head? = some first ∧
      Pool.Builds m.pool q template m.pool.freePositions ∧
      m.allocate count template
        = (.exhausted first k, note { m with pool := q } (.poolExhausted k count)) ∧
      m.allocateChain count template
        = (.alloc, note { m with pool := q, arg1 := positionWord first } (.poolExhausted k count))

section FirstFit

variable {m : Mmu n} {template : NodeStatus} {count : ℕ}

/-- An allocation changes the pool, and it leaves a message if it ends early. -/
theorem allocate_eq {outcome : Allocation n} {q : Pool n} :
    m.pool.allocate count template = (outcome, q) →
    m.allocate count template = (outcome,
      match outcome with
      | .exhausted _ built => note { m with pool := q } (.poolExhausted built count)
      | _ => { m with pool := q }) := by
  intro h
  unfold allocate
  rw [onPool_eq, h]
  cases outcome <;> rfl

/-- **Allocation is first-fit** in every unit and for every template without a break mark. -/
theorem allocate_first_fit (hn : n < 65536) (hm : m.Reachable) (count : ℕ)
    (ht : template.fragged = false) : AllocatesFirstFit m count template := by
  obtain ⟨S, hS⟩ := hm.exists_chained hn
  -- a pool that is not full has a first free node
  have hexists : 0 < m.pool.freePositions.length →
      ∃ first, m.pool.freePositions.head? = some first := fun hpos =>
    ⟨_, List.head?_eq_some_head (List.ne_nil_of_length_pos hpos)⟩
  have hbad : (count = 0 || decide (maxChain < count)) = true ↔ count = 0 ∨ maxChain < count := by
    rw [Bool.or_eq_true, decide_eq_true_iff, decide_eq_true_iff]
  refine ⟨fun hc => ?_, fun hpos hmax hnone => ?_, fun hpos hmax henough => ?_,
    fun k hk hsome hfew hmax => ?_⟩
  · -- the length is looked at first
    have hpool : m.pool.allocate count template = (.badLength, m.pool) := by
      unfold Pool.allocate
      rw [if_pos (hbad.mpr hc)]
    have hunit := allocate_eq hpool
    exact ⟨hunit, by rw [allocateChain, hunit]; rfl⟩
  · -- then whether there is any node at all
    have hpool : m.pool.allocate count template = (.noneFree, m.pool) := by
      unfold Pool.allocate
      rw [if_neg (fun hc => by have := hbad.mp hc; omega), hS.firstFree_eq_head?, hnone]
      rfl
    have hunit := allocate_eq hpool
    exact ⟨hunit, by rw [allocateChain, hunit]; rfl⟩
  · obtain ⟨first, hfirst⟩ := hexists (by omega)
    obtain ⟨q, hq, hpool⟩ :=
      hS.allocate_builds ht hpos hmax (hS.firstFree_eq_head?.trans hfirst)
    rw [if_pos henough] at hpool
    have hunit := allocate_eq hpool
    exact ⟨first, q, hfirst, hq, hunit, by rw [allocateChain, hunit]; rfl⟩
  · -- all there is gets taken, since the list is shorter than what is asked for
    obtain ⟨first, hfirst⟩ := hexists (by omega)
    obtain ⟨q, hq, hpool⟩ :=
      hS.allocate_builds ht (by omega) hmax (hS.firstFree_eq_head?.trans hfirst)
    rw [if_neg (by omega), hk] at hpool
    rw [List.take_of_length_le (by omega)] at hq
    have hunit := allocate_eq hpool
    exact ⟨first, q, hfirst, hq, hunit, by rw [allocateChain, hunit]; rfl⟩

/-- In the small unit the free nodes are not all neighbours. Three of them make a chain with a
break, and two hundred are not to be had. -/
theorem allocate_first_fit_sample :
    sampleUnit.pool.freePositions = [1, 3, 4, 5] ∧
      (∃ q, Pool.Builds sampleUnit.pool q NodeStatus.none [1, 3, 4] ∧
        sampleUnit.allocate 3 NodeStatus.none = (.built 1, { sampleUnit with pool := q })) ∧
      ∃ q, Pool.Builds sampleUnit.pool q NodeStatus.none [1, 3, 4, 5] ∧
        (sampleUnit.allocateChain 200 NodeStatus.none).1 = .alloc := by
  have hreachable : sampleUnit.Reachable := ⟨by decide, sampleRequests, fun _ _ => trivial, rfl⟩
  have hfree : sampleUnit.pool.freePositions = [1, 3, 4, 5] := by decide +kernel
  have hfirstFit : ∀ count, AllocatesFirstFit sampleUnit count NodeStatus.none := fun count =>
    allocate_first_fit (by decide) hreachable count rfl
  refine ⟨hfree, ?_, ?_⟩
  · obtain ⟨first, q, hfirst, hq, hunit, -⟩ :=
      (hfirstFit 3).enough (by decide) (by decide) (by rw [hfree]; decide)
    rw [hfree] at hfirst hq
    obtain rfl := Option.some.inj hfirst
    exact ⟨q, hq, hunit⟩
  · -- four of two hundred are left, and the command says so
    obtain ⟨first, q, -, hq, -, hcommand⟩ :=
      (hfirstFit 200).too_few 4 (by rw [hfree]; rfl) (by decide) (by decide) (by decide)
    rw [hfree] at hq
    exact ⟨q, hq, by rw [hcommand]⟩

end FirstFit

end Mmu

end Machine6809
