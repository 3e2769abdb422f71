import Machine6809.Proofs.Mmu.Actions
import Machine6809.Proofs.Pool.Soundness

/-!
# Invariants of runs

`ReachableBy.invariant` is the induction over runs: what holds in a new unit and is kept by each
request of a kind holds in every unit that such requests lead to. The first invariant that is
obtained from it is `Pool.Sound`. It is about the pool alone, and one case for each action gives
the step (`Action.sound`).
-/

namespace Machine6809

namespace Mmu

variable {n : ℕ}

/-- **Induction over runs.** -/
theorem ReachableBy.invariant {kind : Request → Prop} {I : Mmu n → Prop} {m : Mmu n}
    (hm : m.ReachableBy kind) (hinitial : ∀ nonempty, I (initial nonempty))
    (hserve : ∀ m r, I m → kind r → I (m.serve r)) : I m := by
  obtain ⟨nonempty, rs, hrs, rfl⟩ := hm
  -- from any unit with the property, by the requests still to be served
  suffices h : ∀ m : Mmu n, I m → I (m.serveAll rs) from h _ (hinitial nonempty)
  induction rs with
  | nil => exact fun _ h => h
  | cons r rs ih =>
    intro m h
    rw [serveAll_cons]
    have hr : I (m.serve r) := hserve m r h (hrs r List.mem_cons_self)
    exact ih (fun s hs => hrs s (List.mem_cons_of_mem r hs)) _ hr

/-- Requests of a kind lead from units that such requests lead to to others of that sort. -/
theorem ReachableBy.serveAll {kind : Request → Prop} {m : Mmu n} (hm : m.ReachableBy kind)
    {rs : List Request} (hrs : ∀ r ∈ rs, kind r) : (m.serveAll rs).ReachableBy kind := by
  obtain ⟨nonempty, before, hbefore, rfl⟩ := hm
  refine ⟨nonempty, before ++ rs, fun r hr => ?_, List.foldl_append.symm⟩
  exact (List.mem_append.mp hr).elim (hbefore r) (hrs r)

/-- With more kinds of requests allowed, more units can be reached. -/
theorem ReachableBy.mono {kind kind' : Request → Prop} {m : Mmu n} (hm : m.ReachableBy kind)
    (himp : ∀ r, kind r → kind' r) : m.ReachableBy kind' := by
  obtain ⟨nonempty, rs, hrs, rfl⟩ := hm
  exact ⟨nonempty, rs, fun r hr => himp r (hrs r hr), rfl⟩

/-- Requests lead from reachable units to reachable ones. -/
theorem Reachable.serveAll {m : Mmu n} (hm : m.Reachable) (rs : List Request) :
    (m.serveAll rs).Reachable :=
  ReachableBy.serveAll hm fun _ _ => trivial

section Sound

variable {marks : Prop} {m m' : Mmu n}

/-- **Every action keeps the pool sound.** -/
theorem Action.sound {a : Action n} (h : m.pool.Sound marks) (ha : a.Allowed m)
    (hplain : marks → a.Plain) : (a.onPool m.pool).Sound marks := by
  cases a with
  | keep => exact h
  | select w shown => exact h
  | allocate count template => exact h.allocate count hplain
  | release root => exact h.releaseChain ha.1
  | remove i => exact h.remove ha.1
  | insertBefore new i => exact h.insertBefore ha.1 ha.2
  | insertAfter new i => exact h.insertAfter ha.1 ha.2
  | setLock i locked =>
    -- only an allocated node is locked or unlocked
    dsimp only [onPool]
    refine h.modifyNode ?_ ?_ ?_ ?_ ?_ fun hfree => absurd (hfree.symm.trans ha) (by simp)
    all_goals rfl
  | write i offset value =>
    -- the node may be free; its payload does not count then
    dsimp only [onPool]
    refine h.modifyNode ?_ ?_ ?_ ?_ ?_ fun _ => ?_
    all_goals rfl
  | defrag => exact h.defrag
  | reset =>
    obtain ⟨S, hS⟩ := h.chained
    exact Pool.sound_empty hS.size_lt

/-- **Every request keeps the pool sound**, whether it is carried out or fails. -/
theorem sound_serve (h : m.pool.Sound marks) {r : Request} (hr : marks → r.Plain) :
    (m.serve r).pool.Sound marks := by
  rcases m.mayAct_serve r with hacts | hacts
  · rw [hacts.pool_eq]
    exact h
  · rw [hacts.pool_eq]
    exact Action.sound h hacts.allowed fun hmarks => m.plain_requestAction (hr hmarks)

/-- Whatever has been asked of it, the pool of a unit is made of chains. -/
theorem ReachableBy.exists_chained {kind : Request → Prop} (hn : n < 65536)
    (hm : m.ReachableBy kind) : ∃ S, m.pool.Chained S := by
  have h : m.pool.Sound False :=
    hm.invariant (I := fun m => m.pool.Sound False) (fun _ => Pool.sound_empty hn)
      fun _ _ h _ => sound_serve h False.elim
  exact h.chained

/-- After plain requests the break marks are up to date. -/
theorem ReachableBy.marked (hn : n < 65536) (hm : m.ReachableBy Request.Plain) :
    m.pool.Marked := by
  have h : m.pool.Sound True :=
    hm.invariant (I := fun m => m.pool.Sound True) (fun _ => Pool.sound_empty hn)
      fun _ _ h hr => sound_serve h fun _ => hr
  exact h.marked trivial

end Sound

end Mmu

end Machine6809
