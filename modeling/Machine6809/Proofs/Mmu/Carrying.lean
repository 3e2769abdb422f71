import Machine6809.Proofs.Mmu.Invariants
import Machine6809.Proofs.Pool.Carried

/-!
# Following a node through a run

A node of a chain is not always where it was: defragmentation moves it, and it may be freed and its
place taken by another. To speak of one node over a run, `Mmu.carry` says where a request leaves
it, and `Mmu.carryAll` does so for a list of requests; both give `none` once the node is in no
chain any more. For defragmentation the place is read off the moves that it reports.

What a request does to a node that it does not free is said in two lemmas, action by action:
`Acts.keeps` for the node itself, and `Acts.together` for its chain. A lock or a write concerns one
node only, and all other actions carry every node along (`Acts.carries`).
-/

namespace Machine6809

namespace Mmu

variable {n : ℕ}

/-- Where a request leaves a node, provided that it is not freed. -/
def place (m : Mmu n) (r : Request) : Fin n → Fin n :=
  if r.command? = some .defrag then Move.applyAll m.pool.defrag.2 else id

/-- Where a node is after a request; none if it is free then. -/
def carry (m : Mmu n) (r : Request) (i : Fin n) : Option (Fin n) :=
  if ((m.serve r).pool.node (m.place r i)).isAllocated then some (m.place r i) else none

/-- Where a node is after requests; none if it has been freed on the way. -/
def carryAll (m : Mmu n) : List Request → Fin n → Option (Fin n)
  | [], i => some i
  | r :: rs, i => (m.carry r i).bind ((m.serve r).carryAll rs)

/-- Where an action leaves a node. -/
def Action.place (p : Pool n) : Action n → Fin n → Fin n
  | .defrag => Move.applyAll p.defrag.2
  | _ => id

/-- What an action leaves of node `i`, when it does not free it. The bits that all nodes of a chain
share do not change. Only unlocking the node takes its lock away, and a payload that is protected
is not written to. -/
structure Keeps (m : Mmu n) (a : Action n) (i : Fin n) (after : Node n) : Prop where
  inherited : after.status.inherited = (m.pool.node i).status.inherited
  locked : a ≠ .setLock i false → (m.pool.node i).status.locked = true →
    after.status.locked = true
  payload : m.pool.isProtected i = true → after.payload = (m.pool.node i).payload

section Step

variable {m m' : Mmu n} {a : Action n} {S : List (List (Fin n))} {i j : Fin n} {r : Request}

/-! ### The step of an action -/

/-- A pool that has not changed carries each node to itself. -/
theorem carries_same {p q : Pool n} (h : q = p) : Pool.Carries id p q := by
  subst h
  exact ⟨fun _ _ => rfl, fun _ _ _ _ hij => hij⟩

/-- **Actions carry nodes along**, except that locks and writes change the one that they are
about. -/
theorem Acts.carries (hc : m.pool.Chained S) (ha : Acts m a m')
    (hlock : ∀ i locked, a ≠ .setLock i locked) (hwrite : ∀ i o v, a ≠ .write i o v) :
    Pool.Carries (a.place m.pool) m.pool m'.pool := by
  obtain ⟨hallowed, hpool, -⟩ := ha
  cases a with
  | keep | select w shown => exact carries_same hpool
  | setLock i locked => exact absurd rfl (hlock i locked)
  | write i offset value => exact absurd rfl (hwrite i offset value)
  | reset =>
    -- no node is left to be carried anywhere
    have hfree : ∀ i, ¬Pool.Stays id m.pool m'.pool i := by
      rintro i ⟨-, hi⟩
      rw [hpool] at hi
      change ((Pool.empty : Pool n).node i).isAllocated = true at hi
      rw [Pool.node_empty] at hi
      exact absurd hi Bool.false_ne_true
    exact ⟨fun i hi => absurd hi (hfree i), fun i _ hi _ _ => absurd hi (hfree i)⟩
  | allocate count template =>
    obtain ⟨L', hL'⟩ := hc.edits_allocate count template
    rw [hpool]
    exact hL'.carries
  -- what stays is in the other chains
  | release root =>
    obtain ⟨B, T, -, hT⟩ := hc.exists_handle hallowed.1
    rw [hpool]
    exact hT.edits_releaseChain.carries
  | remove i =>
    obtain ⟨A, B, T, -, hT⟩ := hc.exists_focus hallowed.1
    rw [hpool]
    exact hT.edits_remove.carries
  | insertBefore new i =>
    obtain ⟨A, B, T, -, hT⟩ := hc.exists_focus hallowed.1
    rw [hpool]
    exact (hT.edits_insertBefore hallowed.2).carries
  | insertAfter new i =>
    obtain ⟨A, B, T, -, hT⟩ := hc.exists_focus hallowed.1
    rw [hpool]
    exact (hT.edits_insertAfter hallowed.2).carries
  | defrag =>
    rw [hpool]
    exact hc.defrag.1.carries hc

/-- Who keeps the content keeps everything. -/
theorem keeps_of_content {after : Node n} (h : after.content = (m.pool.node i).content) :
    m.Keeps a i after where
  inherited := congrArg (fun c => c.1.inherited) h
  locked := fun _ hi => (congrArg (fun c => c.1.locked) h).trans hi
  payload := fun _ => congrArg Prod.snd h

/-- **What an action leaves of a node.** -/
theorem Acts.keeps (hc : m.pool.Chained S) (ha : Acts m a m')
    (hi : Pool.Stays (a.place m.pool) m.pool m'.pool i) :
    m.Keeps a i (m'.pool.node (a.place m.pool i)) := by
  have hpool := ha.pool_eq
  cases a with
  | setLock j locked =>
    change m.Keeps _ i (m'.pool.node i)
    rw [hpool]
    change m.Keeps _ i ((m.pool.modifyNode j _).node i)
    rw [Pool.node_modifyNode]
    split_ifs with hij
    · -- the lock is the only bit that is set or cleared
      subst hij
      refine ⟨rfl, fun hne _ => ?_, fun _ => rfl⟩
      cases locked with
      | false => exact absurd rfl hne
      | true => rfl
    · exact keeps_of_content rfl
  | write j offset value =>
    change m.Keeps _ i (m'.pool.node i)
    rw [hpool]
    change m.Keeps _ i ((m.pool.modifyNode j _).node i)
    rw [Pool.node_modifyNode]
    split_ifs with hij
    · subst hij
      -- what has been written was not protected
      have hopen : m.pool.isProtected i = false := ha.allowed
      exact ⟨rfl, fun _ hlocked => hlocked, fun hp => absurd (hp.symm.trans hopen) (by simp)⟩
    · exact keeps_of_content rfl
  | _ =>
    exact keeps_of_content
      ((ha.carries hc (fun _ _ => by simp) (fun _ _ _ => by simp)).content i hi)

/-- **Nodes of one chain stay together.** -/
theorem Acts.together (hc : m.pool.Chained S) (ha : Acts m a m')
    (hi : Pool.Stays (a.place m.pool) m.pool m'.pool i)
    (hj : Pool.Stays (a.place m.pool) m.pool m'.pool j)
    (hij : (m.pool.node i).root = (m.pool.node j).root) :
    (m'.pool.node (a.place m.pool i)).root = (m'.pool.node (a.place m.pool j)).root := by
  have hpool := ha.pool_eq
  cases a with
  | setLock k locked | write k offset value =>
    -- an action on one node leaves the roots of all nodes alone
    change (m'.pool.node i).root = (m'.pool.node j).root
    rw [hpool]
    dsimp only [Action.onPool]
    rw [Pool.root_modifyNode rfl, Pool.root_modifyNode rfl]
    exact hij
  | _ =>
    exact (ha.carries hc (fun _ _ => by simp) (fun _ _ _ => by simp)).together i j hi hj hij

/-! ### The step of a request -/

/-- A request that runs a command performs it. -/
theorem serve_of_command {command : Command} (h : r.command? = some command) :
    m.serve r = conclude ((m.announce command).perform command) := by
  -- by whichever way the code gets there
  have hrun : ∀ code, Command.ofCode? code = some command →
      m.run code = conclude ((m.announce command).perform command) := by
    intro code hcode
    unfold run
    rw [hcode]
  cases r with
  | command code => exact hrun code h
  | writeRegister offset value =>
    dsimp only [Request.command?] at h
    split_ifs at h with hreg
    change m.writeRegister offset value = _
    unfold writeRegister
    rw [hreg]
    exact hrun value h
  | _ => exact absurd h (by simp [Request.command?])

/-- Only the command for it asks for defragmentation. -/
theorem command?_of_requestAction_defrag (h : m.requestAction r = .defrag) :
    r.command? = some .defrag := by
  have hasked := m.asked_requestAction r
  rw [h] at hasked
  generalize hx : Action.defrag = x at hasked
  cases hasked with
  | @command command hcommand =>
    have hfor := m.commandAction_isFor command
    rw [← hx] at hfor
    -- of all commands only DEFRAG comes to a defragmentation
    rw [hcommand]
    exact congrArg some hfor
  | _ => exact absurd hx (by simp)

/-- Only defragmentation moves nodes. -/
theorem Action.place_eq_id (p : Pool n) (h : a ≠ .defrag) : a.place p = id := by
  cases a with
  | defrag => exact absurd rfl h
  | _ => rfl

/-- **What a request comes to for the nodes**: an action that leaves them where the request does. It
is the one that the request asks for, or nothing. -/
theorem exists_acts_serve (m : Mmu n) (r : Request) :
    ∃ a, (a = .keep ∨ a = m.requestAction r) ∧ Acts m a (m.serve r) ∧
      a.place m.pool = m.place r := by
  by_cases hr : r.command? = some .defrag
  · -- defragmentation is never refused
    have hplace : m.place r = Move.applyAll m.pool.defrag.2 := if_pos hr
    have hasks : m.requestAction r = .defrag := by
      cases r with
      | command code =>
        change (Command.ofCode? code).elim _ _ = _
        rw [show Command.ofCode? code = some .defrag from hr]
        rfl
      | writeRegister offset value =>
        dsimp only [Request.command?] at hr
        split_ifs at hr with hreg
        dsimp only [requestAction]
        rw [hreg]
        change (Command.ofCode? value).elim _ _ = _
        rw [hr]
        rfl
      | _ => exact absurd hr (by simp [Request.command?])
    refine ⟨.defrag, .inr hasks.symm, ?_, hplace.symm⟩
    rw [serve_of_command hr]
    exact ⟨trivial, rfl, rfl⟩
  · -- nothing else moves a node
    have hplace : m.place r = id := if_neg hr
    rcases m.mayAct_serve r with ha | ha
    · exact ⟨.keep, .inl rfl, ha, hplace.symm⟩
    · have hne : m.requestAction r ≠ .defrag := fun h => hr (command?_of_requestAction_defrag h)
      exact ⟨m.requestAction r, .inr rfl, ha, (Action.place_eq_id m.pool hne).trans hplace.symm⟩

/-- A node is carried to its place if it is still allocated there. -/
theorem carry_eq_some_iff :
    m.carry r i = some j ↔ m.place r i = j ∧ ((m.serve r).pool.node j).isAllocated = true := by
  unfold carry
  split_ifs with h
  · rw [Option.some_inj]
    constructor
    · rintro rfl
      exact ⟨rfl, h⟩
    · exact fun hj => hj.1
  · refine ⟨fun hj => absurd hj (by simp), ?_⟩
    rintro ⟨rfl, hj⟩
    exact absurd hj h

/-- A node that a request leaves somewhere stays in a chain, for the action that is carried out. -/
theorem stays_of_carry (hplace : a.place m.pool = m.place r)
    (hi : (m.pool.node i).isAllocated = true) (hj : m.carry r i = some j) :
    Pool.Stays (a.place m.pool) m.pool (m.serve r).pool i ∧ a.place m.pool i = j := by
  obtain ⟨hij, ha⟩ := carry_eq_some_iff.mp hj
  rw [hplace]
  exact ⟨⟨hi, by rwa [hij]⟩, hij⟩

/-- Each request keeps the chains in order. -/
theorem exists_chained_serve (hc : m.pool.Chained S) (r : Request) :
    ∃ S', (m.serve r).pool.Chained S' := by
  have sound : m.pool.Sound False := ⟨⟨S, hc⟩, False.elim⟩
  exact (sound_serve sound False.elim).chained

/-- Request by request. -/
theorem carryAll_cons_eq_some_iff {rs : List Request} : m.carryAll (r :: rs) i = some j ↔
    ∃ k, m.carry r i = some k ∧ (m.serve r).carryAll rs k = some j := Option.bind_eq_some_iff

end Step

end Mmu

end Machine6809
