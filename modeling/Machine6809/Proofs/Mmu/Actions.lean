import Machine6809.Proofs.Mmu.Requests
import Mathlib.Tactic.SplitIfs

/-!
# What requests amount to

However many commands, registers and accesses there are, only few things happen to the pool and the
windows. An `Action` is one of them, with what it does to the pool (`Action.onPool`), what it does
to the windows (`Action.onWindows`), and the conditions under which the unit carries it out
(`Action.Allowed`). `Mmu.requestAction` says which action a request asks for. The main statement is
`mayAct_serve`: the unit carries out that action or leaves pool and windows alone. Whoever needs an
invariant of all runs goes through the actions, and not through commands and registers again.

For commands there is more to say (`attempt_perform`). A command that gives an error has not
changed the unit, apart from the cursor, which four commands move to an end of the chain first
(`Mmu.cursorFor`). An allocation that exhausts the pool is the one exception: it gives the error
`alloc` and has been carried out as far as the pool goes.
-/

namespace Machine6809

namespace Mmu

variable {n : ℕ}

/-! ### Actions -/

/-- What can happen to the pool and the windows. -/
inductive Action (n : ℕ) where
  | keep
  | select (w : ℕ) (shown : Option (Fin n))
  | allocate (count : ℕ) (template : NodeStatus)
  /-- Free the chain with this root. -/
  | release (root : Fin n)
  | remove (i : Fin n)
  | insertBefore (new i : Fin n)
  | insertAfter (new i : Fin n)
  | setLock (i : Fin n) (locked : Bool)
  | write (i : Fin n) (offset : Fin payloadSize) (value : Byte)
  | defrag
  | reset

namespace Action

/-- The pool after an action. -/
def onPool (p : Pool n) : Action n → Pool n
  | .keep | .select _ _ => p
  | .allocate count template => (p.allocate count template).2
  | .release root => (p.releaseChain root).2
  | .remove i => p.remove i
  | .insertBefore new i => p.insertBefore new i
  | .insertAfter new i => p.insertAfter new i
  | .setLock i locked =>
    p.modifyNode i fun node => { node with status := { node.status with locked } }
  | .write i offset value =>
    p.modifyNode i fun node => { node with payload := node.payload.set offset value }
  | .defrag => p.defrag.1
  | .reset => Pool.empty

/-- The windows after an action. A chain that gets another root is shown under its new name. -/
def onWindows (m : Mmu n) : Action n → Vector (Option (Fin n)) windowCount
  | .select w shown => m.windows.setIfInBounds w shown
  | .remove i =>
    match (m.pool.node i).prev, (m.pool.node i).next with
    | none, some j => (m.rename (m.pool.rootOf i) j).windows
    | _, _ => m.windows
  | .insertBefore new i =>
    if m.pool.isFirst i then (m.rename (m.pool.rootOf i) new).windows else m.windows
  | .reset => Vector.replicate windowCount none
  | _ => m.windows

/-- The conditions under which the unit carries out an action. -/
def Allowed (m : Mmu n) : Action n → Prop
  | .select _ shown => ∀ h, shown = some h → m.pool.isHandle h = true
  | .release root => m.pool.isHandle root = true ∧ m.isMapped root = false
  | .remove i => (m.pool.node i).isAllocated = true ∧
      (m.pool.isAlone i = true → m.isMapped (m.pool.rootOf i) = false)
  | .insertBefore new i | .insertAfter new i =>
      (m.pool.node i).isAllocated = true ∧ m.pool.firstFree = some new
  | .setLock i _ => (m.pool.node i).isAllocated = true
  | .write i _ _ => m.pool.isProtected i = false
  | .keep | .allocate _ _ | .defrag | .reset => True

/-- The action does not allocate nodes that carry a break mark from the start. -/
def Plain : Action n → Prop
  | .allocate _ template => template.fragged = false
  | _ => True

/-- Conditions and effects depend on the pool and the windows only. -/
theorem allowed_congr {m m' : Mmu n} (hp : m'.pool = m.pool) (hw : m'.windows = m.windows)
    (a : Action n) : a.Allowed m' ↔ a.Allowed m := by
  cases a <;> simp only [Allowed, isMapped, hp, hw]

/-- What an action shows in the windows depends on the pool and the windows. -/
theorem onWindows_congr {m m' : Mmu n} (hp : m'.pool = m.pool) (hw : m'.windows = m.windows)
    (a : Action n) : a.onWindows m' = a.onWindows m := by
  cases a <;> simp only [onWindows, rename, hp, hw]

end Action

/-- From `m` to `m'` an action has been carried out. -/
structure Acts (m : Mmu n) (a : Action n) (m' : Mmu n) : Prop where
  allowed : a.Allowed m
  pool_eq : m'.pool = a.onPool m.pool
  windows_eq : m'.windows = a.onWindows m

/-- Nothing has been done if pool and windows are as before. -/
theorem acts_keep {m m' : Mmu n} (hp : m'.pool = m.pool) (hw : m'.windows = m.windows) :
    Acts m .keep m' := ⟨trivial, hp, hw⟩

/-- Only pool and windows matter, before and after. -/
theorem Acts.congr {m₁ m₂ m₁' m₂' : Mmu n} {a : Action n} (h : Acts m₁ a m₁')
    (hp : m₁.pool = m₂.pool) (hw : m₁.windows = m₂.windows) (hp' : m₂'.pool = m₁'.pool)
    (hw' : m₂'.windows = m₁'.windows) : Acts m₂ a m₂' where
  allowed := (Action.allowed_congr hp hw a).mp h.allowed
  pool_eq := by rw [hp', h.pool_eq, hp]
  windows_eq := by rw [hw', h.windows_eq, Action.onWindows_congr hp hw]

/-! ### Attempts -/

/-- The outcome of an attempt at an action: it has been refused and nothing is changed, or it has
been carried out. In the second case there is no error, unless it was an allocation that exhausted
the pool. -/
inductive Attempt (m : Mmu n) (a : Action n) : MmuError × Mmu n → Prop where
  | refused {e : MmuError} (failed : e ≠ .none) (kept : e ≠ .alloc) : Attempt m a (e, m)
  | done {e : MmuError} {m' : Mmu n}
      (he : e = .none ∨ e = .alloc ∧ ∃ count template, a = .allocate count template)
      (h : Acts m a m') : Attempt m a (e, m')

section Attempt

variable {m : Mmu n} {a : Action n}

/-- Success without a change of pool and windows. -/
theorem attempt_keep {m' : Mmu n} (hp : m'.pool = m.pool) (hw : m'.windows = m.windows) :
    Attempt m .keep (.none, m') := .done (.inl rfl) (acts_keep hp hw)

/-- An attempt at the cursor fails cleanly if there is no allocated node. -/
theorem attempt_atCursor {f : Fin n → Mmu n → MmuError × Mmu n}
    (h : m.cursorNode.isAllocated = true → Attempt m a (f m.cursor m)) :
    Attempt m a (m.atCursor f) := by
  unfold atCursor
  split_ifs with ha
  · exact h ha
  · exact .refused (by simp) (by simp)

/-- Put the cursor on another node, as `f` says, if there is a chain under it. -/
def moveCursor (m : Mmu n) (f : Pool n → Fin n → Fin n) : MmuError × Mmu n :=
  m.atCursor fun i m => (.none, { m with cursor := f m.pool i })

/-- A moved cursor, or one that has stayed because its node is not allocated. -/
theorem moveCursor_cursor (m : Mmu n) (f : Pool n → Fin n → Fin n) : (m.moveCursor f).2.cursor
    = if m.cursorNode.isAllocated then f m.pool m.cursor else m.cursor := by
  unfold moveCursor atCursor
  split_ifs <;> rfl

/-- Moving the cursor either fails and changes nothing or moves the cursor. -/
theorem moveCursor_cases (m : Mmu n) (f : Pool n → Fin n → Fin n) :
    m.moveCursor f = (.node, m) ∨
      m.moveCursor f = (.none, { m with cursor := (m.moveCursor f).2.cursor }) := by
  unfold moveCursor atCursor
  split_ifs
  · exact .inr rfl
  · exact .inl rfl

/-- LOAD_ROOT moves the cursor. -/
theorem toRoot_eq_moveCursor (m : Mmu n) : m.toRoot = m.moveCursor Pool.rootOf := rfl

theorem toLast_eq_moveCursor (m : Mmu n) : m.toLast = m.moveCursor Pool.lastOf := rfl

/-- Moving the cursor does nothing to pool and windows. -/
theorem attempt_moveCursor (m : Mmu n) (f : Pool n → Fin n → Fin n) :
    Attempt m .keep (m.moveCursor f) :=
  attempt_atCursor fun _ => attempt_keep rfl rfl

theorem attempt_along (m : Mmu n) (link : Node n → Option (Fin n)) :
    Attempt m .keep (m.along link) := by
  refine attempt_atCursor fun _ => ?_
  split
  · exact attempt_keep rfl rfl
  · exact .refused (by simp) (by simp)

theorem attempt_measure (m : Mmu n) : Attempt m .keep m.measure := by
  unfold measure chainLength
  cases m.pool.handle? m.arg1 with
  | none => exact .refused (by simp) (by simp)
  | some h => exact attempt_keep rfl rfl

/-! ### Allocating and freeing -/

theorem onPool_eq {α : Type} (m : Mmu n) (f : Pool n → α × Pool n) :
    m.onPool f = ((f m.pool).1, { m with pool := (f m.pool).2 }) := rfl

/-- An allocation that builds nothing leaves the pool alone. -/
theorem pool_eq_of_allocate_refused {p : Pool n} {count : ℕ} {template : NodeStatus}
    (h : (p.allocate count template).1 = .badLength ∨ (p.allocate count template).1 = .noneFree) :
    (p.allocate count template).2 = p := by
  unfold Pool.allocate at h ⊢
  split_ifs at h ⊢
  · rfl
  · cases hf : p.firstFree with
    | none => rfl
    | some root =>
      -- then there is a chain, complete or not
      rw [hf] at h
      dsimp only at h
      split_ifs at h <;> simp at h

/-- An allocation acts on the pool, however it ends. -/
theorem acts_allocate (m : Mmu n) (count : ℕ) (template : NodeStatus) :
    Acts m (.allocate count template) (m.allocate count template).2 := by
  have hpool : (Action.allocate count template).onPool m.pool
      = (m.pool.allocate count template).2 := rfl
  unfold allocate
  rw [onPool_eq]
  dsimp only
  generalize m.pool.allocate count template = x at hpool ⊢
  obtain ⟨outcome, q⟩ := x
  cases outcome <;> exact ⟨trivial, hpool.symm, rfl⟩

/-- Of an allocation command only running out of nodes fails with an effect. -/
theorem attempt_allocateChain (m : Mmu n) (count : ℕ) (template : NodeStatus) :
    Attempt m (.allocate count template) (m.allocateChain count template) := by
  have hrefused : (m.pool.allocate count template).1 = .badLength ∨
      (m.pool.allocate count template).1 = .noneFree →
        (m.pool.allocate count template).2 = m.pool :=
    pool_eq_of_allocate_refused
  -- what the action does to the pool is what the command does
  have hpool : (Action.allocate count template).onPool m.pool
      = (m.pool.allocate count template).2 := rfl
  unfold allocateChain allocate
  rw [onPool_eq]
  dsimp only
  generalize m.pool.allocate count template = x at hrefused hpool ⊢
  obtain ⟨outcome, q⟩ := x
  cases outcome with
  | built root => exact .done (.inl rfl) ⟨trivial, hpool.symm, rfl⟩
  -- a chain that has run out of nodes is kept, so the action is done
  | exhausted root built =>
    exact .done (.inr ⟨rfl, count, template, rfl⟩) ⟨trivial, hpool.symm, rfl⟩
  -- a bad length and an empty pool are refused with the pool as it was
  | badLength =>
    obtain rfl : q = m.pool := hrefused (.inl rfl)
    exact .refused nofun nofun
  | noneFree =>
    obtain rfl : q = m.pool := hrefused (.inr rfl)
    exact .refused nofun nofun

/-- The two commands that allocate differ in the length and the template. -/
theorem perform_allocation (m : Mmu n) {command : Command}
    (h : command = .pageAlloc ∨ command = .alloc) :
    ∃ count template, m.perform command = m.allocateChain count template := by
  rcases h with rfl | rfl
  · exact ⟨pageNodes, { NodeStatus.none with paged := true }, rfl⟩
  · exact ⟨m.arg1.toNat, (NodeStatus.ofByte (lowByte m.arg2)).requested, rfl⟩

/-- Only the handle of a chain stands for one. -/
theorem isHandle_of_handle? {p : Pool n} {w : Word} {i : Fin n} (h : p.handle? w = some i) :
    p.isHandle i = true := by
  unfold Pool.handle? at h
  exact (Option.filter_eq_some_iff.mp h).2

/-- Freeing the chain that a position stands for, if it stands for one. -/
def releaseAction (m : Mmu n) (position : Word) : Action n :=
  (m.pool.handle? position).elim .keep .release

/-- What a release comes to is a release or nothing. -/
theorem releaseAction_cases (m : Mmu n) (position : Word) :
    m.releaseAction position = .keep ∨ ∃ root, m.releaseAction position = .release root := by
  unfold releaseAction
  cases m.pool.handle? position with
  | none => exact .inl rfl
  | some root => exact .inr ⟨root, rfl⟩

/-- The three outcomes of freeing. -/
theorem free_cases (m : Mmu n) (position : Word) :
    m.free position = (.error .handle, m) ∨ m.free position = (.error .mapping, m) ∨
      ∃ h, m.pool.handle? position = some h ∧ m.isMapped h = false ∧ m.free position
        = (.ok (m.pool.releaseChain h).1, { m with pool := (m.pool.releaseChain h).2 }) := by
  unfold free
  cases m.pool.handle? position with
  | none => exact .inl rfl
  | some h =>
    dsimp only
    cases hmap : m.isMapped h with
    | true => exact .inr (.inl rfl)
    | false => exact .inr (.inr ⟨h, rfl, hmap, rfl⟩)

/-- FREE releases the chain that the first argument names, if it may. -/
theorem attempt_freeChain (m : Mmu n) : Attempt m (m.releaseAction m.arg1) m.freeChain := by
  unfold freeChain releaseAction
  rcases free_cases m m.arg1 with hfree | hfree | ⟨h, hh, hmap, hfree⟩
  · rw [hfree]
    exact .refused (by simp) (by simp)
  · rw [hfree]
    exact .refused (by simp) (by simp)
  · rw [hfree, hh]
    exact .done (.inl rfl) ⟨⟨isHandle_of_handle? hh, hmap⟩, rfl, rfl⟩

theorem attempt_freePage (m : Mmu n) : Attempt m (m.releaseAction m.arg1) m.freePage := by
  unfold freePage
  split
  · exact .refused (by simp) (by simp)
  · split_ifs
    · exact m.attempt_freeChain
    · exact .refused (by simp) (by simp)

/-! ### Splicing -/

/-- Putting in the first free node, if there is one. -/
def insertAction (m : Mmu n) (insert : Fin n → Action n) : Action n :=
  m.pool.firstFree.elim .keep insert

/-- What an insertion comes to depends on there being a free node. -/
theorem insertAction_cases (m : Mmu n) (insert : Fin n → Action n) :
    m.insertAction insert = .keep ∨ ∃ new, m.insertAction insert = insert new := by
  unfold insertAction
  cases m.pool.firstFree with
  | none => exact .inl rfl
  | some new => exact .inr ⟨new, rfl⟩

/-- DELETE_NODE removes the node at the cursor. -/
theorem attempt_deleteNode (m : Mmu n) : Attempt m (.remove m.cursor) m.deleteNode := by
  refine attempt_atCursor fun ha => ?_
  dsimp only
  split_ifs with hmap
  · exact .refused (by simp) (by simp)
  · have hallowed : (Action.remove m.cursor).Allowed m := by
      refine ⟨ha, fun halone => ?_⟩
      rw [halone, Bool.true_and, Bool.not_eq_true] at hmap
      exact hmap
    -- the windows are told if the chain goes on under another name
    cases hprev : (m.pool.node m.cursor).prev <;> cases hnext : (m.pool.node m.cursor).next
    all_goals
      refine .done (.inl rfl) ⟨hallowed, rfl, ?_⟩
      dsimp only [Action.onWindows]
      rw [hprev, hnext]
      rfl

/-- INSERT_BEFORE puts the first free node in front of the cursor. -/
theorem attempt_insertBefore (m : Mmu n) :
    Attempt m (m.insertAction (.insertBefore · m.cursor)) m.insertBefore := by
  refine attempt_atCursor fun ha => ?_
  unfold insertAction
  dsimp only
  cases hnew : m.pool.firstFree with
  -- without a free node it is refused
  | none => exact .refused (by simp) (by simp)
  | some new =>
    refine .done (.inl rfl) ⟨⟨ha, hnew⟩, ?_, ?_⟩
    · -- the pool is the same whether or not the windows follow
      split_ifs <;> rfl
    · -- the windows follow if the head has been replaced
      change _ = if m.pool.isFirst m.cursor then _ else _
      split_ifs <;> rfl

theorem attempt_insertAfter (m : Mmu n) :
    Attempt m (m.insertAction (.insertAfter · m.cursor)) m.insertAfter := by
  refine attempt_atCursor fun ha => ?_
  unfold insertAction
  dsimp only
  cases hnew : m.pool.firstFree with
  | none => exact .refused (by simp) (by simp)
  | some new => exact .done (.inl rfl) ⟨⟨ha, hnew⟩, rfl, rfl⟩

/-- Locking and unlocking set the lock of the node at the cursor. -/
theorem attempt_setLock (m : Mmu n) (locked : Bool) :
    Attempt m (.setLock m.cursor locked) (m.setLock locked) :=
  attempt_atCursor fun ha => .done (.inl rfl) ⟨ha, rfl, rfl⟩

/-- Two things in turn, the first of which moves the cursor or fails. -/
theorem attempt_inTurn {first second : Mmu n → MmuError × Mmu n}
    (hfirst : first m = (.node, m) ∨ first m = (.none, { m with cursor := (first m).2.cursor }))
    (hsecond : Attempt { m with cursor := (first m).2.cursor } a
      (second { m with cursor := (first m).2.cursor })) :
    Attempt { m with cursor := (first m).2.cursor } a (m.inTurn first second) := by
  unfold inTurn
  rcases hfirst with hfirst | hfirst
  · -- the first command has failed, so the second was not tried
    rw [hfirst]
    exact .refused (by simp) (by simp)
  · rw [hfirst]
    exact hsecond

end Attempt

/-! ### Commands -/

/-- Where the cursor is when a command gets to its action: a push or a pop first moves it to the
end of the chain that it works on. -/
def cursorFor (m : Mmu n) : Command → Fin n
  | .pushFront | .popFront => m.toRoot.2.cursor
  | .pushBack | .popBack => m.toLast.2.cursor
  | _ => m.cursor

/-- The action that a command is for. -/
def commandAction (m : Mmu n) (command : Command) : Action n :=
  match command with
  | .pageAlloc => .allocate pageNodes { NodeStatus.none with paged := true }
  | .alloc => .allocate m.arg1.toNat (NodeStatus.ofByte (lowByte m.arg2)).requested
  | .pageFree | .free => m.releaseAction m.arg1
  | .deleteNode | .popFront | .popBack => .remove (m.cursorFor command)
  | .insertBefore | .pushFront => m.insertAction (.insertBefore · (m.cursorFor command))
  | .insertAfter | .pushBack => m.insertAction (.insertAfter · (m.cursorFor command))
  | .lockNode => .setLock m.cursor true
  | .unlockNode => .setLock m.cursor false
  | .defrag => .defrag
  | .reset => .reset
  | .nop | .loadRoot | .loadNext | .loadPrev | .loadLast | .size => .keep

/-- The command is one of those that the action comes from. -/
def Action.IsFor (command : Command) : Action n → Prop
  | .keep => True
  | .select _ _ => False
  | .allocate _ _ => command = .pageAlloc ∨ command = .alloc
  | .release _ => command = .pageFree ∨ command = .free
  | .remove _ => command = .deleteNode ∨ command = .popFront ∨ command = .popBack
  | .insertBefore _ _ => command = .insertBefore ∨ command = .pushFront
  | .insertAfter _ _ => command = .insertAfter ∨ command = .pushBack
  | .setLock _ _ => command = .lockNode ∨ command = .unlockNode
  | .write _ _ _ => False
  | .defrag => command = .defrag
  | .reset => command = .reset

/-- The action of a command is one of those that the command may do. -/
theorem commandAction_isFor (m : Mmu n) (command : Command) :
    (m.commandAction command).IsFor command := by
  cases command with
  -- only releases and insertions depend on the state, and they may come to nothing
  | pageFree | free =>
    dsimp only [commandAction]
    rcases m.releaseAction_cases m.arg1 with h | ⟨root, h⟩ <;> (rw [h]; simp [Action.IsFor])
  | insertBefore | pushFront =>
    dsimp only [commandAction]
    rcases m.insertAction_cases (.insertBefore · _) with h | ⟨new, h⟩ <;>
      (rw [h]; simp [Action.IsFor])
  | insertAfter | pushBack =>
    dsimp only [commandAction]
    rcases m.insertAction_cases (.insertAfter · _) with h | ⟨new, h⟩ <;>
      (rw [h]; simp [Action.IsFor])
  | _ => simp [commandAction, Action.IsFor]

/-- **A command is an attempt at its action**, after the cursor has been moved where it has to
be. -/
theorem attempt_perform (m : Mmu n) (command : Command) :
    Attempt { m with cursor := m.cursorFor command } (m.commandAction command)
      (m.perform command) := by
  cases command with
  | nop => exact attempt_keep rfl rfl
  | pageAlloc => exact m.attempt_allocateChain _ _
  | pageFree => exact m.attempt_freePage
  | alloc => exact m.attempt_allocateChain _ _
  | free => exact m.attempt_freeChain
  | loadRoot => exact m.attempt_moveCursor Pool.rootOf
  | loadNext => exact m.attempt_along Node.next
  | loadPrev => exact m.attempt_along Node.prev
  | loadLast => exact m.attempt_moveCursor Pool.lastOf
  | deleteNode => exact m.attempt_deleteNode
  | insertBefore => exact m.attempt_insertBefore
  | insertAfter => exact m.attempt_insertAfter
  -- a move of the cursor first, and then an edit there
  | pushBack => exact attempt_inTurn (m.moveCursor_cases Pool.lastOf) (attempt_insertAfter _)
  | pushFront => exact attempt_inTurn (m.moveCursor_cases Pool.rootOf) (attempt_insertBefore _)
  | popBack => exact attempt_inTurn (m.moveCursor_cases Pool.lastOf) (attempt_deleteNode _)
  | popFront => exact attempt_inTurn (m.moveCursor_cases Pool.rootOf) (attempt_deleteNode _)
  | lockNode => exact m.attempt_setLock true
  | unlockNode => exact m.attempt_setLock false
  | defrag => exact .done (.inl rfl) ⟨trivial, rfl, rfl⟩
  | reset => exact .done (.inl rfl) ⟨trivial, rfl, rfl⟩
  | size => exact m.attempt_measure

/-! ### Concluding a command -/

section Conclude

variable (x : MmuError × Mmu n)

/-- Concluding a command does not touch the pool. -/
@[simp] theorem conclude_pool : (conclude x).pool = x.2.pool := by
  obtain ⟨e, m⟩ := x
  cases e <;> rfl

@[simp] theorem conclude_windows : (conclude x).windows = x.2.windows := by
  obtain ⟨e, m⟩ := x
  cases e <;> rfl

/-- What a command has ended with is kept as the last error. -/
theorem conclude_error : (conclude x).error = x.1 := by
  obtain ⟨e, m⟩ := x
  cases e <;> rfl

/-- Whatever a command has done, it is not under way any more when it has been concluded. -/
theorem conclude_command : (conclude x).command = 0 := by
  obtain ⟨e, m⟩ := x
  cases e <;> rfl

@[simp] theorem conclude_arg1 : (conclude x).arg1 = x.2.arg1 := by
  obtain ⟨e, m⟩ := x
  cases e <;> rfl

@[simp] theorem conclude_arg2 : (conclude x).arg2 = x.2.arg2 := by
  obtain ⟨e, m⟩ := x
  cases e <;> rfl

@[simp] theorem conclude_cursor : (conclude x).cursor = x.2.cursor := by
  obtain ⟨e, m⟩ := x
  cases e <;> rfl

@[simp] theorem conclude_latch : (conclude x).latch = x.2.latch := by
  obtain ⟨e, m⟩ := x
  cases e <;> rfl

end Conclude

/-! ### Requests -/

/-- The action has been carried out, or nothing has happened to the pool and the windows. -/
def MayAct (m : Mmu n) (a : Action n) (m' : Mmu n) : Prop := Acts m .keep m' ∨ Acts m a m'

section MayAct

variable {m m' : Mmu n} {a : Action n}

theorem mayAct_of_eq (hp : m'.pool = m.pool) (hw : m'.windows = m.windows) : m.MayAct a m' :=
  .inl (acts_keep hp hw)

/-- What has been attempted from a unit with the same pool and the same windows. -/
theorem Attempt.mayAct {m₁ : Mmu n} {x : MmuError × Mmu n} (h : Attempt m₁ a x)
    (hp : m₁.pool = m.pool) (hw : m₁.windows = m.windows) : m.MayAct a (conclude x) := by
  cases h with
  | refused failed kept =>
    exact mayAct_of_eq (by rw [conclude_pool, hp]) (by rw [conclude_windows, hw])
  | done he h => exact .inr (h.congr hp hw (conclude_pool _) (conclude_windows _))

/-- The action that a command code asks for. -/
def codeAction (m : Mmu n) (code : Byte) : Action n :=
  (Command.ofCode? code).elim .keep m.commandAction

/-- The message and the command register have no part in what the command is for. -/
theorem cursorFor_announce (m : Mmu n) (command : Command) :
    (m.announce command).cursorFor command = m.cursorFor command := by
  cases command with
  -- the cursor is moved first, by the pool and the old cursor alone
  | pushFront | popFront =>
    change (m.announce _).toRoot.2.cursor = m.toRoot.2.cursor
    rw [toRoot_eq_moveCursor, toRoot_eq_moveCursor, moveCursor_cursor, moveCursor_cursor]
    rfl
  | pushBack | popBack =>
    change (m.announce _).toLast.2.cursor = m.toLast.2.cursor
    rw [toLast_eq_moveCursor, toLast_eq_moveCursor, moveCursor_cursor, moveCursor_cursor]
    rfl
  | _ => rfl

/-- What a command comes to does not depend on what the command register shows. -/
theorem commandAction_announce (m : Mmu n) (command : Command) :
    (m.announce command).commandAction command = m.commandAction command := by
  have hcursor := m.cursorFor_announce command
  cases command with
  | deleteNode | popFront | popBack => exact congrArg Action.remove hcursor
  | insertBefore | pushFront | insertAfter | pushBack =>
    dsimp only [commandAction]
    rw [hcursor]
    rfl
  | _ => rfl

/-- Writing a code to the command register does what the code asks for, or fails. -/
theorem mayAct_run (m : Mmu n) (code : Byte) : m.MayAct (m.codeAction code) (m.run code) := by
  unfold run codeAction
  cases Command.ofCode? code with
  | none => exact mayAct_of_eq rfl rfl
  | some command =>
    have h := (m.announce command).attempt_perform command
    rw [commandAction_announce] at h
    exact h.mayAct rfl rfl

/-- Showing a chain, if the position stands for one, or nothing. -/
def selectAction (m : Mmu n) (w : ℕ) : Option Word → Action n
  | none => .select w none
  | some position => (m.pool.handle? position).elim .keep fun h => .select w (some h)

/-- What a selection comes to is a selection or nothing. -/
theorem selectAction_cases (m : Mmu n) (w : ℕ) (handle : Option Word) :
    m.selectAction w handle = .keep ∨ ∃ shown, m.selectAction w handle = .select w shown := by
  cases handle with
  | none => exact .inr ⟨none, rfl⟩
  | some position =>
    dsimp only [selectAction]
    cases m.pool.handle? position with
    | none => exact .inl rfl
    | some h => exact .inr ⟨some h, rfl⟩

/-- Selecting fails without effect, or it is the action. -/
theorem select_cases (m : Mmu n) (w : ℕ) (handle : Option Word) :
    (∃ e, m.select w handle = .error e) ∨
      ∃ m', m.select w handle = .ok m' ∧ Acts m (m.selectAction w handle) m' := by
  unfold select selectAction
  split_ifs with hw
  · -- the window exists, so checked and unchecked setting agree
    have hset : ∀ shown, m.windows.set w shown = m.windows.setIfInBounds w shown := by
      intro shown
      ext j hj
      rw [Vector.getElem_set, Vector.getElem_setIfInBounds]
    cases handle with
    | none => exact .inr ⟨_, rfl, fun h hh => absurd hh (by simp), rfl, hset none⟩
    -- a chain is shown by its handle, or not at all
    | some position =>
      dsimp only
      cases hh : m.pool.handle? position with
      | none => exact .inl ⟨_, rfl⟩
      | some h =>
        refine .inr ⟨_, rfl, fun g hg => ?_, rfl, hset _⟩
        obtain rfl := Option.some.inj hg
        exact isHandle_of_handle? hh
  · exact .inl ⟨_, rfl⟩

/-- Offsets are taken within the payload. -/
theorem mod_payloadSize_lt (offset : ℕ) : offset % payloadSize < payloadSize :=
  Nat.mod_lt _ (by decide)

/-- Writing a byte of a payload; offsets are taken modulo its size. -/
def writeAction (i : Fin n) (offset : ℕ) (value : Byte) : Action n :=
  .write i ⟨offset % payloadSize, mod_payloadSize_lt offset⟩ value

/-- A write to a node writes the byte, or is refused because of a lock. -/
theorem mayAct_writeNode (m : Mmu n) (i : Fin n) (offset : ℕ) (value : Byte) :
    m.MayAct (writeAction i offset value) (m.writeNode i offset value).2 := by
  unfold writeNode
  split_ifs with hp
  · exact mayAct_of_eq rfl rfl
  · exact .inr ⟨by rwa [Bool.not_eq_true] at hp, rfl, rfl⟩

/-- The action that a request asks for. -/
def requestAction (m : Mmu n) : Request → Action n
  | .command code => m.codeAction code
  | .writeRegister offset value =>
    match RegisterByte.ofOffset offset.toNat with
    | .command => m.codeAction value
    | .payload i => if m.cursorNode.isAllocated then writeAction m.cursor i value else .keep
    | .word (.window w) true =>
      m.selectAction w (linkOfWord (wordOf (m.latch.getD (offset.toNat / 2) 0) value))
    | _ => .keep
  | .select w handle => m.selectAction w handle
  | .allocate count template => .allocate count template
  | .free position => m.releaseAction position
  | .writeWindow w offset value =>
    ((m.window? w).bind (m.nodeBehind? · offset)).elim .keep
      (writeAction · (offset.toNat % payloadSize) value)
  | .writePayload position offset value =>
    (Pool.index? position).elim .keep (writeAction · offset value)
  | .reset => .reset
  | .setArg1 _ | .setArg2 _ | .setCursor _ | .readWindow _ _ => .keep

/-- A write to the register block does what its byte stands for. -/
theorem mayAct_writeRegister (m : Mmu n) (offset : Word) (value : Byte) :
    m.MayAct (m.requestAction (.writeRegister offset value)) (m.writeRegister offset value) := by
  unfold writeRegister
  dsimp only [requestAction]
  -- only a command, a payload byte and the low byte of a window do more than set a register
  cases RegisterByte.ofOffset offset.toNat with
  | command => exact m.mayAct_run value
  | payload i =>
    dsimp only [writeCursorPayload]
    split_ifs
    · exact m.mayAct_writeNode m.cursor i value
    · exact mayAct_of_eq rfl rfl
  | word register low =>
    cases low with
    -- high bytes are only latched
    | false => exact mayAct_of_eq rfl rfl
    | true =>
      cases register with
      | window w =>
        dsimp only [writeWord]
        rw [if_pos rfl]
        rcases m.select_cases w (linkOfWord (wordOf (m.latch.getD (offset.toNat / 2) 0) value))
          with ⟨e, he⟩ | ⟨m', hm', ha⟩
        · rw [he]
          exact mayAct_of_eq rfl rfl
        · rw [hm']
          exact .inr ha
      | cursor =>
        dsimp only [writeWord, setCursor]
        rw [if_pos rfl]
        cases (Pool.index? (wordOf (m.latch.getD (offset.toNat / 2) 0) value) : Option (Fin n))
        all_goals exact mayAct_of_eq rfl rfl
      | _ => exact mayAct_of_eq rfl rfl
  | _ => exact mayAct_of_eq rfl rfl

/-- A write through a window writes to the node behind it. -/
theorem mayAct_writeWindow (m : Mmu n) (w : ℕ) (offset : Word) (value : Byte) :
    m.MayAct (m.requestAction (.writeWindow w offset value))
      (m.writeWindow w offset value).2 := by
  unfold writeWindow
  dsimp only [requestAction]
  cases m.window? w with
  -- nothing mapped, or the window is longer than the chain
  | none => exact mayAct_of_eq rfl rfl
  | some h =>
    rw [Option.bind_some]
    dsimp only
    cases m.nodeBehind? h offset with
    | none => exact mayAct_of_eq rfl rfl
    | some i => exact m.mayAct_writeNode i _ value

/-- **A request carries out its action or leaves pool and windows alone.** -/
theorem mayAct_serve (m : Mmu n) (r : Request) : m.MayAct (m.requestAction r) (m.serve r) := by
  -- by the kind of request: each is refused, or does the one thing that it asks for
  cases r with
  | command code => exact m.mayAct_run code
  | writeRegister offset value => exact m.mayAct_writeRegister offset value
  | setArg1 value => exact mayAct_of_eq rfl rfl
  | setArg2 value => exact mayAct_of_eq rfl rfl
  | setCursor position =>
    dsimp only [serve, setCursor]
    split <;> exact mayAct_of_eq rfl rfl
  | select w handle =>
    dsimp only [serve, requestAction]
    rcases m.select_cases w handle with ⟨e, he⟩ | ⟨m', hm', ha⟩
    · rw [he]
      exact mayAct_of_eq rfl rfl
    · rw [hm']
      exact .inr ha
  | allocate count template => exact .inr (m.acts_allocate count template)
  | free position =>
    dsimp only [serve, requestAction, releaseAction]
    rcases free_cases m position with hfree | hfree | ⟨h, hh, hmap, hfree⟩
    · rw [hfree]
      exact mayAct_of_eq rfl rfl
    · rw [hfree]
      exact mayAct_of_eq rfl rfl
    · rw [hfree, hh]
      exact .inr ⟨⟨isHandle_of_handle? hh, hmap⟩, rfl, rfl⟩
  | readWindow w offset =>
    dsimp only [serve, readWindow]
    split
    · exact mayAct_of_eq rfl rfl
    · split <;> exact mayAct_of_eq rfl rfl
  | writeWindow w offset value => exact m.mayAct_writeWindow w offset value
  | writePayload position offset value =>
    dsimp only [serve, requestAction, writePayload]
    cases (Pool.index? position : Option (Fin n)) with
    | none => exact mayAct_of_eq rfl rfl
    | some i => exact m.mayAct_writeNode i offset value
  | reset => exact .inr ⟨trivial, rfl, rfl⟩

/-- The actions that requests other than commands ask for, and what is known of the request. -/
inductive Asked (m : Mmu n) (r : Request) : Action n → Prop where
  | command {command : Command} (h : r.command? = some command) :
      Asked m r (m.commandAction command)
  | keep : Asked m r .keep
  | select {w : ℕ} {shown : Option (Fin n)} (h : r.Selects w) : Asked m r (.select w shown)
  | allocate {count : ℕ} {template : NodeStatus} (h : r = .allocate count template) :
      Asked m r (.allocate count template)
  | release {root : Fin n} : Asked m r (.release root)
  /-- Only a write by position can get at a node past the cursor and the windows. -/
  | write {i : Fin n} {offset : Fin payloadSize} {value : Byte}
      (h : r.Guarded → (m.cursorNode.isAllocated = true ∧ i = m.cursor) ∨
        ∃ w o, (m.window? w).bind (m.nodeBehind? · o) = some i) : Asked m r (.write i offset value)
  | reset (h : r = .reset) : Asked m r .reset

/-- What a request comes to is among what may be asked by it. -/
theorem asked_requestAction (m : Mmu n) (r : Request) : m.Asked r (m.requestAction r) := by
  -- commands come by their codes, from the register and from outside
  have hcode : ∀ code, r.command? = Command.ofCode? code → m.Asked r (m.codeAction code) := by
    intro code hr
    unfold codeAction
    cases hcode : Command.ofCode? code with
    | none => exact .keep
    | some command => exact .command (hr.trans hcode)
  -- selections come from the register block and from outside
  have hselect : ∀ w handle, r.Selects w → m.Asked r (m.selectAction w handle) := by
    intro w handle hr
    rcases m.selectAction_cases w handle with h | ⟨shown, h⟩
    · rw [h]
      exact .keep
    · rw [h]
      exact .select hr
  cases r with
  | command code => exact hcode code rfl
  | writeRegister offset value =>
    dsimp only [requestAction]
    cases hreg : RegisterByte.ofOffset offset.toNat with
    | command => exact hcode value (if_pos hreg)
    | payload i =>
      dsimp only
      split_ifs with ha
      · exact .write fun _ => .inl ⟨ha, rfl⟩
      · exact .keep
    | word register low =>
      cases register with
      | window w =>
        cases low with
        | false => exact .keep
        | true => exact hselect w _ hreg
      | _ => exact .keep
    | _ => exact .keep
  | select w handle => exact hselect w handle rfl
  | allocate count template => exact .allocate rfl
  | free position =>
    dsimp only [requestAction]
    rcases m.releaseAction_cases position with h | ⟨root, h⟩
    · rw [h]
      exact .keep
    · rw [h]
      exact .release
  | writeWindow w offset value =>
    dsimp only [requestAction]
    cases hi : (m.window? w).bind (m.nodeBehind? · offset) with
    | none => exact .keep
    | some i => exact .write fun _ => .inr ⟨w, offset, hi⟩
  -- only the machine's own code writes there, and no guest
  | writePayload position offset value =>
    dsimp only [requestAction]
    cases (Pool.index? position : Option (Fin n)) with
    | none => exact .keep
    | some i => exact .write fun hr => hr.elim
  | reset => exact .reset rfl
  | setArg1 _ | setArg2 _ | setCursor _ | readWindow _ _ => exact .keep

/-- Plain requests ask for plain actions; commands always do. -/
theorem plain_requestAction (m : Mmu n) {r : Request} (hr : r.Plain) :
    (m.requestAction r).Plain := by
  have hasked := m.asked_requestAction r
  generalize m.requestAction r = a at hasked ⊢
  cases hasked with
  | allocate h =>
    subst h
    exact hr
  | @command command h =>
    have hfor := m.commandAction_isFor command
    cases command with
    | pageAlloc | alloc => exact rfl
    | _ =>
      -- the action is none that allocates
      generalize m.commandAction _ = a at hfor ⊢
      cases a with
      | allocate count template => exact absurd hfor (by simp [Action.IsFor])
      | _ => exact trivial
  | _ => exact trivial

end MayAct

end Mmu

end Machine6809
