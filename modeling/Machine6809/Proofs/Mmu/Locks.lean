import Machine6809.Proofs.Mmu.Carrying
import Machine6809.Proofs.Mmu.Splicing

/-!
# What a lock protects

A lock is a bit of one node. It protects that node, and as long as the node is the root of its
chain, it protects the whole chain, because a write looks at the root as well. The guest may do
almost anything in the meantime: move the nodes, put others in, show the chain in windows. Only a
new root ends the protection of the others, since it has not got the lock.

So there are two invariants for a run that unlocks and frees nothing. `Mmu.Locked` is about the
locked node itself and holds whatever happens to its chain. `Mmu.Guarded` is about another node of
the chain, and what it says of the payload is under the condition that the locked node is still a
handle. The condition can be put to the end of the run: a node that has lost its place as a root
does not get it back without a deletion (`Acts.isHandle_of_isHandle`).
-/

namespace Machine6809

/-- The command unlocks no node and frees none. -/
def Command.keepsLocks : Command → Bool
  | .unlockNode | .reset | .free | .pageFree | .deleteNode | .popBack | .popFront => false
  | _ => true

namespace Mmu

variable {n : ℕ}

/-- The request unlocks no node and frees none. -/
def Request.keepsLocks : Request → Bool
  | .reset | .free _ => false
  | r => r.command?.all Command.keepsLocks

/-- The action unlocks no node and frees none. -/
def Action.KeepsLocks : Action n → Prop
  | .release _ | .remove _ | .reset => False
  | .setLock _ locked => locked = true
  | _ => True

/-- Node `h` is locked and has the payload `v`. -/
structure Locked (m : Mmu n) (h : Fin n) (v : Vector Byte payloadSize) : Prop where
  allocated : (m.pool.node h).isAllocated = true
  locked : (m.pool.node h).status.locked = true
  payload : (m.pool.node h).payload = v

/-- Node `i` is in one chain with node `h`, and it has the payload `v` if `h` is the root. -/
structure Guarded (m : Mmu n) (h i : Fin n) (v : Vector Byte payloadSize) : Prop where
  allocated : (m.pool.node i).isAllocated = true
  together : (m.pool.node i).root = (m.pool.node h).root
  payload : m.pool.isHandle h = true → (m.pool.node i).payload = v

section Locks

variable {m m' : Mmu n} {a : Action n} {S : List (List (Fin n))} {h i : Fin n} {r : Request}
  {u v : Vector Byte payloadSize}

/-! ### Requests that keep locks -/

/-- What a command comes to keeps locks if the command is one of those that do. -/
theorem keepsLocks_commandAction {command : Command} (hk : command.keepsLocks = true) :
    (m.commandAction command).KeepsLocks := by
  cases command with
  | unlockNode | reset | free | pageFree | deleteNode | popBack | popFront =>
    exact absurd hk Bool.false_ne_true
  -- with a free node it is an insertion, and otherwise nothing
  | insertBefore | pushFront =>
    dsimp only [commandAction]
    rcases m.insertAction_cases (.insertBefore · _) with h | ⟨new, h⟩ <;> (rw [h]; exact trivial)
  | insertAfter | pushBack =>
    dsimp only [commandAction]
    rcases m.insertAction_cases (.insertAfter · _) with h | ⟨new, h⟩ <;> (rw [h]; exact trivial)
  | lockNode => exact rfl
  | _ => exact trivial

/-- The same of a code, which may be no command. -/
theorem keepsLocks_codeAction {code : Byte}
    (hk : (Command.ofCode? code).all Command.keepsLocks = true) :
    (m.codeAction code).KeepsLocks := by
  unfold codeAction
  cases hcode : Command.ofCode? code with
  | none => exact trivial
  | some command =>
    rw [hcode] at hk
    exact keepsLocks_commandAction hk

/-- Selecting a chain keeps locks. -/
theorem keepsLocks_selectAction (w : ℕ) (handle : Option Word) :
    (m.selectAction w handle).KeepsLocks := by
  rcases m.selectAction_cases w handle with h | ⟨shown, h⟩ <;> (rw [h]; exact trivial)

/-- What a request comes to keeps locks if the request is one of those that do. -/
theorem keepsLocks_requestAction (hk : r.keepsLocks = true) :
    (m.requestAction r).KeepsLocks := by
  -- a reset and a call of free may clear locks; a command is checked by its code
  cases r with
  | reset | free position => exact absurd hk Bool.false_ne_true
  | command code => exact keepsLocks_codeAction hk
  | writeRegister offset value =>
    dsimp only [Request.keepsLocks, Request.command?] at hk
    dsimp only [requestAction]
    cases hreg : RegisterByte.ofOffset offset.toNat with
    | command =>
      rw [if_pos hreg] at hk
      exact keepsLocks_codeAction hk
    -- a byte of payload is no lock
    | payload i =>
      dsimp only
      split_ifs <;> exact trivial
    | word register low =>
      cases register with
      | window w =>
        cases low with
        | false => exact trivial
        | true => exact keepsLocks_selectAction w _
      | _ => exact trivial
    | _ => exact trivial
  | select w handle => exact keepsLocks_selectAction w handle
  | writeWindow w offset value =>
    dsimp only [requestAction]
    cases (m.window? w).bind (m.nodeBehind? · offset) <;> exact trivial
  | writePayload position offset value =>
    dsimp only [requestAction]
    cases (Pool.index? position : Option (Fin n)) <;> exact trivial
  | _ => exact trivial

/-! ### The step of an action -/

/-- Changing a node that stays allocated leaves all allocated nodes so. -/
theorem isAllocated_modifyNode {p : Pool n} {f : Node n → Node n} {k : Fin n}
    (hf : (f (p.node k)).isAllocated = (p.node k).isAllocated)
    (hi : (p.node i).isAllocated = true) : ((p.modifyNode k f).node i).isAllocated = true := by
  rw [Pool.node_modifyNode]
  split_ifs with hik
  · rw [hf, ← hik]
    exact hi
  · exact hi

/-- An action that frees nothing leaves every member in a chain. -/
theorem Acts.stays (hc : m.pool.Chained S) (ha : Acts m a m') (hk : a.KeepsLocks)
    (hi : (m.pool.node i).isAllocated = true) :
    Pool.Stays (a.place m.pool) m.pool m'.pool i := by
  obtain ⟨hallowed, hpool, -⟩ := ha
  refine ⟨hi, ?_⟩
  rw [hpool]
  -- an edit that takes nothing out keeps all members
  have hedits : ∀ {q : Pool n} {L L' : List (Fin n)} {T : List (List (Fin n))},
      Pool.Edits m.pool q L L' T → (∀ k ∈ L, k ∈ L') → (q.node i).isAllocated = true := by
    intro q L L' T he hsub
    have hmem := (he.before.allocated_iff i).mp hi
    rw [he.after.allocated_iff]
    rw [List.flatten_cons, List.mem_append] at hmem ⊢
    exact hmem.imp_left (hsub i)
  cases a with
  -- these take nodes out, and none of them keeps the locks
  | release root | remove j | reset => exact hk.elim
  | keep | select w shown => exact hi
  | setLock j locked | write j offset value => exact isAllocated_modifyNode rfl hi
  | allocate count template =>
    obtain ⟨L', hL'⟩ := hc.edits_allocate count template
    exact hedits hL' fun k hk => absurd hk List.not_mem_nil
  | insertBefore new j =>
    obtain ⟨A, B, T, -, hT⟩ := hc.exists_focus hallowed.1
    refine hedits (hT.edits_insertBefore hallowed.2) fun k hk => ?_
    simp only [List.mem_append, List.mem_cons] at hk ⊢
    tauto
  | insertAfter new j =>
    obtain ⟨A, B, T, -, hT⟩ := hc.exists_focus hallowed.1
    refine hedits (hT.edits_insertAfter hallowed.2) fun k hk => ?_
    simp only [List.mem_append, List.mem_cons] at hk ⊢
    tauto
  | defrag => exact hc.defrag.1.isAllocated hc hi

/-- If its root stays as well, handles are as before. -/
theorem isHandle_modifyNode {p : Pool n} {f : Node n → Node n} {k : Fin n}
    (hf : (f (p.node k)).isAllocated = (p.node k).isAllocated)
    (hroot : (f (p.node k)).root = (p.node k).root) :
    (p.modifyNode k f).isHandle i = p.isHandle i := by
  unfold Pool.isHandle
  rw [Pool.root_modifyNode hroot, Pool.node_modifyNode]
  split_ifs with hik
  · rw [hf, hik]
  · rfl

/-- Without a deletion no member becomes the root of its chain. -/
theorem Acts.isHandle_of_isHandle (hc : m.pool.Chained S) (ha : Acts m a m')
    (hk : a.KeepsLocks) (hi : (m.pool.node i).isAllocated = true)
    (hroot : m'.pool.isHandle (a.place m.pool i) = true) : m.pool.isHandle i = true := by
  obtain ⟨hallowed, hpool, -⟩ := ha
  rw [hpool] at hroot
  cases a with
  | release root | remove j | reset => exact hk.elim
  | keep | select w shown => exact hroot
  | setLock j locked | write j offset value =>
    dsimp only [Action.onPool] at hroot
    rwa [isHandle_modifyNode rfl rfl] at hroot
  | allocate count template =>
    obtain ⟨L', hL'⟩ := hc.edits_allocate count template
    exact hL'.isHandle_of_isHandle (fun k hk => absurd hk List.not_mem_nil) hi hroot
  | insertBefore new j =>
    obtain ⟨A, B, T, -, hT⟩ := hc.exists_focus hallowed.1
    refine (hT.edits_insertBefore hallowed.2).isHandle_of_isHandle (fun k hk hhead => ?_) hi hroot
    cases A with
    | cons b A => exact hhead
    | nil =>
      -- the new head was in no chain
      obtain rfl : new = k := Option.some.inj hhead
      exact absurd rfl (hT.ne_new_of_mem hallowed.2 hk)
  | insertAfter new j =>
    obtain ⟨A, B, T, -, hT⟩ := hc.exists_focus hallowed.1
    refine (hT.edits_insertAfter hallowed.2).isHandle_of_isHandle (fun k hk hhead => ?_) hi hroot
    -- what is put behind a node is never the head
    cases A <;> exact hhead
  | defrag => exact hc.defrag.1.isHandle_of_isHandle hc hi hroot

/-- **A locked node keeps its lock and its payload.** -/
theorem Locked.step (hl : m.Locked h v) (hc : m.pool.Chained S) (ha : Acts m a m')
    (hk : a.KeepsLocks) : m'.Locked (a.place m.pool h) v := by
  have hstays := ha.stays hc hk hl.allocated
  have hkeeps := ha.keeps hc hstays
  -- the only action that unlocks the node is ruled out
  have hne : a ≠ .setLock h false := by
    rintro rfl
    exact Bool.false_ne_true hk
  have hprotected : m.pool.isProtected h = true := by
    simp [Pool.isProtected, NodeStatus.isProtected, hl.locked]
  exact
    { allocated := hstays.2
      locked := hkeeps.locked hne hl.locked
      payload := (hkeeps.payload hprotected).trans hl.payload }

/-- **A locked root guards its chain.** -/
theorem Guarded.step (hg : m.Guarded h i v) (hl : m.Locked h u) (hc : m.pool.Chained S)
    (ha : Acts m a m') (hk : a.KeepsLocks) :
    m'.Guarded (a.place m.pool h) (a.place m.pool i) v := by
  have hstays := ha.stays hc hk hg.allocated
  refine ⟨hstays.2, ha.together hc hstays (ha.stays hc hk hl.allocated) hg.together, ?_⟩
  intro hroot
  -- then the locked node is a root already, and node `i` is protected by it
  have hh : m.pool.isHandle h = true := ha.isHandle_of_isHandle hc hk hl.allocated hroot
  have hself : (m.pool.node h).root = some h := by
    unfold Pool.isHandle at hh
    rw [Bool.and_eq_true, beq_iff_eq] at hh
    exact hh.2
  have hrootOf : m.pool.rootOf i = h := by
    unfold Pool.rootOf
    rw [hg.together, hself]
    rfl
  have hprotected : m.pool.isProtected i = true := by
    simp [Pool.isProtected, NodeStatus.isProtected, hrootOf, hl.locked]
  calc (m'.pool.node (a.place m.pool i)).payload
      = (m.pool.node i).payload := (ha.keeps hc hstays).payload hprotected
    _ = v := hg.payload hh

/-! ### Over a run -/

/-- What a request that keeps locks comes to, for the nodes that it carries along. -/
theorem exists_acts_keepsLocks (hc : m.pool.Chained S) (hk : r.keepsLocks = true) :
    ∃ a, Acts m a (m.serve r) ∧ a.KeepsLocks ∧
      ∀ i, (m.pool.node i).isAllocated = true → m.carry r i = some (a.place m.pool i) := by
  obtain ⟨a, hwhich, hacts, hplace⟩ := m.exists_acts_serve r
  have hkeeps : a.KeepsLocks := by
    rcases hwhich with rfl | rfl
    · exact trivial
    · exact keepsLocks_requestAction hk
  refine ⟨a, hacts, hkeeps, fun i hi => ?_⟩
  rw [carry_eq_some_iff, ← hplace]
  exact ⟨rfl, (hacts.stays hc hkeeps hi).2⟩

/-- The locked node, wherever it goes. -/
theorem Locked.run : ∀ (rs : List Request) {m : Mmu n} {S : List (List (Fin n))} {h : Fin n},
    m.pool.Chained S → m.Locked h v → (∀ r ∈ rs, r.keepsLocks = true) →
      ∃ h', m.carryAll rs h = some h' ∧ (m.serveAll rs).Locked h' v := by
  intro rs
  -- request by request, with the node followed to where each of them puts it
  induction rs with
  | nil => exact fun {m S h} _ hl _ => ⟨h, rfl, hl⟩
  | cons r rs ih =>
    intro m S h hc hl hrs
    obtain ⟨a, hacts, hk, hcarry⟩ := exists_acts_keepsLocks hc (hrs r List.mem_cons_self)
    obtain ⟨S', hS'⟩ := exists_chained_serve hc r
    obtain ⟨h', hh', hl'⟩ := ih hS' (hl.step hc hacts hk)
      fun s hs => hrs s (List.mem_cons_of_mem r hs)
    exact ⟨h', carryAll_cons_eq_some_iff.mpr ⟨_, hcarry h hl.allocated, hh'⟩, hl'⟩

/-- The locked node together with another of its chain. -/
theorem Guarded.run : ∀ (rs : List Request) {m : Mmu n} {S : List (List (Fin n))} {h i : Fin n},
    m.pool.Chained S → m.Locked h u → m.Guarded h i v → (∀ r ∈ rs, r.keepsLocks = true) →
      ∃ h' i', m.carryAll rs h = some h' ∧ m.carryAll rs i = some i' ∧
        (m.serveAll rs).Guarded h' i' v := by
  intro rs
  -- as before, with the locked root and the guarded node followed side by side
  induction rs with
  | nil => exact fun {m S h i} _ _ hg _ => ⟨h, i, rfl, rfl, hg⟩
  | cons r rs ih =>
    intro m S h i hc hl hg hrs
    obtain ⟨a, hacts, hk, hcarry⟩ := exists_acts_keepsLocks hc (hrs r List.mem_cons_self)
    obtain ⟨S', hS'⟩ := exists_chained_serve hc r
    obtain ⟨h', i', hh', hi', hg'⟩ := ih hS' (hl.step hc hacts hk) (hg.step hl hc hacts hk)
      fun s hs => hrs s (List.mem_cons_of_mem r hs)
    exact ⟨h', i', carryAll_cons_eq_some_iff.mpr ⟨_, hcarry h hl.allocated, hh'⟩,
      carryAll_cons_eq_some_iff.mpr ⟨_, hcarry i hg.allocated, hi'⟩, hg'⟩

/-! ### Locking a root -/

/-- The unit after the command that locks the node under the cursor. -/
def afterLock (m : Mmu n) : Mmu n := m.run Command.lockNode.code

/-- Locking sets one bit at the cursor. -/
theorem afterLock_pool (ha : m.cursorNode.isAllocated = true) :
    m.afterLock.pool = (Action.setLock m.cursor true).onPool m.pool := by
  unfold afterLock
  rw [run_code, conclude_pool]
  change ((m.announce .lockNode).setLock true).2.pool = _
  unfold setLock
  rw [atCursor_eq (m := m.announce .lockNode) ha]
  rfl

/-- **A locked root protects its chain for as long as it is the root, and itself for longer.** The
root of a chain is locked by the command for that, and then come requests that unlock nothing and
free nothing. Every node of the chain is still somewhere. If the locked node is still the root of
its chain, they all have the payloads that they had when it was locked. Nodes that are locked
themselves have theirs in any case. -/
theorem locked_root_protects (hn : n < 65536) (hm : m.Reachable)
    (hroot : m.pool.isHandle m.cursor = true) {rs : List Request}
    (hrs : ∀ r ∈ rs, r.keepsLocks = true) :
    (m.afterLock.pool.node m.cursor).status.locked = true ∧
    (∀ j, (m.afterLock.pool.node j).status.locked = true →
      ∃ j', m.afterLock.carryAll rs j = some j' ∧
        ((m.afterLock.serveAll rs).pool.node j').payload = (m.afterLock.pool.node j).payload) ∧
    ∀ i ∈ m.afterLock.pool.chain m.cursor,
      ∃ h' i', m.afterLock.carryAll rs m.cursor = some h' ∧
        m.afterLock.carryAll rs i = some i' ∧
        ((m.afterLock.serveAll rs).pool.isHandle h' = true →
          ((m.afterLock.serveAll rs).pool.node i').payload
            = (m.afterLock.pool.node i).payload) := by
  have ha : m.cursorNode.isAllocated = true := by
    unfold Pool.isHandle at hroot
    exact (Bool.and_eq_true _ _ ▸ hroot).1
  have hpool := afterLock_pool ha
  have hlock : (m.afterLock.pool.node m.cursor).status.locked = true := by
    rw [hpool]
    change ((m.pool.modifyNode m.cursor _).node m.cursor).status.locked = true
    rw [Pool.node_modifyNode, if_pos rfl]
  have hroot' : m.afterLock.pool.isHandle m.cursor = true := by
    rw [hpool]
    dsimp only [Action.onPool]
    rwa [isHandle_modifyNode rfl rfl]
  obtain ⟨S, hS⟩ := (hm.serveAll [.command Command.lockNode.code]).exists_chained hn
  change m.afterLock.pool.Chained S at hS
  have hlocked : ∀ j, (m.afterLock.pool.node j).status.locked = true →
      m.afterLock.Locked j (m.afterLock.pool.node j).payload := by
    intro j hj
    -- a free node has no status, so it is not locked
    refine ⟨hS.isAllocated_of_not_isUnused fun hu => ?_, hj, rfl⟩
    rw [hu.status] at hj
    exact Bool.false_ne_true hj
  refine ⟨hlock, fun j hj => ?_, fun i hi => ?_⟩
  · obtain ⟨j', hj', hl⟩ := Locked.run rs hS (hlocked j hj) hrs
    exact ⟨j', hj', hl.payload⟩
  · have hfull := hS.fullChain hroot'
    -- the members hang together with the locked root
    have hguarded : m.afterLock.Guarded m.cursor i (m.afterLock.pool.node i).payload :=
      { allocated := hS.isAllocated_of_mem_chain hroot' hi
        together := by
          rw [(hfull.mem_iff i).mp hi,
            (hfull.mem_iff m.cursor).mp (List.mem_of_mem_head? hfull.head_eq)]
        payload := fun _ => rfl }
    obtain ⟨h', i', hh', hi', hg⟩ := Guarded.run rs hS (hlocked m.cursor hlock) hguarded hrs
    exact ⟨h', i', hh', hi', hg.payload⟩

/-- The small unit with the cursor on the root of its chain. -/
def rootRequests : List Request := sampleRequests ++ [.setCursor 0]

/-- The small unit with the cursor there. -/
def rootUnit : Mmu 6 := (initial six_pos).serveAll rootRequests

/-- Two attempts to write to the last node of the chain, which is moved in between, and lengthened
behind. -/
def guardedAttack : List Request :=
  [.setCursor 2, .writeRegister 0x10 0x55, .command Command.defrag.code,
    .command Command.pushBack.code, .writePayload 1 0 0x55]

/-- The last node has gone from 2 to 1, and nothing has been written to it. -/
theorem locked_root_protects_sample :
    rootUnit.afterLock.carryAll guardedAttack 2 = some 1 ∧
      ((rootUnit.afterLock.serveAll guardedAttack).pool.node 1).payload
        = (rootUnit.afterLock.pool.node 2).payload := by
  have hi : rootUnit.afterLock.carryAll guardedAttack 2 = some 1 := by decide +kernel
  have hh : rootUnit.afterLock.carryAll guardedAttack 0 = some 0 := by decide +kernel
  have hcursor : rootUnit.cursor = 0 := by decide +kernel
  have keeps : ∀ r ∈ guardedAttack, r.keepsLocks = true := by decide
  obtain ⟨-, -, hchain⟩ := locked_root_protects (m := rootUnit) (by decide)
    ⟨by decide, rootRequests, fun _ _ => trivial, rfl⟩ (by decide +kernel) keeps
  -- node 2 is a member of the locked chain, and is carried to position 1
  obtain ⟨h', i', hh', hi', hpayload⟩ := hchain 2 (by decide +kernel)
  obtain rfl : i' = 1 := Option.some.inj (hi'.symm.trans hi)
  rw [hcursor] at hh'
  obtain rfl : h' = 0 := Option.some.inj (hh'.symm.trans hh)
  exact ⟨hi, hpayload (by decide +kernel)⟩

/-- Three nodes are allocated, and the cursor is put on the root. -/
def openRequests : List Request := [.setArg1 3, .command Command.alloc.code, .setCursor 0]

/-- A unit as on the board, with that chain. -/
def openUnit : Mmu poolNodes := (initial poolNodes_pos).serveAll openRequests

/-- A node is put in front of the root, and a byte is written to what was the second node. -/
def pushAttack : List Request :=
  [.setCursor 1, .command Command.pushFront.code, .setCursor 1, .writeRegister 0x10 0x55]

/-- On the board, a lock on the root does not protect the rest of the chain from a write after a
node has been put in front of it: the new root has no lock. -/
theorem locked_root_replaced :
    ¬∀ (m : Mmu poolNodes) (rs : List Request), m.Reachable →
      m.pool.isHandle m.cursor = true → (∀ r ∈ rs, r.keepsLocks = true) →
      ∀ i ∈ m.afterLock.pool.chain m.cursor, ∀ i', m.afterLock.carryAll rs i = some i' →
        ((m.afterLock.serveAll rs).pool.node i').payload
          = (m.afterLock.pool.node i).payload := by
  intro hprotects
  have hsame := hprotects openUnit pushAttack ⟨poolNodes_pos, openRequests, fun _ _ => trivial, rfl⟩
    (by decide +kernel) (by decide) ⟨1, by decide⟩ (by decide +kernel) ⟨1, by decide⟩
    (by decide +kernel)
  revert hsame
  decide +kernel

end Locks

end Mmu

end Machine6809
