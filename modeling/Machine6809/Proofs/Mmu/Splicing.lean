import Machine6809.Proofs.Mmu.Invariants
import Machine6809.Proofs.Pool.Edits

/-!
# Splice commands as list edits

Seven commands put a node into the chain under the cursor or take one out. Read as a list, the
chain gets an element at one place (`Mmu.insertion`) or loses the one at a place (`Mmu.removal`),
and everything else about the unit stays, except that those who hold the handle of the chain are
told when it changes (`Mmu.Spliced`).

Four of the commands move the cursor to an end of the chain first. So each of the three operations
at the cursor is settled once, for a cursor anywhere in its chain, and a command is such an
operation for the cursor that it moves to: `Spliced.conclude` forgets the move, the message that
announces the command, and the registers that tell of it.
-/

namespace Machine6809

/-! ### Places in a list -/

section Places

variable {α : Type*} {A B L : List α} {a : α} {k : ℕ}

/-- A list around one of its places. -/
theorem exists_append_of_getElem? (h : L[k]? = some a) : ∃ A B, L = A ++ a :: B ∧ A.length = k := by
  obtain ⟨hk, rfl⟩ := List.getElem?_eq_some_iff.mp h
  refine ⟨L.take k, L.drop (k + 1), ?_, List.length_take_of_le hk.le⟩
  rw [← List.drop_eq_getElem_cons hk, List.take_append_drop]

/-- Inserting behind the first part of a list. -/
theorem insertIdx_length_append (a : α) : ∀ A : List α,
    (A ++ B).insertIdx A.length a = A ++ a :: B
  | [] => List.insertIdx_zero
  | b :: A => by
    rw [List.cons_append, List.length_cons, List.insertIdx_succ_cons, insertIdx_length_append a A,
      List.cons_append]

/-- Taking out what comes behind the first part. -/
theorem eraseIdx_length_append : (A ++ a :: B).eraseIdx A.length = A ++ B := by
  rw [List.eraseIdx_append_of_length_le le_rfl, Nat.sub_self, List.eraseIdx_cons_zero]

/-- The element after the one behind the first part. -/
theorem getElem?_succ_length_append : (A ++ a :: B)[A.length + 1]? = B.head? := by
  rw [List.getElem?_append_right (Nat.le_succ _), Nat.succ_sub le_rfl, Nat.sub_self,
    List.getElem?_cons_succ, List.head?_eq_getElem?]

end Places

namespace Mmu

variable {n : ℕ}

/-! ### What the commands are to do -/

/-- Where a command puts a new node into a chain of a given length with the cursor at place `k`,
and the place of the node that the new one is put beside. -/
def insertion (k length : ℕ) : Command → Option (ℕ × ℕ)
  | .insertBefore => some (k, k)
  | .insertAfter => some (k + 1, k)
  | .pushFront => some (0, 0)
  | .pushBack => some (length, length - 1)
  | _ => none

/-- Where a command takes a node out of a chain of a given length with the cursor at place `k`. -/
def removal (k length : ℕ) : Command → Option ℕ
  | .deleteNode => some k
  | .popFront => some 0
  | .popBack => some (length - 1)
  | _ => none

/-- From `m` to `m'` the chain of handle `h` has become `L'`, and nothing else has happened to the
pool. If the chain has another first node now, the first argument register holds it, and otherwise
what it held before. Windows that show the chain still do. -/
structure Spliced (m m' : Mmu n) (h : Fin n) (L' : List (Fin n)) : Prop where
  edited : m.pool.Edited m'.pool h L'
  arg1_of_ne : ∀ r, L'.head? = some r → r ≠ h → m'.arg1 = positionWord r
  arg1_of_eq : (∀ r, L'.head? = some r → r = h) → m'.arg1 = m.arg1
  arg2_eq : m'.arg2 = m.arg2
  windows_eq : m'.windows = m.windows.map fun w => if w = some h then L'.head? else w

/-- A new node has been put at a place of the chain of handle `h`, beside `neighbour`, and the
cursor is on it. -/
structure Inserted (m m' : Mmu n) (h : Fin n) (place : ℕ) (neighbour new : Fin n) : Prop where
  spliced : Spliced m m' h ((m.pool.chain h).insertIdx place new)
  joins : m.pool.Joins m'.pool neighbour new
  cursor_eq : m'.cursor = new

/-- The node `old` at a place of the chain of handle `h` has been taken out and freed. The cursor
has gone on to the node behind it, or else back to the one before it, or else it stays. -/
structure Removed (m m' : Mmu n) (h : Fin n) (place : ℕ) (old : Fin n) : Prop where
  spliced : Spliced m m' h ((m.pool.chain h).eraseIdx place)
  freed : m'.pool.node old = Node.free
  cursor_eq : m'.cursor = ((m.pool.chain h)[place + 1]?.or
    ((m.pool.chain h).take place).getLast?).getD old

section Splice

variable {m m' : Mmu n} {T : List (List (Fin n))} {A B L L' : List (Fin n)}
  {h c l new old : Fin n} {k place : ℕ}

/-! ### Moving the cursor first -/

/-- At an allocated cursor a command goes ahead. -/
theorem atCursor_eq (ha : m.cursorNode.isAllocated = true)
    (f : Fin n → Mmu n → MmuError × Mmu n) : m.atCursor f = f m.cursor m := if_pos ha

/-- LOAD_ROOT puts the cursor at the head of its chain. -/
theorem toRoot_eq (hc : m.pool.Chained (L :: T)) (hh : L.head? = some h) (hmem : m.cursor ∈ L) :
    m.toRoot = (.none, { m with cursor := h }) := by
  unfold toRoot
  rw [atCursor_eq (hc.isAllocated hmem), hc.rootOf_eq hmem hh]

/-- LOAD_LAST puts it at the end. -/
theorem toLast_eq (hc : m.pool.Chained (L :: T)) (hl : L.getLast? = some l)
    (hmem : m.cursor ∈ L) : m.toLast = (.none, { m with cursor := l }) := by
  obtain ⟨A, B, rfl⟩ := List.append_of_mem hmem
  have hl' : (m.cursor :: B).getLast? = some l := by
    rw [← hl, List.getLast?_append, List.getLast?_cons]
    rfl
  unfold toLast
  rw [atCursor_eq (hc.isAllocated hmem), hc.lastOf_eq hl']

/-- After a command that succeeds comes the other. -/
theorem inTurn_eq {first second : Mmu n → MmuError × Mmu n} (hf : first m = (.none, m')) :
    m.inTurn first second = second m' := by
  unfold inTurn
  rw [hf]

/-- What holds between the unit that has moved its cursor and the one that has acted holds between
the unit that was asked and the one that has concluded. -/
theorem Spliced.conclude {command : Command}
    (hs : Spliced { m.announce command with cursor := c } m' h L') :
    Spliced m (conclude (.none, m')) h L' :=
  ⟨hs.edited, hs.arg1_of_ne, hs.arg1_of_eq, hs.arg2_eq, hs.windows_eq⟩

/-- Concluding the command takes nothing away from what an insertion has done. -/
theorem Inserted.conclude {command : Command}
    (hi : Inserted { m.announce command with cursor := c } m' h place l new) :
    Inserted m (Mmu.conclude (.none, m')) h place l new :=
  ⟨hi.spliced.conclude, hi.joins, hi.cursor_eq⟩

/-- Nor from what a removal has done. -/
theorem Removed.conclude {command : Command}
    (hr : Removed { m.announce command with cursor := c } m' h place old) :
    Removed m (Mmu.conclude (.none, m')) h place old :=
  ⟨hr.spliced.conclude, hr.freed, hr.cursor_eq⟩

/-! ### The three operations at the cursor -/

/-- Windows need not be told of a handle that no window shows, or that stays. -/
theorem windows_map_eq_self {v : Vector (Option (Fin n)) windowCount} {r? : Option (Fin n)}
    (hv : some h ∈ v → r? = some h) : v.map (fun w => if w = some h then r? else w) = v := by
  have hid : v.map (fun w => if w = some h then r? else w) = v.map id :=
    Vector.map_congr_left fun w hw => by
      split_ifs with hwh
      · rw [hv (hwh ▸ hw), hwh]
        rfl
      · rfl
  rw [hid, Vector.map_id]

/-- A chain that is not mapped is shown by no window. -/
theorem not_mem_windows (hmap : m.isMapped h = false) : some h ∉ m.windows := by
  intro hm
  have hany : m.windows.any (· == some h) = true :=
    Vector.any_eq_true.mpr (by
      obtain ⟨i, hi, he⟩ := Vector.getElem_of_mem hm
      exact ⟨i, hi, by rw [he, beq_self_eq_true]⟩)
  exact absurd (hany.symm.trans hmap) (by simp)

/-- INSERT_BEFORE inserts at the place of the cursor. -/
theorem inserted_insertBefore (hc : m.pool.Chained ((A ++ m.cursor :: B) :: T))
    (hh : (A ++ m.cursor :: B).head? = some h) (hnew : m.pool.firstFree = some new) :
    ∃ m', m.insertBefore = (.none, m') ∧ Inserted m m' h A.length m.cursor new := by
  have hmem : m.cursor ∈ A ++ m.cursor :: B := by simp
  have hchain : m.pool.chain h = A ++ m.cursor :: B := hc.chain_eq_of_mem List.mem_cons_self hh
  obtain ⟨hedit, hjoins⟩ := hc.edited_insertBefore hh hnew
  -- the handle is in use, the new node is not
  have hne : new ≠ h := by
    rintro rfl
    have ha := hc.isAllocated (List.mem_of_mem_head? hh)
    exact absurd (ha.symm.trans hjoins.was_free) (by simp)
  unfold insertBefore
  rw [atCursor_eq (hc.isAllocated hmem)]
  dsimp only
  rw [hnew, hc.rootOf_eq hmem hh]
  dsimp only
  unfold Pool.isFirst
  rw [hc.prev_eq]
  cases A with
  | nil =>
    -- the new node is the new head, and the chain gets its name
    refine ⟨_, rfl, ⟨?_, hjoins, rfl⟩⟩
    rw [hchain, insertIdx_length_append]
    refine ⟨hedit, fun r hr _ => ?_, fun hr => absurd (hr new rfl) hne, rfl, rfl⟩
    rw [← Option.some.inj hr]
    rfl
  | cons a A =>
    obtain rfl := Option.some.inj hh
    refine ⟨_, rfl, ⟨?_, hjoins, rfl⟩⟩
    rw [hchain, insertIdx_length_append]
    -- the head stays
    exact ⟨hedit, fun r hr hra => absurd (Option.some.inj hr).symm hra, fun _ => rfl, rfl,
      (windows_map_eq_self fun _ => rfl).symm⟩

/-- INSERT_AFTER inserts at the place behind it. -/
theorem inserted_insertAfter (hc : m.pool.Chained ((A ++ m.cursor :: B) :: T))
    (hh : (A ++ m.cursor :: B).head? = some h) (hnew : m.pool.firstFree = some new) :
    ∃ m', m.insertAfter = (.none, m') ∧ Inserted m m' h (A.length + 1) m.cursor new := by
  have hmem : m.cursor ∈ A ++ m.cursor :: B := by simp
  have hchain : m.pool.chain h = A ++ m.cursor :: B := hc.chain_eq_of_mem List.mem_cons_self hh
  obtain ⟨hedit, hjoins⟩ := hc.edited_insertAfter hh hnew
  -- the place behind the cursor is one further
  have hplace : (m.pool.chain h).insertIdx (A.length + 1) new = A ++ m.cursor :: new :: B := by
    have hsplit : A ++ m.cursor :: B = (A ++ [m.cursor]) ++ B := by
      rw [List.append_assoc, List.singleton_append]
    have hlen : A.length + 1 = (A ++ [m.cursor]).length := by
      rw [List.length_append, List.length_singleton]
    rw [hchain, hsplit, hlen, insertIdx_length_append, List.append_assoc, List.singleton_append]
  -- a node behind another is never the head
  have hhead : (A ++ m.cursor :: new :: B).head? = some h := by
    rw [← hh]
    cases A <;> rfl
  unfold insertAfter
  rw [atCursor_eq (hc.isAllocated hmem)]
  dsimp only
  rw [hnew]
  refine ⟨_, rfl, ⟨?_, hjoins, rfl⟩⟩
  rw [hplace]
  refine ⟨hedit, fun r hr hrh => ?_, fun _ => rfl, rfl, ?_⟩
  · exact absurd (Option.some.inj (hr.symm.trans hhead)) hrh
  · rw [hhead]
    exact (windows_map_eq_self fun _ => rfl).symm

/-- The only node of a chain that a window shows is not taken out. -/
theorem deleteNode_refused (hc : m.pool.Chained ([m.cursor] :: T))
    (hmap : m.isMapped m.cursor = true) : m.deleteNode = (.mapping, m) := by
  have hmem : m.cursor ∈ [m.cursor] := List.mem_singleton_self _
  unfold deleteNode
  rw [atCursor_eq (hc.isAllocated hmem)]
  dsimp only
  unfold Pool.isAlone
  rw [hc.rootOf_eq hmem rfl, hc.prev_eq (A := []), hc.next_eq (A := []), hmap]
  rfl

/-- A node that is not the only one of a chain that a window shows is taken out. -/
theorem removed_deleteNode (hc : m.pool.Chained ((A ++ m.cursor :: B) :: T))
    (hh : (A ++ m.cursor :: B).head? = some h)
    (hok : A = [] → B = [] → m.isMapped h = false) :
    ∃ m', m.deleteNode = (.none, m') ∧ Removed m m' h A.length m.cursor := by
  have hmem : m.cursor ∈ A ++ m.cursor :: B := by simp
  have hchain : m.pool.chain h = A ++ m.cursor :: B := hc.chain_eq_of_mem List.mem_cons_self hh
  obtain ⟨hedit, hfreed⟩ := hc.edited_remove hh
  have hplace : (m.pool.chain h).eraseIdx A.length = A ++ B := by
    rw [hchain, eraseIdx_length_append]
  -- the cursor goes on to the next node, or back if there is none
  have hcursor : (B.head?.or A.getLast?).getD m.cursor
      = ((m.pool.chain h)[A.length + 1]?.or
        ((m.pool.chain h).take A.length).getLast?).getD m.cursor := by
    rw [hchain, getElem?_succ_length_append, List.take_left]
  unfold deleteNode
  rw [atCursor_eq (hc.isAllocated hmem)]
  dsimp only
  unfold Pool.isAlone
  rw [hc.rootOf_eq hmem hh, hc.prev_eq, hc.next_eq]
  cases A with
  | cons a A =>
    -- the head stays
    obtain rfl := Option.some.inj hh
    rw [List.getLast?_cons] at hcursor ⊢
    refine ⟨_, rfl, ⟨?_, hfreed, hcursor⟩⟩
    rw [hplace]
    exact ⟨hedit, fun r hr hra => absurd (Option.some.inj hr).symm hra, fun _ => rfl, rfl,
      (windows_map_eq_self fun _ => rfl).symm⟩
  | nil =>
    obtain rfl := Option.some.inj hh
    cases B with
    | cons b B =>
      -- the chain goes on under the name of the next node
      have hne : b ≠ m.cursor := fun he => hc.not_mem_both (he ▸ List.mem_cons_self)
      refine ⟨_, rfl, ⟨?_, hfreed, hcursor⟩⟩
      rw [hplace]
      refine ⟨hedit, fun r hr _ => ?_, fun hr => absurd (hr b rfl) hne, rfl, rfl⟩
      rw [← Option.some.inj hr]
      rfl
    | nil =>
      -- the chain is gone, and no window showed it
      rw [hok rfl rfl]
      refine ⟨_, rfl, ⟨?_, hfreed, hcursor⟩⟩
      rw [hplace]
      exact ⟨hedit, fun r hr => absurd hr (by simp), fun _ => rfl, rfl,
        (windows_map_eq_self fun hm => absurd hm (not_mem_windows (hok rfl rfl))).symm⟩

/-! ### The commands -/

section Commands

variable (command : Command)

/-- A command that puts a node in front of position `c`, whatever it does first. -/
theorem run_insertBefore (hact : (m.announce command).perform command
      = insertBefore { m.announce command with cursor := c })
    (hc : m.pool.Chained (L :: T)) (hh : L.head? = some h) (hp : L[place]? = some c)
    (hnew : m.pool.firstFree = some new) :
    (m.run command.code).error = .none ∧ Inserted m (m.run command.code) h place c new := by
  obtain ⟨A, B, rfl, rfl⟩ := exists_append_of_getElem? hp
  obtain ⟨m', hm', hi⟩ :=
    inserted_insertBefore (m := { m.announce command with cursor := c }) hc hh hnew
  rw [run_code, hact, hm']
  exact ⟨rfl, hi.conclude⟩

/-- A command that puts a node behind position `c`. -/
theorem run_insertAfter (hact : (m.announce command).perform command
      = insertAfter { m.announce command with cursor := c })
    (hc : m.pool.Chained (L :: T)) (hh : L.head? = some h) (hp : L[place]? = some c)
    (hnew : m.pool.firstFree = some new) :
    (m.run command.code).error = .none ∧
      Inserted m (m.run command.code) h (place + 1) c new := by
  -- the chain is cut in two at the place of the cursor
  obtain ⟨A, B, rfl, rfl⟩ := exists_append_of_getElem? hp
  obtain ⟨m', hm', hi⟩ :=
    inserted_insertAfter (m := { m.announce command with cursor := c }) hc hh hnew
  rw [run_code, hact, hm']
  exact ⟨rfl, hi.conclude⟩

/-- A command that takes out the node at position `c`. -/
theorem run_deleteNode (hact : (m.announce command).perform command
      = deleteNode { m.announce command with cursor := c })
    (hc : m.pool.Chained (L :: T)) (hh : L.head? = some h) (hp : L[place]? = some c) :
    if L.length = 1 ∧ m.isMapped h = true then
      (m.run command.code).error = .mapping ∧ (m.run command.code).pool = m.pool
    else (m.run command.code).error = .none ∧ Removed m (m.run command.code) h place c := by
  obtain ⟨A, B, rfl, rfl⟩ := exists_append_of_getElem? hp
  split_ifs with hrefused
  · -- the only member of a mapped chain
    obtain ⟨hlen, hmap⟩ := hrefused
    rw [List.length_append, List.length_cons] at hlen
    obtain rfl : A = [] := List.length_eq_zero_iff.mp (by omega)
    obtain rfl : B = [] := List.length_eq_zero_iff.mp (by omega)
    obtain rfl := Option.some.inj hh
    rw [run_code, hact, deleteNode_refused hc hmap]
    exact ⟨rfl, rfl⟩
  · -- in all other cases the node may go
    have hok : A = [] → B = [] → m.isMapped h = false := by
      rintro rfl rfl
      by_contra hmap
      exact hrefused ⟨rfl, by rwa [Bool.not_eq_false] at hmap⟩
    obtain ⟨m', hm', hr⟩ :=
      removed_deleteNode (m := { m.announce command with cursor := c }) hc hh hok
    rw [run_code, hact, hm']
    exact ⟨rfl, hr.conclude⟩

/-- The commands that put a node in. -/
theorem insertions (hc : m.pool.Chained (L :: T)) (hh : L.head? = some h)
    (hk : L[k]? = some m.cursor) (hnew : m.pool.firstFree = some new) {place beside : ℕ}
    (hplace : insertion k L.length command = some (place, beside)) :
    (m.run command.code).error = .none ∧ ∃ neighbour, L[beside]? = some neighbour ∧
      Inserted m (m.run command.code) h place neighbour new := by
  have hmem : m.cursor ∈ L := List.mem_of_getElem? hk
  -- each command is one of the two insertions, after the cursor has gone to its place
  cases command with
  | insertBefore =>
    obtain ⟨rfl, rfl⟩ := Prod.mk.inj (Option.some.inj hplace)
    obtain ⟨he, hi⟩ := run_insertBefore .insertBefore rfl hc hh hk hnew
    exact ⟨he, m.cursor, hk, hi⟩
  | insertAfter =>
    obtain ⟨rfl, rfl⟩ := Prod.mk.inj (Option.some.inj hplace)
    obtain ⟨he, hi⟩ := run_insertAfter .insertAfter rfl hc hh hk hnew
    exact ⟨he, m.cursor, hk, hi⟩
  | pushFront =>
    obtain ⟨rfl, rfl⟩ := Prod.mk.inj (Option.some.inj hplace)
    have hfirst : L[0]? = some h := List.head?_eq_getElem?.symm.trans hh
    obtain ⟨he, hi⟩ := run_insertBefore .pushFront
      (inTurn_eq (toRoot_eq (m := m.announce .pushFront) hc hh hmem)) hc hh hfirst hnew
    exact ⟨he, h, hfirst, hi⟩
  -- the place behind the last member is the length of the chain
  | pushBack =>
    obtain ⟨rfl, rfl⟩ := Prod.mk.inj (Option.some.inj hplace)
    obtain ⟨l, hl⟩ := exists_last_of_mem hmem
    have hlast : L[L.length - 1]? = some l := List.getLast?_eq_getElem?.symm.trans hl
    obtain ⟨he, hi⟩ := run_insertAfter .pushBack
      (inTurn_eq (toLast_eq (m := m.announce .pushBack) hc hl hmem)) hc hh hlast hnew
    rw [Nat.sub_add_cancel (List.length_pos_of_mem hmem)] at hi
    exact ⟨he, l, hlast, hi⟩
  | _ => exact absurd hplace (by simp [insertion])

/-- The commands that take a node out. -/
theorem removals (hc : m.pool.Chained (L :: T)) (hh : L.head? = some h)
    (hk : L[k]? = some m.cursor) {place : ℕ} (hplace : removal k L.length command = some place) :
    if L.length = 1 ∧ m.isMapped h = true then
      (m.run command.code).error = .mapping ∧ (m.run command.code).pool = m.pool
    else
      (m.run command.code).error = .none ∧
        ∃ old, L[place]? = some old ∧ Removed m (m.run command.code) h place old := by
  have hmem : m.cursor ∈ L := List.mem_of_getElem? hk
  -- each command takes out the node at some position, after moving the cursor there
  obtain ⟨c, hp, hact⟩ : ∃ c, L[place]? = some c ∧
      (m.announce command).perform command
        = deleteNode { m.announce command with cursor := c } := by
    cases command with
    | deleteNode =>
      obtain rfl := Option.some.inj hplace
      exact ⟨m.cursor, hk, rfl⟩
    | popFront =>
      obtain rfl := Option.some.inj hplace
      exact ⟨h, List.head?_eq_getElem?.symm.trans hh,
        inTurn_eq (toRoot_eq (m := m.announce .popFront) hc hh hmem)⟩
    | popBack =>
      obtain rfl := Option.some.inj hplace
      obtain ⟨l, hl⟩ := exists_last_of_mem hmem
      exact ⟨l, List.getLast?_eq_getElem?.symm.trans hl,
        inTurn_eq (toLast_eq (m := m.announce .popBack) hc hl hmem)⟩
    | _ => exact absurd hplace (by simp [removal])
  -- a chain of one node is refused while a window shows it
  have hrun := run_deleteNode command hact hc hh hp
  split_ifs with hrefused
  · rwa [if_pos hrefused] at hrun
  · rw [if_neg hrefused] at hrun
    exact ⟨hrun.1, c, hp, hrun.2⟩

end Commands

end Splice

section Refinement

variable {m : Mmu n} {h : Fin n} {k : ℕ}

/-- **Splice commands edit lists.** With the cursor at place `k` of a chain, each of the seven
commands does to the list of its nodes what `insertion` and `removal` say, unless there is no free
node to put in, or the node is the only one of a chain that a window shows. -/
theorem splices_edit_lists (hn : n < 65536) (hm : m.Reachable) (hh : m.pool.isHandle h = true)
    (hk : (m.pool.chain h)[k]? = some m.cursor) :
    (∀ command place beside,
      insertion k (m.pool.chain h).length command = some (place, beside) →
      (∃ i, (m.pool.node i).isAllocated = false) →
      (m.run command.code).error = .none ∧
        ∃ neighbour new, (m.pool.chain h)[beside]? = some neighbour ∧
          Inserted m (m.run command.code) h place neighbour new) ∧
    ∀ command place, removal k (m.pool.chain h).length command = some place →
      if (m.pool.chain h).length = 1 ∧ m.isMapped h = true then
        (m.run command.code).error = .mapping ∧ (m.run command.code).pool = m.pool
      else
        (m.run command.code).error = .none ∧
          ∃ old, (m.pool.chain h)[place]? = some old ∧
            Removed m (m.run command.code) h place old := by
  obtain ⟨S, hS⟩ := hm.exists_chained hn
  obtain ⟨B, T, -, hT⟩ := hS.exists_handle hh
  rw [hT.toLayout.chain_eq (A := [])] at hk ⊢
  refine ⟨fun command place beside hplace hsome => ?_, fun command place hplace =>
    removals command hT rfl hk hplace⟩
  obtain ⟨new, hnew⟩ := hS.exists_firstFree hsome
  obtain ⟨he, neighbour, hb, hi⟩ := insertions command hT rfl hk hnew hplace
  exact ⟨he, neighbour, new, hb, hi⟩

/-- The small unit has its cursor at place 1 of a chain, and takes a node in and out there. -/
theorem splices_edit_lists_sample :
    (∃ neighbour new, (sampleUnit.pool.chain 0)[1]? = some neighbour ∧
      Inserted sampleUnit (sampleUnit.run Command.insertBefore.code) 0 1 neighbour new) ∧
    ∃ old, (sampleUnit.pool.chain 0)[0]? = some old ∧
      Removed sampleUnit (sampleUnit.run Command.popFront.code) 0 0 old := by
  have hlen : (sampleUnit.pool.chain 0).length = 2 := by decide +kernel
  obtain ⟨hinsert, hremove⟩ := splices_edit_lists (m := sampleUnit) (h := 0) (k := 1) (by decide)
    ⟨by decide, sampleRequests, fun _ _ => trivial, rfl⟩ (by decide +kernel) (by decide +kernel)
  refine ⟨(hinsert .insertBefore 1 1 rfl ⟨1, by decide +kernel⟩).2, ?_⟩
  have hpop := hremove .popFront 0 rfl
  rw [hlen, if_neg (by simp)] at hpop
  exact hpop.2

end Refinement

end Mmu

end Machine6809
