import Machine6809.Proofs.Mmu.Windows
import Mathlib.Logic.Equiv.Fin.Basic

/-!
# The cells behind the windows

An offset of a window stands for a *cell*, a place where one byte is kept (`Mmu.cell?`). In a window
that shows nothing this is a byte that belongs to the window itself; in one that shows a chain it is
a byte in the payload of one of its nodes; and past the end of the chain there is none. Which
offsets stand for the same cell is settled by the chains (`CellsApart`): two offsets of one window
never do, and two windows have cells in common only if they show the same chain, at equal offsets.

A cell is stored to like a variable. It then holds the byte, unless it is protected, and every other
cell holds what it held (`Cell.value_store_self`, `Cell.value_store_of_ne`). Reading through a
window gives the byte in the cell (`readWindow_value`), and writing stores to it
(`writeWindow_pool`). The bytes that belong to a window are kept outside the unit, so they come in
as an array next to the pool.
-/

namespace Machine6809

/-- A place where one byte is kept: the byte of a window at an offset, or a byte in the payload of a
node. -/
inductive Cell (n : ℕ) where
  | default (w : Fin windowCount) (o : Fin windowSize)
  | payload (i : Fin n) (k : Fin payloadSize)
  deriving DecidableEq

variable {n : ℕ}

/-- A node with one byte of its payload replaced. -/
def Node.withByte (node : Node n) (k : Fin payloadSize) (v : Byte) : Node n :=
  { node with payload := node.payload.set k v k.isLt }

namespace Cell

/-- The cell must not be written: its node is locked or read-only, or the root of the node is. -/
def Protected (p : Pool n) : Cell n → Prop
  | .default _ _ => False
  | .payload i _ => ∃ j, (j = i ∨ (p.node i).root = some j) ∧
      ((p.node j).status.locked = true ∨ (p.node j).status.readOnly = true)

/-- The byte in a cell, and zero where there is no cell. The bytes of the windows follow one another
in `defaults`. -/
def value (defaults : Array Byte) (p : Pool n) : Option (Cell n) → Byte
  | none => 0
  | some (.default w o) => defaults.getD (w * windowSize + o) 0
  | some (.payload i k) => (p.node i).payload.getD k 0

/-- The bytes of the windows after a byte has been stored to a cell. -/
def storeDefaults (defaults : Array Byte) (v : Byte) : Option (Cell n) → Array Byte
  | some (.default w o) => defaults.setIfInBounds (w * windowSize + o) v
  | _ => defaults

/-- The pool after a byte has been stored to a cell. -/
def storePool (p : Pool n) (v : Byte) : Option (Cell n) → Pool n
  | some (.payload i k) => if p.isProtected i then p else p.modifyNode i (·.withByte k v)
  | _ => p

end Cell

/-- From `p` to `q` nothing has changed but the byte in the cell `c`. Status and links of all nodes
are the same, and so are the counters. -/
structure Pool.ChangedAt (p q : Pool n) (c : Option (Cell n)) : Prop where
  byte_eq : ∀ i k, c ≠ some (.payload i k) →
    (q.node i).payload.getD k 0 = (p.node i).payload.getD k 0
  node_eq : ∀ i, (∀ k, c ≠ some (.payload i k)) → q.node i = p.node i
  rest_eq : ∀ i, q.node i = { p.node i with payload := (q.node i).payload }
  freeCount_eq : q.freeCount = p.freeCount
  allocatedCount_eq : q.allocatedCount = p.allocatedCount
  breakCount_eq : q.breakCount = p.breakCount

namespace Cell

/-! ### Storing to a cell -/

section Store

variable {p : Pool n} {S : List (List (Fin n))} {a : Cell n} {c c' : Option (Cell n)}
  {defaults : Array Byte} {v : Byte} {i : Fin n} {k : Fin payloadSize}

/-- A payload byte is protected by the lock of its node or of its root. -/
theorem protected_payload_iff : (payload i k).Protected p ↔ p.isProtected i = true := by
  unfold Pool.isProtected NodeStatus.isProtected
  rw [Bool.or_eq_true, Bool.or_eq_true, Bool.or_eq_true,
    or_comm (b := (p.node i).status.locked = _),
    or_comm (b := (p.node (p.rootOf i)).status.locked = _)]
  constructor
  · -- protected by its own bits, or by those of its root
    rintro ⟨j, rfl | hroot, hj⟩
    · exact .inl hj
    · have hj' : p.rootOf i = j := by
        unfold Pool.rootOf
        rw [hroot]
        rfl
      rw [hj']
      exact .inr hj
  · rintro (hi | hroot)
    · exact ⟨i, .inl rfl, hi⟩
    · cases hr : (p.node i).root with
      | some j =>
        refine ⟨p.rootOf i, .inr ?_, hroot⟩
        unfold Pool.rootOf
        rw [hr]
        rfl
      | none =>
        -- without a root a node counts as its own
        have hself : p.rootOf i = i := by
          unfold Pool.rootOf
          rw [hr]
          rfl
        exact ⟨i, .inl rfl, hself ▸ hroot⟩

/-- What a set leaves at each index. -/
theorem getD_set {xs : Array Byte} {j l : ℕ} (hj : j < xs.size) :
    (xs.setIfInBounds j v).getD l 0 = if j = l then v else xs.getD l 0 := by
  rw [Array.getD_eq_getD_getElem?, Array.getElem?_setIfInBounds, Array.getD_eq_getD_getElem?]
  split_ifs <;> rfl

/-- What writing a payload byte leaves at each index. -/
theorem getD_withByte {node : Node n} {l : ℕ} :
    (node.withByte k v).payload.getD l 0 = if k = l then v else node.payload.getD l 0 := by
  change (node.payload.toArray.set k v (by simp)).getD l 0
    = if k = l then v else node.payload.toArray.getD l 0
  rw [Array.getD_eq_getD_getElem?, Array.getElem?_set, Array.getD_eq_getD_getElem?]
  split_ifs <;> rfl

-- the bytes of the windows are numbered window by window
/-- The bytes of the windows are counted window by window. -/
theorem index_eq (w : Fin windowCount) (o : Fin windowSize) :
    (w : ℕ) * windowSize + o = finProdFinEquiv (w, o) := by
  rw [finProdFinEquiv_apply_val, Nat.mul_comm, Nat.add_comm]

theorem index_lt (hsize : defaults.size = windowCount * windowSize) (w : Fin windowCount)
    (o : Fin windowSize) : w * windowSize + o < defaults.size := by
  rw [hsize, index_eq]
  exact (finProdFinEquiv (w, o)).isLt

/-- A protected cell is not stored to. -/
theorem storePool_of_protected (hp : a.Protected p) : storePool p v (some a) = p := by
  cases a with
  | default w o => exact hp.elim
  | payload i k => exact if_pos (protected_payload_iff.mp hp)

theorem storeDefaults_of_protected (hp : a.Protected p) :
    storeDefaults defaults v (some a) = defaults := by
  cases a with
  | default w o => exact hp.elim
  | payload i k => rfl

/-- An unprotected payload byte is stored. -/
theorem storePool_payload (hp : ¬(payload i k).Protected p) :
    storePool p v (some (payload i k)) = p.modifyNode i (·.withByte k v) :=
  if_neg fun h => hp (protected_payload_iff.mpr h)

theorem size_storeDefaults (defaults : Array Byte) (v : Byte) (c : Option (Cell n)) :
    (storeDefaults defaults v c).size = defaults.size := by
  rcases c with - | ⟨w, o⟩ | ⟨i, k⟩
  · rfl
  · exact Array.size_setIfInBounds
  · rfl

/-- A cell that is not protected holds what has been stored to it. -/
theorem value_store_self (hsize : defaults.size = windowCount * windowSize)
    (hp : ¬a.Protected p) :
    value (storeDefaults defaults v (some a)) (storePool p v (some a)) (some a) = v := by
  cases a with
  | default w o => exact (getD_set (index_lt hsize w o)).trans (if_pos rfl)
  | payload i k =>
    rw [storePool_payload hp]
    change ((p.modifyNode i (·.withByte k v)).node i).payload.getD k 0 = v
    rw [Pool.node_modifyNode, if_pos rfl, getD_withByte, if_pos rfl]

/-- Other defaults stay. -/
theorem getD_storeDefaults_of_ne (hsize : defaults.size = windowCount * windowSize)
    {w : Fin windowCount} {o : Fin windowSize} (hne : c ≠ some (.default w o)) :
    (storeDefaults defaults v c).getD (w * windowSize + o) 0
      = defaults.getD (w * windowSize + o) 0 := by
  rcases c with - | ⟨w', o'⟩ | ⟨i, k⟩
  · rfl
  · refine (getD_set (index_lt hsize w' o')).trans (if_neg fun he => hne ?_)
    rw [index_eq, index_eq] at he
    obtain ⟨rfl, rfl⟩ := Prod.mk.inj (finProdFinEquiv.injective (Fin.ext he))
    rfl
  · rfl

/-- Doing nothing changes nothing at any cell. -/
theorem changedAt_self (p : Pool n) (c : Option (Cell n)) : p.ChangedAt p c where
  byte_eq := fun _ _ _ => rfl
  node_eq := fun _ _ => rfl
  rest_eq := fun _ => rfl
  freeCount_eq := rfl
  allocatedCount_eq := rfl
  breakCount_eq := rfl

/-- In the pool, storing changes the byte in the cell only. -/
theorem changedAt_storePool : p.ChangedAt (storePool p v c) c := by
  rcases c with - | ⟨w, o⟩ | ⟨i, k⟩
  · exact changedAt_self p _
  · exact changedAt_self p _
  -- a protected cell takes nothing
  by_cases hp : (payload i k).Protected p
  · rw [storePool_of_protected hp]
    exact changedAt_self p _
  rw [storePool_payload hp]
  refine ⟨?_, ?_, ?_, rfl, rfl, rfl⟩
  · intro j l hjl
    rw [Pool.node_modifyNode]
    split_ifs with hji
    · -- another byte of the same node
      subst hji
      rw [getD_withByte, if_neg fun hkl => hjl (by rw [Fin.ext hkl])]
    · rfl
  · intro j hj
    rw [Pool.node_modifyNode]
    exact if_neg fun hji => hj k (by rw [hji])
  · intro j
    rw [Pool.node_modifyNode]
    split_ifs with hji
    · rw [hji]
      rfl
    · rfl

/-- The other cells hold what they held. -/
theorem value_store_of_ne (hsize : defaults.size = windowCount * windowSize) (hne : c' ≠ c) :
    value (storeDefaults defaults v c) (storePool p v c) c' = value defaults p c' := by
  rcases c' with - | ⟨w, o⟩ | ⟨i, k⟩
  · rfl
  · exact getD_storeDefaults_of_ne hsize hne.symm
  · exact changedAt_storePool.byte_eq i k hne.symm

/-- A protected cell holds what it held. -/
theorem value_store_of_protected (hp : a.Protected p) :
    value (storeDefaults defaults v (some a)) (storePool p v (some a)) c = value defaults p c := by
  rw [storePool_of_protected hp, storeDefaults_of_protected hp]

/-- Storing to a cell keeps the chains. -/
theorem chained_storePool (hc : p.Chained S) (v : Byte) (c : Option (Cell n)) :
    (storePool p v c).Chained S := by
  rcases c with - | ⟨w, o⟩ | ⟨i, k⟩
  · exact hc
  · exact hc
  unfold storePool
  dsimp only
  split_ifs with hp
  · exact hc
  · -- a payload is written, which no link and no mark depends on
    refine hc.modifyNode ?_ ?_ ?_ ?_ fun _ => ?_
    all_goals rfl

end Store

end Cell

namespace Mmu

/-- The cell that offset `o` of window `w` stands for. -/
def cell? (m : Mmu n) (w : Fin windowCount) (o : Fin windowSize) : Option (Cell n) :=
  match m.window? w with
  | none => some (.default w o)
  | some h => ((m.pool.chain h)[o / payloadSize]?).map
      (Cell.payload · ⟨o % payloadSize, Nat.mod_lt _ (by decide)⟩)

/-- Offsets that stand for the same cell are equal. Offsets of two windows stand for the same cell
if and only if both windows show the same chain, and then all equal offsets do. -/
structure CellsApart (m : Mmu n) : Prop where
  aligned : ∀ w w' o o' c, m.cell? w o = some c → m.cell? w' o' = some c → o = o'
  shared_iff : ∀ w w', w ≠ w' →
    ((∃ o o' c, m.cell? w o = some c ∧ m.cell? w' o' = some c) ↔
    ∃ h, m.window? w = some h ∧ m.window? w' = some h)
  same : ∀ (w w' : Fin windowCount) h, m.window? w = some h → m.window? w' = some h →
    ∀ o, m.cell? w o = m.cell? w' o

section Cells

variable {m m' : Mmu n} {S : List (List (Fin n))} {w w' : Fin windowCount} {o o' : Fin windowSize}
  {h h' i : Fin n} {k : Fin payloadSize}

/-! ### Which offsets have the same cell -/

/-- Without a chain, a window shows its own default bytes. -/
theorem cell?_of_none (hw : m.window? w = none) (o : Fin windowSize) :
    m.cell? w o = some (.default w o) := by
  unfold cell?
  rw [hw]

/-- With a chain it shows the payloads of the members one after the other. -/
theorem cell?_of_some (hw : m.window? w = some h) (o : Fin windowSize) :
    m.cell? w o = ((m.pool.chain h)[o / payloadSize]?).map
      (Cell.payload · ⟨o % payloadSize, Nat.mod_lt _ (by decide)⟩) := by
  unfold cell?
  rw [hw]

/-- What a window shows depends on the window and on its chain. -/
theorem cell?_congr (hw : m'.window? w = m.window? w)
    (hchain : ∀ h, m.window? w = some h → m'.pool.chain h = m.pool.chain h) (o : Fin windowSize) :
    m'.cell? w o = m.cell? w o := by
  cases hm : m.window? w with
  | none => rw [cell?_of_none hm, cell?_of_none (hw.trans hm)]
  | some h => rw [cell?_of_some hm, cell?_of_some (hw.trans hm), hchain h hm]

/-- A cell in a payload is found through the chain that the window shows. -/
theorem exists_of_cell?_payload (hcell : m.cell? w o = some (.payload i k)) :
    ∃ h, m.window? w = some h ∧ (m.pool.chain h)[o / payloadSize]? = some i ∧
      o % payloadSize = k := by
  cases hw : m.window? w with
  -- a closed window shows defaults only
  | none =>
    rw [cell?_of_none hw] at hcell
    exact absurd (Option.some.inj hcell) (by simp)
  | some h =>
    rw [cell?_of_some hw] at hcell
    obtain ⟨j, hj, hc⟩ := Option.map_eq_some_iff.mp hcell
    obtain ⟨rfl, rfl⟩ := Cell.payload.inj hc
    exact ⟨h, rfl, hj, rfl⟩

/-- A default is shown by its own closed window only. -/
theorem window?_of_cell?_default {v : Fin windowCount} {x : Fin windowSize}
    (hcell : m.cell? w o = some (.default v x)) : m.window? w = none ∧ v = w ∧ x = o := by
  cases hw : m.window? w with
  | none =>
    rw [cell?_of_none hw] at hcell
    obtain ⟨rfl, rfl⟩ := Cell.default.inj (Option.some.inj hcell)
    exact ⟨rfl, rfl, rfl⟩
  -- an open window shows payloads only
  | some h =>
    rw [cell?_of_some hw] at hcell
    obtain ⟨j, -, hc⟩ := Option.map_eq_some_iff.mp hcell
    exact absurd hc (by simp)

/-- Two offsets of the same cell are equal, and they are offsets of one window or of two that show
the same chain. -/
theorem eq_of_cell?_eq (hc : m.pool.Chained S) (hanchored : m.Anchored) {c : Cell n}
    (hcell : m.cell? w o = some c) (hcell' : m.cell? w' o' = some c) :
    o = o' ∧ (w = w' ∨ ∃ h, m.window? w = some h ∧ m.window? w' = some h) := by
  cases c with
  | default v x =>
    obtain ⟨-, hv, hx⟩ := window?_of_cell?_default hcell
    obtain ⟨-, hv', hx'⟩ := window?_of_cell?_default hcell'
    exact ⟨hx.symm.trans hx', .inl (hv.symm.trans hv')⟩
  | payload i k =>
    obtain ⟨h, hw, hi, hk⟩ := exists_of_cell?_payload hcell
    obtain ⟨h', hw', hi', hk'⟩ := exists_of_cell?_payload hcell'
    have hfull := hc.fullChain (hanchored w h hw)
    have hfull' := hc.fullChain (hanchored w' h' hw')
    -- a node is in one chain only
    have hroot := (hfull.mem_iff i).mp (List.mem_of_getElem? hi)
    have hroot' := (hfull'.mem_iff i).mp (List.mem_of_getElem? hi')
    obtain rfl : h = h' := Option.some.inj (hroot.symm.trans hroot')
    -- and there at one place only
    obtain ⟨hlt, -⟩ := List.getElem?_eq_some_iff.mp hi
    have hplace : (o : ℕ) / payloadSize = o' / payloadSize :=
      (List.getElem?_inj hlt hfull.nodup).mp (hi.trans hi'.symm)
    refine ⟨Fin.ext ?_, .inr ⟨h, hw, hw'⟩⟩
    calc (o : ℕ) = payloadSize * (o / payloadSize) + o % payloadSize := (Nat.div_add_mod _ _).symm
      _ = payloadSize * (o' / payloadSize) + o' % payloadSize := by rw [hplace, hk, hk']
      _ = o' := Nat.div_add_mod _ _

/-- Different chains have different cells. -/
theorem cellsApart (hc : m.pool.Chained S) (hanchored : m.Anchored) : m.CellsApart where
  aligned := by
    intro w w' o o' c hcell hcell'
    exact (eq_of_cell?_eq hc hanchored hcell hcell').1
  shared_iff := by
    intro w w' hne
    constructor
    · -- a cell that both show makes them show one chain
      rintro ⟨o, o', c, hcell, hcell'⟩
      exact (eq_of_cell?_eq hc hanchored hcell hcell').2.resolve_left hne
    · rintro ⟨h, hw, hw'⟩
      -- the handle itself is behind offset zero
      obtain ⟨B, T, -, hT⟩ := hc.exists_handle (hanchored w h hw)
      have hchain : m.pool.chain h = h :: B := hT.toLayout.chain_eq (A := [])
      refine ⟨⟨0, by decide⟩, ⟨0, by decide⟩, .payload h ⟨0, by decide⟩, ?_, ?_⟩
      · rw [cell?_of_some hw, hchain]
        rfl
      · rw [cell?_of_some hw', hchain]
        rfl
  same := by
    intro w w' h hw hw' o
    rw [cell?_of_some hw, cell?_of_some hw']

/-! ### Reading and writing -/

/-- Offsets in a window are words. -/
theorem toNat_offset (o : Fin windowSize) : (UInt16.ofNat o).toNat = o := by
  have hlt : (o : ℕ) < UInt16.size := o.isLt.trans (by decide)
  exact UInt16.toNat_ofNat_of_lt' hlt

/-- What reading through a window does is settled by the cell. -/
theorem readWindow_eq (hc : m.pool.Chained S) (hanchored : m.Anchored) (w : Fin windowCount)
    (o : Fin windowSize) : m.readWindow w (UInt16.ofNat o) = match m.cell? w o with
      | none => (some 0, m.fail .bank)
      | some (.default _ _) => (none, m)
      | some (.payload i k) => (some ((m.pool.node i).payload.getD k 0), m) := by
  unfold readWindow
  cases hw : m.window? w with
  | none => rw [cell?_of_none hw]
  | some h =>
    rw [cell?_of_some hw]
    dsimp only
    rw [nodeBehind?_eq hc (hanchored w h hw), toNat_offset]
    cases (m.pool.chain h)[(o : ℕ) / payloadSize]? <;> rfl

/-- What writing through a window does is settled by the cell. -/
theorem writeWindow_eq (hc : m.pool.Chained S) (hanchored : m.Anchored) (w : Fin windowCount)
    (o : Fin windowSize) (v : Byte) :
    m.writeWindow w (UInt16.ofNat o) v = match m.cell? w o with
      | none => (true, m.fail .bank)
      | some (.default _ _) => (false, m)
      | some (.payload i k) => (true, (m.writeNode i k v).2) := by
  unfold writeWindow
  cases hw : m.window? w with
  | none => rw [cell?_of_none hw]
  | some h =>
    rw [cell?_of_some hw]
    dsimp only
    rw [nodeBehind?_eq hc (hanchored w h hw), toNat_offset]
    cases (m.pool.chain h)[(o : ℕ) / payloadSize]? <;> rfl

/-- Reading gives the byte in the cell, and zero if there is none. -/
theorem readWindow_value (hc : m.pool.Chained S) (hanchored : m.Anchored) (w : Fin windowCount)
    (o : Fin windowSize) (defaults : Array Byte) :
    (m.readWindow w (UInt16.ofNat o)).1.getD (defaults.getD (w * windowSize + o) 0)
      = Cell.value defaults m.pool (m.cell? w o) := by
  rw [readWindow_eq hc hanchored]
  rcases hcell : m.cell? w o with - | ⟨w', o'⟩ | ⟨i, k⟩
  · rfl
  · obtain ⟨-, rfl, rfl⟩ := window?_of_cell?_default hcell
    rfl
  · rfl

/-- Writing a payload byte is storing to its cell. -/
theorem writeNode_eq (m : Mmu n) (i : Fin n) (k : Fin payloadSize) (v : Byte) :
    (m.writeNode i k v).2.pool = Cell.storePool m.pool v (some (.payload i k)) ∧
      (m.writeNode i k v).2.windows = m.windows := by
  unfold writeNode Cell.storePool
  dsimp only
  split_ifs
  · exact ⟨rfl, rfl⟩
  · refine ⟨?_, rfl⟩
    -- the offset is one of a payload already
    have hlt : k % payloadSize < payloadSize := Nat.mod_lt _ (by decide)
    have hk : (⟨k % payloadSize, hlt⟩ : Fin payloadSize) = k := Fin.ext (Nat.mod_eq_of_lt k.isLt)
    change m.pool.modifyNode i (·.withByte ⟨k % payloadSize, hlt⟩ v) = _
    rw [hk]

/-- Writing stores to the cell, and the windows show what they showed. -/
theorem writeWindow_pool (hc : m.pool.Chained S) (hanchored : m.Anchored) (w : Fin windowCount)
    (o : Fin windowSize) (v : Byte) :
    (m.writeWindow w (UInt16.ofNat o) v).2.pool = Cell.storePool m.pool v (m.cell? w o) ∧
      (m.writeWindow w (UInt16.ofNat o) v).2.windows = m.windows := by
  rw [writeWindow_eq hc hanchored]
  rcases m.cell? w o with - | ⟨w', o'⟩ | ⟨i, k⟩
  · exact ⟨rfl, rfl⟩
  · exact ⟨rfl, rfl⟩
  · exact m.writeNode_eq i k v

/-- Writing does not change which cells there are. -/
theorem cell?_writeWindow (hc : m.pool.Chained S) (hanchored : m.Anchored) (w : Fin windowCount)
    (o : Fin windowSize) (v : Byte) (w' : Fin windowCount) (o' : Fin windowSize) :
    (m.writeWindow w (UInt16.ofNat o) v).2.cell? w' o' = m.cell? w' o' := by
  obtain ⟨hpool, hwindows⟩ := writeWindow_pool hc hanchored w o v
  have hq : (m.writeWindow w (UInt16.ofNat o) v).2.pool.Chained S := by
    rw [hpool]
    exact Cell.chained_storePool hc v _
  refine cell?_congr (window?_congr hwindows w') (fun h hw => ?_) o'
  exact (hc.chain_kept hq (hanchored w' h hw) fun L hL _ => hL).2

end Cells

end Mmu

end Machine6809
