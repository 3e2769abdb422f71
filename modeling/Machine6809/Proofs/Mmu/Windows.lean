import Machine6809.Proofs.Mmu.Splicing

/-!
# Windows never dangle

A window shows a chain by holding its handle. Chains are freed, they lose nodes, and they get new
handles; a window that was not told would show memory of someone else. The invariant is
`Mmu.Anchored`: what a window holds is a handle. It is kept by every action, because an action that
would end a chain is refused while a window shows it, and one that gives a chain another handle
goes through the windows as well.

The step says more than the invariant (`Acts.stillShown`). A window that is neither reset nor told
to show something else goes on to show a chain, and that chain has all the nodes it had before,
except those that the action has taken out or moved (`Action.Spares`). Two windows on one chain
make no difference here, since the step is about any window by itself.
-/

namespace Machine6809

namespace Mmu

variable {n : ℕ}

/-- What a window holds is a handle. -/
def Anchored (m : Mmu n) : Prop := ∀ w h, m.window? w = some h → m.pool.isHandle h = true

/-- Where `m` has the chain of handle `h`, window `w` of `m'` shows a chain with the nodes of it
that are spared. -/
def StillShown (m m' : Mmu n) (w : ℕ) (h : Fin n) (spared : Fin n → Prop) : Prop :=
  ∃ h', m'.window? w = some h' ∧ m'.pool.isHandle h' = true ∧
    ∀ i ∈ m.pool.chain h, spared i → i ∈ m'.pool.chain h'

section Window

variable {m m' : Mmu n} {a : Action n} {S T : List (List (Fin n))} {A B L' : List (Fin n)}
  {g h i new : Fin n} {v w : ℕ}

/-! ### Reading the windows -/

theorem window?_congr (hw : m'.windows = m.windows) (w : ℕ) : m'.window? w = m.window? w := by
  unfold window?
  rw [hw]

/-- A change of all windows, seen at one of them. -/
theorem window?_map {f : Option (Fin n) → Option (Fin n)} (hf : f none = none)
    (hw : m'.windows = m.windows.map f) (w : ℕ) : m'.window? w = f (m.window? w) := by
  unfold window?
  rw [hw, Vector.getElem?_map]
  cases m.windows[w]? with
  | none => exact hf.symm
  | some shown => rfl

/-- Setting another window does not concern this one. -/
theorem window?_set {shown : Option (Fin n)} (hw : m'.windows = m.windows.setIfInBounds v shown)
    (hne : w ≠ v) : m'.window? w = m.window? w := by
  unfold window?
  rw [hw, Vector.getElem?_setIfInBounds_ne hne.symm]

theorem window?_set_self {shown : Option (Fin n)}
    (hw : m'.windows = m.windows.setIfInBounds w shown) (hh : m'.window? w = some h) :
    shown = some h := by
  unfold window? at hh
  rw [hw, Vector.getElem?_setIfInBounds_self] at hh
  split_ifs at hh
  · exact hh
  · exact absurd hh (by simp)

theorem window?_replicate (hw : m'.windows = Vector.replicate windowCount none) (w : ℕ) :
    m'.window? w = none := by
  unfold window?
  rw [hw, Vector.getElem?_replicate]
  split_ifs <;> rfl

/-- Behind an offset there is the member whose payload it falls into. -/
theorem nodeBehind?_eq (hc : m.pool.Chained S) (hh : m.pool.isHandle h = true) (offset : Word) :
    m.nodeBehind? h offset = (m.pool.chain h)[offset.toNat / payloadSize]? := hc.follow?_eq hh _

/-- A chain that a window shows is among those shown. -/
theorem mem_windows (hw : m.window? w = some h) : some h ∈ m.windows := by
  unfold window? at hw
  exact Vector.mem_of_getElem? (Option.join_eq_some_iff.mp hw)

/-! ### Windows through an edit -/

/-- Removing a node makes the windows of its chain follow the head. -/
theorem onWindows_remove (hc : m.pool.Chained ((A ++ i :: B) :: T))
    (hg : (A ++ i :: B).head? = some g) (hmap : A = [] → B = [] → m.isMapped g = false) :
    (Action.remove i).onWindows m
      = m.windows.map fun shown => if shown = some g then (A ++ B).head? else shown := by
  have hmem : i ∈ A ++ i :: B := by simp
  dsimp only [Action.onWindows]
  rw [hc.prev_eq, hc.next_eq, hc.rootOf_eq hmem hg]
  cases A with
  | cons a A =>
    -- the head stays
    rw [List.getLast?_cons, ← hg]
    exact (windows_map_eq_self fun _ => rfl).symm
  | nil =>
    cases B with
    | cons b B => rfl
    | nil => exact (windows_map_eq_self fun hm => absurd hm (not_mem_windows (hmap rfl rfl))).symm

/-- So does putting a node in front of another. -/
theorem onWindows_insertBefore (hc : m.pool.Chained ((A ++ i :: B) :: T))
    (hg : (A ++ i :: B).head? = some g) (new : Fin n) :
    (Action.insertBefore new i).onWindows m = m.windows.map fun shown =>
      if shown = some g then (A ++ new :: i :: B).head? else shown := by
  have hmem : i ∈ A ++ i :: B := by simp
  dsimp only [Action.onWindows]
  unfold Pool.isFirst
  rw [hc.prev_eq, hc.rootOf_eq hmem hg]
  cases A with
  -- in the midst of a chain the head stays
  | cons a A =>
    rw [List.getLast?_cons]
    exact (windows_map_eq_self fun _ => hg).symm
  -- in front of the head the new node becomes the head
  | nil => rfl

/-! ### The step -/

/-- Sparing fewer members is a weaker statement. -/
theorem StillShown.mono {spared spared' : Fin n → Prop} (hs : m.StillShown m' w h spared)
    (himp : ∀ i ∈ m.pool.chain h, spared' i → spared i) : m.StillShown m' w h spared' := by
  obtain ⟨h', hw', hh', hmem⟩ := hs
  exact ⟨h', hw', hh', fun i hi hspared => hmem i hi (himp i hi hspared)⟩

/-- A window that is not touched shows the same chain if that is there. -/
theorem stillShown_same (hwin : m'.windows = m.windows) (hw : m.window? w = some h)
    (hkept : m'.pool.isHandle h = true ∧ m'.pool.chain h = m.pool.chain h)
    (spared : Fin n → Prop) : m.StillShown m' w h spared := by
  refine ⟨h, ?_, hkept.1, fun k hk _ => ?_⟩
  · rw [window?_congr hwin, hw]
  · rwa [hkept.2]

/-- A chain that is edited is shown under its new handle, the others under their own. -/
theorem stillShown_edited (hedit : m.pool.Edited m'.pool g L')
    (hwin : m'.windows = m.windows.map fun shown => if shown = some g then L'.head? else shown)
    (hnil : L' = [] → some g ∉ m.windows) (hw : m.window? w = some h)
    (hh : m.pool.isHandle h = true) : m.StillShown m' w h fun k => h = g → k ∈ L' := by
  have hafter := window?_map (f := fun shown => if shown = some g then L'.head? else shown)
    (if_neg (by simp)) hwin w
  rw [hw] at hafter
  by_cases hhg : h = g
  · -- the window shows the edited chain: it follows the head, if one is left
    rw [if_pos (congrArg some hhg)] at hafter
    cases L' with
    | nil => exact absurd (hhg ▸ mem_windows hw) (hnil rfl)
    | cons r L' =>
      refine ⟨r, hafter, (hedit.handle_iff r).mpr (.inl rfl), fun k _ hk => ?_⟩
      rw [hedit.chain_eq r rfl]
      exact hk hhg
  · -- it shows another chain, which is as it was
    rw [if_neg fun he => hhg (Option.some.inj he)] at hafter
    refine ⟨h, hafter, (hedit.handle_iff h).mpr (.inr ⟨hhg, hh⟩), fun k hk _ => ?_⟩
    rwa [hedit.others_chain h hhg hh]

/-- A node is put in, so that the chain has all the nodes it had. -/
theorem stillShown_inserted (hc : m.pool.Chained ((A ++ i :: B) :: T))
    (hg : (A ++ i :: B).head? = some g) (hedit : m.pool.Edited m'.pool g L')
    (hwin : m'.windows = m.windows.map fun shown => if shown = some g then L'.head? else shown)
    (hsub : ∀ k ∈ A ++ i :: B, k ∈ L') (hw : m.window? w = some h)
    (hh : m.pool.isHandle h = true) (spared : Fin n → Prop) : m.StillShown m' w h spared := by
  have hnil : L' = [] → some g ∉ m.windows := by
    rintro rfl
    exact absurd (hsub i (by simp)) List.not_mem_nil
  refine (stillShown_edited hedit hwin hnil hw hh).mono ?_
  rintro k hk - rfl
  rw [hc.chain_eq_of_mem List.mem_cons_self hg] at hk
  exact hsub k hk

/-- The nodes of the chain are spared unless they are taken out. -/
theorem stillShown_removed (hc : m.pool.Chained S) (ha : Acts m (.remove i) m')
    (hw : m.window? w = some h) (hh : m.pool.isHandle h = true) :
    m.StillShown m' w h fun k => k ≠ i := by
  obtain ⟨hallowed, hpool, hwin⟩ := ha
  obtain ⟨A, B, T, -, hT⟩ := hc.exists_focus hallowed.1
  have hmem : i ∈ A ++ i :: B := by simp
  obtain ⟨g, hg⟩ := exists_head_of_mem hmem
  -- the last node of a chain goes only if no window shows it
  have hmap : A = [] → B = [] → m.isMapped g = false := by
    rintro rfl rfl
    rw [← hT.rootOf_eq hmem hg]
    refine hallowed.2 ?_
    unfold Pool.isAlone
    rw [hT.prev_eq (A := []), hT.next_eq (A := [])]
    rfl
  have hedit : m.pool.Edited m'.pool g (A ++ B) := hpool ▸ (hT.edited_remove hg).1
  have hnil : A ++ B = [] → some g ∉ m.windows := by
    intro hAB
    obtain ⟨hA, hB⟩ := List.append_eq_nil_iff.mp hAB
    exact not_mem_windows (hmap hA hB)
  rw [onWindows_remove hT hg hmap] at hwin
  refine (stillShown_edited hedit hwin hnil hw hh).mono ?_
  rintro k hk hki rfl
  rw [hT.chain_eq_of_mem List.mem_cons_self hg] at hk
  -- what is left of the chain are the nodes other than `i`
  rcases List.mem_append.mp hk with hkA | hkB
  · exact List.mem_append_left B hkA
  · exact List.mem_append_right A ((List.mem_cons.mp hkB).resolve_left hki)

/-- The action neither takes the node out of its chain nor moves it. -/
def Action.Spares (p : Pool n) : Action n → Fin n → Prop
  | .remove j, i => i ≠ j
  | .defrag, i => ∀ move ∈ p.defrag.2, move.source ≠ i
  | _, _ => True

/-- Moves from elsewhere do not concern a node. -/
theorem applyAll_eq_self {moves : List (Move n)} (hi : ∀ move ∈ moves, move.source ≠ i) :
    Move.applyAll moves i = i := by
  induction moves with
  | nil => rfl
  | cons move moves ih =>
    have hstay : Move.apply i move = i := Pool.Move.apply_of_ne (hi move List.mem_cons_self).symm
    change moves.foldl Move.apply (Move.apply i move) = i
    rw [hstay]
    exact ih fun later hlater => hi later (List.mem_cons_of_mem move hlater)

/-- **The step of a window.** A window that shows a chain still shows one after an action, unless
the action is about the window itself. The chain has the nodes it had, as far as they are spared. -/
theorem Acts.stillShown (hc : m.pool.Chained S) (ha : Acts m a m') (hreset : a ≠ .reset)
    (hselect : ∀ shown, a ≠ .select w shown) (hw : m.window? w = some h)
    (hh : m.pool.isHandle h = true) : m.StillShown m' w h (a.Spares m.pool) := by
  obtain ⟨hallowed, hpool, hwin⟩ := ha
  cases a with
  | reset => exact absurd rfl hreset
  | keep =>
    refine stillShown_same hwin hw ?_ _
    rw [hpool]
    exact ⟨hh, rfl⟩
  | select v shown =>
    have hne : w ≠ v := fun he => hselect shown (by rw [he])
    refine ⟨h, ?_, ?_, fun i hi _ => ?_⟩
    · rw [window?_set hwin hne, hw]
    · rwa [hpool]
    · rwa [hpool]
  | allocate count template =>
    -- whatever comes of it, the chains that there were are still there
    refine stillShown_same hwin hw ?_ _
    have hcases := hc.allocate count template
    change m'.pool = (m.pool.allocate count template).2 at hpool
    rw [hpool]
    generalize m.pool.allocate count template = x at hcases ⊢
    cases hcases with
    | badLength => exact ⟨hh, rfl⟩
    | noneFree hfree => exact ⟨hh, rfl⟩
    | built gains length_eq =>
      exact hc.chain_kept gains.chained hh fun L hL _ => List.mem_cons_of_mem _ hL
    | exhausted gains length_lt hfree =>
      exact hc.chain_kept gains.chained hh fun L hL _ => List.mem_cons_of_mem _ hL
  | release root =>
    refine stillShown_same hwin hw ?_ _
    obtain ⟨B, T, -, hT⟩ := hc.exists_handle hallowed.1
    change m'.pool = (m.pool.releaseChain root).2 at hpool
    rw [hpool]
    refine hT.chain_releaseChain hh ?_
    -- the chain that is freed is one that no window shows
    rintro rfl
    exact not_mem_windows hallowed.2 (mem_windows hw)
  | remove j => exact stillShown_removed hc ⟨hallowed, hpool, hwin⟩ hw hh
  | insertBefore new j =>
    obtain ⟨A, B, T, -, hT⟩ := hc.exists_focus hallowed.1
    obtain ⟨g, hg⟩ := exists_head_of_mem (show j ∈ A ++ j :: B by simp)
    rw [onWindows_insertBefore hT hg] at hwin
    refine stillShown_inserted hT hg (hpool ▸ (hT.edited_insertBefore hg hallowed.2).1) hwin
      (fun k hk => ?_) hw hh _
    simp only [List.mem_append, List.mem_cons] at hk ⊢
    tauto
  | insertAfter new j =>
    obtain ⟨A, B, T, -, hT⟩ := hc.exists_focus hallowed.1
    obtain ⟨g, hg⟩ := exists_head_of_mem (show j ∈ A ++ j :: B by simp)
    -- a node behind another is never the head
    have hhead : (A ++ j :: new :: B).head? = some g := by
      rw [← hg]
      cases A <;> rfl
    have hwin' : m'.windows = m.windows.map fun shown =>
        if shown = some g then (A ++ j :: new :: B).head? else shown := by
      rw [windows_map_eq_self fun _ => hhead]
      exact hwin
    refine stillShown_inserted hT hg (hpool ▸ (hT.edited_insertAfter hg hallowed.2).1) hwin'
      (fun k hk => ?_) hw hh _
    simp only [List.mem_append, List.mem_cons] at hk ⊢
    tauto
  | setLock j locked =>
    have hq : m'.pool.Chained S := by
      rw [hpool]
      dsimp only [Action.onPool]
      refine hc.modifyNode ?_ ?_ ?_ ?_ fun hfree => absurd (hfree.symm.trans hallowed) (by simp)
      all_goals rfl
    exact stillShown_same hwin hw (hc.chain_kept hq hh fun L hL _ => hL) _
  | write j offset value =>
    have hq : m'.pool.Chained S := by
      rw [hpool]
      dsimp only [Action.onPool]
      refine hc.modifyNode ?_ ?_ ?_ ?_ fun _ => ?_
      all_goals rfl
    exact stillShown_same hwin hw (hc.chain_kept hq hh fun L hL _ => hL) _
  | defrag =>
    obtain ⟨hrenames, -⟩ := hc.defrag
    change m'.pool = m.pool.defrag.1 at hpool
    refine ⟨h, ?_, ?_, fun i hi hmoved => ?_⟩
    · rw [window?_congr hwin, hw]
    · rw [hpool]
      exact (hrenames.isHandle_iff hc).mpr hh
    · -- what has not been moved is behind the same offset
      rw [hpool, hrenames.chain_eq hc hh]
      exact List.mem_map.mpr ⟨i, hi, applyAll_eq_self hmoved⟩

/-- A closed window does not take part when a handle is renamed. -/
theorem window?_rename_none {q : Mmu n} (hq : q.window? w = none) (old new : Fin n)
    (hwin : m'.windows = (q.rename old new).windows) : m'.window? w = none := by
  have hmap := window?_map (f := fun shown => if shown = some old then some new else shown)
    (if_neg (by simp)) hwin w
  rw [hq] at hmap
  exact hmap.trans (if_neg (by simp))

/-- A window that shows nothing goes on to show nothing, unless it is told to. -/
theorem Acts.window?_none (ha : Acts m a m') (hselect : ∀ shown, a ≠ .select w shown)
    (hw : m.window? w = none) : m'.window? w = none := by
  have hwin := ha.windows_eq
  -- no action but a selection opens a window; some change what open ones show
  cases a with
  | reset => exact window?_replicate hwin w
  | select v shown =>
    have hne : w ≠ v := fun he => hselect shown (by rw [he])
    rw [window?_set hwin hne, hw]
  | remove i =>
    dsimp only [Action.onWindows] at hwin
    split at hwin
    · exact window?_rename_none hw _ _ hwin
    · rw [window?_congr hwin, hw]
  | insertBefore new i =>
    dsimp only [Action.onWindows] at hwin
    split_ifs at hwin
    · exact window?_rename_none hw _ _ hwin
    · rw [window?_congr hwin, hw]
  | keep | allocate count template | release root | insertAfter new i | setLock i locked
  | write i offset value | defrag => rw [window?_congr hwin, hw]

/-- **Every action keeps the windows on handles.** -/
theorem Acts.anchored (hc : m.pool.Chained S) (ha : Acts m a m') (hanchored : m.Anchored) :
    m'.Anchored := by
  intro w h hh
  by_cases hselect : ∃ shown, a = .select w shown
  · -- a selection is allowed for handles only
    obtain ⟨shown, rfl⟩ := hselect
    rw [ha.pool_eq]
    exact ha.allowed h (window?_set_self ha.windows_eq hh)
  · push Not at hselect
    cases hw : m.window? w with
    | none => exact absurd (hh.symm.trans (ha.window?_none hselect hw)) (by simp)
    | some g =>
      by_cases hreset : a = .reset
      · subst hreset
        exact absurd (hh.symm.trans (window?_replicate ha.windows_eq w)) (by simp)
      · -- the window has shown a chain, and the step says that it still does
        obtain ⟨h', hw', hh', -⟩ := ha.stillShown hc hreset hselect hw (hanchored w g hw)
        obtain rfl : h' = h := Option.some.inj (hw'.symm.trans hh)
        exact hh'

/-! ### Runs -/

/-- Each request keeps the windows at handles. -/
theorem anchored_serve (hc : m.pool.Chained S) (hanchored : m.Anchored) (r : Request) :
    (m.serve r).Anchored := by
  rcases m.mayAct_serve r with ha | ha
  · exact ha.anchored hc hanchored
  · exact ha.anchored hc hanchored

/-- At first no window is open. -/
theorem anchored_initial (nonempty : 0 < n) : (initial nonempty).Anchored := by
  intro w h hw
  exact absurd (hw.symm.trans (window?_replicate rfl w)) (by simp)

/-- **In every state of the unit the windows hold handles.** -/
theorem ReachableBy.anchored {kind : Request → Prop} (hn : n < 65536)
    (hm : m.ReachableBy kind) : m.Anchored := by
  have h : m.pool.Sound False ∧ m.Anchored := by
    refine hm.invariant (I := fun m => m.pool.Sound False ∧ m.Anchored)
      (fun nonempty => ⟨Pool.sound_empty hn, anchored_initial nonempty⟩) ?_
    rintro m r ⟨hsound, hanchored⟩ -
    obtain ⟨S, hS⟩ := hsound.chained
    exact ⟨sound_serve hsound False.elim, anchored_serve hS hanchored r⟩
  exact h.2

/-- The request takes node `i` out of its chain and frees it. It is a deletion at the cursor or at
an end of the chain that the cursor is in, and it has not been refused. -/
def Deletes (m : Mmu n) (r : Request) (i : Fin n) : Prop :=
  (∃ command, r.command? = some command ∧
    (command = .deleteNode ∨ command = .popFront ∨ command = .popBack) ∧
    m.cursorFor command = i) ∧
  ((m.serve r).pool.node i).isAllocated = false

/-- The request closes breaks and moves node `i` for that. -/
def Relocates (m : Mmu n) (r : Request) (i : Fin n) : Prop :=
  r.command? = some .defrag ∧ ∃ move ∈ m.pool.defrag.2, move.source = i

/-- A node that a request neither deletes nor moves is spared by the action it asks for. -/
theorem spares_of_not_deletes {r : Request} (hc : m.pool.Chained S)
    (ha : Acts m (m.requestAction r) (m.serve r)) (hdel : ¬m.Deletes r i)
    (hrel : ¬m.Relocates r i) : (m.requestAction r).Spares m.pool i := by
  have hasked := m.asked_requestAction r
  generalize m.requestAction r = a at hasked ha ⊢
  cases hasked with
  | @command command hr =>
    have hfor := m.commandAction_isFor command
    generalize hx : m.commandAction command = x at hfor ha ⊢
    cases x with
    | remove j =>
      rintro rfl
      -- the position that has been cleared is the one that the command is for
      obtain ⟨A, B, T, -, hT⟩ := hc.exists_focus ha.allowed.1
      have hfreed : (m.serve r).pool.node i = Node.free := by
        rw [ha.pool_eq]
        exact hT.toLayout.node_remove_self
      have hcursor : m.cursorFor command = i := by
        rcases hfor with rfl | rfl | rfl <;> exact Action.remove.inj hx
      exact hdel ⟨⟨command, hr, hfor, hcursor⟩, by rw [hfreed]; rfl⟩
    | defrag =>
      -- a node that DEFRAG moves is relocated
      obtain rfl : command = .defrag := hfor
      exact fun move hmove he => hrel ⟨hr, move, hmove, he⟩
    | _ => exact trivial
  | _ => exact trivial

/-- Only a request that asks for a reset resets. -/
theorem ne_reset_of_not_resets {r : Request} (hr : ¬r.Resets) : m.requestAction r ≠ .reset := by
  intro he
  have hasked := m.asked_requestAction r
  rw [he] at hasked
  generalize hx : Action.reset = x at hasked
  cases hasked with
  | command hcommand =>
    -- a command that comes to a reset is RESET
    have hfor := m.commandAction_isFor ‹Command›
    rw [← hx] at hfor
    exact hr (.inr (hcommand.trans (congrArg some hfor)))
  | reset h => exact hr (.inl h)
  | _ => exact absurd hx (by simp)

/-- Only a request that selects a chain for a window does so. -/
theorem ne_select_of_not_selects {r : Request} (hr : ¬r.Selects w) (shown : Option (Fin n)) :
    m.requestAction r ≠ .select w shown := by
  intro he
  have hasked := m.asked_requestAction r
  rw [he] at hasked
  generalize hx : Action.select w shown = x at hasked
  cases hasked with
  | command hcommand =>
    -- no command selects
    have hfor := m.commandAction_isFor ‹Command›
    rw [← hx] at hfor
    exact hfor
  | select h =>
    obtain ⟨rfl, -⟩ := Action.select.inj hx
    exact hr h
  | _ => exact absurd hx (by simp)

/-- **Windows never dangle.** What a window holds is a handle, and whatever an access through the
window follows is a node of that chain. A request that neither resets the unit nor selects for the
window leaves it on a chain that has all the nodes of the chain it showed, except those that the
request has deleted or moved. -/
theorem windows_never_dangle (hn : n < 65536) (hm : m.Reachable) :
    (∀ w h, m.window? w = some h → m.pool.isHandle h = true ∧
      ∀ k i, m.pool.follow? k h = some i → i ∈ m.pool.chain h ∧
        (m.pool.node i).isAllocated = true ∧ (m.pool.node i).root = some h) ∧
    ∀ (r : Request) w h, ¬r.Resets → ¬r.Selects w → m.window? w = some h →
      m.StillShown (m.serve r) w h fun i => ¬m.Deletes r i ∧ ¬m.Relocates r i := by
  obtain ⟨S, hS⟩ := hm.exists_chained hn
  have hanchored := hm.anchored hn
  refine ⟨fun w h hw => ?_, fun r w h hreset hselect hw => ?_⟩
  · -- a window shows a handle, and a walk from a handle stays in its chain
    have hh := hanchored w h hw
    refine ⟨hh, fun k i hi => ?_⟩
    rw [hS.follow?_eq hh] at hi
    have hmem : i ∈ m.pool.chain h := List.mem_of_getElem? hi
    exact ⟨hmem, hS.isAllocated_of_mem_chain hh hmem, ((hS.fullChain hh).mem_iff i).mp hmem⟩
  · -- a request acts on the chain shown, or leaves it alone
    have hh := hanchored w h hw
    rcases m.mayAct_serve r with ha | ha
    · -- nothing has been done
      exact (ha.stillShown hS (by simp) (by simp) hw hh).mono fun _ _ _ => trivial
    · refine (ha.stillShown hS (ne_reset_of_not_resets hreset)
        (ne_select_of_not_selects hselect) hw hh).mono ?_
      rintro i - ⟨hdel, hrel⟩
      exact spares_of_not_deletes hS ha hdel hrel

/-- The small unit with both windows on its chain. -/
def shownRequests : List Request := sampleRequests ++ [.select 0 (some 0), .select 1 (some 0)]

/-- The small unit with the chain in both windows. -/
def shownUnit : Mmu 6 := (initial six_pos).serveAll shownRequests

/-- The root of that chain is taken out, and the second window goes on to show node 2. -/
theorem windows_never_dangle_sample :
    shownUnit.pool.isHandle 0 = true ∧ shownUnit.StillShown
        (shownUnit.serve (.command Command.popFront.code)) 1 0
        (fun i => ¬shownUnit.Deletes (.command Command.popFront.code) i ∧
          ¬shownUnit.Relocates (.command Command.popFront.code) i) ∧
      (shownUnit.serve (.command Command.popFront.code)).window? 1 = some 2 := by
  have hw : shownUnit.window? 1 = some 0 := by decide +kernel
  obtain ⟨hhandle, hstep⟩ := windows_never_dangle (m := shownUnit) (by decide)
    ⟨by decide, shownRequests, fun _ _ => trivial, rfl⟩
  have hreset : ¬(Request.command Command.popFront.code).Resets := by
    rintro (h | h) <;> exact absurd h (by decide)
  exact ⟨(hhandle 1 0 hw).1, hstep _ 1 0 hreset id hw, by decide +kernel⟩

end Window

end Mmu

end Machine6809
