import Machine6809.Proofs.Pool.Reading
import Machine6809.Proofs.Pool.Relocation

/-!
# The loops along chains end

Chains are walked, freed and closed up by loops that follow the `next` links until there is none.
Two of the loops rewrite what they walk: freeing clears the links behind itself, and closing breaks
puts the node that it is about to step onto somewhere else. Nothing in such a loop counts its turns.
That it ends is due to the pool.

Here the loops are taken without any bound on their turns. `Loops step s visited s'` says that a
loop with a given step comes from `s` to an end at `s'` and what it has visited by then. For each of
the loops the visits are those that the chain asks for. The functions of the pool, which are given a
number of turns, then do what the loop does, as that number is never too small
(`walk_of_loops`, `releaseFrom_of_loops`, `closeBreaks_of_loops`).

What carries the proof is the layout. The measure of a loop is the part of the strand that lies
ahead, and a step that rewrites links leaves a layout in which this part is shorter by one.
-/

namespace Machine6809

/-- **A loop** goes on as long as its step gives a visit and another state. It has come from one
state to its end in another one, and what it has visited on the way is listed in order. -/
inductive Loops {σ α : Type*} (step : σ → Option (α × σ)) : σ → List α → σ → Prop where
  | stop {s : σ} (h : step s = none) : Loops step s [] s
  | next {s s' last : σ} {a : α} {visited : List α} (h : step s = some (a, s'))
      (rest : Loops step s' visited last) : Loops step s (a :: visited) last

namespace Pool

variable {n : ℕ}

/-! ### Walking -/

/-- One turn of a walk: visit a node and go to the next one. -/
def walkStep (p : Pool n) (current : Option (Fin n)) : Option (Fin n × Option (Fin n)) :=
  current.map fun i => (i, (p.node i).next)

section Walking

variable {p : Pool n} {S : List (List (Fin n))} {A B : List (Fin n)} {i : Fin n}

/-- A limit has no effect if there are not more nodes to visit than it allows. -/
theorem walk_of_loops {current last : Option (Fin n)} {visited : List (Fin n)}
    (h : Loops p.walkStep current visited last) :
    ∀ {limit : ℕ}, visited.length ≤ limit → p.walk limit current = visited := by
  -- by the rounds of the loop, each of which uses up one of the bound
  induction h with
  | @stop current h =>
    intro limit _
    obtain rfl : current = none := Option.map_eq_none_iff.mp h
    cases limit <;> rfl
  | @next current _ _ _ visited h rest ih =>
    intro limit hl
    obtain ⟨j, rfl, hj⟩ := Option.map_eq_some_iff.mp h
    obtain ⟨rfl, rfl⟩ := Prod.mk.inj hj
    cases limit with
    | zero => exact absurd hl (Nat.not_succ_le_zero _)
    | succ limit =>
      change j :: p.walk limit (p.node j).next = j :: visited
      rw [ih (Nat.le_of_succ_le_succ hl)]

/-- From any member of a strand a walk visits the members that are left. -/
theorem Strand.loops_walk : ∀ {B A : List (Fin n)}, p.Strand (A ++ B) →
    Loops p.walkStep B.head? B none := by
  intro B
  -- by what is still to be visited, with what has been visited put behind A
  induction B with
  -- at the end the walk stands nowhere, which stops it
  | nil => exact fun _ => .stop rfl
  | cons b B ih =>
    intro A hS
    have here : p.walkStep (some b) = some (b, B.head?) := by
      change some (b, (p.node b).next) = some (b, B.head?)
      rw [hS.next_eq]
    exact .next here (ih (A := A ++ [b]) (by rwa [List.append_assoc]))

/-- A walk from `i` visits the nodes of a list, each once, and ends behind the last of them. As many
turns as there are nodes in the pool are enough for it. -/
structure Walks (p : Pool n) (i : Fin n) (L : List (Fin n)) : Prop where
  loop : Loops p.walkStep (some i) L none
  nodup : L.Nodup
  unlimited : ∀ limit, n ≤ limit → p.walk limit (some i) = L

/-- **Walks end.** From any node of a strand a walk visits what is left of it. -/
theorem Layout.walks (h : p.Layout ((A ++ i :: B) :: S)) : p.Walks i (i :: B) := by
  have hloop : Loops p.walkStep (some i) (i :: B) none :=
    (h.strand _ List.mem_cons_self).loops_walk (B := i :: B)
  have hlen := h.length_le
  rw [List.flatten_cons, List.length_append, List.length_append] at hlen
  exact ⟨hloop, (List.nodup_append.mp h.nodup_head).2.1,
    fun limit hl => walk_of_loops hloop (by omega)⟩

end Walking

/-! ### Freeing -/

/-- One turn of freeing: cut a node off from the next one and release it. -/
def releaseStep : Option (Fin n) × Pool n → Option (Fin n × Option (Fin n) × Pool n)
  | (none, _) => none
  | (some i, p) => some (i, (p.node i).next, (p.unlinkTo i (p.node i).next).release i)

section Freeing

variable {S : List (List (Fin n))}

/-- A releasing loop that ends is the recursion with any fuel for its members. -/
theorem releaseFrom_of_loops {s last : Option (Fin n) × Pool n} {visited : List (Fin n)}
    (h : Loops releaseStep s visited last) : ∀ {i : Fin n} {p : Pool n} {fuel : ℕ},
    s = (some i, p) → visited.length ≤ fuel → releaseFrom fuel i p = (visited.length, last.2) := by
  -- turn by turn; each takes one unit of the fuel
  induction h with
  | stop h =>
    rintro i p fuel rfl
    exact nomatch h
  | @next s s' last a visited h rest ih =>
    rintro i p fuel rfl hl
    obtain ⟨rfl, rfl⟩ := Prod.mk.inj (Option.some.inj h)
    cases fuel with
    | zero => exact absurd hl (Nat.not_succ_le_zero _)
    | succ fuel =>
      rw [releaseFrom]
      cases hnext : (p.node i).next with
      | none =>
        -- there is nothing to go on with
        rw [hnext] at rest
        cases rest with
        | stop => rfl
        | next h => exact nomatch h
      | some j =>
        have hstate : ((p.node i).next, (p.unlinkTo i (p.node i).next).release i)
            = (some j, (p.unlink i j).release i) := by
          rw [hnext]
          rfl
        dsimp only
        rw [ih hstate (Nat.le_of_succ_le_succ hl), List.length_cons]

/-- **Freeing ends.** It visits the members of the strand and leaves the others. -/
theorem Layout.loops_release : ∀ {B : List (Fin n)} {i : Fin n} {p : Pool n},
    p.Layout ((i :: B) :: S) →
    ∃ q, Loops releaseStep (some i, p) (i :: B) (none, q) ∧ q.Layout S := by
  intro B
  induction B with
  | nil =>
    intro i p h
    refine ⟨p.release i, .next ?_ (.stop rfl), h.release⟩
    change some (i, (p.node i).next, (p.unlinkTo i (p.node i).next).release i) = _
    rw [h.next_eq (A := [])]
    rfl
  | cons b B ih =>
    intro i p h
    -- the first node is cut off and free, and the others are a strand of their own
    have hrest := (h.unlink (A := [])).release
    obtain ⟨q, hloop, hq⟩ := ih hrest
    refine ⟨q, .next ?_ hloop, hq⟩
    change some (i, (p.node i).next, (p.unlinkTo i (p.node i).next).release i) = _
    rw [h.next_eq (A := [])]
    rfl

end Freeing

/-! ### Closing breaks -/

/-- One turn of closing breaks: visit the next node, with the place where it is and the place where
it lies from now on. That is the place behind the node before it, if the next node has to go there
and can, and else its own. -/
def closeStep : Fin n × Pool n → Option (Move n × Fin n × Pool n)
  | (i, p) =>
    match (p.node i).next with
    | none => none
    | some j =>
      match if adjacent i j then none else p.freePlaceAfter? i with
      | some place => some (⟨j, place⟩, place, p.relocate j place)
      | none => some (⟨j, j⟩, j, p)

end Pool

/-- The node of a visit has gone to another place. -/
def Move.leaves {n : ℕ} (visit : Move n) : Bool := visit.source != visit.target

/-- The second visit is to another node than the first, which lies at its target by then. -/
def Move.Apart {n : ℕ} (first second : Move n) : Prop :=
  first.source ≠ second.source ∧ first.target ≠ second.source

namespace Pool

variable {n : ℕ}

section Closing

variable {S : List (List (Fin n))}

/-- What a turn does, by whether the next node moves. -/
theorem closeStep_cases {i target : Fin n} {p q : Pool n} {visit : Move n}
    (h : closeStep (i, p) = some (visit, target, q)) :
    (p.node i).next = some visit.source ∧ target = visit.target ∧
      ((adjacent i visit.source = false ∧ p.freePlaceAfter? i = some visit.target ∧
          q = p.relocate visit.source visit.target) ∨
        ((if adjacent i visit.source then none else p.freePlaceAfter? i) = none ∧
          visit.target = visit.source ∧ q = p)) := by
  rw [closeStep] at h
  cases hnext : (p.node i).next with
  -- without a successor the step gives nothing
  | none =>
    rw [hnext] at h
    exact nomatch h
  | some j =>
    rw [hnext] at h
    dsimp only at h
    cases hplace : (if adjacent i j then none else p.freePlaceAfter? i) with
    -- next to each other already, or no free place beside: only a visit
    | none =>
      rw [hplace] at h
      obtain ⟨rfl, hstate⟩ := Prod.mk.inj (Option.some.inj h)
      obtain ⟨rfl, rfl⟩ := Prod.mk.inj hstate
      exact ⟨rfl, rfl, .inr ⟨hplace, rfl, rfl⟩⟩
    -- a break with a free place beside it: a move
    | some place =>
      rw [hplace] at h
      obtain ⟨rfl, hstate⟩ := Prod.mk.inj (Option.some.inj h)
      obtain ⟨rfl, rfl⟩ := Prod.mk.inj hstate
      split_ifs at hplace with hadj
      exact ⟨rfl, rfl, .inl ⟨by rwa [Bool.not_eq_true] at hadj, hplace, rfl⟩⟩

/-- A node that moves goes elsewhere: its place is right behind another node, and it was not. -/
theorem leaves_of_place {i : Fin n} {p : Pool n} {visit : Move n}
    (hij : adjacent i visit.source = false) (hplace : p.freePlaceAfter? i = some visit.target) :
    visit.leaves = true := by
  refine bne_iff_ne.mpr fun he => ?_
  have hadj := (freePlaceAfter?_spec hplace).2
  rw [← he, hij] at hadj
  exact Bool.false_ne_true hadj

/-- So is the loop that closes breaks, with the moves in the order of their visits. -/
theorem closeBreaks_of_loops {s last : Fin n × Pool n} {visits : List (Move n)}
    (h : Loops closeStep s visits last) : ∀ {fuel : ℕ} (moves : List (Move n)),
    visits.length ≤ fuel →
    closeBreaks fuel s.1 s.2 moves = (last.2, (visits.filter Move.leaves).reverse ++ moves) := by
  -- turn by turn; only turns that move a node are on the list of moves
  induction h with
  | @stop s h =>
    obtain ⟨i, p⟩ := s
    intro fuel moves _
    cases fuel with
    | zero => rfl
    | succ fuel =>
      have hnext : (p.node i).next = none := by
        -- a turn is made whenever there is a next node
        cases hnext : (p.node i).next with
        | none => rfl
        | some j =>
          rw [closeStep, hnext] at h
          dsimp only at h
          split at h <;> exact nomatch h
      rw [closeBreaks, hnext]
      rfl
  | @next s s' last visit visits h rest ih =>
    obtain ⟨i, p⟩ := s
    obtain ⟨target, q⟩ := s'
    intro fuel moves hl
    cases fuel with
    | zero => exact absurd hl (Nat.not_succ_le_zero _)
    | succ fuel =>
      obtain ⟨hnext, rfl, hturn⟩ := closeStep_cases h
      rw [closeBreaks, hnext]
      dsimp only
      rcases hturn with ⟨hij, hplace, rfl⟩ | ⟨hstays, htarget, rfl⟩
      · have hleaves := leaves_of_place hij hplace
        rw [hij, if_neg Bool.false_ne_true, hplace, List.filter_cons_of_pos hleaves,
          List.reverse_cons, List.append_assoc]
        exact ih (visit :: moves) (Nat.le_of_succ_le_succ hl)
      · have hleaves : ¬visit.leaves = true := by
          rw [Move.leaves, htarget, bne_self_eq_false]
          exact Bool.false_ne_true
        rw [hstays, List.filter_cons_of_neg hleaves, ← htarget]
        exact ih moves (Nat.le_of_succ_le_succ hl)

/-- **One turn** visits the node behind `i`. It goes to a place where none of the nodes ahead lies,
and the turn leaves a pool in which the chain has it there. -/
theorem Chained.closeStep {p : Pool n} {A B : List (Fin n)} {i j : Fin n}
    (h : p.Chained ((A ++ i :: j :: B) :: S)) :
    ∃ target q, Pool.closeStep (i, p) = some (⟨j, target⟩, target, q) ∧
      q.Chained (((A ++ [i]) ++ target :: B) :: S) ∧ target ∉ B := by
  have hassoc : ∀ x, A ++ i :: x :: B = (A ++ [i]) ++ x :: B := fun x => by
    rw [List.append_assoc, List.singleton_append]
  rw [Pool.closeStep, h.next_eq, List.head?_cons]
  dsimp only
  cases hplace : (if adjacent i j then none else p.freePlaceAfter? i) with
  | none =>
    -- the next member stays
    refine ⟨j, p, rfl, hassoc j ▸ h, ?_⟩
    rw [hassoc] at h
    exact (List.nodup_cons.mp (List.nodup_append.mp h.nodup_head).2.1).1
  | some place =>
    obtain ⟨hij, hafter⟩ : adjacent i j = false ∧ p.freePlaceAfter? i = some place := by
      split_ifs at hplace with hadj
      exact ⟨by rwa [Bool.not_eq_true] at hadj, hplace⟩
    obtain ⟨hfree, hadj⟩ := freePlaceAfter?_spec hafter
    have hout := h.not_mem_of_free hfree
    obtain ⟨hmove, hmap⟩ := h.relocate hout hij hadj
    have hq := hmove.chained
    rw [hmap, hassoc] at hq
    -- the place was free, so no member lies there
    exact ⟨place, p.relocate j place, rfl, hq, fun hm => hout (by simp [hm])⟩

/-- **Closing breaks along a chain ends.** It visits the nodes behind its start in their order, each
once, although it moves them, and leaves a chain with each of them at its target. -/
theorem Chained.loops_close : ∀ {B : List (Fin n)} {p : Pool n} {A : List (Fin n)} {i : Fin n},
    p.Chained ((A ++ i :: B) :: S) →
    ∃ visits last q, Loops Pool.closeStep (i, p) visits (last, q) ∧
      visits.map Move.source = B ∧ visits.Pairwise Move.Apart ∧
      q.Chained ((A ++ i :: visits.map Move.target) :: S) := by
  intro B
  -- by the members that are still ahead of the loop
  induction B with
  | nil =>
    intro p A i h
    refine ⟨[], i, p, .stop ?_, rfl, List.Pairwise.nil, h⟩
    rw [Pool.closeStep, h.next_eq]
    rfl
  | cons j B ih =>
    intro p A i h
    obtain ⟨target, r, hstep, hr, htarget⟩ := h.closeStep
    obtain ⟨visits, last, q, hloop, hsources, hapart, hq⟩ := ih hr
    have hj : j ∉ B := by
      have hnd := (List.nodup_append.mp h.nodup_head).2.1
      exact (List.nodup_cons.mp hnd.of_cons).1
    refine ⟨⟨j, target⟩ :: visits, last, q, .next hstep hloop, by rw [List.map_cons, hsources],
      List.pairwise_cons.mpr ⟨fun later hlater => ?_, hapart⟩, ?_⟩
    · -- the nodes that are visited later are those of `B`
      have hB : later.source ∈ B := hsources ▸ List.mem_map_of_mem hlater
      have hne : ∀ k, k ∉ B → k ≠ later.source := fun k hk he => hk (he ▸ hB)
      exact ⟨hne j hj, hne target htarget⟩
    · rw [List.append_assoc, List.singleton_append] at hq
      exact hq

end Closing

/-! ### All chains -/

/-- **A pass over some positions.** Where one is a handle by the time it comes up, the loop runs
along its chain, and the log holds the handle and the visits. -/
inductive Passes : List (Fin n) → Pool n → List (Fin n × List (Move n)) → Pool n → Prop where
  | done {p : Pool n} : Passes [] p [] p
  | skip {i : Fin n} {heads : List (Fin n)} {p q : Pool n} {log : List (Fin n × List (Move n))}
      (hi : p.isHandle i = false) (rest : Passes heads p log q) : Passes (i :: heads) p log q
  | chain {i last : Fin n} {heads : List (Fin n)} {p r q : Pool n} {visits : List (Move n)}
      {log : List (Fin n × List (Move n))} (hi : p.isHandle i = true)
      (loop : Loops closeStep (i, p) visits (last, r)) (rest : Passes heads r log q) :
      Passes (i :: heads) p ((i, visits) :: log) q

/-- The visits of a log, one after the other. -/
def visitsOf (log : List (Fin n × List (Move n))) : List (Move n) := log.flatMap Prod.snd

/-- The visits of a log, entry by entry. -/
theorem visitsOf_cons (entry : Fin n × List (Move n)) (log : List (Fin n × List (Move n))) :
    visitsOf (entry :: log) = entry.2 ++ visitsOf log := List.flatMap_cons

/-- What the loop along the chain of `h` has done to the pool. It has visited all members but the
root, it has left each of them at its target, and it has left the other chains alone. -/
structure ClosedUp (h : Fin n) (p q : Pool n) (visits : List (Move n)) : Prop where
  loop : ∃ last, Loops closeStep (h, p) visits (last, q)
  handle_eq : ∀ g, q.isHandle g = p.isHandle g
  sources : visits.map Move.source = (p.chain h).tail
  targets : visits.map Move.target = (q.chain h).tail
  others : ∀ g, p.isHandle g = true → g ≠ h → q.chain g = p.chain g
  apart : visits.Pairwise Move.Apart

/-- What a pass over some positions has done to the pool. It has run along the chains whose handles
are among them, in this order and once each, and has found them as they were in the beginning. -/
structure Passed (heads : List (Fin n)) (p q : Pool n) (log : List (Fin n × List (Move n))) :
    Prop where
  passes : Passes heads p log q
  handle_eq : ∀ g, q.isHandle g = p.isHandle g
  heads_eq : log.map Prod.fst = heads.filter p.isHandle
  visits : ∀ entry ∈ log, entry.2.map Move.source = (p.chain entry.1).tail ∧
    entry.2.map Move.target = (q.chain entry.1).tail
  others : ∀ g, p.isHandle g = true → g ∉ heads → q.chain g = p.chain g
  apart : (visitsOf log).Pairwise Move.Apart

section Passing

variable {p q : Pool n} {S : List (List (Fin n))} {g h i j : Fin n}

/-- The members of two chains are different. -/
theorem Chained.ne_of_mem_chains (hc : p.Chained S) (hg : p.isHandle g = true)
    (hh : p.isHandle h = true) (hgh : g ≠ h) (hi : i ∈ p.chain g) (hj : j ∈ p.chain h) :
    i ≠ j := by
  rintro rfl
  have hig := ((hc.fullChain hg).mem_iff i).mp hi
  have hih := ((hc.fullChain hh).mem_iff i).mp hj
  exact hgh (Option.some.inj (hig.symm.trans hih))

/-- A member behind the root is no handle. -/
theorem Chained.isHandle_of_mem_tail (hc : p.Chained S) (hg : p.isHandle g = true)
    (hi : i ∈ (p.chain g).tail) : p.isHandle i = false := by
  have hfull := hc.fullChain hg
  have hroot := (hfull.mem_iff i).mp (List.mem_of_mem_tail hi)
  cases hh : p.isHandle i with
  | false => rfl
  | true =>
    -- it would be its own root, and so the first of its chain
    rw [isHandle, Bool.and_eq_true, beq_iff_eq] at hh
    obtain rfl : g = i := Option.some.inj (hroot.symm.trans hh.2)
    obtain ⟨B, hB⟩ := List.head?_eq_some_iff.mp hfull.head_eq
    have hnd := hfull.nodup
    rw [hB] at hi hnd
    exact absurd hi (List.nodup_cons.mp hnd).1

/-- A chain is not longer than the pool. -/
theorem Chained.length_chain_le (hc : p.Chained S) (hh : p.isHandle h = true) :
    (p.chain h).length ≤ n := by
  have hle := List.Nodup.length_le_card (hc.fullChain hh).nodup
  rwa [Fintype.card_fin] at hle

/-- **The loop along the chain of a handle.** -/
theorem Chained.closedUp (hc : p.Chained S) (hh : p.isHandle h = true) :
    ∃ visits q T, ClosedUp h p q visits ∧ q.Chained T := by
  obtain ⟨B, T, -, hT⟩ := hc.exists_handle hh
  obtain ⟨visits, last, q, hloop, hsources, hapart, hq⟩ := hT.loops_close (A := [])
  rw [List.nil_append] at hq
  have hp : p.chain h = h :: B := hT.toLayout.chain_eq (A := [])
  have hqh : q.chain h = h :: visits.map Move.target := hq.toLayout.chain_eq (A := [])
  refine ⟨visits, q, _, ⟨⟨last, hloop⟩, fun g => ?_, ?_, ?_, fun g hg hgh => ?_, hapart⟩, hq⟩
  · -- the root of the chain is where it was
    rw [Bool.eq_iff_iff, hq.isHandle_iff, hT.isHandle_iff]
    simp only [List.mem_cons, exists_eq_or_imp, List.head?_cons]
  · rw [hp, hsources, List.tail_cons]
  · rw [hqh, List.tail_cons]
  · refine (hT.chain_kept hq hg fun L hL hLg => ?_).2
    rcases List.mem_cons.mp hL with rfl | hLT
    · exact absurd (Option.some.inj hLg).symm hgh
    · exact List.mem_cons_of_mem _ hLT

/-- Only the chains of handles are in a log. -/
theorem Passed.isHandle_of_mem {heads : List (Fin n)} {log : List (Fin n × List (Move n))}
    {entry : Fin n × List (Move n)} (h : Passed heads p q log) (he : entry ∈ log) :
    entry.1 ∈ heads ∧ p.isHandle entry.1 = true := by
  have hm : entry.1 ∈ log.map Prod.fst := List.mem_map_of_mem he
  rwa [h.heads_eq, List.mem_filter] at hm

/-- Running along one chain and then passing over the others. -/
theorem ClosedUp.passed {r : Pool n} {heads : List (Fin n)} {visits : List (Move n)}
    {log : List (Fin n × List (Move n))} {T : List (List (Fin n))} (hc : p.Chained S)
    (hr : r.Chained T) (hh : p.isHandle h = true) (hheads : h ∉ heads) (h₁ : ClosedUp h p r visits)
    (h₂ : Passed heads r q log) : Passed (h :: heads) p q ((h, visits) :: log) := by
  -- a chain that comes up later has not been touched by the first loop
  have hlater : ∀ entry ∈ log, p.isHandle entry.1 = true ∧ entry.1 ≠ h := by
    intro entry he
    obtain ⟨hmem, hg⟩ := h₂.isHandle_of_mem he
    exact ⟨(h₁.handle_eq entry.1).symm.trans hg, fun hne => hheads (hne ▸ hmem)⟩
  have hhr : r.isHandle h = true := (h₁.handle_eq h).trans hh
  refine
    { passes := ?passes
      handle_eq := fun g => (h₂.handle_eq g).trans (h₁.handle_eq g)
      heads_eq := ?heads
      visits := ?visits
      others := ?others
      apart := ?apart }
  case passes =>
    obtain ⟨last, hloop⟩ := h₁.loop
    exact .chain hh hloop h₂.passes
  case heads =>
    rw [List.map_cons, h₂.heads_eq, List.filter_cons_of_pos hh]
    exact congrArg (h :: ·) (List.filter_congr fun g _ => h₁.handle_eq g)
  case visits =>
    intro entry he
    rcases List.mem_cons.mp he with rfl | he
    · exact ⟨h₁.sources, h₁.targets.trans (congrArg List.tail (h₂.others h hhr hheads).symm)⟩
    · obtain ⟨hg, hgh⟩ := hlater entry he
      obtain ⟨hsources, htargets⟩ := h₂.visits entry he
      exact ⟨hsources.trans (congrArg List.tail (h₁.others _ hg hgh)), htargets⟩
  case others =>
    intro g hg hgm
    have hgh : g ≠ h := List.ne_of_not_mem_cons hgm
    have hgheads : g ∉ heads := List.not_mem_of_not_mem_cons hgm
    exact (h₂.others g ((h₁.handle_eq g).trans hg) hgheads).trans (h₁.others g hg hgh)
  case apart =>
    rw [visitsOf_cons, List.pairwise_append]
    refine ⟨h₁.apart, h₂.apart, fun first hfirst second hsecond => ?_⟩
    -- visits to different chains are visits to different nodes
    obtain ⟨entry, he, hsecond⟩ := List.mem_flatMap.mp hsecond
    obtain ⟨hg, hgh⟩ := hlater entry he
    have hgr := (h₁.handle_eq entry.1).trans hg
    have hsecond : second.source ∈ r.chain entry.1 := by
      refine List.mem_of_mem_tail ?_
      rw [← (h₂.visits entry he).1]
      exact List.mem_map_of_mem hsecond
    have hsource : first.source ∈ p.chain h :=
      List.mem_of_mem_tail (h₁.sources ▸ List.mem_map_of_mem hfirst)
    have htarget : first.target ∈ r.chain h :=
      List.mem_of_mem_tail (h₁.targets ▸ List.mem_map_of_mem hfirst)
    refine ⟨hc.ne_of_mem_chains hh hg hgh.symm hsource ?_,
      hr.ne_of_mem_chains hhr hgr hgh.symm htarget hsecond⟩
    exact h₁.others entry.1 hg hgh ▸ hsecond

/-- **A pass runs along each chain once.** That the slots left behind by one chain are taken by
another, and that members lie elsewhere when the pass comes to their positions, does no harm,
because the handles stay where they are and a loop keeps to its own chain. -/
theorem Chained.passed : ∀ {heads : List (Fin n)} {p : Pool n} {S : List (List (Fin n))},
    heads.Nodup → p.Chained S → ∃ log q, Passed heads p q log := by
  intro heads
  -- over the nodes that are still to be tried as heads of chains
  induction heads with
  | nil =>
    intro p S _ _
    exact ⟨[], p, .done, fun _ => rfl, rfl, fun _ he => absurd he List.not_mem_nil,
      fun _ _ _ => rfl, List.Pairwise.nil⟩
  | cons h heads ih =>
    intro p S hnd hc
    obtain ⟨hh, hnd⟩ := List.nodup_cons.mp hnd
    cases hhandle : p.isHandle h with
    -- not a handle: the pass goes on to the next node
    | false =>
      obtain ⟨log, q, hpassed⟩ := ih hnd hc
      have hskip : ¬p.isHandle h = true := by
        rw [hhandle]
        exact Bool.false_ne_true
      exact ⟨log, q,
        { hpassed with
          passes := .skip hhandle hpassed.passes
          heads_eq := hpassed.heads_eq.trans (List.filter_cons_of_neg hskip).symm
          others := fun g hg hgm => hpassed.others g hg (List.not_mem_of_not_mem_cons hgm) }⟩
    -- a handle: its chain is closed up, and the rest is done with what that has left
    | true =>
      obtain ⟨visits, r, T, hclosed, hr⟩ := hc.closedUp hhandle
      obtain ⟨log, q, hpassed⟩ := ih hnd hr
      exact ⟨(h, visits) :: log, q, hclosed.passed hc hr hhandle hh hpassed⟩

/-- A log of passes gives the result of the outer loop, moves included. -/
theorem foldl_closeBreaksAt_of_passes {heads : List (Fin n)}
    {log : List (Fin n × List (Move n))} (h : Passes heads p log q)
    (hlog : ∀ entry ∈ log, entry.2.length ≤ n) : ∀ moves : List (Move n),
    heads.foldl closeBreaksAt (p, moves)
      = (q, ((visitsOf log).filter Move.leaves).reverse ++ moves) := by
  -- by the passes of the log; the moves of a later one are put in front
  induction h with
  | done => exact fun _ => rfl
  | @skip i heads p q log hi rest ih =>
    intro moves
    have hskip : closeBreaksAt (p, moves) i = (p, moves) :=
      if_neg (by rw [hi]; exact Bool.false_ne_true)
    rw [List.foldl_cons, hskip]
    exact ih hlog moves
  | @chain i last heads p r q visits log hi loop rest ih =>
    intro moves
    have hstep : closeBreaksAt (p, moves) i = closeBreaks n i p moves := if_pos hi
    have hloop := closeBreaks_of_loops loop moves (hlog _ List.mem_cons_self)
    dsimp only at hloop
    rw [List.foldl_cons, hstep, hloop, ih fun entry he => hlog entry (List.mem_cons_of_mem _ he),
      visitsOf_cons, List.filter_append, List.reverse_append, List.append_assoc]

/-- **Defragmentation is such a pass** over all positions. It records the visits that took a node
elsewhere. -/
theorem Chained.defrag_passed (hc : p.Chained S) :
    ∃ log, Passed (List.finRange n) p p.defrag.1 log ∧
      p.defrag.2 = (visitsOf log).filter Move.leaves := by
  obtain ⟨log, q, hpassed⟩ := hc.passed (List.nodup_finRange n)
  -- a chain has no more members than the pool has nodes, so the fuel suffices
  have hlength : ∀ entry ∈ log, entry.2.length ≤ n := by
    intro entry he
    have hsources := congrArg List.length (hpassed.visits entry he).1
    rw [List.length_map, List.length_tail] at hsources
    have hle := hc.length_chain_le (hpassed.isHandle_of_mem he).2
    omega
  have hfold := foldl_closeBreaksAt_of_passes hpassed.passes hlength []
  have hdefrag : p.defrag = (q, (visitsOf log).filter Move.leaves) := by
    rw [Pool.defrag, hfold]
    dsimp only
    rw [List.append_nil, List.reverse_reverse]
  exact ⟨log, by rwa [hdefrag], by rw [hdefrag]⟩

end Passing

/-! ### All loops -/

/-- **The loops along the chains of a pool.**
* From any node of a chain a walk visits what is left of the chain. That is all of it from the root,
  and all of it are the nodes with this root.
* When a chain gets a new root, by a node put in before the first or by the first taken out, the
  walk that gives its members the root visits them all.
* Freeing visits the members of a chain and counts them.
* Closing breaks along a chain visits the members behind the root and leaves each at its target.
* Defragmentation does that for all chains in the order of their handles. None of the nodes it moves
  is a root, and none is moved again from where it was or where it has been taken. -/
structure LoopsEnd (p : Pool n) : Prop where
  walks : ∀ i, (p.node i).isAllocated = true → p.Walks i (p.chain i) ∧
    p.chain i <:+ p.chain (p.rootOf i) ∧ p.FullChain (p.rootOf i) (p.chain (p.rootOf i))
  rerooted_insert : ∀ i new, (p.node i).isAllocated = true → (p.node i).prev = none →
    p.firstFree = some new →
      p.insertBefore new i = ((p.claimBeside new i).link new i).reroot new ∧
      ((p.claimBeside new i).link new i).Walks new (new :: p.chain i)
  rerooted_remove : ∀ i b, (p.node i).isAllocated = true → (p.node i).prev = none →
    (p.node i).next = some b →
      p.remove i = ((p.unlink i b).release i).reroot b ∧
      ((p.unlink i b).release i).Walks b (p.chain i).tail
  releases : ∀ h, p.isHandle h = true → ∃ q, Loops releaseStep (some h, p) (p.chain h) (none, q) ∧
    p.releaseChain h = ((p.chain h).length, q)
  closes : ∀ h, p.isHandle h = true → ∃ visits q, ClosedUp h p q visits ∧
    closeBreaks n h p [] = (q, (visits.filter Move.leaves).reverse)
  passes : ∃ log, Passed (List.finRange n) p p.defrag.1 log ∧
    p.defrag.2 = (visitsOf log).filter Move.leaves
  moves_apart : p.defrag.2.Pairwise Move.Apart
  moves_members : ∀ move ∈ p.defrag.2, p.isHandle move.source = false

section All

variable {p : Pool n} {S : List (List (Fin n))} {i new b h : Fin n}

/-- A walk from a node goes through the rest of its chain, and from the root through all of it. -/
theorem Chained.walks_chain (hc : p.Chained S) (hi : (p.node i).isAllocated = true) :
    p.Walks i (p.chain i) ∧ p.chain i <:+ p.chain (p.rootOf i) ∧
      p.FullChain (p.rootOf i) (p.chain (p.rootOf i)) := by
  obtain ⟨A, B, T, -, hT⟩ := hc.exists_focus hi
  obtain ⟨r, hr⟩ := exists_head_of_mem (show i ∈ A ++ i :: B by simp)
  have hroot : p.rootOf i = r := hT.rootOf_eq (by simp) hr
  have hhandle : p.isHandle r = true := hT.isHandle_iff.mpr ⟨_, List.mem_cons_self, hr⟩
  have hchain : p.chain r = A ++ i :: B := hT.chain_eq_of_mem List.mem_cons_self hr
  rw [hroot]
  refine ⟨?_, ?_, hT.fullChain hhandle⟩
  · -- the walk from the node
    rw [hT.toLayout.chain_eq]
    exact hT.toLayout.walks
  · -- what it visits is an end of the chain
    rw [hT.toLayout.chain_eq, hchain]
    exact List.suffix_append A (i :: B)

/-- The first node of a chain stands in front of all others. -/
theorem Chained.exists_first (hc : p.Chained S) (hi : (p.node i).isAllocated = true)
    (hprev : (p.node i).prev = none) : ∃ B T, p.Chained ((i :: B) :: T) := by
  obtain ⟨A, B, T, -, hT⟩ := hc.exists_focus hi
  obtain rfl : A = [] := List.getLast?_eq_none_iff.mp (hT.prev_eq.symm.trans hprev)
  exact ⟨B, T, hT⟩

/-- Putting a node in front of a head gives the new root to the members of the longer chain. -/
theorem Chained.walks_inserted (hc : p.Chained S) (hi : (p.node i).isAllocated = true)
    (hprev : (p.node i).prev = none) (hnew : p.firstFree = some new) :
    p.insertBefore new i = ((p.claimBeside new i).link new i).reroot new ∧
      ((p.claimBeside new i).link new i).Walks new (new :: p.chain i) := by
  obtain ⟨B, T, hT⟩ := hc.exists_first hi hprev
  have hput := hT.toLayout.putBefore (A := []) hnew
  unfold putBefore at hput
  rw [hprev] at hput
  refine ⟨?_, ?_⟩
  · rw [Pool.insertBefore, hprev]
  · rw [hT.toLayout.chain_eq (A := [])]
    exact hput.walks (A := [])

/-- Removing a head gives the new root to the members that are left. -/
theorem Chained.walks_removed (hc : p.Chained S) (hi : (p.node i).isAllocated = true)
    (hprev : (p.node i).prev = none) (hnext : (p.node i).next = some b) :
    p.remove i = ((p.unlink i b).release i).reroot b ∧
      ((p.unlink i b).release i).Walks b (p.chain i).tail := by
  obtain ⟨B, T, hT⟩ := hc.exists_first hi hprev
  obtain ⟨B, rfl⟩ : ∃ C, B = b :: C :=
    List.head?_eq_some_iff.mp ((hT.next_eq (A := [])).symm.trans hnext)
  refine ⟨?_, ?_⟩
  · rw [Pool.remove, hprev, hnext]
    rfl
  · rw [hT.toLayout.chain_eq (A := []), List.tail_cons]
    exact ((hT.toLayout.unlink (A := [])).release).walks (A := [])

/-- Freeing a chain visits its members and stops behind the last. -/
theorem Chained.loops_releaseChain (hc : p.Chained S) (hh : p.isHandle h = true) :
    ∃ q, Loops releaseStep (some h, p) (p.chain h) (none, q) ∧
      p.releaseChain h = ((p.chain h).length, q) := by
  have hlen := hc.length_chain_le hh
  obtain ⟨B, T, -, hT⟩ := hc.exists_handle hh
  rw [hT.toLayout.chain_eq (A := [])] at hlen ⊢
  obtain ⟨q, hloop, -⟩ := hT.toLayout.loops_release
  exact ⟨q, hloop, releaseFrom_of_loops hloop rfl hlen⟩

/-- Closing the breaks of a chain is a loop that ends. -/
theorem Chained.closeBreaks_eq (hc : p.Chained S) (hh : p.isHandle h = true) :
    ∃ visits q, ClosedUp h p q visits ∧
      Pool.closeBreaks n h p [] = (q, (visits.filter Move.leaves).reverse) := by
  obtain ⟨visits, q, T, hclosed, -⟩ := hc.closedUp hh
  obtain ⟨last, hloop⟩ := hclosed.loop
  have hlength := congrArg List.length hclosed.sources
  rw [List.length_map, List.length_tail] at hlength
  have hle := hc.length_chain_le hh
  have hfuel : Pool.closeBreaks n h p [] = _ := closeBreaks_of_loops hloop [] (by omega)
  rw [List.append_nil] at hfuel
  exact ⟨visits, q, hclosed, hfuel⟩

/-- **The loops end**, and they visit what they should, in every pool that is made of chains. -/
theorem Chained.loopsEnd (hc : p.Chained S) : p.LoopsEnd := by
  obtain ⟨log, hpassed, hmoves⟩ := hc.defrag_passed
  refine
    { walks := fun i => hc.walks_chain
      rerooted_insert := fun i new => hc.walks_inserted
      rerooted_remove := fun i b => hc.walks_removed
      releases := fun h => hc.loops_releaseChain
      closes := fun h => hc.closeBreaks_eq
      passes := ⟨log, hpassed, hmoves⟩
      moves_apart := hmoves ▸ hpassed.apart.filter _
      moves_members := fun move hm => ?_ }
  -- what is moved has been visited, and only members behind the root are
  rw [hmoves] at hm
  obtain ⟨entry, he, hm⟩ := List.mem_flatMap.mp (List.mem_filter.mp hm).1
  refine hc.isHandle_of_mem_tail (hpassed.isHandle_of_mem he).2 ?_
  rw [← (hpassed.visits entry he).1]
  exact List.mem_map_of_mem hm

end All

end Pool

end Machine6809
