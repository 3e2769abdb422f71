import Machine6809.Memory.Ram
import Machine6809.Proofs.Machine.Agreement
import Machine6809.Proofs.Machine.Events
import Mathlib.Data.List.Induction
import Mathlib.Data.Nat.Bitwise
import Mathlib.Data.Nat.Notation

/-!
# The visited addresses

The map of visited addresses has eight marks in a byte. A mark is one bit
(`VisitedMap.isMarked_eq`), and an address is known by its byte and its bit there, so to mark one
address says nothing of any other (`VisitedMap.isMarked_mark`).

The processor marks an address at one place only: after the opcode has been found in the opcode map
and before the operand is located. All other actions leave the map alone (`frame_visited`). So an
event adds the address of the instruction that it starts, whether or not that instruction then
fails, and nothing if it starts none (`visited_happen`). Over a run the map has the addresses at
which instructions were started or that were marked from outside since the marks were last cleared
(`visited_exactly`).
-/

namespace Machine6809

/-! ### Marks -/

namespace VisitedMap

/-- The bit of an address in its byte of the map. -/
theorem toNat_bit (address : Word) : (bit address).toNat = 2 ^ (address.toNat % 8) := by
  have low : (address &&& 7).toNat = address.toNat % 8 :=
    Nat.and_two_pow_sub_one_eq_mod address.toNat 3
  have bound : address.toNat % 8 < 8 := Nat.mod_lt _ (by decide)
  -- a shift by an address's last three bits stays within the byte
  have shift : (address &&& 7).toUInt8.toNat % 8 = address.toNat % 8 := by
    rw [UInt16.toNat_toUInt8, low]
    omega
  rw [bit, UInt8.toNat_shiftLeft, shift]
  show 1 <<< (address.toNat % 8) % 2 ^ 8 = 2 ^ (address.toNat % 8)
  rw [Nat.one_shiftLeft]
  exact Nat.mod_eq_of_lt (Nat.pow_lt_pow_right (by decide) bound)

/-- The mark of an address is one bit of its byte. -/
theorem isMarked_eq (map : VisitedMap) (address : Word) :
    map.isMarked address = bitOf (map.bytes.get (place address)) (address.toNat % 8) := by
  have masked (byte : Byte) :
      byte &&& bit address ≠ 0 ↔ bitOf byte (address.toNat % 8) = true := by
    rw [ne_eq, ← UInt8.toNat_inj, UInt8.toNat_and, toNat_bit, Nat.and_two_pow, bitOf]
    cases byte.toNat.testBit (address.toNat % 8) <;> simp
  rw [isMarked, Bool.eq_iff_iff, bne_iff_ne, masked]

/-- At first nothing is marked. -/
theorem isMarked_empty (address : Word) : empty.isMarked address = false := by
  have blank : empty.bytes.get (place address) = 0 := Vector.getElem_replicate _
  rw [isMarked_eq, blank]
  exact Nat.zero_testBit _

/-- Addresses with the same byte and the same bit in it are the same. -/
theorem address_ext {a b : Word} (byte : place a = place b)
    (bit : a.toNat % 8 = b.toNat % 8) : a = b := by
  have eighth (address : Word) : (place address).val = address.toNat / 8 := by
    simp [place, Nat.shiftRight_eq_div_pow]
  have quotient := congrArg Fin.val byte
  rw [eighth, eighth] at quotient
  apply UInt16.toNat_inj.mp
  omega

/-- No address shares its mark with another. -/
theorem isMarked_mark (map : VisitedMap) (a b : Word) :
    (map.mark a).isMarked b = true ↔ b = a ∨ map.isMarked b = true := by
  rw [isMarked_eq, isMarked_eq]
  by_cases byte : place b = place a
  case pos =>
    -- the same byte: the bit is the new one or it was there before
    have marked : (map.mark a).bytes.get (place b) = map.bytes.get (place b) ||| bit a := by
      rw [byte]
      exact Vector.getElem_set_self _
    have same : a.toNat % 8 = b.toNat % 8 ↔ b = a :=
      ⟨fun bit => address_ext byte bit.symm, fun h => h ▸ rfl⟩
    rw [marked, bitOf, UInt8.toNat_or, Nat.testBit_or, Bool.or_eq_true, toNat_bit,
      Nat.testBit_two_pow, decide_eq_true_iff, same, or_comm]
    rfl
  case neg =>
    have kept : (map.mark a).bytes.get (place b) = map.bytes.get (place b) :=
      Vector.getElem_set_ne (place a).isLt (place b).isLt fun h => byte (Fin.ext h.symm)
    have other : b ≠ a := fun h => byte (congrArg place h)
    rw [kept, or_iff_right other]

end VisitedMap

/-! ### What happens to a machine and its map -/

/-- What can happen to a machine whose visited addresses are recorded. -/
inductive Occurrence where
  | event (e : Event)
  /-- An observer marks an address. -/
  | mark (address : Word)
  /-- An observer takes all marks off. -/
  | clear

namespace Machine

variable {μ : Type} [Memory μ]

/-- The machine after something has happened to it or to its map. -/
def occur (m : Machine μ) : Occurrence → Machine μ
  | .event e => m.happen e
  | .mark address => { m with cpu := m.cpu.visit address }
  | .clear => { m with cpu := m.cpu.clearVisited }

/-- The machine after many things have happened one after the other. -/
def undergo (m : Machine μ) (occurrences : List Occurrence) : Machine μ := occurrences.foldl occur m

/-- One occurrence more. -/
theorem undergo_concat (m : Machine μ) (os : List Occurrence) (o : Occurrence) :
    m.undergo (os ++ [o]) = (m.undergo os).occur o :=
  List.foldl_append

/-- The opcode at PC has a row. -/
def Known (m : Machine μ) : Prop := OpcodeMap.lookup? (m.gives fetchOpcode).1 ≠ none

/-- What happens starts an instruction at the address: the machine gets to work and neither enters
an interrupt nor idles, PC is at the address once the posted writes are adopted, and the opcode
there has a row. What becomes of the instruction afterwards does not matter. -/
structure Starts (m : Machine μ) (e : Event) (address : Word) : Prop where
  works : m.Works e
  executes : m.started.Executes
  pc : m.started.cpu.registers.pc = address
  known : m.started.awake.Known

/-- What happens sets the mark of the address. -/
def Marks (m : Machine μ) : Occurrence → Word → Prop
  | .event e, address => m.Starts e address
  | .mark marked, address => address = marked
  | .clear, _ => False

/-! ### One event -/

section Event

variable {m : Machine μ} {e : Event}

/-- Whatever an action does besides visiting, it leaves the map alone. -/
theorem frame_visited (map : Option VisitedMap) : Frame (Kept (μ := μ) Cpu.visited map) :=
  frame_kept (fun _ signal => by cases signal <;> rfl) (fun _ plain => plain.visited) map

/-- An opcode without an instruction is not marked. -/
theorem visited_executeNext_of_unknown (h : ¬m.Known) :
    (m.after executeNext).cpu.visited = m.cpu.visited := by
  rw [(executeNext_of_unknown (not_not.mp h)).2]
  exact (frame_visited m.cpu.visited).fetchOpcode.kept m

/-- The mark is set between the opcode and the operand, so it does not matter whether the operand
can be located. -/
theorem visited_executeNext_of_known (h : m.Known) :
    (m.after executeNext).cpu.visited = m.cpu.visited.map (·.mark m.cpu.registers.pc) := by
  obtain ⟨row, lookup⟩ := Option.ne_none_iff_exists'.mp h
  have fetched : (m.after fetchOpcode).cpu.visited = m.cpu.visited :=
    (frame_visited m.cpu.visited).fetchOpcode.kept m
  have opened : m.opened.cpu.visited = m.cpu.visited.map (·.mark m.cpu.registers.pc) := by
    show (m.after fetchOpcode).cpu.visited.map _ = _
    rw [fetched]
  -- after the mark nothing in the instruction looks at the map
  have rest : Agree (Kept Cpu.visited m.opened.cpu.visited)
      (executeRow row m.cpu.registers.pc (m.gives fetchOpcode).2)
      (executeRow (μ := μ) row m.cpu.registers.pc (m.gives fetchOpcode).2) :=
    (frame_visited _).executeRow (fun _ _ => agree_kept fun _ => rfl) _ _
  rw [(executeNext_of_row lookup).2, rest.kept m.opened, opened]

/-- To enter an interrupt or to idle marks nothing. -/
theorem visited_work_of_not_executes (h : ¬m.Executes) :
    (m.after work).cpu.visited = m.cpu.visited := by
  -- entering an interrupt marks nothing
  have enters (source : InterruptSource) (stacked : Bool) :
      (m.awake.after (enterInterrupt source stacked)).cpu.visited = m.cpu.visited :=
    ((frame_visited _).enterInterrupt (fun _ => agree_kept fun _ => rfl) stacked).kept m.awake
  cases accepted : m.cpu.lines.accepted m.cpu.registers.cc with
  | some source =>
    by_cases wait : m.cpu.wait = .cwai
    · rw [(work_of_wake wait accepted).1, enters]
    · rw [(work_of_accepted wait accepted).1, enters]
  | none => rw [(work_of_idle accepted h).1]

/-- What an event does to the map is done by the work that it starts. -/
theorem visited_of_works (h : m.Works e) :
    (m.happen e).cpu.visited = (m.started.after work).cpu.visited := by
  obtain hfailed | ⟨used, hdone⟩ := happen_of_works h
  · rw [hfailed]
    rfl
  · rw [hdone]
    rfl

/-- An event that does not make the machine work marks nothing: the lines are driven, a write is
posted, the machine counts down or is reset. -/
theorem visited_of_not_works (h : ¬m.Works e) : (m.happen e).cpu.visited = m.cpu.visited := by
  cases e with
  | write w | nmi asserted | firq asserted | irq asserted => rfl
  | tick =>
    rw [happen_tick_of_not_works h]
    rfl
  | step => exact absurd trivial h
  -- a reset restarts the processor, and the map stays
  | reset =>
    have restart : Agree (Kept Cpu.visited m.cpu.visited) restart (restart : Exec μ Unit) :=
      ((frame_visited _).modifyRegisters _).bind fun _ => (frame_visited _).gotoVector _
    rw [happen, after_reset]
    exact restart.kept m

/-- An event marks the address of the instruction that it starts. -/
theorem visited_of_starts {address : Word} (h : m.Starts e address) :
    (m.happen e).cpu.visited = m.cpu.visited.map (·.mark address) := by
  rw [visited_of_works h.works, (work_of_executes h.executes).1,
    visited_executeNext_of_known h.known, ← h.pc]
  rfl

/-- An event that starts no instruction marks nothing. -/
theorem visited_of_not_starts (h : ∀ address, ¬m.Starts e address) :
    (m.happen e).cpu.visited = m.cpu.visited := by
  by_cases works : m.Works e
  · rw [visited_of_works works]
    by_cases executes : m.started.Executes
    · have unknown : ¬m.started.awake.Known := fun known => h _ ⟨works, executes, rfl, known⟩
      rw [(work_of_executes executes).1, visited_executeNext_of_unknown unknown]
      rfl
    · exact visited_work_of_not_executes executes
  · exact visited_of_not_works works

end Event

/-! ### Runs -/

section Runs

variable {m : Machine μ} {map : VisitedMap} {o : Occurrence} {os : List Occurrence}

/-- After an occurrence an address has a mark if the occurrence sets it, or if it had one before
that was not cleared. -/
theorem exists_visited_occur (h : m.cpu.visited = some map) (o : Occurrence) :
    ∃ map', (m.occur o).cpu.visited = some map' ∧ ∀ address, map'.isMarked address = true ↔
      m.Marks o address ∨ o ≠ .clear ∧ map.isMarked address = true := by
  cases o with
  | event e =>
    by_cases starts : ∃ start, m.Starts e start
    · -- an instruction starts, and its start is marked
      obtain ⟨start, hstart⟩ := starts
      refine ⟨map.mark start, ?_, fun address => ?_⟩
      · rw [occur, visited_of_starts hstart, h]
        rfl
      · -- an event starts one instruction at most
        have same : m.Starts e address ↔ address = start :=
          ⟨fun h => h.pc.symm.trans hstart.pc, fun h => h ▸ hstart⟩
        simp [VisitedMap.isMarked_mark, Marks, same]
    · -- nothing starts
      refine ⟨map, ?_, fun address => ?_⟩
      · rw [occur, visited_of_not_starts (not_exists.mp starts), h]
      · have none : ¬m.Starts e address := fun h => starts ⟨address, h⟩
        simp [Marks, none]
  | mark marked =>
    refine ⟨map.mark marked, ?_, fun address => ?_⟩
    · show m.cpu.visited.map _ = _
      rw [h]
      rfl
    · simp [VisitedMap.isMarked_mark, Marks]
  | clear =>
    refine ⟨.empty, ?_, fun address => ?_⟩
    · show m.cpu.visited.map _ = _
      rw [h]
      rfl
    · simp [VisitedMap.isMarked_empty, Marks]

/-- Something has set the mark of the address, and the marks have not been cleared since then. -/
def Marked (m : Machine μ) (os : List Occurrence) (address : Word) : Prop :=
  ∃ before o after, os = before ++ o :: after ∧ (m.undergo before).Marks o address ∧
    Occurrence.clear ∉ after

/-- Without occurrences nothing has been marked. -/
theorem not_marked_nil (address : Word) : ¬m.Marked [] address := by
  rintro ⟨before, o, after, h, -⟩
  exact absurd h (by simp)

/-- An address is marked by the last occurrence, or it was marked before and has not been cleared.
-/
theorem marked_concat_iff (address : Word) : m.Marked (os ++ [o]) address ↔
    (m.undergo os).Marks o address ∨ o ≠ .clear ∧ m.Marked os address := by
  constructor
  · rintro ⟨before, first, after, h, marks, uncleared⟩
    -- either it is the last occurrence that has set the mark, or one before it
    obtain rfl | ⟨after, last, rfl⟩ := after.eq_nil_or_concat
    · obtain ⟨rfl, hlast⟩ := List.append_inj' h rfl
      obtain ⟨rfl, -⟩ := List.cons.inj hlast
      exact .inl marks
    · rw [List.concat_eq_append, ← List.cons_append, ← List.append_assoc] at h
      obtain ⟨rfl, hlast⟩ := List.append_inj' h rfl
      obtain ⟨rfl, -⟩ := List.cons.inj hlast
      rw [List.concat_eq_append, List.mem_append, List.mem_singleton, not_or] at uncleared
      exact .inr ⟨Ne.symm uncleared.2, before, first, after, rfl, marks, uncleared.1⟩
  · rintro (marks | ⟨kept, before, first, after, rfl, marks, uncleared⟩)
    · exact ⟨os, o, [], rfl, marks, List.not_mem_nil⟩
    · refine ⟨before, first, after ++ [o], by simp, marks, ?_⟩
      rw [List.mem_append, List.mem_singleton, not_or]
      exact ⟨uncleared, Ne.symm kept⟩

/-- The marks after a run are those that the run has set and not cleared, and those from before as
long as the run has cleared none. -/
theorem exists_visited_undergo (h : m.cpu.visited = some map) (os : List Occurrence) :
    ∃ map', (m.undergo os).cpu.visited = some map' ∧ ∀ address, map'.isMarked address = true ↔
      m.Marked os address ∨ Occurrence.clear ∉ os ∧ map.isMarked address = true := by
  -- over the occurrences, the last one at the end
  induction os using List.reverseRecOn with
  | nil =>
    refine ⟨map, h, fun address => ?_⟩
    simp [not_marked_nil]
  | append_singleton os o ih =>
    obtain ⟨between, hbetween, marks⟩ := ih
    obtain ⟨map', hmap', marks'⟩ := exists_visited_occur hbetween o
    refine ⟨map', undergo_concat m os o ▸ hmap', fun address => ?_⟩
    rw [marks', marks, marked_concat_iff, List.mem_append, List.mem_singleton, not_or, ne_comm]
    tauto

/-- **The visited addresses are the instruction starts.** However the machine runs, whatever its
memory holds or does, and whatever observers do to the map, an address has a mark exactly if an
instruction whose opcode has a row was started at it, or it was marked explicitly, and the marks
have not been cleared since then, or if it had one to begin with and they have never been cleared.
An instruction that is started and then has no operand counts as well. An event that does not get
the machine to work adds nothing, and neither does work that enters an interrupt, idles or finds an
opcode without a row. No address shares its mark with another. -/
theorem visited_exactly (h : m.cpu.visited = some map) :
    (∀ os, ∃ map', (m.undergo os).cpu.visited = some map' ∧ ∀ address,
        map'.isMarked address = true ↔
          m.Marked os address ∨ Occurrence.clear ∉ os ∧ map.isMarked address = true) ∧
      (∀ (n : Machine μ) e, ¬n.Works e ∨ ¬n.started.Executes ∨ ¬n.started.awake.Known →
        (n.happen e).cpu.visited = n.cpu.visited) ∧
      (∀ (map : VisitedMap) a b,
        (map.mark a).isMarked b = true ↔ b = a ∨ map.isMarked b = true) ∧
      ∀ address, VisitedMap.empty.isMarked address = false := by
  refine ⟨exists_visited_undergo h, fun n e nothing => ?_, VisitedMap.isMarked_mark,
    VisitedMap.isMarked_empty⟩
  refine visited_of_not_starts fun address starts => ?_
  obtain works | executes | known := nothing
  · exact works starts.works
  · exact executes starts.executes
  · exact known starts.known

/-- A machine with no address visited, about to execute an indexed LDA whose postbyte has no
meaning. -/
def visiting : Machine Ram :=
  let m := ofMemory { contents := #[0xA6, 0x87] }
  { m with cpu := { m.cpu with visited := some .empty } }

/-- The step fails, but the instruction has been started. The byte after its opcode is not a
start. -/
theorem visited_exactly_visiting :
    visiting.step.1 = .error (.invalidPostbyte 0x87 0) ∧
      ∃ map, (visiting.undergo [.event .step]).cpu.visited = some map ∧
        map.isMarked 0 = true ∧ ¬map.isMarked 1 = true := by
  obtain ⟨map, hmap, marks⟩ := (visited_exactly (m := visiting) rfl).1 [.event .step]
  have starts : visiting.Starts .step 0 := ⟨trivial, ⟨rfl, .inl rfl⟩, rfl, nofun⟩
  refine ⟨rfl, map, hmap, ?start, ?operand⟩
  case start =>
    rw [marks]
    exact .inl ⟨[], .event .step, [], rfl, starts, List.not_mem_nil⟩
  case operand =>
    rw [marks, VisitedMap.isMarked_empty, ← List.nil_append [Occurrence.event .step],
      marked_concat_iff]
    -- marked by the step, marked before, or marked from the beginning
    rintro ((other | ⟨-, before⟩) | ⟨-, h⟩)
    · exact absurd (other.pc.symm.trans starts.pc) (by decide)
    · exact not_marked_nil 1 before
    · exact nomatch h

end Runs

end Machine

end Machine6809
