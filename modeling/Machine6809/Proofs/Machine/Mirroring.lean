import Machine6809.Proofs.Cpu.Forms
import Machine6809.Proofs.Machine.Faulting
import Machine6809.Proofs.Machine.Simulation
import Mathlib.Data.Nat.Notation

/-!
# Two machines with A and B exchanged

A machine executes an operation of A, and another one, in which A and B are exchanged, the same
operation of B. The two opcodes differ, so the memories differ at the address of the opcode, and
they answer alike as long as nobody looks there again (`AnsweringOff`). Whether someone does is seen
by watching the first machine (`Machine.Touched`). Unless it happens, the second machine gives what
the first one gives, with A and B exchanged where these are given, and remains the mirror image of
it. That is `Machine.Tracks`, and it is put together like the actions are.

The offset of an indexed operand can be taken from an accumulator. Then the two machines look at
different addresses, so these postbytes are excluded.
-/

namespace Machine6809

/-! ### Memories that differ in one byte -/

/-- Memories that are related by `S` answer alike, but that they may give different bytes at one
address. There they need not take stores alike. -/
structure AnsweringOff {μ ν : Type} [Memory μ] [Memory ν] (start : Word) (S : μ → ν → Prop) :
    Prop where
  load : ∀ M N address, S M N →
    (address ≠ start → (Memory.load M address).value = (Memory.load N address).value) ∧
      writesOf (Memory.load M address).signals = writesOf (Memory.load N address).signals ∧
      S (Memory.load M address).memory (Memory.load N address).memory
  store : ∀ M N address value, S M N → address ≠ start →
    writesOf (Memory.store M address value).signals
        = writesOf (Memory.store N address value).signals ∧
      S (Memory.store M address value).memory (Memory.store N address value).memory

/-- The address of an access. -/
def MemoryAccess.address : MemoryAccess → Word
  | .load address | .store address _ => address

/-- But for their messages, the second processor is the first one with A and B exchanged, and the
memories are related. -/
def Mirrors {μ ν : Type} (S : μ → ν → Prop) (m : Machine μ) (n : Machine ν) : Prop :=
  n.cpu.silent = m.cpu.silent.exchanged ∧ S m.memory n.memory

/-- Posted writes change what they are posted to, whichever accumulator is which. -/
theorem exchanged_foldl_post (writes : List RegisterWrite) (cpu : Cpu) :
    writes.foldl Cpu.post cpu.exchanged = (writes.foldl Cpu.post cpu).exchanged :=
  List.foldl_hom Cpu.exchanged fun _ _ => rfl

section Mirrors

variable {μ ν : Type} {start : Word} {S : μ → ν → Prop} {m : Machine μ} {n : Machine ν}

open Machine

/-- The registers of the mirror image are exchanged. -/
theorem Mirrors.registers (h : Mirrors S m n) :
    n.cpu.registers = m.cpu.registers.exchanged :=
  congrArg Cpu.registers h.1

/-- Changes that mirror each other keep the mirror image. -/
theorem Mirrors.modify {f g : Cpu → Cpu} (h : Mirrors S m n)
    (hfg : n.cpu.silent = m.cpu.silent.exchanged →
      (g n.cpu).silent = (f m.cpu).silent.exchanged) :
    Mirrors S { m with cpu := f m.cpu } { n with cpu := g n.cpu } :=
  ⟨hfg h.1, h.2⟩

/-- Signals that post the same writes are absorbed alike. -/
theorem silent_absorb_exchanged {cpu cpu' : Cpu} {signals signals' : List Signal}
    (h : cpu'.silent = cpu.silent.exchanged) (writes : writesOf signals = writesOf signals') :
    (signals'.foldl Cpu.absorb cpu').silent = (signals.foldl Cpu.absorb cpu).silent.exchanged := by
  rw [silent_foldl_absorb, silent_foldl_absorb, h, ← writes, exchanged_foldl_post]

variable [Memory μ] [Memory ν]

/-- A load keeps it, and gives the same byte but at the one address. -/
theorem Mirrors.load (answering : AnsweringOff start S) (h : Mirrors S m n) (address : Word) :
    Mirrors S (m.after (load address)) (n.after (load address)) ∧
      (address ≠ start → m.gives (load address) = n.gives (load address)) := by
  obtain ⟨value, writes, after⟩ := answering.load m.memory n.memory address h.2
  exact ⟨⟨silent_absorb_exchanged h.1 writes, after⟩, value⟩

/-- So does a store elsewhere. -/
theorem Mirrors.store (answering : AnsweringOff start S) (h : Mirrors S m n) {address : Word}
    (off : address ≠ start) (value : Byte) :
    Mirrors S (m.after (store address value)) (n.after (store address value)) := by
  obtain ⟨writes, after⟩ := answering.store m.memory n.memory address value h.2 off
  exact ⟨silent_absorb_exchanged h.1 writes, after⟩

/-- Watching the first memory makes no difference. -/
theorem AnsweringOff.watched (answering : AnsweringOff start S) :
    AnsweringOff start fun (M : Watched μ) N => S M.memory N where
  load M N address h := answering.load M.memory N address h
  store M N address value h off := answering.store M.memory N address value h off

end Mirrors

namespace Machine

variable {μ ν : Type} {start : Word} {S : μ → ν → Prop}

/-! ### The byte that differs -/

/-- After the first access there has been another one to this address. -/
def Touched (start : Word) (w : Machine (Watched μ)) : Prop :=
  ∃ access ∈ w.memory.accesses.tail, access.address = start

section Touched

variable {w w' : Machine (Watched μ)} {access : MemoryAccess}

theorem Touched.append (h : w'.memory.accesses = w.memory.accesses ++ [access])
    (touched : Touched start w) : Touched start w' := by
  obtain ⟨earlier, mem, address⟩ := touched
  refine ⟨earlier, ?_, address⟩
  rw [h, List.tail_append_of_ne_nil fun empty => by simp [empty] at mem]
  exact List.mem_append_left _ mem

/-- An access after the first one touches the address that it goes to. -/
theorem touched_of_access (h : w'.memory.accesses = w.memory.accesses ++ [access])
    (begun : w.memory.accesses ≠ []) (address : access.address = start) : Touched start w' := by
  refine ⟨access, ?_, address⟩
  rw [h, List.tail_append_of_ne_nil begun]
  exact List.mem_append_right _ List.mem_cons_self

end Touched

/-- The second machine mirrors the first, which has begun to access memory. -/
structure Mirroring (S : μ → ν → Prop) (w : Machine (Watched μ)) (n : Machine ν) : Prop where
  begun : w.memory.accesses ≠ []
  mirrors : Mirrors (fun M N => S M.memory N) w n

/-- From `w` and `n` on, the second action follows the first: unless the byte that differs is
touched, it gives what the first gives, as `φ` translates it, and the second machine goes on to be
the mirror image. -/
structure Tracks {α β : Type} (start : Word) (S : μ → ν → Prop) (φ : α → β)
    (x : Exec (Watched μ) α) (y : Exec ν β) (w : Machine (Watched μ)) (n : Machine ν) : Prop where
  touched : Touched start w → Touched start (w.after x)
  mirrored : Mirroring S w n →
    Touched start (w.after x) ∨ n.gives y = φ (w.gives x) ∧ Mirroring S (w.after x) (n.after y)

/-- The second action follows the first one from anywhere. -/
def Follows {α β : Type} (start : Word) (S : μ → ν → Prop) (φ : α → β) (x : Exec (Watched μ) α)
    (y : Exec ν β) : Prop :=
  ∀ w n, Tracks start S φ x y w n

section Follows

variable {α α' β β' : Type} {φ : α → α'} {ψ : β → β'} {x : Exec (Watched μ) α} {y : Exec ν α'}
  {f : α → Exec (Watched μ) β} {g : α' → Exec ν β'} {w : Machine (Watched μ)} {n : Machine ν}

/-- Following goes on through two actions. -/
theorem Tracks.bind (hx : Tracks start S φ x y w n)
    (hf : Tracks start S ψ (f (w.gives x)) (g (φ (w.gives x))) (w.after x) (n.after y)) :
    Tracks start S ψ (x >>= f) (y >>= g) w n where
  touched h := hf.touched (hx.touched h)
  mirrored h := by
    -- what the first part has touched remains touched, and else the second part starts from mirrors
    obtain touched | ⟨gives, after⟩ := hx.mirrored h
    · exact .inl (hf.touched touched)
    · rw [after_bind, gives_bind, gives_bind, after_bind, gives]
      exact hf.mirrored after

/-- So it does from anywhere. -/
theorem Follows.bind (hx : Follows start S φ x y)
    (hf : ∀ a, Follows start S ψ (f a) (g (φ a))) : Follows start S ψ (x >>= f) (y >>= g) :=
  fun w n => (hx w n).bind (hf _ _ _)

theorem Follows.pure (a : α) : Follows start S φ (pure a) (pure (φ a)) :=
  fun _ _ => ⟨id, fun h => .inr ⟨rfl, h⟩⟩

theorem Follows.ite {x' : Exec (Watched μ) α} {y' : Exec ν α'} {c : Prop} [Decidable c]
    (hx : Follows start S φ x y) (hx' : Follows start S φ x' y') :
    Follows start S φ (if c then x else x') (if c then y else y') := by
  split_ifs
  · exact hx
  · exact hx'

/-- Changes that mirror each other follow each other. -/
theorem follows_modifyCpu {f g : Cpu → Cpu} (h : ∀ cpu cpu' : Cpu,
      cpu'.silent = cpu.silent.exchanged → (g cpu').silent = (f cpu).silent.exchanged) :
    Follows start S id (modifyCpu f) (modifyCpu g) :=
  fun w n => ⟨id, fun hm => .inr ⟨rfl, hm.begun, hm.mirrors.modify (h w.cpu n.cpu)⟩⟩

theorem follows_registers : Follows start S Registers.exchanged registers registers :=
  fun _ _ => ⟨id, fun h => .inr ⟨h.mirrors.registers, h⟩⟩

/-- Changes of the registers follow each other if exchanging commutes with them. -/
theorem follows_modifyRegisters {f g : Registers → Registers}
    (h : ∀ r, g r.exchanged = (f r).exchanged) :
    Follows start S id (modifyRegisters f) (modifyRegisters g) := by
  refine follows_modifyCpu fun cpu cpu' same => ?_
  have registers : cpu'.registers = cpu.registers.exchanged := congrArg Cpu.registers same
  calc { cpu'.silent with registers := g cpu'.registers }
      = { cpu.silent.exchanged with registers := g cpu.registers.exchanged } := by
        rw [same, registers]
    _ = { cpu.silent with registers := f cpu.registers }.exchanged := by
        rw [h]
        rfl

theorem follows_goto (address : Word) : Follows start S id (goto address) (goto address) :=
  follows_modifyRegisters fun _ => rfl

theorem follows_setFlags (cc : Flags) : Follows start S id (setFlags cc) (setFlags cc) :=
  follows_modifyRegisters (f := fun r => { r with cc }) (g := fun r => { r with cc }) fun _ => rfl

/-- The messages about the two instructions may differ. -/
theorem follows_noteExecuted (address : Word) (mnemonic mnemonic' : String)
    (bytes bytes' : List Byte) :
    Follows start S id (noteExecuted address mnemonic bytes)
      (noteExecuted address mnemonic' bytes') := by
  refine follows_modifyCpu fun cpu cpu' same => ?_
  have unnoticed (cpu : Cpu) (message : Message) :
      (if cpu.tracing then cpu.note message else cpu).silent = cpu.silent := by
    split_ifs <;> rfl
  rw [unnoticed, unnoticed, same]

end Follows

/-! ### Accesses to memory -/

section Accesses

variable [Memory μ] [Memory ν] (answering : AnsweringOff start S)
include answering

/-- A load gives the same, unless it touches the byte that differs. -/
theorem follows_load (address : Word) : Follows start S id (load address) (load address) := by
  intro w n
  have accesses : (w.after (load address)).memory.accesses
      = w.memory.accesses ++ [.load address] := rfl
  refine ⟨.append accesses, fun h => ?_⟩
  -- only at the opcode could the two get different bytes
  by_cases off : address = start
  case pos => exact .inl (touched_of_access accesses h.begun off)
  case neg =>
    obtain ⟨after, gives⟩ := h.mirrors.load answering.watched address
    exact .inr ⟨(gives off).symm, by simp [accesses], after⟩

/-- A store does the same, unless it touches that byte. -/
theorem follows_store (address : Word) (value : Byte) :
    Follows start S id (store address value) (store address value) := by
  intro w n
  have accesses : (w.after (store address value)).memory.accesses
      = w.memory.accesses ++ [.store address value] := rfl
  refine ⟨.append accesses, fun h => ?_⟩
  by_cases off : address = start
  case pos => exact .inl (touched_of_access accesses h.begun off)
  case neg => exact .inr ⟨rfl, by simp [accesses], h.mirrors.store answering.watched off value⟩

theorem follows_loadWord (address : Word) :
    Follows start S id (loadWord address) (loadWord address) :=
  (follows_load answering address).bind fun _ =>
    (follows_load answering (address + 1)).bind fun _ => .pure _

theorem follows_loadBytes (address : Word) (n : ℕ) :
    Follows start S id (loadBytes address n) (loadBytes address n) := by
  induction n generalizing address with
  | zero => exact .pure []
  | succ n ih =>
    exact (follows_load answering address).bind fun _ => (ih (address + 1)).bind fun _ => .pure _

theorem follows_fetch : Follows start S id fetch fetch :=
  follows_registers.bind fun r => (follows_load answering r.pc).bind fun _ =>
    (follows_goto (r.pc + 1)).bind fun _ => .pure _

theorem follows_fetchBytes (n : ℕ) : Follows start S id (fetchBytes n) (fetchBytes n) := by
  induction n with
  | zero => exact .pure []
  | succ n ih => exact (follows_fetch answering).bind fun _ => ih.bind fun _ => .pure _

end Accesses

/-! ### Operands -/

section Operands

/-- What an instruction gives whose opcode is `$40` higher. -/
def twinned {α : Type} : Except Fault α → Except Fault α := Except.mapError Fault.twin

/-- An address that does not depend on A or B is formed alike. -/
theorem follows_formAddress {operand : IndexedOperand} (base : operand.base ∈ [.x, .y, .u, .s])
    (apart : ∀ name, operand.form ≠ .accumulatorOffset name) (word : Word) :
    Follows start S id (formAddress operand.base operand.form word)
      (formAddress operand.base operand.form word) := by
  obtain ⟨index, form, indirect⟩ := operand
  -- none of the four index registers is exchanged
  have four : index = .x ∨ index = .y ∨ index = .u ∨ index = .s := by simpa using base
  have same (r : Registers) : r.exchanged.read index = r.read index := by
    obtain rfl | rfl | rfl | rfl := four <;> rfl
  have moved (value : Word) : Follows start S id (modifyRegisters (·.assign index value))
      (modifyRegisters (·.assign index value)) := by
    refine follows_modifyRegisters fun r => ?_
    obtain rfl | rfl | rfl | rfl := four <;> rfl
  refine follows_registers.bind fun r => ?_
  simp only [same]
  cases form with
  | accumulatorOffset name => exact absurd rfl (apart name)
  | postIncrement step | preDecrement step => exact (moved _).bind fun _ => .pure _
  | _ => exact .pure _

variable [Memory μ] [Memory ν] (answering : AnsweringOff start S) {w : Machine (Watched μ)}
  {n : Machine ν}
include answering

/-- An indexed operand is the same, unless an accumulator is the offset. -/
theorem tracks_resolveIndexed (address : Word)
    (apart : ∀ operand, IndexedOperand.decode? (w.gives fetch) = some operand →
      ∀ name, operand.form ≠ .accumulatorOffset name) :
    Tracks start S twinned (resolveIndexed address) (resolveIndexed address) w n := by
  refine (follows_fetch answering w n).bind ?_
  -- the two have fetched the same postbyte
  dsimp only [id]
  cases decoded : IndexedOperand.decode? (w.gives fetch) with
  | none => exact Follows.pure (φ := twinned) _ _ _
  | some operand =>
    refine (follows_fetchBytes answering operand.form.length).bind (fun rest => ?_) _ _
    refine (follows_formAddress (IndexedOperand.base_mem decoded) (apart operand decoded) _).bind
      fun formed => ?_
    exact .ite ((follows_loadWord answering formed).bind fun _ => .pure _) (.pure _)

/-- So is the operand in each mode; a fault tells of the other opcode. -/
theorem tracks_resolve (mode : AddressingMode) (code address : Word)
    (apart : mode = .indexed → ∀ operand, IndexedOperand.decode? (w.gives fetch) = some operand →
      ∀ name, operand.form ≠ .accumulatorOffset name) :
    Tracks start S twinned (resolve mode code address) (resolve mode (code + 0x40) address)
      w n := by
  have immediate (k : ℕ) : Follows start S id (resolveImmediate k) (resolveImmediate k) :=
    follows_registers.bind fun r => (follows_goto (r.pc + UInt16.ofNat k)).bind fun _ =>
      (follows_loadBytes answering r.pc k).bind fun _ => .pure _
  have relative (k : ℕ) : Follows start S id (resolveRelative k) (resolveRelative k) :=
    (follows_fetchBytes answering k).bind fun _ => follows_registers.bind fun _ => .pure _
  have direct : Follows start S id resolveDirect resolveDirect :=
    follows_registers.bind fun _ => (follows_fetch answering).bind fun _ => .pure _
  have extended : Follows start S id resolveExtended resolveExtended :=
    (follows_fetchBytes answering 2).bind fun _ => .pure _
  have found {x : Exec (Watched μ) Located} {y : Exec ν Located} (h : Follows start S id x y) :
      Follows start S twinned (x >>= fun operand => pure (.ok operand))
        (y >>= fun operand => pure (.ok operand)) :=
    h.bind fun operand => .pure (Except.ok operand)
  cases mode with
  | inherent => exact Follows.pure (φ := twinned) _ _ _
  -- the fault names the opcode
  | invalid => exact Follows.pure (φ := twinned) _ _ _
  -- all modes but the indexed one go by nothing that the accumulators hold
  | imm8 | imm16 => exact found (immediate _) w n
  | direct => exact found direct w n
  | extended => exact found extended w n
  | indexed => exact tracks_resolveIndexed answering address (apart rfl)
  | rel8 | rel16 => exact found (relative _) w n

end Operands

/-! ### Instructions -/

section Instructions

variable [Memory μ] [Memory ν] (answering : AnsweringOff start S)
include answering

/-- The exchanged operation follows the operation, if it is one of those that differ in the
accumulator only. -/
theorem follows_perform {operation : Operation} (joins : operation.joins = true) (address : Word) :
    Follows start S id (perform operation address) (perform operation.exchanged address) := by
  cases operation with
  | binary op acc =>
    refine (follows_load answering address).bind fun operand => follows_registers.bind fun r => ?_
    have result : op.apply (acc.other.get r.exchanged) operand r.exchanged.cc
        = op.apply (acc.get r) operand r.cc := by
      rw [acc.get_exchanged]
      rfl
    dsimp only [id]
    rw [result]
    -- the result goes to the accumulator that it came from
    refine .bind (follows_modifyRegisters fun now => ?_) fun _ => .pure 0
    exact acc.set_exchanged _ { now with cc := (op.apply (acc.get r) operand r.cc).2 }
  | store acc =>
    -- the twin stores the other accumulator of the exchanged registers
    refine follows_registers.bind fun r => ?_
    rw [acc.get_exchanged]
    exact (follows_store answering address _).bind fun _ => follows_registers.bind fun r' =>
      (follows_setFlags _).bind fun _ => .pure 0
  -- the other operations have no twin
  | _ => exact nomatch joins

/-- The twin of an instruction follows it. -/
theorem tracks_executeRow {row : Instruction} (joins : row.operation.joins = true) (address : Word)
    (mnemonic : String) (bytes bytes' : List Byte) {w : Machine (Watched μ)} {n : Machine ν}
    (apart : row.mode = .indexed → ∀ operand,
      IndexedOperand.decode? (w.gives fetch) = some operand →
        ∀ name, operand.form ≠ .accumulatorOffset name) :
    Tracks start S twinned (executeRow row address bytes)
      (executeRow (row.twin mnemonic) address bytes') w n := by
  refine (tracks_resolve answering row.mode row.code address apart).bind ?_
  cases w.gives (resolve row.mode row.code address) with
  | error fault => exact Follows.pure (φ := twinned) _ _ _
  | ok operand =>
    exact (follows_perform answering joins operand.address).bind (fun extra =>
      (follows_noteExecuted _ _ _ _ _).bind fun _ => .pure (Except.ok _)) _ _

omit answering

variable {m : Machine μ} {n : Machine ν} {row : Instruction} {mnemonic : String}

omit [Memory ν] in
/-- An opcode below $100 is fetched as one byte. -/
theorem after_fetchOpcode_of_short (lookup : OpcodeMap.lookup? (m.gives fetchOpcode).1 = some row)
    (short : row.code < 0x100) : m.after fetchOpcode = m.after fetch := by
  have code := (OpcodeMap.code_of_lookup? lookup).2
  by_cases hprefix : m.gives fetch = 0x10 ∨ m.gives fetch = 0x11
  -- behind a prefix the opcode would have two bytes
  case pos =>
    have gives : (m.gives fetchOpcode).1
        = wordOf (m.gives fetch) ((m.after fetch).gives fetch) := by
      simp [fetchOpcode, hprefix]
    have long := opcodeLength_wordOf hprefix ((m.after fetch).gives fetch)
    rw [← gives, ← code, opcodeLength, if_pos short] at long
    exact absurd long (by decide)
  case neg => simp [fetchOpcode, hprefix]

/-- The processor once an opcode of one byte is fetched from an address. -/
def nextFrom (address : Word) (cpu : Cpu) : Cpu :=
  Cpu.visit { cpu with registers := { cpu.registers with pc := address + 1 } } address

/-- With the opcodes fetched and the visits marked the one machine mirrors the other. -/
theorem mirroring_opened (answering : AnsweringOff m.cpu.registers.pc S) (h : Mirrors S m n)
    (fetched : m.watched.after fetchOpcode = m.watched.after fetch)
    (fetched' : n.after fetchOpcode = n.after fetch) :
    Mirroring S m.watched.opened n.opened := by
  have pc : n.cpu.registers.pc = m.cpu.registers.pc := congrArg (·.pc) h.registers
  have start : Mirrors (fun (M : Watched μ) N => S M.memory N) m.watched n := h
  -- both load from the same address, and nothing but the byte that they get is different
  have loaded := (start.load answering.watched m.cpu.registers.pc).1
  -- moving PC on and exchanging the accumulators commute
  have next {cpu cpu' : Cpu} (same : cpu'.silent = cpu.silent.exchanged) (address : Word) :
      (nextFrom address cpu').silent = (nextFrom address cpu).silent.exchanged :=
    calc (nextFrom address cpu').silent = nextFrom address cpu'.silent := rfl
      _ = nextFrom address cpu.silent.exchanged := by rw [same]
  rw [opened, opened, fetched, fetched']
  constructor
  case begun => exact List.cons_ne_nil _ _
  case mirrors =>
    show Mirrors _
      { m.watched.after (load m.cpu.registers.pc) with
        cpu := nextFrom m.cpu.registers.pc (m.watched.after (load m.cpu.registers.pc)).cpu }
      { n.after (load n.cpu.registers.pc) with
        cpu := nextFrom n.cpu.registers.pc (n.after (load n.cpu.registers.pc)).cpu }
    rw [pc]
    exact loaded.modify fun same => next same _

/-- An operation of A, and the same one of B with A and B exchanged: the second machine gives what
the first one gives and is its mirror image afterwards, provided that the first one does not come
back to its opcode and takes no address from an accumulator. -/
theorem mirrors_executeNext (answering : AnsweringOff m.cpu.registers.pc S) (h : Mirrors S m n)
    (lookup : OpcodeMap.lookup? (m.gives fetchOpcode).1 = some row)
    (lookup' : OpcodeMap.lookup? (n.gives fetchOpcode).1 = some (row.twin mnemonic))
    (short : row.code < 0x100) (short' : (row.twin mnemonic).code < 0x100)
    (joins : row.operation.joins = true)
    (apart : row.mode = .indexed → ∀ operand,
      IndexedOperand.decode? (m.opened.gives fetch) = some operand →
        ∀ name, operand.form ≠ .accumulatorOffset name)
    (once : ¬Touched m.cpu.registers.pc (m.watched.after executeNext)) :
    n.gives executeNext = twinned (m.gives executeNext) ∧
      Mirrors S (m.after executeNext) (n.after executeNext) := by
  -- the machine is watched, which changes nothing that it does
  have frame := frame_relates (answering_watched (μ := μ))
  obtain ⟨gives, after⟩ := frame.executeNext arms_relates visits_relates m m.watched ⟨rfl, rfl⟩
  have postbyte := (frame.fetch _ _ (relates_opened m)).1
  rw [postbyte] at apart
  rw [fetchOpcode_watched] at lookup
  obtain ⟨gives₁, after₁⟩ := executeNext_of_row lookup
  obtain ⟨gives₂, after₂⟩ := executeNext_of_row lookup'
  have pc : n.cpu.registers.pc = m.cpu.registers.pc := congrArg (·.pc) h.registers
  rw [pc] at gives₂ after₂
  -- the two opcodes are fetched apart, since they are what differs
  have opened := mirroring_opened answering h (after_fetchOpcode_of_short lookup short)
    (after_fetchOpcode_of_short lookup' short')
  have tracks := tracks_executeRow answering joins m.cpu.registers.pc mnemonic
    (m.watched.gives fetchOpcode).2 (n.gives fetchOpcode).2 (w := m.watched.opened) (n := n.opened)
    apart
  obtain touched | ⟨result, mirroring⟩ := tracks.mirrored opened
  · exact absurd (after₁ ▸ touched) once
  · refine ⟨?_, ?_, ?_⟩
    · rw [gives, gives₁, gives₂]
      exact result
    · rw [after.1, after₁, after₂]
      exact mirroring.mirrors.1
    · rw [after.2, after₁, after₂]
      exact mirroring.mirrors.2

end Instructions

end Machine

end Machine6809
