import Machine6809.Memory.Ram
import Machine6809.Proofs.Machine.Actions
import Mathlib.Data.Nat.Notation

/-!
# Frames on a stack

A frame is pushed byte by byte and pulled register by register, and the two meet in the bytes that
lie in memory in between. `Ram.Holds` says that bytes lie from an address upward, and
`Ram.LaidDown` that they have been put there and that no other address was written to. The
addresses go around at the end of memory. That is no special case of its own, except that a frame
must not be longer than memory, or its last bytes would fall on the first (`Ram.Holds.write`).

* `laidDown_pushBytes` is about pushing, on either stack,
* `after_pullRegisters` is about pulling a list of registers from where the bytes of a set of
  registers lie. The list may not have the stack's own pointer, which moves all the time.
-/

namespace Machine6809

theorem lowByte_toUInt16 (byte : Byte) : lowByte byte.toUInt16 = byte :=
  UInt8.toUInt8_toUInt16 byte

/-- Going up one place more. -/
theorem add_ofNat_succ (address : Word) (k : ℕ) :
    address + UInt16.ofNat (k + 1) = address + 1 + UInt16.ofNat k := by
  rw [UInt16.ofNat_add]
  grind

theorem sub_ofNat_succ (address : Word) (k : ℕ) :
    address - UInt16.ofNat (k + 1) = address - UInt16.ofNat k - 1 := by
  rw [UInt16.ofNat_add]
  grind

namespace Ram

/-- The bytes lie one after the other from an address upward. -/
def Holds (ram : Ram) (address : Word) : List Byte → Prop
  | [] => True
  | byte :: bytes => ram.read address = byte ∧ ram.Holds (address + 1) bytes

section Bytes

variable {ram ram' : Ram} {address : Word} {value : Byte} {bytes : List Byte}

theorem size_write (ram : Ram) (address : Word) (value : Byte) :
    (ram.write address value).contents.size = ram.contents.size :=
  Array.size_setIfInBounds

/-- A full RAM takes every byte. -/
theorem read_write_self (h : ram.contents.size = maxSize) (address : Word) (value : Byte) :
    (ram.write address value).read address = value := by
  have hb : address.toNat < ram.contents.size := by
    rw [h]
    exact address.toNat_lt
  simp [read, write, hb]

/-- Other addresses keep theirs. -/
theorem read_write_of_ne {a b : Word} (h : a ≠ b) (ram : Ram) (value : Byte) :
    (ram.write a value).read b = ram.read b := by
  have : a.toNat ≠ b.toNat := fun e => h (UInt16.toNat_inj.1 e)
  simp [read, write, Array.getElem?_setIfInBounds_ne this]

/-- Holding bytes is a matter of what is read at their addresses. -/
theorem Holds.of_reads (h : ram.Holds address bytes)
    (same : ∀ k < bytes.length,
      ram'.read (address + UInt16.ofNat k) = ram.read (address + UInt16.ofNat k)) :
    ram'.Holds address bytes := by
  -- byte by byte, with the address one further each time
  induction bytes generalizing address with
  | nil => trivial
  | cons byte bytes ih =>
    refine ⟨?_, ih h.2 fun k hk => ?_⟩
    · have := same 0 (by simp)
      rw [show address + UInt16.ofNat 0 = address by simp] at this
      exact this.trans h.1
    · have := same (k + 1) (by simpa using hk)
      rwa [add_ofNat_succ] at this

/-- Two runs lie one behind the other. -/
theorem holds_append {address : Word} {bytes more : List Byte} :
    ram.Holds address (bytes ++ more) ↔
      ram.Holds address bytes ∧ ram.Holds (address + UInt16.ofNat bytes.length) more := by
  induction bytes generalizing address with
  | nil => simp [Holds]
  | cons byte bytes ih =>
    rw [List.length_cons, add_ofNat_succ, List.cons_append, Holds, Holds, ih, and_assoc]

/-- One more byte below those that lie there. It is at none of their addresses unless there is one
for each address of memory. -/
theorem Holds.write {below : Word} (h : ram.Holds address bytes) (hb : below + 1 = address)
    (hs : ram.contents.size = maxSize) (hl : bytes.length + 1 ≤ maxSize) :
    (ram.write below value).Holds below (value :: bytes) := by
  -- The distance of the two addresses is more than zero and less than a turn.
  have fresh : ∀ k < bytes.length, below ≠ address + UInt16.ofNat k := by
    intro k hk e
    have zero : UInt16.ofNat (k + 1) = 0 := by
      rw [← hb] at e
      rw [UInt16.ofNat_add]
      grind
    have := congrArg UInt16.toNat zero
    rw [UInt16.toNat_ofNat'] at this
    simp only [maxSize, UInt16.toNat_zero] at this hl
    omega
  refine ⟨read_write_self hs below value, ?_⟩
  rw [hb]
  exact h.of_reads fun k hk => read_write_of_ne (fresh k hk) ram value

/-- `after` is `before` with bytes laid down from an address upward. -/
structure LaidDown (address : Word) (bytes : List Byte) (before after : Ram) : Prop where
  size : after.contents.size = before.contents.size
  holds : after.Holds address bytes
  elsewhere : ∀ a, (∀ k < bytes.length, a ≠ address + UInt16.ofNat k) →
    after.read a = before.read a

/-- One more byte below those laid down. -/
theorem LaidDown.write {below : Word} (h : LaidDown address bytes ram ram')
    (hb : below + 1 = address) (hs : ram.contents.size = maxSize)
    (hl : bytes.length + 1 ≤ maxSize) :
    LaidDown below (value :: bytes) ram (ram'.write below value) := by
  refine ⟨(size_write _ _ _).trans h.size, h.holds.write hb (h.size.trans hs) hl, fun a ha => ?_⟩
  have hne : below ≠ a := by
    have := ha 0 (by simp)
    exact fun e => this (by simp [e])
  rw [read_write_of_ne hne]
  refine h.elsewhere a fun k hk => ?_
  have := ha (k + 1) (by simpa using hk)
  rwa [add_ofNat_succ, hb] at this

end Bytes

end Ram

namespace Machine

/-- The address of the last byte on a stack. -/
def top {μ : Type} (stack : Stack) (m : Machine μ) : Word := m.cpu.registers.read stack.pointer

/-- The machine with another stack pointer. -/
def withTop {μ : Type} (stack : Stack) (address : Word) (m : Machine μ) : Machine μ :=
  { m with
    cpu := { m.cpu with registers := m.cpu.registers.assign stack.pointer address } }

/-- The machine with some of the registers taken from `r`. -/
def restore {μ : Type} (r : Registers) (names : List RegisterName) (m : Machine μ) : Machine μ :=
  names.foldl (fun m name => m.after (setRegister name (r.read name))) m

section Top

variable {μ : Type} {stack : Stack} {name : RegisterName} {m : Machine μ} (address value : Word)

/-- A stack pointer that has been set. -/
@[simp] theorem top_withTop : (m.withTop stack address).top stack = address := by
  cases stack <;> rfl

@[simp] theorem memory_withTop : (m.withTop stack address).memory = m.memory := rfl

@[simp] theorem withTop_withTop : (m.withTop stack value).withTop stack address =
    m.withTop stack address := by
  cases stack <;> rfl

/-- Setting it to what it is changes nothing. -/
theorem withTop_top (stack : Stack) (m : Machine μ) : m.withTop stack (m.top stack) = m := by
  cases stack <;> rfl

/-- It depends on the rest of the processor only. -/
theorem cpu_withTop_congr {m' : Machine μ} (h : m'.cpu = (m.withTop stack value).cpu) :
    (m'.withTop stack address).cpu = (m.withTop stack address).cpu := by
  cases stack <;> (rw [withTop, h]; rfl)

/-- It makes no difference whether another register is set before or after. -/
theorem after_setRegister_withTop (h : name ≠ stack.pointer) :
    (m.withTop stack address).after (setRegister name value) =
      (m.after (setRegister name value)).withTop stack address := by
  cases stack <;> cases name <;> first | rfl | exact absurd rfl h

/-- Nor whether several others are. -/
theorem restore_withTop {names : List RegisterName} (r : Registers) (h : stack.pointer ∉ names) :
    (m.withTop stack address).restore r names = (m.restore r names).withTop stack address := by
  induction names generalizing m with
  | nil => rfl
  | cons name names ih =>
    have hname : stack.pointer ≠ name := List.ne_of_not_mem_cons h
    have hnames : stack.pointer ∉ names := List.not_mem_of_not_mem_cons h
    show ((m.withTop stack address).after _).restore r names = _
    rw [after_setRegister_withTop address _ (Ne.symm hname), ih hnames]
    rfl

theorem memory_restore (r : Registers) (names : List RegisterName) (m : Machine μ) :
    (m.restore r names).memory = m.memory := by
  induction names generalizing m with
  | nil => rfl
  | cons name names ih => exact ih _

end Top

/-! ### Words -/

section Words

variable {μ : Type} [Memory μ] {stack : Stack} {name : RegisterName} {list : Byte}

/-- A word is pushed as its two bytes, the low one first. -/
theorem after_pushWord (stack : Stack) (value : Word) (m : Machine μ) :
    m.after (pushWord stack value) =
      (m.after (pushByte stack (lowByte value))).after (pushByte stack (highByte value)) := by
  rw [pushWord, after_bind]

theorem after_pullWord (stack : Stack) (m : Machine μ) :
    m.after (pullWord stack) = (m.after (pullByte stack)).after (pullByte stack) := by
  rw [pullWord, after_bind, after_bind, after_pure]

/-- The first byte pulled is the high one. -/
theorem gives_pullWord (stack : Stack) (m : Machine μ) :
    m.gives (pullWord stack) =
      wordOf (m.gives (pullByte stack)) ((m.after (pullByte stack)).gives (pullByte stack)) := by
  rw [pullWord, gives_bind, gives_bind, gives_pure]

/-- A frame of one register of two bytes is that register pushed as a word, on either stack. -/
theorem after_pushFrame_word (selected : stack.selected list = [name])
    (wide : name.isByte = false) (m : Machine μ) :
    m.after (pushFrame stack list) = m.after (pushWord stack (m.cpu.registers.read name)) := by
  have frame : m.cpu.registers.frame stack list =
      [highByte (m.cpu.registers.read name), lowByte (m.cpu.registers.read name)] := by
    rw [Registers.frame, selected, List.flatMap_singleton, Registers.bytes,
      if_neg (ne_true_of_eq_false wide)]
  simp only [pushFrame, after_bind, after_pure, after_registers, gives_registers, frame,
    List.reverse_cons, List.reverse_nil, List.nil_append, List.cons_append, pushBytes,
    after_pushWord]

end Words

section Stacks

variable {m : Machine Ram} {stack : Stack} {r : Registers} {name : RegisterName}
  {names : List RegisterName} {frame : List Byte}

/-! ### Pushing -/

/-- Runs are pushed one after the other. -/
theorem after_pushBytes_append (stack : Stack) (bytes more : List Byte) (m : Machine Ram) :
    m.after (pushBytes stack (bytes ++ more)) =
      (m.after (pushBytes stack bytes)).after (pushBytes stack more) := by
  induction bytes generalizing m with
  | nil => rfl
  | cons byte bytes ih => exact ih _

/-- Pushing moves the pointer down and leaves the rest of the processor alone. -/
theorem cpu_after_pushBytes (stack : Stack) (bytes : List Byte) (m : Machine Ram) :
    (m.after (pushBytes stack bytes)).cpu =
      (m.withTop stack (m.top stack - UInt16.ofNat bytes.length)).cpu := by
  induction bytes generalizing m with
  | nil =>
    rw [show m.top stack - UInt16.ofNat ([] : List Byte).length = m.top stack by simp, withTop_top]
    rfl
  | cons byte bytes ih =>
    have pushed : (m.after (pushByte stack byte)).cpu = (m.withTop stack (m.top stack - 1)).cpu :=
      rfl
    have top : (m.after (pushByte stack byte)).top stack = m.top stack - 1 :=
      top_withTop (m.top stack - 1)
    -- The two machines differ in memory, but not in what the pointer is counted from.
    refine (ih (m.after (pushByte stack byte))).trans ?_
    rw [cpu_withTop_congr _ _ pushed, top, List.length_cons, sub_ofNat_succ]
    exact congrArg (fun a => (m.withTop stack a).cpu) (by grind)

/-- A frame that fits into memory is laid down whole, also around address zero. -/
theorem laidDown_pushBytes (hs : m.memory.contents.size = Ram.maxSize)
    (hl : frame.length ≤ Ram.maxSize) :
    Ram.LaidDown (m.top stack - UInt16.ofNat frame.length) frame m.memory
      (m.after (pushBytes stack frame.reverse)).memory := by
  -- byte by byte, from the far end of the frame to its top
  induction frame with
  | nil => exact ⟨rfl, trivial, fun _ _ => rfl⟩
  | cons byte frame ih =>
    rw [List.length_cons] at hl
    have pointer := cpu_after_pushBytes stack frame.reverse m
    rw [List.reverse_cons, after_pushBytes_append]
    generalize m.after (pushBytes stack frame.reverse) = m₁ at *
    -- the pointer has gone down by what has been pushed
    have top : m₁.top stack = m.top stack - UInt16.ofNat frame.length := by
      rw [Machine.top, pointer, List.length_reverse]
      exact top_withTop _
    have next : m.top stack - UInt16.ofNat (byte :: frame).length = m₁.top stack - 1 := by
      rw [top, List.length_cons, sub_ofNat_succ]
    -- The last byte pushed is the first of the frame, next to those that lie there.
    have laid := ih (by omega)
    rw [← top] at laid
    rw [next]
    show Ram.LaidDown _ _ _ (m₁.memory.write (m₁.top stack - 1) byte)
    exact laid.write (by grind) hs hl

/-! ### Pulling -/

/-- Pulling a byte moves the pointer up. -/
theorem after_pullByte (stack : Stack) (m : Machine Ram) :
    m.after (pullByte stack) = m.withTop stack (m.top stack + 1) := rfl

theorem gives_pullByte (stack : Stack) (m : Machine Ram) :
    m.gives (pullByte stack) = m.memory.read (m.top stack) := rfl

/-- Of a value for a byte register the low byte counts. -/
theorem after_setRegister_lowByte (h : name.isByte = true) (value : Word) (m : Machine Ram) :
    m.after (setRegister name (lowByte value).toUInt16) = m.after (setRegister name value) := by
  cases name <;> first
    | exact (Bool.false_ne_true h).elim
    | simp only [setRegister, Cpu.setRegister, Registers.assign, lowByte_toUInt16]

/-- Pulling a register that lies at the top restores it. -/
theorem after_pullRegister (hn : stack.pointer ≠ name)
    (h : m.memory.Holds (m.top stack) (r.bytes name)) :
    m.after (pullRegister stack name) =
      (m.after (setRegister name (r.read name))).withTop stack
        (m.top stack + UInt16.ofNat (r.bytes name).length) := by
  unfold pullRegister
  unfold Registers.bytes at h ⊢
  by_cases hb : name.isByte = true
  · -- a byte register
    rw [if_pos hb] at h ⊢
    rw [if_pos hb]
    have value : m.gives (pullByte stack) = lowByte (r.read name) := h.1
    simp only [after_bind, after_pure, value]
    rw [after_setRegister_lowByte hb, after_pullByte, after_setRegister_withTop _ _ hn.symm]
    rfl
  · -- a word register
    rw [if_neg hb] at h ⊢
    rw [if_neg hb]
    obtain ⟨high, low, -⟩ := h
    -- The second byte is pulled from where the pointer has gone.
    have top : (m.after (pullByte stack)).top stack = m.top stack + 1 := top_withTop _
    have value : m.gives (pullWord stack) = r.read name := by
      rw [gives_pullWord, gives_pullByte, gives_pullByte, top, high, after_pullByte, memory_withTop,
        low, wordOf_highByte_lowByte]
    simp only [after_bind, after_pure, value]
    rw [after_pullWord, after_pullByte, top, after_pullByte, withTop_withTop,
      after_setRegister_withTop _ _ hn.symm, UInt16.add_assoc]
    rfl

/-- Registers pulled from the bytes of `r` are the registers of `r`. -/
theorem after_pullRegisters (hn : stack.pointer ∉ names)
    (h : m.memory.Holds (m.top stack) (names.flatMap r.bytes)) :
    m.after (pullRegisters stack names) =
      (m.restore r names).withTop stack
        (m.top stack + UInt16.ofNat (names.flatMap r.bytes).length) := by
  -- register by register; none of them is the pointer itself
  induction names generalizing m with
  | nil =>
    rw [show m.top stack + UInt16.ofNat (([] : List RegisterName).flatMap r.bytes).length =
      m.top stack by simp]
    exact (withTop_top stack m).symm
  | cons name names ih =>
    have hname : stack.pointer ≠ name := List.ne_of_not_mem_cons hn
    have hnames : stack.pointer ∉ names := List.not_mem_of_not_mem_cons hn
    obtain ⟨first, rest⟩ := Ram.holds_append.1 (List.flatMap_cons ▸ h)
    show (m.after (pullRegister stack name)).after (pullRegisters stack names) = _
    rw [after_pullRegister hname first, ih hnames (by rwa [top_withTop]),
      restore_withTop _ _ hnames, withTop_withTop, top_withTop, UInt16.add_assoc,
      ← UInt16.ofNat_add, ← List.length_append]
    rfl

end Stacks

end Machine

end Machine6809
