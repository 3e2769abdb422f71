import Machine6809.Cpu.OpcodeMap
import Machine6809.Proofs.Machine.Stacks
import Mathlib.Order.MinMax

/-!
# What is pushed last is pulled first

`Stack.lifo` runs a list of pushes and pulls of bytes and words on a list that stands for the
stack. It has a result if and only if the calls are well nested: every pull finds something on the
list, and something of its own width. The machine keeps no such list. It keeps bytes in memory and
a pointer to the last of them, and goes around at the end of memory.

The two are held together by `Machine.Rests`, which says of a machine that certain bytes lie on a
stack that has grown downward from a start, and that so far nothing has been written but the bytes
of a given depth below that start. One byte pushed and one byte pulled keep it (`Rests.pushByte`,
`Rests.pullByte`), items follow from their bytes and runs of calls from their items. The relation
does not speak of PC, so it also holds through a run of subroutine calls, each of which pushes PC
and moves it.

`last_in_first_out` is the result, for all calls whose bytes fit into memory at all times.
-/

namespace Machine6809

namespace Stack

/-- The widths in which a stack is served. -/
inductive Width where
  | byte | word
  deriving DecidableEq, Repr

/-- The bytes of a width. -/
def Width.size : Width → ℕ
  | .byte => 1
  | .word => 2

/-- What can be pushed at once. -/
inductive Item where
  | byte (value : Byte)
  | word (value : Word)
  deriving DecidableEq, Repr

/-- The width of an item. -/
def Item.width : Item → Width
  | .byte _ => .byte
  | .word _ => .word

/-- The bytes of an item as they lie on a stack, from the lowest address upward. -/
def Item.bytes : Item → List Byte
  | .byte value => [value]
  | .word value => [highByte value, lowByte value]

/-- An item has as many bytes as its width says. -/
theorem Item.length_bytes (item : Item) : item.bytes.length = item.width.size := by
  cases item <;> rfl

/-- A use of a stack. -/
inductive Call where
  | push (item : Item)
  | pull (width : Width)
  deriving DecidableEq, Repr

/-- The bytes that items take on a stack, those on top first. -/
def bytes (held : List Item) : List Byte := held.flatMap Item.bytes

theorem bytes_cons (item : Item) (held : List Item) :
    bytes (item :: held) = item.bytes ++ bytes held := List.flatMap_cons

/-- **Last in, first out.** What the pulls among some calls give and what they leave, if the items
held at first are those of a list. There is no result if a pull does not match what is on top. -/
def lifo : List Item → List Call → Option (List Item × List Item)
  | held, [] => some ([], held)
  | held, .push item :: calls => lifo (item :: held) calls
  | [], .pull _ :: _ => none
  | item :: held, .pull width :: calls =>
    if item.width = width then
      (lifo held calls).map fun (pulled, left) => (item :: pulled, left)
    else
      none

/-- The most bytes that some calls have on a stack at a time, if there are `depth` at first. -/
def deepest (depth : ℕ) : List Call → ℕ
  | [] => depth
  | .push item :: calls => max depth (deepest (depth + item.width.size) calls)
  | .pull width :: calls => max depth (deepest (depth - width.size) calls)

/-- No run of calls ends below the depth that it has begun with. -/
theorem le_deepest (depth : ℕ) (calls : List Call) : depth ≤ deepest depth calls := by
  cases calls with
  | nil => exact le_rfl
  | cons call calls => cases call <;> exact le_max_left _ _

/-- A pull that has a result gives the item on top and goes on with the others. -/
theorem lifo_pull {held left pulled : List Item} {width : Width} {calls : List Call}
    (h : lifo held (.pull width :: calls) = some (pulled, left)) :
    ∃ item rest pulled', held = item :: rest ∧ item.width = width ∧ pulled = item :: pulled' ∧
      lifo rest calls = some (pulled', left) := by
  cases held with
  | nil => exact nomatch h
  | cons item rest =>
    rw [lifo] at h
    split at h
    -- the item on top has the width that is asked for
    · next same =>
      obtain ⟨⟨pulled', left'⟩, run, e⟩ := Option.map_eq_some_iff.1 h
      obtain ⟨rfl, rfl⟩ := Prod.mk.inj e
      exact ⟨item, rest, pulled', rfl, same, rfl, run⟩
    · exact nomatch h

end Stack

namespace Machine

/-! ### Serving calls -/

section Serving

variable {μ : Type} [Memory μ]

/-- Push an item. -/
def pushItem (stack : Stack) : Stack.Item → Exec μ Unit
  | .byte value => pushByte stack value
  | .word value => pushWord stack value

/-- Pull an item of a width. -/
def pullItem (stack : Stack) : Stack.Width → Exec μ Stack.Item
  | .byte => return .byte (← pullByte stack)
  | .word => return .word (← pullWord stack)

/-- Serve calls in order and give what the pulls among them gave. -/
def serve (stack : Stack) : List Stack.Call → Exec μ (List Stack.Item)
  | [] => return []
  | .push item :: calls => do
    pushItem stack item
    serve stack calls
  | .pull width :: calls => do
    let item ← pullItem stack width
    let pulled ← serve stack calls
    return item :: pulled

/-- A call pushes PC as a word and goes to its operand. -/
theorem after_perform_call (target : Word) (m : Machine μ) :
    m.after (perform .call target) =
      (m.after (pushWord .system m.cpu.registers.pc)).after (goto target) := by
  simp only [perform, after_bind, after_pure, after_registers, gives_registers]

/-- A return pulls PC as a word. -/
theorem after_perform_return (address : Word) (m : Machine μ) :
    m.after (perform .return address) =
      (m.after (pullWord .system)).after (goto (m.gives (pullWord .system))) := by
  simp only [perform, after_bind, after_pure]

end Serving

/-! ### Bytes at rest -/

section Resting

variable {stack : Stack} {start : Word} {before : Ram} {deep : ℕ} {held : List Byte}
  {m m' : Machine Ram}

/-- Some bytes lie on a stack of `m` that has grown downward from `start`. Nothing has been written
over `before` but the `deep` bytes below `start`. -/
structure Rests (stack : Stack) (start : Word) (before : Ram) (deep : ℕ) (held : List Byte)
    (m : Machine Ram) : Prop where
  top : m.top stack = start - UInt16.ofNat held.length
  size : m.memory.contents.size = Ram.maxSize
  holds : m.memory.Holds (m.top stack) held
  elsewhere : ∀ a, (∀ k < deep, a ≠ start - UInt16.ofNat (k + 1)) →
    m.memory.read a = before.read a

/-- Nothing is on a stack that has not been used yet. -/
theorem Rests.nil (hs : m.memory.contents.size = Ram.maxSize) (stack : Stack) :
    Rests stack (m.top stack) m.memory 0 [] m where
  top := by simp
  size := hs
  holds := trivial
  elsewhere _ _ := rfl

/-- The stack does not depend on the other registers. -/
theorem Rests.congr (h : Rests stack start before deep held m) (top : m'.top stack = m.top stack)
    (memory : m'.memory = m.memory) : Rests stack start before deep held m' where
  top := top.trans h.top
  size := memory ▸ h.size
  holds := by
    rw [top, memory]
    exact h.holds
  elsewhere := memory ▸ h.elsewhere

/-- A greater depth allows more. -/
theorem Rests.mono {deeper : ℕ} (h : Rests stack start before deep held m) (hd : deep ≤ deeper) :
    Rests stack start before deeper held m :=
  ⟨h.top, h.size, h.holds, fun a ha => h.elsewhere a fun k hk => ha k (hk.trans_le hd)⟩

/-- A byte pushed lies on top of the others and may be the deepest so far. -/
theorem Rests.pushByte (h : Rests stack start before deep held m) (value : Byte)
    (hl : held.length + 1 ≤ Ram.maxSize) :
    Rests stack start before (max deep (held.length + 1)) (value :: held)
      (m.after (pushByte stack value)) := by
  have pushed : (m.after (Machine.pushByte stack value)).top stack = m.top stack - 1 :=
    top_withTop (m.top stack - 1)
  have memory : (m.after (Machine.pushByte stack value)).memory =
      m.memory.write (m.top stack - 1) value := rfl
  have below : m.top stack - 1 = start - UInt16.ofNat (held.length + 1) := by
    rw [h.top, sub_ofNat_succ]
  refine ⟨pushed.trans below, ?_, ?_, fun a ha => ?_⟩
  · rw [memory, Ram.size_write]
    exact h.size
  · rw [pushed, memory]
    exact h.holds.write (by grind) h.size hl
  · -- the byte written is among the deepest ones, and `a` is not
    have fresh : m.top stack - 1 ≠ a := by
      rw [below]
      exact (ha held.length (lt_max_of_lt_right (Nat.lt_succ_self _))).symm
    rw [memory, Ram.read_write_of_ne fresh]
    exact h.elsewhere a fun k hk => ha k (lt_max_of_lt_left hk)

/-- The byte on top is the one that is pulled. -/
theorem Rests.gives_pullByte {value : Byte} (h : Rests stack start before deep (value :: held) m) :
    m.gives (Machine.pullByte stack) = value := h.holds.1

/-- A byte that is pulled uncovers the others. It is not wiped out. -/
theorem Rests.pullByte {value : Byte} (h : Rests stack start before deep (value :: held) m) :
    Rests stack start before deep held (m.after (pullByte stack)) := by
  have pulled : (m.after (Machine.pullByte stack)).top stack = m.top stack + 1 :=
    top_withTop (m.top stack + 1)
  have up : m.top stack + 1 = start - UInt16.ofNat held.length := by
    rw [h.top, List.length_cons, sub_ofNat_succ]
    grind
  refine ⟨pulled.trans up, h.size, ?_, h.elsewhere⟩
  rw [pulled]
  exact h.holds.2

/-! ### Items at rest -/

/-- Pushing a word puts its two bytes on top. -/
theorem Rests.pushWord (h : Rests stack start before deep held m) (value : Word)
    (hl : held.length + 2 ≤ Ram.maxSize) :
    Rests stack start before (max deep (held.length + 2))
      (highByte value :: lowByte value :: held) (m.after (pushWord stack value)) := by
  have low := h.pushByte (lowByte value) (by omega)
  have high := low.pushByte (highByte value) (by rw [List.length_cons]; omega)
  rw [← after_pushWord] at high
  rw [List.length_cons, max_assoc, max_eq_right (Nat.le_succ (held.length + 1))] at high
  exact high

/-- Pulling a word takes them off and gives the word. -/
theorem Rests.pullWord {value : Word}
    (h : Rests stack start before deep (highByte value :: lowByte value :: held) m) :
    m.gives (pullWord stack) = value ∧
      Rests stack start before deep held (m.after (Machine.pullWord stack)) := by
  have low := h.pullByte
  refine ⟨?_, ?_⟩
  · rw [gives_pullWord, h.gives_pullByte, low.gives_pullByte, wordOf_highByte_lowByte]
  · rw [after_pullWord]
    exact low.pullByte

/-- An item is pushed by its bytes. -/
theorem Rests.pushItem (h : Rests stack start before deep held m) (item : Stack.Item)
    (hl : held.length + item.width.size ≤ Ram.maxSize) :
    Rests stack start before (max deep (held.length + item.width.size)) (item.bytes ++ held)
      (m.after (pushItem stack item)) := by
  cases item with
  | byte value => exact h.pushByte value hl
  | word value => exact h.pushWord value hl

/-- It is pulled as it was. -/
theorem Rests.pullItem {item : Stack.Item}
    (h : Rests stack start before deep (item.bytes ++ held) m) :
    m.gives (pullItem stack item.width) = item ∧
      Rests stack start before deep held (m.after (Machine.pullItem stack item.width)) := by
  cases item with
  | byte value =>
    rw [Stack.Item.width, Machine.pullItem, gives_bind, gives_pure, after_bind, after_pure]
    exact ⟨congrArg Stack.Item.byte h.gives_pullByte, h.pullByte⟩
  | word value =>
    obtain ⟨gives, rests⟩ := h.pullWord
    rw [Stack.Item.width, Machine.pullItem, gives_bind, gives_pure, after_bind, after_pure]
    exact ⟨congrArg Stack.Item.word gives, rests⟩

/-- **A run of calls.** The machine pulls what the list gives, and what the list is left with lies
on the stack of the machine. -/
theorem Rests.serve {calls : List Stack.Call} {items pulled left : List Stack.Item}
    (h : Rests stack start before deep (Stack.bytes items) m)
    (nested : Stack.lifo items calls = some (pulled, left))
    (fits : Stack.deepest (Stack.bytes items).length calls ≤ Ram.maxSize) :
    m.gives (serve stack calls) = pulled ∧
      Rests stack start before (max deep (Stack.deepest (Stack.bytes items).length calls))
        (Stack.bytes left) (m.after (Machine.serve stack calls)) := by
  -- call by call, for any items that are there and any depth that has been reached
  induction calls generalizing items pulled deep m with
  | nil =>
    obtain ⟨rfl, rfl⟩ := Prod.mk.inj (Option.some.inj nested)
    exact ⟨rfl, h.mono (le_max_left _ _)⟩
  | cons call calls ih =>
    cases call with
    | push item =>
      have length : (Stack.bytes (item :: items)).length =
          (Stack.bytes items).length + item.width.size := by
        rw [Stack.bytes_cons, List.length_append, item.length_bytes, Nat.add_comm]
      rw [Stack.deepest, max_le_iff] at fits
      -- the depth after the push is one that the calls reach
      have reached := Stack.le_deepest ((Stack.bytes items).length + item.width.size) calls
      have pushed := h.pushItem item (reached.trans fits.2)
      rw [← Stack.bytes_cons] at pushed
      obtain ⟨gives, rests⟩ := ih pushed nested (length ▸ fits.2)
      refine ⟨gives, rests.mono ?_⟩
      rw [length, Stack.deepest]
      omega
    | pull width =>
      -- nested calls pull what is on top, in the width it was pushed in
      obtain ⟨item, rest, pulled', rfl, rfl, rfl, nested'⟩ := Stack.lifo_pull nested
      have length : (Stack.bytes (item :: rest)).length - item.width.size =
          (Stack.bytes rest).length := by
        rw [Stack.bytes_cons, List.length_append, item.length_bytes, Nat.add_sub_cancel_left]
      rw [Stack.deepest, length, max_le_iff] at fits
      rw [Stack.bytes_cons] at h
      obtain ⟨top, uncovered⟩ := h.pullItem
      obtain ⟨gives, rests⟩ := ih uncovered nested' fits.2
      refine ⟨?_, rests.mono ?_⟩
      · rw [Machine.serve, gives_bind, gives_bind, gives_pure, top, gives]
      · rw [Stack.deepest, length]
        omega

/-! ### What else the calls change -/

/-- Two machines whose processors differ in the pointer of a stack at most. -/
def Moved (stack : Stack) (m m' : Machine Ram) : Prop :=
  ∃ address, m'.cpu = (m.withTop stack address).cpu

theorem Moved.refl (stack : Stack) (m : Machine Ram) : Moved stack m m :=
  ⟨m.top stack, by rw [withTop_top]⟩

theorem Moved.trans {m₁ m₂ m₃ : Machine Ram} (h : Moved stack m₁ m₂) (h' : Moved stack m₂ m₃) :
    Moved stack m₁ m₃ := by
  obtain ⟨_, first⟩ := h
  obtain ⟨address, second⟩ := h'
  exact ⟨address, second.trans (cpu_withTop_congr _ _ first)⟩

/-- The processor is told by where the pointer has gone. -/
theorem Moved.cpu_eq (h : Moved stack m m') : m'.cpu = (m.withTop stack (m'.top stack)).cpu := by
  obtain ⟨address, moved⟩ := h
  have top : m'.top stack = address := by
    rw [Machine.top, moved]
    exact top_withTop address
  rw [top, moved]

/-- Pushing a byte moves the pointer and leaves the rest of the processor alone. -/
theorem moved_pushByte (stack : Stack) (value : Byte) (m : Machine Ram) :
    Moved stack m (m.after (pushByte stack value)) := ⟨m.top stack - 1, rfl⟩

theorem moved_pullByte (stack : Stack) (m : Machine Ram) :
    Moved stack m (m.after (pullByte stack)) := ⟨m.top stack + 1, rfl⟩

theorem moved_pushItem (stack : Stack) (item : Stack.Item) (m : Machine Ram) :
    Moved stack m (m.after (pushItem stack item)) := by
  cases item with
  | byte value => exact moved_pushByte stack value m
  | word value =>
    rw [pushItem, after_pushWord]
    exact (moved_pushByte stack _ m).trans (moved_pushByte stack _ _)

theorem moved_pullItem (stack : Stack) (width : Stack.Width) (m : Machine Ram) :
    Moved stack m (m.after (pullItem stack width)) := by
  cases width with
  | byte =>
    rw [pullItem, after_bind, after_pure]
    exact moved_pullByte stack m
  | word =>
    rw [pullItem, after_bind, after_pure, after_pullWord]
    exact (moved_pullByte stack m).trans (moved_pullByte stack _)

/-- Whatever is called, only the pointer of the stack has moved. -/
theorem moved_serve (stack : Stack) (calls : List Stack.Call) (m : Machine Ram) :
    Moved stack m (m.after (serve stack calls)) := by
  -- call by call
  induction calls generalizing m with
  | nil => exact Moved.refl stack m
  | cons call calls ih =>
    cases call with
    | push item =>
      rw [serve, after_bind]
      exact (moved_pushItem stack item m).trans (ih _)
    | pull width =>
      rw [serve, after_bind, after_bind, after_pure]
      exact (moved_pullItem stack width m).trans (ih _)

end Resting

/-! ### Subroutines -/

/-- A subroutine call: the instruction, where the program continues after it and where the
subroutine begins. -/
structure Visit where
  row : Instruction
  site : Word
  target : Word

/-- The instructions that call a subroutine. -/
def subroutineCalls : List String := ["BSR", "LBSR", "JSR"]

/-- The instructions that call and the one that returns. -/
theorem rows_subroutine : ∀ row ∈ OpcodeMap.rows,
    (row.operation = .call ↔ row.mnemonic ∈ subroutineCalls) ∧
      (row.operation = .return ↔ row.mnemonic = "RTS") := by
  decide +kernel

section Subroutines

variable {μ : Type} [Memory μ]

/-- Make calls one inside the other and give where PC was after each. -/
def callAll : List Visit → Exec μ (List Word)
  | [] => return []
  | visit :: visits => do
    goto visit.site
    let _ ← perform visit.row.operation visit.target
    let reached := (← registers).pc
    let others ← callAll visits
    return reached :: others

/-- Return a number of times and give where PC was after each. -/
def returnAll (row : Instruction) (address : Word) : ℕ → Exec μ (List Word)
  | 0 => return []
  | n + 1 => do
    let _ ← perform row.operation address
    let reached := (← registers).pc
    let others ← returnAll row address n
    return reached :: others

end Subroutines

/-- Return addresses as they lie on the stack, that of the latest call on top. -/
def savedBytes (sites : List Word) : List Byte := Stack.bytes (sites.map .word)

theorem savedBytes_cons (site : Word) (sites : List Word) :
    savedBytes (site :: sites) = highByte site :: lowByte site :: savedBytes sites := rfl

/-- Each return address has two bytes. -/
theorem length_savedBytes (sites : List Word) : (savedBytes sites).length = 2 * sites.length := by
  induction sites with
  | nil => rfl
  | cons site sites ih =>
    rw [savedBytes_cons, List.length_cons, List.length_cons, ih, List.length_cons]
    omega

section Returns

variable {start : Word} {before : Ram} {deep : ℕ} {sites : List Word} {m : Machine Ram}

/-- One call: it leaves its own return address on top of those that are there. -/
theorem Rests.call (h : Rests .system start before deep (savedBytes sites) m) (site target : Word)
    (hl : 2 * (sites.length + 1) ≤ Ram.maxSize) :
    ((m.after (goto site)).after (perform .call target)).cpu.registers.pc = target ∧
      Rests .system start before (max deep (2 * (sites.length + 1))) (savedBytes (site :: sites))
        ((m.after (goto site)).after (perform .call target)) := by
  have length := length_savedBytes sites
  have there : Rests .system start before deep (savedBytes sites) (m.after (goto site)) :=
    h.congr rfl rfl
  have pushed := there.pushWord site (by omega)
  rw [after_perform_call]
  refine ⟨rfl, ?_⟩
  rw [savedBytes_cons, Nat.mul_succ, ← length]
  exact pushed.congr rfl rfl

/-- One return: it goes to the address on top and uncovers the others. -/
theorem Rests.return {site : Word} (address : Word)
    (h : Rests .system start before deep (savedBytes (site :: sites)) m) :
    (m.after (perform .return address)).cpu.registers.pc = site ∧
      Rests .system start before deep (savedBytes sites) (m.after (perform .return address)) := by
  obtain ⟨gives, uncovered⟩ := h.pullWord
  rw [after_perform_return, gives]
  exact ⟨rfl, uncovered.congr rfl rfl⟩

/-- **Calls inside calls.** Each is reached, and their return addresses lie on the stack, the last
one on top. -/
theorem Rests.callAll {visits : List Visit}
    (h : Rests .system start before deep (savedBytes sites) m)
    (calling : ∀ visit ∈ visits, visit.row.operation = .call)
    (hl : 2 * (sites.length + visits.length) ≤ Ram.maxSize) :
    m.gives (callAll visits) = visits.map Visit.target ∧
      Rests .system start before (max deep (2 * (sites.length + visits.length)))
        (savedBytes ((visits.map Visit.site).reverse ++ sites))
        (m.after (Machine.callAll visits)) := by
  induction visits generalizing deep sites m with
  | nil => exact ⟨rfl, h.mono (le_max_left _ _)⟩
  | cons visit visits ih =>
    rw [List.length_cons] at hl
    obtain ⟨reached, rests⟩ := h.call visit.site visit.target (by omega)
    obtain ⟨others, all⟩ := ih rests
      (fun v hv => calling v (List.mem_cons_of_mem _ hv)) (by rw [List.length_cons]; omega)
    have first := calling visit List.mem_cons_self
    simp only [Machine.callAll, first, gives_bind, gives_pure, gives_registers, after_bind,
      after_pure, after_registers, reached, others]
    refine ⟨rfl, ?_⟩
    -- the first call is the last one of the reversed list, right above what was there
    rw [List.map_cons, List.reverse_cons, List.append_assoc, List.singleton_append]
    refine all.mono ?_
    rw [List.length_cons, List.length_cons]
    omega

/-- **Returns.** As many as there are return addresses go back through all of them. -/
theorem Rests.returnAll {row : Instruction} (returning : row.operation = .return) (address : Word)
    (h : Rests .system start before deep (savedBytes sites) m) :
    m.gives (returnAll row address sites.length) = sites ∧
      Rests .system start before deep []
        (m.after (Machine.returnAll row address sites.length)) := by
  induction sites generalizing m with
  | nil => exact ⟨rfl, h⟩
  | cons site sites ih =>
    obtain ⟨reached, rests⟩ := h.return address
    obtain ⟨others, all⟩ := ih rests
    simp only [List.length_cons, Machine.returnAll, returning, gives_bind, gives_pure,
      gives_registers, after_bind, after_pure, after_registers, reached, others]
    exact ⟨trivial, all⟩

end Returns

/-- **Last in, first out.** On either stack of any machine with a whole memory, wherever the stack
begins: if some calls are well nested and their bytes fit into memory at all times, the pulls give
what a list would give. The processor is as before but for the pointer, which is below its start by
the bytes that are left, so it is back if none are. No memory is written but as far below the start
as the stack has grown. Subroutine calls and returns are such calls: up to 32768 calls one inside
the other are followed by returns to where they were made, the last one first. -/
theorem last_in_first_out (m : Machine Ram) (hs : m.memory.contents.size = Ram.maxSize) :
    (∀ (stack : Stack) (calls : List Stack.Call) (pulled left : List Stack.Item),
      Stack.lifo [] calls = some (pulled, left) → Stack.deepest 0 calls ≤ 65536 →
        m.gives (serve stack calls) = pulled ∧
        (m.after (serve stack calls)).cpu =
          (m.withTop stack (m.top stack - UInt16.ofNat (Stack.bytes left).length)).cpu ∧
        (left = [] → (m.after (serve stack calls)).cpu = m.cpu) ∧
        ∀ a, (∀ k < Stack.deepest 0 calls, a ≠ m.top stack - UInt16.ofNat (k + 1)) →
          (m.after (serve stack calls)).memory.read a = m.memory.read a) ∧
    ∀ (visits : List Visit) (rts : Instruction) (address : Word),
      (∀ visit ∈ visits, visit.row ∈ OpcodeMap.rows ∧ visit.row.mnemonic ∈ subroutineCalls) →
      rts ∈ OpcodeMap.rows → rts.mnemonic = "RTS" → visits.length ≤ 32768 →
        m.gives (callAll visits) = visits.map Visit.target ∧
        (m.after (callAll visits)).gives (returnAll rts address visits.length) =
          (visits.map Visit.site).reverse ∧
        ((m.after (callAll visits)).after (returnAll rts address visits.length)).top .system =
          m.top .system ∧
        ∀ a, (∀ k < 2 * visits.length, a ≠ m.top .system - UInt16.ofNat (k + 1)) →
          ((m.after (callAll visits)).after
            (returnAll rts address visits.length)).memory.read a = m.memory.read a := by
  have back (stack : Stack) : m.top stack - UInt16.ofNat 0 = m.top stack := by simp
  refine ⟨fun stack calls pulled left nested fits => ?_, fun visits rts address hv hr name hd => ?_⟩
  · -- one stack, with pushes and pulls in between each other
    have fresh : Rests stack (m.top stack) m.memory 0 (Stack.bytes []) m := .nil hs stack
    obtain ⟨gives, rests⟩ := fresh.serve nested fits
    have cpu := (moved_serve stack calls m).cpu_eq
    rw [rests.top] at cpu
    refine ⟨gives, cpu, fun done => ?_, fun a ha => rests.elsewhere a ?_⟩
    · rw [cpu, done]
      exact (congrArg (fun a => (m.withTop stack a).cpu) (back stack)).trans
        (congrArg Machine.cpu (withTop_top stack m))
    · rwa [Nat.zero_max]
  · -- subroutines, calling each other and then returning
    have calling : ∀ visit ∈ visits, visit.row.operation = .call := fun v h =>
      (rows_subroutine v.row (hv v h).1).1.2 (hv v h).2
    have returning : rts.operation = .return := (rows_subroutine rts hr).2.2 name
    have fresh : Rests .system (m.top .system) m.memory 0 (savedBytes []) m := .nil hs .system
    obtain ⟨reached, called⟩ := fresh.callAll calling (by
      rw [List.length_nil, Nat.zero_add, Ram.maxSize]
      omega)
    rw [List.append_nil] at called
    have returned := called.returnAll returning address
    rw [List.length_reverse, List.length_map] at returned
    obtain ⟨sites, rests⟩ := returned
    refine ⟨reached, sites, rests.top.trans (back .system), fun a ha => rests.elsewhere a ?_⟩
    rwa [List.length_nil, Nat.zero_add, Nat.zero_max]

/-- A machine whose stack goes around at once. -/
def oneByteBelow : Machine Ram :=
  { Machine.ofMemory (Ram.zeroed Ram.maxSize) with
    cpu := { Cpu.initial with registers := { Registers.zero with s := 1 } } }

/-- A word over address zero with a byte below it, and a call inside a call. -/
theorem last_in_first_out_oneByteBelow :
    oneByteBelow.memory.contents.size = Ram.maxSize ∧
      oneByteBelow.gives (serve .system
        [.push (.word 0x1234), .push (.byte 0x56), .pull .byte, .pull .word]) =
          [.byte 0x56, .word 0x1234] ∧
      (oneByteBelow.after (serve .system
        [.push (.word 0x1234), .push (.byte 0x56), .pull .byte, .pull .word])).cpu =
          oneByteBelow.cpu ∧
      (oneByteBelow.after (callAll
          [⟨.row 0x8D "BSR" .rel8 7 .call, 0x102, 0x120⟩,
            ⟨.row 0xBD "JSR" .extended 8 .call, 0x125, 0x2000⟩])).gives
        (returnAll (.inherent 0x39 "RTS" 5 .return) 0 2) = [0x125, 0x102] := by
  have whole : oneByteBelow.memory.contents.size = Ram.maxSize := Array.size_replicate
  obtain ⟨serves, returns⟩ := last_in_first_out oneByteBelow whole
  -- a word and a byte pushed around the end of memory, and two calls inside each other
  obtain ⟨pulled, -, back, -⟩ := serves .system
    [.push (.word 0x1234), .push (.byte 0x56), .pull .byte, .pull .word]
    [.byte 0x56, .word 0x1234] [] rfl (by decide)
  obtain ⟨-, sites, -⟩ := returns
    [⟨.row 0x8D "BSR" .rel8 7 .call, 0x102, 0x120⟩,
      ⟨.row 0xBD "JSR" .extended 8 .call, 0x125, 0x2000⟩]
    (.inherent 0x39 "RTS" 5 .return) 0 (by decide +kernel) (by decide +kernel) rfl (by decide)
  exact ⟨whole, pulled, back rfl, sites⟩

end Machine

end Machine6809
