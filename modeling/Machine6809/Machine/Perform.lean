import Machine6809.Machine.Basic

/-!
# Performing operations

`Machine.perform` carries out an operation on the operand at an address and gives the cycles that
it adds to the cost of its instruction. Only pushes and pulls, a return from an interrupt and long
branches add any.
-/

namespace Machine6809

namespace Machine

variable {μ : Type}

/-- Write the register that a transfer names; a write to one that does not exist is dropped. -/
def transferTo (code : Nat) (value : Word) : Exec μ Unit :=
  match RegisterName.ofTransferCode? code with
  | some name => setRegister name value
  | none => note (.transferIgnored code)

/-- The word that a transfer reads. -/
def transferFrom (code : Nat) : Exec μ Word := do
  return (← registers).transferValue (RegisterName.ofTransferCode? code)

/-- Go to an address if a condition holds, and say whether it did. -/
def branchTo (condition : Condition) (address : Word) : Exec μ Bool := do
  if condition.holds (← registers).cc then
    goto address
    return true
  else
    return false

/-- LEA to this register reports in Z whether the address is zero. It does so for the index
registers and not for the stack pointers. -/
def reportsZero : RegisterName → Bool
  | .x | .y => true
  | _ => false

variable [Memory μ]

/-- Push the entire state with E set. -/
def pushEntireState : Exec μ Unit := do
  modifyRegisters fun r => { r with cc := { r.cc with e := true } }
  let _ ← pushFrame .system entireState

/-- Mask the interrupts FIRQ and IRQ. -/
def maskInterrupts : Exec μ Unit :=
  modifyRegisters fun r => { r with cc := { r.cc with f := true, i := true } }

/-- Continue at the address that a vector holds. -/
def gotoVector (vector : Word) : Exec μ Unit := do
  goto (← loadWord vector)

/-- Return from an interrupt: CC first, the rest as its E tells. Gives the extra cycles. -/
def returnFromInterrupt : Exec μ Nat := do
  let _ ← pullFrame .system 0x01
  -- E as it has just been pulled
  let entire := (← registers).cc.e
  if entire then
    let _ ← pullFrame .system 0x7E
  let _ ← pullFrame .system 0x80
  return if entire then 9 else 0

/-- Carry out an operation and give the cycles it adds. -/
def perform (operation : Operation) (address : Word) : Exec μ Nat := do
  match operation with
  | .binary op acc =>
    let operand ← load address
    let r ← registers
    let (value, cc) := op.apply (acc.get r) operand r.cc
    modifyRegisters fun r => acc.set value { r with cc }
    return 0
  | .modify op =>
    let operand ← load address
    let (value, cc) := op.apply operand (← registers).cc
    -- TST does not write the byte back
    if op = .tst then
      setFlags cc
    else
      store address value
      setFlags cc
    return 0
  | .modifyAcc op acc =>
    modifyRegisters fun r =>
      let (value, cc) := op.apply (acc.get r) r.cc
      acc.set value { r with cc }
    return 0
  | .store acc =>
    let value := acc.get (← registers)
    store address value
    setFlags ((← registers).cc.withLogic8 value)
    return 0
  | .loadWord name =>
    let value ← loadWord address
    setFlags ((← registers).cc.withLogic16 value)
    setRegister name value
    return 0
  | .storeWord name =>
    let value := (← registers).read name
    storeWord address value
    setFlags ((← registers).cc.withLogic16 value)
    return 0
  | .compareWord name =>
    let operand ← loadWord address
    let r ← registers
    setFlags (sub16 (r.read name) operand r.cc).2
    return 0
  | .addD =>
    let operand ← loadWord address
    modifyRegisters fun r =>
      let (value, cc) := add16 r.d operand r.cc
      { r with cc }.setD value
    return 0
  | .subD =>
    let operand ← loadWord address
    modifyRegisters fun r =>
      let (value, cc) := sub16 r.d operand r.cc
      { r with cc }.setD value
    return 0
  | .lea name =>
    if reportsZero name then
      modifyRegisters fun r => { r with cc := { r.cc with z := address == 0 } }
    setRegister name address
    return 0
  | .branch condition =>
    let _ ← branchTo condition address
    return 0
  | .longBranch condition =>
    return (← branchTo condition address).toNat
  | .jump =>
    goto address
    return 0
  | .call =>
    pushWord .system (← registers).pc
    goto address
    return 0
  | .return =>
    goto (← pullWord .system)
    return 0
  | .push stack => pushFrame stack (← load address)
  | .pull stack => pullFrame stack (← load address)
  | .transfer =>
    let codes := (← load address).toNat
    transferTo (codes % 16) (← transferFrom (codes / 16))
    return 0
  | .exchange =>
    let codes := (← load address).toNat
    -- both are read before either is written
    let first ← transferFrom (codes / 16)
    let second ← transferFrom (codes % 16)
    transferTo (codes / 16) second
    transferTo (codes % 16) first
    return 0
  | .orCC =>
    let mask := Flags.ofByte (← load address)
    setFlags ((← registers).cc.or mask)
    return 0
  | .andCC =>
    let mask := Flags.ofByte (← load address)
    setFlags ((← registers).cc.and mask)
    return 0
  | .cwai =>
    let mask := Flags.ofByte (← load address)
    setFlags ((← registers).cc.and mask)
    pushEntireState
    modifyCpu fun cpu => { cpu with wait := .cwai }
    return 0
  | .sync =>
    modifyCpu fun cpu => { cpu with wait := .sync }
    return 0
  | .nop => return 0
  | .rti => returnFromInterrupt
  | .swi vector masks =>
    pushEntireState
    if masks then maskInterrupts
    gotoVector vector
    return 0
  | .mul =>
    modifyRegisters fun r =>
      let product := r.a.toUInt16 * r.b.toUInt16
      { r with cc := { r.cc with z := product == 0, c := bitOf (lowByte product) 7 } }.setD product
    return 0
  | .sex =>
    modifyRegisters fun r =>
      let value := signExtend r.b
      { r with cc := r.cc.withResult16 value }.setD value
    return 0
  | .daa =>
    modifyRegisters fun r =>
      let (value, cc) := decimalAdjust r.a r.cc
      { r with a := value, cc }
    return 0
  | .abx =>
    modifyRegisters fun r => { r with x := r.x + r.b.toUInt16 }
    return 0

end Machine

end Machine6809
