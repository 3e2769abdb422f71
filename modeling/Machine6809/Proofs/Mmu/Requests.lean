import Machine6809.Mmu.RegisterBlock
import Machine6809.Mmu.Window
import Mathlib.Data.Nat.Notation

/-!
# Runs of the memory management unit

Everything that can be asked of the unit is a `Request`: commands, writes to the register block,
the accesses of the two windows, and what the board calls directly. `Mmu.serve` answers one
request and `Mmu.serveAll` a list of them, in order. A request that fails is answered too; what it
has done until then stays. The units that come about in this way are `Mmu.Reachable`, and
`Mmu.ReachableBy` those that come about by requests of some kind.

Two kinds of request are told apart. Break marks can be relied on in runs that allocate with plain
templates only (`Request.Plain`); the commands take care of that themselves. The payload of a free
node can be relied on in runs that do not write to payloads by position (`Request.Guarded`); the
guest has no way of doing that.

The size of the pool is any `n < 65536`, so that positions and counts fit in words. The board has
`poolNodes`, that is 52428.
-/

namespace Machine6809

namespace Mmu

/-- What can be asked of the unit. -/
inductive Request where
  /-- Run the command with this code. -/
  | command (code : Byte)
  | writeRegister (offset : Word) (value : Byte)
  | setArg1 (value : Word)
  | setArg2 (value : Word)
  | setCursor (position : Word)
  | select (w : ℕ) (handle : Option Word)
  | allocate (count : ℕ) (template : NodeStatus)
  | free (position : Word)
  | readWindow (w : ℕ) (offset : Word)
  | writeWindow (w : ℕ) (offset : Word) (value : Byte)
  | writePayload (position : Word) (offset : ℕ) (value : Byte)
  | reset
  deriving DecidableEq

/-- The request does not allocate nodes that carry a break mark from the start. -/
def Request.Plain : Request → Prop
  | .allocate _ template => template.fragged = false
  | _ => True

instance : DecidablePred Request.Plain := fun r =>
  match r with
  | .allocate _ template => inferInstanceAs (Decidable (template.fragged = false))
  | .command _ | .writeRegister _ _ | .setArg1 _ | .setArg2 _ | .setCursor _ | .select _ _
  | .free _ | .readWindow _ _ | .writeWindow _ _ _ | .writePayload _ _ _ | .reset =>
    inferInstanceAs (Decidable True)

/-- The request does not write to a payload by position, past the cursor and the windows. -/
def Request.Guarded : Request → Prop
  | .writePayload _ _ _ => False
  | _ => True

instance : DecidablePred Request.Guarded := fun r =>
  match r with
  | .writePayload _ _ _ => inferInstanceAs (Decidable False)
  | .command _ | .writeRegister _ _ | .setArg1 _ | .setArg2 _ | .setCursor _ | .select _ _
  | .allocate _ _ | .free _ | .readWindow _ _ | .writeWindow _ _ _ | .reset =>
    inferInstanceAs (Decidable True)

variable {n : ℕ}

/-- The unit after an action that does nothing when it fails. -/
def settle (m : Mmu n) : Except MmuError (Mmu n) → Mmu n
  | .ok m => m
  | .error _ => m

/-- Answer a request. -/
def serve (m : Mmu n) : Request → Mmu n
  | .command code => m.run code
  | .writeRegister offset value => m.writeRegister offset value
  | .setArg1 value => { m with arg1 := value }
  | .setArg2 value => { m with arg2 := value }
  | .setCursor position => m.settle (m.setCursor position)
  | .select w handle => m.settle (m.select w handle)
  | .allocate count template => (m.allocate count template).2
  | .free position => (m.free position).2
  | .readWindow w offset => (m.readWindow w offset).2
  | .writeWindow w offset value => (m.writeWindow w offset value).2
  | .writePayload position offset value => (m.writePayload position offset value).2
  | .reset => m.reset

/-- Answer requests one after the other. -/
def serveAll (m : Mmu n) (requests : List Request) : Mmu n := requests.foldl serve m

theorem serveAll_cons (m : Mmu n) (r : Request) (rs : List Request) :
    m.serveAll (r :: rs) = (m.serve r).serveAll rs := rfl

theorem serveAll_append (m : Mmu n) (before after : List Request) :
    m.serveAll (before ++ after) = (m.serveAll before).serveAll after := List.foldl_append

theorem serveAll_concat (m : Mmu n) (rs : List Request) (r : Request) :
    m.serveAll (rs ++ [r]) = (m.serveAll rs).serve r := m.serveAll_append rs [r]

/-- The command that a request makes the unit run, whether it is asked for directly or by a write
to the command register. -/
def Request.command? : Request → Option Command
  | .command code => Command.ofCode? code
  | .writeRegister offset value =>
    if RegisterByte.ofOffset offset.toNat = .command then Command.ofCode? value else none
  | _ => none

/-- The unit is to be as it was in the beginning. -/
def Request.Resets (r : Request) : Prop := r = .reset ∨ r.command? = some .reset

/-- The request says what window `w` is to show. Of the two bytes of its register the low one
does. -/
def Request.Selects (w : ℕ) : Request → Prop
  | .select v _ => v = w
  | .writeRegister offset _ => RegisterByte.ofOffset offset.toNat = .word (.window w) true
  | _ => False

/-! ### Reachable units -/

/-- The unit comes about from a new one by requests of the given kind. -/
def ReachableBy (kind : Request → Prop) (m : Mmu n) : Prop :=
  ∃ (nonempty : 0 < n) (rs : List Request),
    (∀ r ∈ rs, kind r) ∧ m = (initial nonempty).serveAll rs

/-- The unit comes about from a new one by any requests. -/
def Reachable (m : Mmu n) : Prop := m.ReachableBy fun _ => True

/-! ### A small unit -/

/-- A small unit has six nodes. -/
theorem six_pos : 0 < 6 := by decide

/-- Two chains of one node each; the first is lengthened, and the second is freed. -/
def sampleRequests : List Request :=
  [.setArg1 1, .command Command.alloc.code, .setArg1 1, .command Command.alloc.code,
    .setCursor 0, .command Command.insertAfter.code, .setArg1 1, .command Command.free.code]

/-- A small unit with one chain that has a break: it goes from node 0 to node 2, where the cursor
is, and node 1 is free. -/
def sampleUnit : Mmu 6 := (initial six_pos).serveAll sampleRequests

end Mmu

end Machine6809
