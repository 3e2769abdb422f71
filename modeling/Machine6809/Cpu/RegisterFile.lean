import Machine6809.Cpu.Registers

/-!
# The register file

Observers do not see the processor's registers but a published copy of them. They may write to
the copy; such a write is posted, shows at once in the copy, and is adopted by the processor the
next time it starts an instruction. `Posted` keeps the posted writes field by field, and the
condition codes one by one, so that an observer that sets one code disturbs no other.

* `RegisterFile.write` posts a write,
* `RegisterFile.take` hands the posted writes over and forgets them,
* `RegisterFile.publish` replaces the copy and lays the writes still posted over it.
-/

namespace Machine6809

/-- Writes that have been posted and not adopted: the last value of each field, if there is one. -/
structure Posted where
  a : Option Byte
  b : Option Byte
  x : Option Word
  y : Option Word
  u : Option Word
  s : Option Word
  pc : Option Word
  dp : Option Byte
  cc : PerFlag (Option Bool)
  deriving DecidableEq, Repr, Inhabited

namespace Posted

/-- Nothing posted. -/
def empty : Posted :=
  { a := none, b := none, x := none, y := none, u := none, s := none, pc := none, dp := none,
    cc := PerFlag.all none }

/-- Post one register as a whole. Writing the condition codes posts each of the eight. -/
def recordWhole (p : Posted) (name : RegisterName) (value : Word) : Posted :=
  match name with
  | .d => { p with a := some (highByte value), b := some (lowByte value) }
  | .x => { p with x := some value }
  | .y => { p with y := some value }
  | .u => { p with u := some value }
  | .s => { p with s := some value }
  | .pc => { p with pc := some value }
  | .a => { p with a := some (lowByte value) }
  | .b => { p with b := some (lowByte value) }
  | .cc => { p with cc := (Flags.ofByte (lowByte value)).map some }
  | .dp => { p with dp := some (lowByte value) }

/-- Post one write over those already posted. -/
def record (p : Posted) : RegisterWrite → Posted
  | .whole name value => p.recordWhole name value
  | .codes mask on =>
    { p with cc := p.cc.zipWith (fun old selected => if selected then some on else old) mask }

/-- Lay the posted writes over a set of registers. -/
def overlay (p : Posted) (r : Registers) : Registers :=
  { a := p.a.getD r.a, b := p.b.getD r.b, x := p.x.getD r.x, y := p.y.getD r.y,
    u := p.u.getD r.u, s := p.s.getD r.s, pc := p.pc.getD r.pc, dp := p.dp.getD r.dp,
    cc := p.cc.zipWith Option.getD r.cc }

end Posted

/-- The published registers and the writes posted to them. -/
structure RegisterFile where
  /-- What observers read. -/
  published : Registers
  /-- What the processor has not adopted yet. -/
  posted : Posted
  deriving DecidableEq, Repr, Inhabited

namespace RegisterFile

/-- A file that shows zero registers and holds no writes. -/
def initial : RegisterFile := { published := Registers.zero, posted := Posted.empty }

/-- Post a write: it shows in the published registers at once. -/
def write (file : RegisterFile) (w : RegisterWrite) : RegisterFile :=
  { published := file.published.write w, posted := file.posted.record w }

/-- The posted writes, and the file without them. -/
def take (file : RegisterFile) : Posted × RegisterFile :=
  (file.posted, { file with posted := Posted.empty })

/-- Publish the processor's registers; writes still posted stay visible. -/
def publish (file : RegisterFile) (r : Registers) : RegisterFile :=
  { file with published := file.posted.overlay r }

end RegisterFile

end Machine6809
