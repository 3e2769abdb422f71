import Machine6809.Text.Hex

/-!
# What the bus tells its devices

A `BusEvent` goes to every device at once. A `ProbeEvent` is anything that a single device can
see: such an event, being attached, or an access to one of its addresses.
-/

namespace Machine6809

/-- An event for all devices. -/
inductive BusEvent where
  | init
  | quit
  | activate
  | deactivate
  | render
  /-- Time went on, by so many sixty-fourths of a unit. -/
  | update (ticks : Int)
  | reset
  deriving DecidableEq, Repr

/-- An event in words. -/
def BusEvent.text : BusEvent → String
  | .init => "init"
  | .quit => "quit"
  | .activate => "activate"
  | .deactivate => "deactivate"
  | .render => "render"
  | .update ticks => s!"update {ticks}"
  | .reset => "Reset"

/-- What a device has seen the bus do. -/
inductive ProbeEvent where
  /-- It was offered the address given as its first. -/
  | attached (base : Word)
  | signalled (event : BusEvent)
  | read (address : Word)
  | written (address : Word) (value : Byte)
  deriving DecidableEq, Repr

/-- What a device has seen, in words. -/
def ProbeEvent.text : ProbeEvent → String
  | .attached base => s!"attach {hexWord base}"
  | .signalled event => event.text
  | .read address => s!"read {hexWord address}"
  | .written address value => s!"write {hexWord address} {hexByte value}"

end Machine6809
