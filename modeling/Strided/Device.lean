/-!
# Devices

A `Device` says where the heavy operations on an array run: on the host, or through the
bridge to an accelerator. Bridges are told apart by identity; two of one name are two.
-/

namespace Strided

/-- **A bridge as arrays know it**: its identity and the name it shows. -/
structure Handle where
  id : Nat
  name : String
  deriving DecidableEq

/-- **Where the heavy operations on an array run.** -/
inductive Device where
  | host
  | accelerated (bridge : Handle)
  deriving DecidableEq, Inhabited

namespace Device

/-- The bridge of a device that has one. -/
def bridge? : Device → Option Handle
  | host => none
  | accelerated b => some b

/-- Whether the device has a bridge. -/
def isAccelerated (d : Device) : Bool := d.bridge?.isSome

/-- Whether the device is the host. -/
def isHost (d : Device) : Bool := d.bridge?.isNone

/-- The text that shows a device. -/
def text : Device → String
  | host => "Host"
  | accelerated b => "Accelerated:" ++ b.name

/-- **The bridge that serves several operands**: that of the first accelerated one. -/
def selectAccelerated (devices : List Device) : Option Handle := devices.findSome? bridge?

end Device

end Strided
