/-
Switching the power of the ports of USB hubs. Hubs are looked for anew each time, and numbered in the order of
enumeration among those that can switch their ports, all at once or one by one, or have port indicators.
-/
import PrinterMotion.Hub.Bus

namespace PrinterMotion

/-- Why a port cannot be switched. -/
inductive HubError where
  | enumeration (reason : String)
  | hubNotFound (hub found : Nat)
  | invalidPort (hub : Nat) (port : UInt16) (ports : UInt8)
  | openFailed (reason : String)
  | controlFailed (reason : String)
deriving Repr, DecidableEq

namespace HubError

/-- The wording of an error. -/
def message : HubError → String
  | enumeration reason => "Failed to access USB: " ++ reason
  | hubNotFound hub found => s!"Hub {hub} not found ({found} hubs with port power control)"
  | invalidPort hub port ports => s!"Hub {hub} has no port {port.toNat} ({ports.toNat} ports)"
  | openFailed reason => "Failed to open device: " ++ reason
  | controlFailed reason => "Failed to control usb hub: " ++ reason

/-- A number for callers that know no more than whether finding, opening or switching failed. -/
def code : HubError → Nat
  | enumeration _ => 1
  | hubNotFound .. => 1
  | invalidPort .. => 1
  | openFailed _ => 2
  | controlFailed _ => 3

end HubError

/-- A hub whose ports can be switched. -/
structure Hub where
  device : UsbDevice
  ports : UInt8
  hasIndicators : Bool
deriving Repr, DecidableEq

namespace Hub

/-- The device class of hubs. -/
def deviceClass : UInt8 := 9

/-- The length of the part of a hub descriptor that all hubs have. -/
def headerLength : Nat := 7

/-- The size of the buffer for a descriptor. -/
def bufferSize : Nat := 1024

/-- How long a transfer may take, in milliseconds. -/
def timeout : Nat := 1000

/-- The request for the descriptor of a hub. -/
def descriptorRequest : ControlRequest := ⟨0xA0, 0x06, 0x2900, 0⟩

/-- The request that switches the power of a port. -/
def powerRequest (port : UInt16) (on : Bool) : ControlRequest := ⟨0x23, if on then 0x03 else 0x01, 8, port⟩

/-- The hub that a descriptor describes, unless the descriptor is too short, or the ports can be switched neither
all at once nor one by one and have no indicators. -/
def ofDescriptor? (device : UsbDevice) (descriptor : Reading) : Option Hub :=
  if descriptor.count ≤ headerLength then none
  else
    let characteristics := descriptor.byte 3
    let indicators := characteristics &&& 0x80 != 0
    if !indicators && 2 ≤ characteristics &&& 0x03 then none
    else some ⟨device, descriptor.byte 2, indicators⟩

variable {σ : Type}

/-- The hub that a device is, if it can be opened and read. -/
def probe (bus : Bus σ) (device : UsbDevice) : Option Hub × Bus σ :=
  match bus.connect device with
  | (.error _, bus) => (none, bus)
  | (.ok _, bus) =>
    match bus.read device descriptorRequest bufferSize timeout with
    | (.error _, bus) => (none, bus)
    | (.ok descriptor, bus) => (ofDescriptor? device descriptor, bus)

/-- The hubs among devices. -/
def probeAll (bus : Bus σ) : List UsbDevice → List Hub × Bus σ
  | [] => ([], bus)
  | device :: rest =>
    if device.deviceClass = deviceClass then
      let (hub, bus) := probe bus device
      let (hubs, bus) := probeAll bus rest
      (hub.toList ++ hubs, bus)
    else probeAll bus rest

/-- Looks for the hubs whose ports can be switched. -/
def findAll (bus : Bus σ) : Except HubError (List Hub) × Bus σ :=
  match bus.enumerate with
  | (.error reason, bus) => (.error (.enumeration reason), bus)
  | (.ok devices, bus) =>
    let (hubs, bus) := probeAll bus devices
    (.ok hubs, bus)

/-- Switches the power of a port, where ports are counted from one. -/
def setPower (bus : Bus σ) (hub : Nat) (port : UInt16) (on : Bool) : Except HubError Unit × Bus σ :=
  match findAll bus with
  | (.error e, bus) => (.error e, bus)
  | (.ok hubs, bus) =>
    match hubs[hub]? with
    | none => (.error (.hubNotFound hub hubs.length), bus)
    | some found =>
      if port = 0 ∨ found.ports.toNat < port.toNat then
        (.error (.invalidPort hub port found.ports), bus)
      else
        match bus.connect found.device with
        | (.error reason, bus) => (.error (.openFailed reason), bus)
        | (.ok _, bus) =>
          match bus.write found.device (powerRequest port on) [] timeout with
          | (.error reason, bus) => (.error (.controlFailed reason), bus)
          | (.ok _, bus) => (.ok (), bus)

end Hub

end PrinterMotion
