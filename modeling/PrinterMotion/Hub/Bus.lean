/-
The devices on a USB bus, as a program sees them. What is behind the bus is arbitrary: it has a state, and
every operation is answered from the state and may change it. Operations are noted in their order, failing
ones included.
-/
namespace PrinterMotion

/-- A device as enumeration shows it. -/
structure UsbDevice where
  bus : UInt16
  address : UInt16
  deviceClass : UInt8
deriving Repr, DecidableEq

/-- The fields of a control transfer. -/
structure ControlRequest where
  requestType : UInt8
  request : UInt8
  value : UInt16
  index : UInt16
deriving Repr, DecidableEq

/-- An operation on the bus. -/
inductive UsbCall where
  | enumerate
  | connect (device : UsbDevice)
  /-- A read into a buffer of a size, with a timeout in milliseconds. -/
  | read (device : UsbDevice) (request : ControlRequest) (size timeout : Nat)
  | write (device : UsbDevice) (request : ControlRequest) (data : List UInt8) (timeout : Nat)
deriving Repr, DecidableEq

/-- What was read: the count of bytes that the device reports, and the bytes at the start of the buffer,
which is zero behind them. -/
structure Reading where
  count : Nat
  bytes : List UInt8
deriving Repr, DecidableEq

/-- A byte of the buffer. -/
def Reading.byte (r : Reading) (i : Nat) : UInt8 := r.bytes.getD i 0

/-- How what is behind a bus answers; errors are texts. -/
structure UsbStack (σ : Type) where
  devices : σ → Except String (List UsbDevice) × σ
  connect : UsbDevice → σ → Except String Unit × σ
  read : UsbDevice → ControlRequest → σ → Except String Reading × σ
  write : UsbDevice → ControlRequest → σ → Except String Nat × σ

/-- A bus in use: what answers, its state, and the operations so far. -/
structure Bus (σ : Type) where
  stack : UsbStack σ
  state : σ
  calls : List UsbCall

namespace Bus

variable {σ : Type}

/-- A bus on which nothing has been done yet. -/
def of (stack : UsbStack σ) (state : σ) : Bus σ := ⟨stack, state, []⟩

/-- The bus after an operation. -/
def after (b : Bus σ) (call : UsbCall) (state : σ) : Bus σ :=
  { b with state, calls := b.calls ++ [call] }

/-- Lists the devices. -/
def enumerate (b : Bus σ) : Except String (List UsbDevice) × Bus σ :=
  let (answer, state) := b.stack.devices b.state
  (answer, b.after .enumerate state)

/-- Opens a device. -/
def connect (b : Bus σ) (device : UsbDevice) : Except String Unit × Bus σ :=
  let (answer, state) := b.stack.connect device b.state
  (answer, b.after (.connect device) state)

/-- Reads from an open device. -/
def read (b : Bus σ) (device : UsbDevice) (request : ControlRequest) (size timeout : Nat) :
    Except String Reading × Bus σ :=
  let (answer, state) := b.stack.read device request b.state
  (answer, b.after (.read device request size timeout) state)

/-- Writes to an open device. -/
def write (b : Bus σ) (device : UsbDevice) (request : ControlRequest) (data : List UInt8)
    (timeout : Nat) : Except String Nat × Bus σ :=
  let (answer, state) := b.stack.write device request b.state
  (answer, b.after (.write device request data timeout) state)

end Bus

end PrinterMotion
