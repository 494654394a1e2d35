/-
Switching a port, as told by the bus. The calls of a run, each with the answer that what is behind the bus
gives it, are the exchanges of the run, and they are all that is known of the devices: any answer may differ
from the one before. Looking at a device is one of five courses of at most two exchanges, of which one ends
with a hub, and the hubs are counted over the courses of all devices. Switching a port is one of six courses
from there on. In two of them there is a write, which is the last exchange and is meant for the hub that was
asked for.
-/
import Mathlib.Data.Nat.Bitwise
import Mathlib.Tactic
import PrinterMotion.Hub.Power

namespace PrinterMotion

variable {σ : Type}

/-! ## Exchanges -/

/-- An operation on the bus with its answer. -/
inductive Exchange where
  | enumerate (answer : Except String (List UsbDevice))
  | connect (device : UsbDevice) (answer : Except String Unit)
  | read (device : UsbDevice) (request : ControlRequest) (size timeout : Nat) (answer : Except String Reading)
  | write (device : UsbDevice) (request : ControlRequest) (data : List UInt8) (timeout : Nat)
    (answer : Except String Nat)

namespace Exchange

/-- The operation without its answer. -/
def call : Exchange → UsbCall
  | enumerate _ => .enumerate
  | connect device _ => .connect device
  | read device request size timeout _ => .read device request size timeout
  | write device request data timeout _ => .write device request data timeout

/-- A write, whatever is answered to it. -/
def isWrite : Exchange → Bool
  | write .. => true
  | _ => false

/-- A write that succeeded. -/
def isWritten : Exchange → Bool
  | write _ _ _ _ (.ok _) => true
  | _ => false

end Exchange

namespace UsbStack

/-- What is answered to a call, and the state behind it. -/
def answer (stack : UsbStack σ) (state : σ) : UsbCall → Exchange × σ
  | .enumerate => (.enumerate (stack.devices state).1, (stack.devices state).2)
  | .connect device => (.connect device (stack.connect device state).1, (stack.connect device state).2)
  | .read device request size timeout =>
    (.read device request size timeout (stack.read device request state).1, (stack.read device request state).2)
  | .write device request data timeout =>
    (.write device request data timeout (stack.write device request state).1, (stack.write device request state).2)

/-- The exchanges of calls one after another. -/
def exchanges (stack : UsbStack σ) : σ → List UsbCall → List Exchange
  | _, [] => []
  | state, call :: rest => (stack.answer state call).1 :: stack.exchanges (stack.answer state call).2 rest

/-- The state behind calls one after another. -/
def after (stack : UsbStack σ) : σ → List UsbCall → σ
  | state, [] => state
  | state, call :: rest => stack.after (stack.answer state call).2 rest

theorem exchanges_append (stack : UsbStack σ) (state : σ) (calls calls' : List UsbCall) :
    stack.exchanges state (calls ++ calls') =
      stack.exchanges state calls ++ stack.exchanges (stack.after state calls) calls' := by
  induction calls generalizing state with
  | nil => rfl
  | cons call rest ih => rw [List.cons_append, exchanges, ih, exchanges, after, List.cons_append]

theorem after_append (stack : UsbStack σ) (state : σ) (calls calls' : List UsbCall) :
    stack.after state (calls ++ calls') = stack.after (stack.after state calls) calls' := by
  induction calls generalizing state with
  | nil => rfl
  | cons call rest ih => rw [List.cons_append, after, ih, after]

end UsbStack

namespace Bus

/-- A bus comes by exchanges to another state. -/
structure Goes (b : Bus σ) (log : List Exchange) (b' : Bus σ) : Prop where
  stack_eq : b'.stack = b.stack
  calls_eq : b'.calls = b.calls ++ log.map Exchange.call
  exchanges_eq : b.stack.exchanges b.state (log.map Exchange.call) = log
  after_eq : b.stack.after b.state (log.map Exchange.call) = b'.state

theorem Goes.refl (b : Bus σ) : b.Goes [] b := ⟨rfl, (List.append_nil _).symm, rfl, rfl⟩

theorem Goes.trans {b b' b'' : Bus σ} {log log' : List Exchange} (h : b.Goes log b') (h' : b'.Goes log' b'') :
    b.Goes (log ++ log') b'' := by
  have hexchanges := h'.exchanges_eq
  have hafter := h'.after_eq
  rw [h.stack_eq, ← h.after_eq] at hexchanges hafter
  refine ⟨h'.stack_eq.trans h.stack_eq, ?_, ?_, ?_⟩
  · rw [h'.calls_eq, h.calls_eq, List.map_append, List.append_assoc]
  · rw [List.map_append, UsbStack.exchanges_append, h.exchanges_eq, hexchanges]
  · rw [List.map_append, UsbStack.after_append, hafter]

theorem goes_enumerate {b b' : Bus σ} {answer : Except String (List UsbDevice)}
    (h : b.enumerate = (answer, b')) : b.Goes [.enumerate answer] b' := by
  cases h
  exact ⟨rfl, rfl, rfl, rfl⟩

theorem goes_connect {b b' : Bus σ} {device : UsbDevice} {answer : Except String Unit}
    (h : b.connect device = (answer, b')) : b.Goes [.connect device answer] b' := by
  cases h
  exact ⟨rfl, rfl, rfl, rfl⟩

theorem goes_read {b b' : Bus σ} {device : UsbDevice} {request : ControlRequest} {size timeout : Nat}
    {answer : Except String Reading} (h : b.read device request size timeout = (answer, b')) :
    b.Goes [.read device request size timeout answer] b' := by
  cases h
  exact ⟨rfl, rfl, rfl, rfl⟩

theorem goes_write {b b' : Bus σ} {device : UsbDevice} {request : ControlRequest} {data : List UInt8}
    {timeout : Nat} {answer : Except String Nat} (h : b.write device request data timeout = (answer, b')) :
    b.Goes [.write device request data timeout answer] b' := by
  cases h
  exact ⟨rfl, rfl, rfl, rfl⟩

end Bus

namespace Hub

/-! ## Looking at devices -/

/-- A descriptor is longer than its header, and tells of ports that are switched at once or one by one, or
that have indicators. -/
def Switchable (r : Reading) : Prop :=
  7 < r.count ∧ ((r.byte 3).toNat % 4 < 2 ∨ (r.byte 3).toNat.testBit 7 = true)

instance (r : Reading) : Decidable (Switchable r) := inferInstanceAs (Decidable (_ ∧ _))

/-- The request for the descriptor of a hub, with what it is answered. -/
def describe (device : UsbDevice) (answer : Except String Reading) : Exchange :=
  .read device ⟨0xA0, 0x06, 0x2900, 0⟩ 1024 1000 answer

/-- The courses of looking at a device, and the hub that is counted. -/
inductive Look (device : UsbDevice) : List Exchange → Option Hub → Prop where
  | passed (hclass : device.deviceClass ≠ 9) : Look device [] none
  | closed (hclass : device.deviceClass = 9) (reason : String) :
    Look device [.connect device (.error reason)] none
  | unread (hclass : device.deviceClass = 9) (reason : String) :
    Look device [.connect device (.ok ()), describe device (.error reason)] none
  | refused (hclass : device.deviceClass = 9) (r : Reading) (hr : ¬ Switchable r) :
    Look device [.connect device (.ok ()), describe device (.ok r)] none
  | counted (hclass : device.deviceClass = 9) (r : Reading) (hr : Switchable r) :
    Look device [.connect device (.ok ()), describe device (.ok r)]
      (some ⟨device, r.byte 2, (r.byte 3).toNat.testBit 7⟩)

/-- The courses of looking at devices one after another, and the hubs that are counted. -/
inductive Looks : List UsbDevice → List Exchange → List Hub → Prop where
  | nil : Looks [] [] []
  | cons {device : UsbDevice} {rest : List UsbDevice} {now later : List Exchange} {hub : Option Hub}
    {hubs : List Hub} (h : Look device now hub) (hrest : Looks rest later hubs) :
    Looks (device :: rest) (now ++ later) (hub.toList ++ hubs)

theorem and_indicators (b : UInt8) : (b &&& 0x80 != 0) = b.toNat.testBit 7 := by
  have hand : (b &&& 0x80).toNat = (b.toNat.testBit 7).toNat * 2 ^ 7 := by
    rw [UInt8.toNat_and]
    exact Nat.and_two_pow b.toNat 7
  rw [Bool.eq_iff_iff, bne_iff_ne, Ne, ← UInt8.toNat_inj, hand]
  cases b.toNat.testBit 7 <;> decide

theorem two_le_and_switching (b : UInt8) : 2 ≤ b &&& 0x03 ↔ ¬ b.toNat % 4 < 2 := by
  have hand : (b &&& 0x03).toNat = b.toNat % 4 := by
    rw [UInt8.toNat_and]
    exact Nat.and_two_pow_sub_one_eq_mod b.toNat 2
  rw [UInt8.le_iff_toNat_le, hand, not_lt]
  rfl

theorem ofDescriptor?_eq (device : UsbDevice) (r : Reading) : ofDescriptor? device r =
    if Switchable r then some ⟨device, r.byte 2, (r.byte 3).toNat.testBit 7⟩ else none := by
  simp only [ofDescriptor?, headerLength, and_indicators, Bool.and_eq_true, Bool.not_eq_true',
    decide_eq_true_eq, two_le_and_switching]
  by_cases hshort : r.count ≤ 7
  · rw [if_pos hshort, if_neg fun hr => absurd hr.1 (not_lt.2 hshort)]
  · have hlong : 7 < r.count := not_le.1 hshort
    rw [if_neg hshort]
    cases hbit : (r.byte 3).toNat.testBit 7 <;> by_cases hlow : (r.byte 3).toNat % 4 < 2 <;>
      simp [Switchable, hlong, hbit, hlow]

theorem probe_look (bus : Bus σ) {device : UsbDevice} (hclass : device.deviceClass = 9) :
    ∃ log, bus.Goes log (probe bus device).2 ∧ Look device log (probe bus device).1 := by
  obtain ⟨opened, bus₁, hopen⟩ : ∃ opened bus₁, bus.connect device = (opened, bus₁) := ⟨_, _, rfl⟩
  simp only [probe, hopen]
  cases opened with
  | error reason => exact ⟨_, Bus.goes_connect hopen, .closed hclass reason⟩
  | ok _ =>
    obtain ⟨answer, bus₂, hread⟩ : ∃ answer bus₂,
      bus₁.read device descriptorRequest bufferSize timeout = (answer, bus₂) := ⟨_, _, rfl⟩
    have hgoes := (Bus.goes_connect hopen).trans (Bus.goes_read hread)
    simp only [hread]
    cases answer with
    | error reason => exact ⟨_, hgoes, .unread hclass reason⟩
    | ok r =>
      refine ⟨_, hgoes, ?_⟩
      change Look device _ (ofDescriptor? device r)
      rw [ofDescriptor?_eq]
      split
      · exact .counted hclass r (by assumption)
      · exact .refused hclass r (by assumption)

theorem probeAll_looks (bus : Bus σ) (devices : List UsbDevice) :
    ∃ log, bus.Goes log (probeAll bus devices).2 ∧ Looks devices log (probeAll bus devices).1 := by
  induction devices generalizing bus with
  | nil => exact ⟨[], .refl bus, .nil⟩
  | cons device rest ih =>
    simp only [probeAll]
    split
    · rename_i hclass
      obtain ⟨now, hgoes, hlook⟩ := probe_look bus hclass
      obtain ⟨later, hgoes', hlooks⟩ := ih (probe bus device).2
      exact ⟨now ++ later, hgoes.trans hgoes', .cons hlook hlooks⟩
    · rename_i hclass
      obtain ⟨later, hgoes, hlooks⟩ := ih bus
      exact ⟨later, hgoes, .cons (.passed hclass) hlooks⟩

/-- The devices are listed and looked at, and the hubs are counted. -/
inductive Survey : List Exchange → List Hub → Prop where
  | listed {devices log hubs} (h : Looks devices log hubs) : Survey (.enumerate (.ok devices) :: log) hubs

theorem findAll_survey (bus : Bus σ) : (∃ reason, (findAll bus).1 = .error (.enumeration reason) ∧
      bus.Goes [.enumerate (.error reason)] (findAll bus).2) ∨
    ∃ hubs log, (findAll bus).1 = .ok hubs ∧ bus.Goes log (findAll bus).2 ∧ Survey log hubs := by
  obtain ⟨listing, bus₁, hlist⟩ : ∃ listing bus₁, bus.enumerate = (listing, bus₁) := ⟨_, _, rfl⟩
  have hgoes := Bus.goes_enumerate hlist
  simp only [findAll, hlist]
  cases listing with
  | error reason => exact .inl ⟨reason, rfl, hgoes⟩
  | ok devices =>
    obtain ⟨log, hgoes', hlooks⟩ := probeAll_looks bus₁ devices
    exact .inr ⟨_, _, rfl, hgoes.trans hgoes', .listed hlooks⟩

/-! ## Switching -/

/-- Ports are counted from one. -/
def HasPort (h : Hub) (port : UInt16) : Prop := 1 ≤ port.toNat ∧ port.toNat ≤ h.ports.toNat

/-- The request that sets or clears the power feature of a port, with what it is answered. -/
def switch (h : Hub) (port : UInt16) (on : Bool) (answer : Except String Nat) : Exchange :=
  .write h.device ⟨0x23, if on then 3 else 1, 8, port⟩ [] 1000 answer

/-- The courses of switching the power of a port, and the results. -/
inductive Course (hub : Nat) (port : UInt16) (on : Bool) : List Exchange → Except HubError Unit → Prop where
  | unlisted (reason : String) : Course hub port on [.enumerate (.error reason)] (.error (.enumeration reason))
  | missing {log hubs} (h : Survey log hubs) (hhub : hubs[hub]? = none) :
    Course hub port on log (.error (.hubNotFound hub hubs.length))
  | noPort {log hubs found} (h : Survey log hubs) (hhub : hubs[hub]? = some found)
    (hport : ¬ found.HasPort port) : Course hub port on log (.error (.invalidPort hub port found.ports))
  | closed {log hubs found} (h : Survey log hubs) (hhub : hubs[hub]? = some found)
    (hport : found.HasPort port) (reason : String) :
    Course hub port on (log ++ [.connect found.device (.error reason)]) (.error (.openFailed reason))
  | refused {log hubs found} (h : Survey log hubs) (hhub : hubs[hub]? = some found)
    (hport : found.HasPort port) (reason : String) :
    Course hub port on (log ++ [.connect found.device (.ok ()), found.switch port on (.error reason)])
      (.error (.controlFailed reason))
  | switched {log hubs found} (h : Survey log hubs) (hhub : hubs[hub]? = some found)
    (hport : found.HasPort port) (count : Nat) :
    Course hub port on (log ++ [.connect found.device (.ok ()), found.switch port on (.ok count)]) (.ok ())

theorem not_hasPort_iff {h : Hub} {port : UInt16} :
    (port = 0 ∨ h.ports.toNat < port.toNat) ↔ ¬ h.HasPort port := by
  rw [HasPort, ← UInt16.toNat_inj]
  change (port.toNat = 0 ∨ _) ↔ _
  omega

theorem setPower_course (bus : Bus σ) (hub : Nat) (port : UInt16) (on : Bool) :
    ∃ log, bus.Goes log (setPower bus hub port on).2 ∧ Course hub port on log (setPower bus hub port on).1 := by
  obtain ⟨answer, bus₁, hfind⟩ : ∃ answer bus₁, findAll bus = (answer, bus₁) := ⟨_, _, rfl⟩
  have hsurvey := findAll_survey bus
  simp only [setPower, hfind] at hsurvey ⊢
  obtain ⟨reason, rfl, hgoes⟩ | ⟨hubs, log, rfl, hgoes, hsurvey⟩ := hsurvey
  · exact ⟨_, hgoes, .unlisted reason⟩
  dsimp only
  cases hhub : hubs[hub]? with
  | none => exact ⟨log, hgoes, .missing hsurvey hhub⟩
  | some found =>
    dsimp only
    split
    · rename_i hport
      exact ⟨log, hgoes, .noPort hsurvey hhub (not_hasPort_iff.1 hport)⟩
    · rename_i hport
      have hport' : found.HasPort port := not_not.1 (mt not_hasPort_iff.2 hport)
      obtain ⟨opened, bus₂, hopen⟩ : ∃ opened bus₂, bus₁.connect found.device = (opened, bus₂) := ⟨_, _, rfl⟩
      have hgoes' := hgoes.trans (Bus.goes_connect hopen)
      simp only [hopen]
      cases opened with
      | error reason => exact ⟨_, hgoes', .closed hsurvey hhub hport' reason⟩
      | ok _ =>
        obtain ⟨written, bus₃, hwrite⟩ : ∃ written bus₃,
          bus₂.write found.device (powerRequest port on) [] timeout = (written, bus₃) := ⟨_, _, rfl⟩
        have hgoes'' := hgoes'.trans (Bus.goes_write hwrite)
        rw [List.append_assoc] at hgoes''
        simp only [hwrite]
        cases written with
        | error reason => exact ⟨_, hgoes'', .refused hsurvey hhub hport' reason⟩
        | ok count => exact ⟨_, hgoes'', .switched hsurvey hhub hport' count⟩

/-! ## One reading of the exchanges -/

/-- Two courses of looking at a device differ in the class of the device or in an answer. -/
theorem Look.unique {device : UsbDevice} {log log' rest rest' : List Exchange} {hub hub' : Option Hub}
    (h : Look device log hub) (h' : Look device log' hub') (heq : log ++ rest = log' ++ rest') :
    log = log' ∧ hub = hub' ∧ rest = rest' := by
  cases h <;> cases h' <;> simp_all [describe]

/-- The exchanges of looking at devices tell where they end and which hubs are counted. -/
theorem Looks.unique {devices : List UsbDevice} {log log' rest rest' : List Exchange} {hubs hubs' : List Hub}
    (h : Looks devices log hubs) (h' : Looks devices log' hubs') (heq : log ++ rest = log' ++ rest') :
    log = log' ∧ hubs = hubs' ∧ rest = rest' := by
  induction h generalizing log' hubs' with
  | nil =>
    cases h'
    exact ⟨rfl, rfl, heq⟩
  | cons hlook _ ih =>
    cases h' with
    | cons hlook' hlooks' =>
      rw [List.append_assoc, List.append_assoc] at heq
      obtain ⟨rfl, rfl, heq⟩ := hlook.unique hlook' heq
      obtain ⟨rfl, rfl, heq⟩ := ih hlooks' heq
      exact ⟨rfl, rfl, heq⟩

theorem Survey.unique {log log' rest rest' : List Exchange} {hubs hubs' : List Hub} (h : Survey log hubs)
    (h' : Survey log' hubs') (heq : log ++ rest = log' ++ rest') : hubs = hubs' ∧ rest = rest' := by
  cases h with
  | listed hlooks =>
    cases h' with
    | listed hlooks' =>
      rw [List.cons_append, List.cons_append, List.cons.injEq, Exchange.enumerate.injEq, Except.ok.injEq] at heq
      obtain ⟨rfl, heq⟩ := heq
      exact (hlooks.unique hlooks' heq).2

/-- The hub at a number is found, and its device opens again. -/
def Reopened (hub : Nat) (log : List Exchange) (found : Hub) : Prop :=
  ∃ survey hubs rest, log = survey ++ .connect found.device (.ok ()) :: rest ∧ Survey survey hubs ∧
    hubs[hub]? = some found

theorem Survey.not_reopened {log log' rest : List Exchange} {hubs : List Hub} (h : Survey log hubs)
    (hlog : log' = log ++ rest) (hrest : ∀ device later, rest ≠ .connect device (.ok ()) :: later) {hub : Nat} :
    ∀ found, ¬ Reopened hub log' found := by
  rintro found ⟨survey, hubs', later, heq, hsurvey, -⟩
  exact hrest _ _ (h.unique hsurvey (hlog.symm.trans heq)).2

/-! ## Writes -/

theorem Look.writes_eq {device : UsbDevice} {log : List Exchange} {hub : Option Hub} (h : Look device log hub) :
    log.filter Exchange.isWrite = [] := by
  cases h <;> rfl

theorem Looks.writes_eq {devices : List UsbDevice} {log : List Exchange} {hubs : List Hub}
    (h : Looks devices log hubs) : log.filter Exchange.isWrite = [] := by
  induction h with
  | nil => rfl
  | cons hlook _ ih => rw [List.filter_append, hlook.writes_eq, ih, List.append_nil]

theorem Survey.writes_eq {log : List Exchange} {hubs : List Hub} (h : Survey log hubs) :
    log.filter Exchange.isWrite = [] := by
  cases h with
  | listed hlooks => exact hlooks.writes_eq

theorem Survey.writes_append {log : List Exchange} {hubs : List Hub} (h : Survey log hubs)
    (rest : List Exchange) : (log ++ rest).filter Exchange.isWrite = rest.filter Exchange.isWrite := by
  rw [List.filter_append, h.writes_eq, List.nil_append]

/-- Nothing is written and the hub that was asked for is not opened again, or its port is switched by the
only write. -/
theorem Course.writes_eq {hub : Nat} {port : UInt16} {on : Bool} {log : List Exchange}
    {result : Except HubError Unit} (h : Course hub port on log result) :
    (log.filter Exchange.isWrite = [] ∧ (∀ found, ¬ Reopened hub log found) ∧
      ∃ e, result = .error e ∧ ∀ reason, e ≠ .controlFailed reason) ∨
    ∃ found answer, log.filter Exchange.isWrite = [found.switch port on answer] ∧ Reopened hub log found ∧
      found.HasPort port ∧ result = (answer.map fun _ => ()).mapError .controlFailed := by
  cases h with
  | unlisted reason =>
    refine .inl ⟨rfl, ?_, .enumeration reason, rfl, fun _ => nofun⟩
    rintro found ⟨survey, hubs, rest, heq, ⟨-⟩, -⟩
    cases heq
  | missing hsurvey hhub =>
    exact .inl ⟨hsurvey.writes_eq, hsurvey.not_reopened (List.append_nil _).symm fun _ _ => nofun, _, rfl,
      fun _ => nofun⟩
  | noPort hsurvey hhub hport =>
    exact .inl ⟨hsurvey.writes_eq, hsurvey.not_reopened (List.append_nil _).symm fun _ _ => nofun, _, rfl,
      fun _ => nofun⟩
  | closed hsurvey hhub hport reason =>
    exact .inl ⟨hsurvey.writes_append _, hsurvey.not_reopened rfl fun _ _ => by simp, _, rfl, fun _ => nofun⟩
  | refused hsurvey hhub hport reason =>
    exact .inr ⟨_, .error reason, hsurvey.writes_append _, ⟨_, _, _, rfl, hsurvey, hhub⟩, hport, rfl⟩
  | switched hsurvey hhub hport count =>
    exact .inr ⟨_, .ok count, hsurvey.writes_append _, ⟨_, _, _, rfl, hsurvey, hhub⟩, hport, rfl⟩

/-- Switching the power of a port writes to that port alone. Each run is one of the courses, which tell the
error of each failure. There is at most one write, and there is one exactly if the listing succeeded, there
is a hub at the number, its device opened again and it has the port. The write sets or clears the power
feature of that port of that hub. The run succeeds exactly if the write does, and a run that fails otherwise
than by the write writes nothing. -/
theorem setPower_hits_port (stack : UsbStack σ) (state : σ) (hub : Nat) (port : UInt16) (on : Bool) :
    let run := setPower (.of stack state) hub port on
    let log := stack.exchanges state run.2.calls
    let writes := log.filter Exchange.isWrite
    log.map Exchange.call = run.2.calls ∧ Course hub port on log run.1 ∧
    writes.length ≤ 1 ∧
    (writes.length = 1 ↔ ∃ found, Reopened hub log found ∧ found.HasPort port) ∧
    (∀ x ∈ writes, ∃ found answer, Reopened hub log found ∧ x = found.switch port on answer) ∧
    (run.1 = .ok () ↔ ∃ x ∈ writes, x.isWritten = true) ∧
    (writes = [] ∨ run.1 = .ok () ∨ ∃ reason, run.1 = .error (.controlFailed reason)) := by
  intro run log writes
  obtain ⟨log', hgoes, hcourse⟩ := setPower_course (.of stack state) hub port on
  have hcalls : run.2.calls = log'.map Exchange.call := hgoes.calls_eq
  have hlog : log = log' := by
    simp only [log, hcalls]
    exact hgoes.exchanges_eq
  rw [← hlog] at hcalls hcourse
  refine ⟨hcalls.symm, hcourse, ?_⟩
  obtain ⟨hnone, hclosed, e, hresult, he⟩ | ⟨found, answer, hone, hopen, hport, hresult⟩ := hcourse.writes_eq
  · have hwrites : writes = [] := hnone
    have hno : ¬ ∃ found, Reopened hub log found ∧ found.HasPort port := fun ⟨found, h, _⟩ => hclosed found h
    have hrun : run.1 = .error e := hresult
    rw [hwrites, hrun]
    exact ⟨by decide, iff_of_false (by decide) hno, nofun, iff_of_false nofun nofun, .inl rfl⟩
  · have hwrites : writes = [found.switch port on answer] := hone
    have hrun : run.1 = (answer.map fun _ => ()).mapError .controlFailed := hresult
    rw [hwrites, hrun]
    refine ⟨le_rfl, iff_of_true rfl ⟨found, hopen, hport⟩, ?_, ?_, ?_⟩
    · intro x hx
      exact ⟨found, answer, hopen, List.mem_singleton.1 hx⟩
    · cases answer with
      | error reason => exact iff_of_false nofun (by simp [switch, Exchange.isWritten])
      | ok count => exact iff_of_true rfl ⟨_, List.mem_singleton_self _, rfl⟩
    · cases answer with
      | error reason => exact .inr (.inr ⟨reason, rfl⟩)
      | ok count => exact .inr (.inl rfl)

/-- A bus on which a device is busy when it is opened first, in front of two hubs, and the second one has
indicators only. -/
def busyBus : UsbStack Nat where
  devices opened := (.ok [⟨1, 1, 0xFF⟩, ⟨1, 2, 9⟩, ⟨1, 3, 9⟩, ⟨1, 4, 9⟩], opened)
  connect _ opened := (if opened = 0 then .error "busy" else .ok (), opened + 1)
  read device _ opened :=
    (.ok (if device.address = 4 then ⟨9, [9, 0x29, 7, 0x82]⟩ else ⟨9, [9, 0x29, 4, 1]⟩), opened)
  write _ _ opened := (.ok 0, opened)

theorem setPower_hits_port_busyBus :
    let run := setPower (.of busyBus 0) 1 6 true
    let found : Hub := ⟨⟨1, 4, 9⟩, 7, true⟩
    run.1 = .ok () ∧
    (busyBus.exchanges 0 run.2.calls).filter Exchange.isWrite = [found.switch 6 true (.ok 0)] ∧
    ∃ found, Reopened 1 (busyBus.exchanges 0 run.2.calls) found ∧ found.HasPort 6 := by
  obtain ⟨-, -, -, hone, -⟩ := setPower_hits_port busyBus 0 1 6 true
  exact ⟨rfl, rfl, hone.1 rfl⟩

end Hub

end PrinterMotion
