import Trustm.Support.Run
import Trustm.Types

/-!
# The process: handles, the status word and the library

The life of `Trustm` handles in one process, as a step function on explicit state.

The state holds the two Rust statics `OPEN` and `STATUS`, the two C statics that
`trustm_sys_configure` writes, what is alive (library instances, C strings, buffers), the
commands the library has accepted and not completed, and one program counter for each
session. A session is one call of `open` that found `OPEN` clear, together with everything
done later with the handle it built; `&mut self` and ownership let one thread at a time
drive it. The threads of the process are therefore the interleavings of the sessions.

One action is one access to a static, one library call, one completion callback, or a step
that takes or frees memory. What the source does between two such accesses is local to its
thread and belongs to the action before it.

* `RunPc.next` is the control flow of `run`.
* `Pc.next` is the control flow of `open`, `open_inner`, `close`, the methods and `Drop`.
* `Op.exec` is the effect of one access on the shared state.
* `step` puts both together, with the callback `on_done`.

The library is a set of assumptions: a call may accept a command or reject it with a
non-zero code; an accepted command is completed at most once, at any later point, with a
status other than `BUSY`. Time is not modelled: `start.elapsed() > self.timeout` may be
answered either way, so every timeout set by `set_timeout` is covered.
-/

namespace Trustm

/-! ## Objects -/

/-- The two library instances of a handle. -/
inductive Which where
  | util
  | crypt
  deriving DecidableEq, Repr

/-- A library instance, `optiga_util_t *` or `optiga_crypt_t *`. -/
structure Inst where
  which : Which
  number : Nat
  deriving DecidableEq, Repr

/-- Objects with a lifetime, named by the number of their creation. A buffer is a local of a
method or a slice its caller lends to it. -/
inductive Obj where
  | inst (x : Inst)
  | cstring (n : Nat)
  | buffer (n : Nat)
  deriving DecidableEq, Repr

def Obj.number : Obj → Nat
  | .inst x => x.number
  | .cstring n | .buffer n => n

/-- An owned string without interior NUL. -/
structure CString where
  number : Nat
  bytes : List UInt8
  nulFree : 0 ∉ bytes
  deriving DecidableEq

/-- `"/dev/i2c-1"` -/
def DEFAULT_BUS : List UInt8 := [0x2F, 0x64, 0x65, 0x76, 0x2F, 0x69, 0x32, 0x63, 0x2D, 0x31]

def DEFAULT_ADDR : UInt8 := 0x30

def CString.obj (c : CString) : Obj := .cstring c.number

/-- What C reads at `dev[0]`: the string is stored with a terminating NUL. -/
def CString.first (c : CString) : UInt8 := (c.bytes ++ [0]).headD 0

/-- The instances by their numbers. -/
structure Handle where
  util : Nat
  crypt : Nat
  bus : CString
  deriving DecidableEq

def Handle.inst (h : Handle) : Which → Inst
  | .util => ⟨.util, h.util⟩
  | .crypt => ⟨.crypt, h.crypt⟩

/-- A command the library has accepted: its instance and the buffers it keeps pointers to. -/
structure Command where
  number : Nat
  inst : Inst
  bufs : List Nat
  deriving DecidableEq

def Command.objs (c : Command) : List Obj := .inst c.inst :: c.bufs.map .buffer

/-- What `linux_i2c.i2c_if` points to. -/
inductive BusPath where
  | default
  | cstring (n : Nat)
  deriving DecidableEq, Repr

/-! ## Program counters -/

/-- Who called `run`, and the buffers whose pointers its command passes to the library. -/
inductive Caller where
  | openInner
  | method (w : Which) (bufs : List Nat)
  | close
  deriving DecidableEq

def Caller.which : Caller → Which
  | .openInner | .close => .util
  | .method w _ => w

def Caller.bufs : Caller → List Nat
  | .openInner | .close => []
  | .method _ bufs => bufs

/-- Positions inside `run`; from the call on, with the command it issued. -/
inductive RunPc where
  | storeBusy
  | call
  | inCall (c : Command)
  | poll (c : Command)
  | check (c : Command)
  deriving DecidableEq

/-- Positions inside `Drop::drop`, and the drop of the field `_bus` after it. -/
inductive DropPc where
  | crypt
  | util
  | flag
  | bus
  deriving DecidableEq, Repr

/-- Who drops the handle: `open_inner` after a failed `open_application`, or its owner. -/
inductive Dropper where
  | openInner
  | owner
  deriving DecidableEq, Repr

inductive Pc where
  /-- The swap read `false`; `CString::new` is next. -/
  | opening (bus : List UInt8) (addr : UInt8)
  | configuring (bus : CString) (addr : UInt8)
  | creatingUtil (bus : CString)
  | creatingCrypt (bus : CString) (util : Nat)
  | destroyingUtil (bus : CString) (util : Nat)
  | running (h : Handle) (k : Caller) (r : RunPc)
  /-- A handle nobody is using at the moment. -/
  | live (h : Handle)
  | dropping (h : Handle) (d : Dropper) (r : DropPc)
  /-- The error arm of `open`; `built` says that a handle was built and has been dropped. -/
  | errArm (built : Bool)
  | closed
  deriving DecidableEq

/-! ## State and actions -/

structure Process where
  OPEN : Bool
  STATUS : UInt16
  i2cIf : BusPath
  slaveAddress : UInt8
  /-- The objects that exist. -/
  live : List Obj
  /-- The commands accepted and not completed. -/
  pending : List Command
  /-- No object and no command has this number or a larger one. -/
  fresh : Nat
  sessions : List Pc
  deriving DecidableEq

def init : Process where
  OPEN := false
  STATUS := 0
  i2cIf := .default
  slaveAddress := 0x30
  live := []
  pending := []
  fresh := 0
  sessions := []

/-- One access of a session, with what it read or was answered. -/
inductive Op where
  /-- `CString::new(bus)`; `none` is the error for an interior NUL. -/
  | cstringNew (c : Option CString)
  /-- `trustm_sys_configure(dev, addr)` -/
  | configure (dev : CString) (addr : UInt8)
  /-- `optiga_util_create` or `optiga_crypt_create`; `none` is a null pointer. -/
  | create (w : Which) (n : Option Nat)
  /-- `optiga_util_destroy` or `optiga_crypt_destroy` -/
  | destroy (x : Inst)
  /-- `OPEN.store(false)` -/
  | storeOpen
  /-- `STATUS.store(BUSY)` -/
  | storeBusy
  /-- The library accepts the command inside `call()`. -/
  | issue (c : Command)
  /-- `call()` on the instance `x` returns `code` without accepting. -/
  | reject (x : Inst) (code : UInt16)
  /-- `call()` returns 0. -/
  | callReturns
  /-- `STATUS.load()` -/
  | load (st : UInt16)
  /-- `start.elapsed() > self.timeout` -/
  | clock (expired : Bool)
  /-- The owner calls a method that passes `bufs` to the instance `w`. -/
  | enter (w : Which) (bufs : List Nat)
  | enterClose
  | enterDrop
  /-- The field `_bus` is dropped. -/
  | freeBus
  deriving DecidableEq

inductive Act where
  /-- `open`: `OPEN.swap(true)` read `true`, the call returns `AlreadyOpen`. -/
  | openRefused
  /-- `open`: `OPEN.swap(true)` read `false`. -/
  | openSwap (bus : List UInt8) (addr : UInt8)
  | op (i : Nat) (o : Op)
  /-- `on_done(status)` for the command `c`. -/
  | callback (c : Command) (status : UInt16)
  deriving DecidableEq

/-! ## Control flow -/

/-- `run` with a `call` on the instance `x` that passes `bufs`: the next position, or the
result. -/
def RunPc.next (x : Inst) (bufs : List Nat) : RunPc → Op → Option (RunPc ⊕ Result Unit)
  | .storeBusy, .storeBusy => some (.inl .call)
  | .call, .issue c => if c.inst = x ∧ c.bufs = bufs then some (.inl (.inCall c)) else none
  | .call, .reject y code =>
    if y = x ∧ Error.fromStatus code ≠ .ok () then some (.inr (Error.fromStatus code)) else none
  | .inCall c, .callReturns => some (.inl (.poll c))
  | .poll c, .load st =>
    if st.toUInt32 ≠ OPTIGA_LIB_BUSY then some (.inr (Error.fromStatus st))
    else some (.inl (.check c))
  | .check _, .clock true => some (.inr (.error .timeout))
  | .check c, .clock false => some (.inl (.poll c))
  | _, _ => none

/-- Where `run`'s caller goes on with its result, and the locals freed on the way. -/
def Caller.return (k : Caller) (h : Handle) (r : Result Unit) : Pc × List Obj :=
  match k, r with
  | .openInner, .ok () => (.live h, [])
  | .openInner, .error _ => (.dropping h .openInner .crypt, [])
  -- the method returns; its locals and borrows end with it
  | .method _ bufs, _ => (.live h, bufs.map .buffer)
  | .close, _ => (.dropping h .owner .crypt, [])

def Dropper.return : Dropper → Pc
  | .openInner => .errArm true
  | .owner => .closed

/-- The next position after an access, and the locals freed by going there; `none` when the
source does not make this access here. -/
def Pc.next : Pc → Op → Option (Pc × List Obj)
  | .opening bus _, .cstringNew none => if 0 ∈ bus then some (.errArm false, []) else none
  | .opening bus addr, .cstringNew (some c) =>
    if c.bytes = bus then some (.configuring c addr, []) else none
  | .configuring bus addr, .configure dev addr' =>
    if dev = bus ∧ addr' = addr then some (.creatingUtil bus, []) else none
  -- an early return of `open_inner` drops its local `bus`
  | .creatingUtil bus, .create .util none => some (.errArm false, [bus.obj])
  | .creatingUtil bus, .create .util (some n) => some (.creatingCrypt bus n, [])
  | .creatingCrypt bus util, .create .crypt none => some (.destroyingUtil bus util, [])
  | .creatingCrypt bus util, .create .crypt (some n) =>
    some (.running ⟨util, n, bus⟩ .openInner .storeBusy, [])
  | .destroyingUtil bus util, .destroy x =>
    if x = ⟨.util, util⟩ then some (.errArm false, [bus.obj]) else none
  | .running h k r, o =>
    (r.next (h.inst k.which) k.bufs o).map fun
      | .inl r' => (.running h k r', [])
      | .inr result => k.return h result
  | .live h, .enter w bufs => some (.running h (.method w bufs) .storeBusy, [])
  | .live h, .enterClose => some (.running h .close .storeBusy, [])
  | .live h, .enterDrop => some (.dropping h .owner .crypt, [])
  | .dropping h d .crypt, .destroy x =>
    if x = h.inst .crypt then some (.dropping h d .util, []) else none
  | .dropping h d .util, .destroy x =>
    if x = h.inst .util then some (.dropping h d .flag, []) else none
  | .dropping h d .flag, .storeOpen => some (.dropping h d .bus, [])
  | .dropping h d .bus, .freeBus => some (d.return, [h.bus.obj])
  | .errArm _, .storeOpen => some (.closed, [])
  | _, _ => none

/-! ## Effects -/

/-- `trustm_sys_configure` of `pal_config.c`; `none` is a null `dev`. -/
def trustmSysConfigure (dev : Option CString) (addr : UInt8) (s : Process) : Process :=
  let s := match dev with
    | some c => if c.first ≠ 0 then { s with i2cIf := .cstring c.number } else s
    | none => s
  if addr ≠ 0 then { s with slaveAddress := addr } else s

/-- The effect of an access on the shared state; `none` when what it read or was answered
does not fit the state. New objects and commands get the next number. -/
def Op.exec (s : Process) : Op → Option Process
  | .cstringNew none => some s
  | .cstringNew (some c) =>
    if c.number = s.fresh then
      some { s with live := [c.obj] ++ s.live, fresh := s.fresh + 1 }
    else none
  | .configure dev addr => some (trustmSysConfigure (some dev) addr s)
  | .create _ none => some s
  | .create w (some n) =>
    if n = s.fresh then
      some { s with live := [.inst ⟨w, n⟩] ++ s.live, fresh := s.fresh + 1 }
    else none
  | .destroy x => some { s with live := s.live.erase (.inst x) }
  | .storeOpen => some { s with OPEN := false }
  | .storeBusy => some { s with STATUS := busyStatus }
  | .issue c =>
    if c.number = s.fresh then
      some { s with pending := c :: s.pending, fresh := s.fresh + 1 }
    else none
  | .reject _ _ => some s
  | .callReturns => some s
  | .load st => if st = s.STATUS then some s else none
  | .clock _ => some s
  | .enter _ bufs =>
    if bufs = List.range' s.fresh bufs.length then
      some { s with live := bufs.map .buffer ++ s.live, fresh := s.fresh + bufs.length }
    else none
  | .enterClose => some s
  | .enterDrop => some s
  | .freeBus => some s

/-- One action of the process. -/
def step (s : Process) : Act → Option Process
  | .openRefused => if s.OPEN then some { s with OPEN := true } else none
  | .openSwap bus addr =>
    if s.OPEN then none
    else some { s with OPEN := true, sessions := s.sessions ++ [.opening bus addr] }
  | .op i o => do
    let p ← s.sessions[i]?
    let (q, freed) ← p.next o
    let t ← o.exec s
    return { t with sessions := t.sessions.set i q, live := t.live.diff freed }
  | .callback c status =>
    if c ∈ s.pending ∧ status ≠ busyStatus then
      some { s with STATUS := status, pending := s.pending.erase c }
    else none

/-- Histories of the process from its start. -/
abbrev history (as : List Act) : Option Process := Run.exec step init as

end Trustm
