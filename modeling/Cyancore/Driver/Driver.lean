/-
# The driver core

`driver.c`: the table of devices that the linker collects, the registration of a single
device, and the passes over the table that start and stop all of them.  The callbacks of
a device act on the rest of the system, a world of any type, and do not touch the table.
The calls of the registration functions are recorded in the order in which they return.
-/

import Cyancore.Basic
import Mathlib.Data.List.FinRange

namespace Cyancore.Driver

/-- `device_t`.  The key of the device is held for single accesses to `exec` only. -/
structure Device (ω : Type) where
  name : String
  driverSetup : ω → StatusCode × ω
  driverExit : ω → StatusCode × ω
  sorder : Fin 256
  eorder : Fin 256
  exec : Bool
  percpu : Bool

/-- The callbacks of a device. -/
inductive Callback
  | setup
  | exit
  deriving DecidableEq, Repr

/-- A call of `driver_register` or `driver_deregister`: the device, its callback, whether that was
invoked, and the result of the call. -/
structure Call (n : ℕ) where
  dev : Fin n
  callback : Callback
  invoked : Bool
  result : StatusCode
  deriving DecidableEq, Repr

variable {ω : Type}

namespace Device

/-- What the first locked section reads. -/
def flag (dev : Device ω) : Bool := dev.exec

/-- What the second locked section writes. -/
def setExec (dev : Device ω) (value : Bool) : Device ω := { dev with exec := value }

end Device

/-- `driver_register` on one device: the result, the device and the world afterwards, and whether
`driver_setup` was invoked. -/
def registerDevice (dev : Device ω) (world : ω) : StatusCode × Device ω × ω × Bool :=
  if dev.percpu then
    let (ret, world) := dev.driverSetup world
    (ret, dev, world, true)
  else if dev.flag then (StatusCode.errorDriverInitDone, dev, world, false)
  else
    let dev := dev.setExec true
    let (ret, world) := dev.driverSetup world
    (ret, dev, world, true)

/-- `driver_deregister` on one device. -/
def deregisterDevice (dev : Device ω) (world : ω) : StatusCode × Device ω × ω × Bool :=
  if dev.percpu then
    let (ret, world) := dev.driverExit world
    (ret, dev, world, true)
  else if !dev.flag then (StatusCode.errorDriver, dev, world, false)
  else
    let dev := dev.setExec false
    let (ret, world) := dev.driverExit world
    (ret, dev, world, true)

/-- The driver table from `_driver_table_start` to `_driver_table_end`, the world, and the calls
made so far. -/
structure DriverState (n : ℕ) (ω : Type) where
  table : Fin n → Device ω
  world : ω
  calls : List (Call n)

variable {n : ℕ}

/-- The function of one device that goes with a callback. -/
def callDevice : Callback → Device ω → ω → StatusCode × Device ω × ω × Bool
  | .setup => registerDevice
  | .exit => deregisterDevice

/-- `driver_register` or `driver_deregister` on the device at `ptr`. -/
def callDriver (callback : Callback) (ptr : Fin n) (state : DriverState n ω) :
    StatusCode × DriverState n ω :=
  let (ret, dev, world, invoked) := callDevice callback (state.table ptr) state.world
  (ret,
    { table := Function.update state.table ptr dev
      world := world
      calls := state.calls ++ [⟨ptr, callback, invoked, ret⟩] })

/-- `driver_register`. -/
def driverRegister (ptr : Fin n) (state : DriverState n ω) : StatusCode × DriverState n ω :=
  callDriver .setup ptr state

/-- `driver_deregister`. -/
def driverDeregister (ptr : Fin n) (state : DriverState n ω) : StatusCode × DriverState n ω :=
  callDriver .exit ptr state

/-- `ret |= action(ptr)`. -/
def orCall (action : Fin n → DriverState n ω → StatusCode × DriverState n ω)
    (acc : StatusCode × DriverState n ω) (ptr : Fin n) : StatusCode × DriverState n ω :=
  let (result, state) := action ptr acc.2
  (acc.1 ||| result, state)

/-- The pass over the table common to `driver_register_with_order` and
`driver_deregister_with_order`. -/
def passWithOrder (action : Fin n → DriverState n ω → StatusCode × DriverState n ω) (order : ℕ)
    (state : DriverState n ω) : StatusCode × DriverState n ω :=
  (List.finRange n).foldl
    (fun acc ptr => if order = (acc.2.table ptr).sorder then orCall action acc ptr else acc)
    (StatusCode.success, state)

/-- `driver_register_with_order`. -/
def driverRegisterWithOrder (order : ℕ) (state : DriverState n ω) :
    StatusCode × DriverState n ω :=
  passWithOrder driverRegister order state

/-- `driver_deregister_with_order`; it looks at `sorder`, as the source does. -/
def driverDeregisterWithOrder (order : ℕ) (state : DriverState n ω) :
    StatusCode × DriverState n ω :=
  passWithOrder driverDeregister order state

/-- One pass after the other, with the results combined. -/
def allPasses (pass : ℕ → DriverState n ω → StatusCode × DriverState n ω) (orders : List ℕ)
    (state : DriverState n ω) : StatusCode × DriverState n ω :=
  orders.foldl
    (fun acc order =>
      let (result, state) := pass order acc.2
      (acc.1 ||| result, state))
    (StatusCode.success, state)

/-- `driver_setup_all`: `order` runs from 0 up. -/
def driverSetupAll (state : DriverState n ω) : StatusCode × DriverState n ω :=
  allPasses driverRegisterWithOrder (List.range 256) state

/-- `driver_exit_all`: `order` runs from 255 down. -/
def driverExitAll (state : DriverState n ω) : StatusCode × DriverState n ω :=
  allPasses driverDeregisterWithOrder (List.range 256).reverse state

/-- The search of `driver_setup_with_name` and `driver_exit_with_name`. -/
def firstWithName (action : Fin n → DriverState n ω → StatusCode × DriverState n ω)
    (name : String) (state : DriverState n ω) : StatusCode × DriverState n ω :=
  match (List.finRange n).find? fun ptr => (state.table ptr).name = name with
  | some ptr => action ptr state
  | none => (StatusCode.errorFuncInval, state)

/-- `driver_setup`. -/
def driverSetup (name : String) (state : DriverState n ω) : StatusCode × DriverState n ω :=
  firstWithName driverRegister name state

/-- `driver_exit`. -/
def driverExit (name : String) (state : DriverState n ω) : StatusCode × DriverState n ω :=
  firstWithName driverDeregister name state

end Cyancore.Driver
