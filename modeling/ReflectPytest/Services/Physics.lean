import ReflectPytest.Messages

set_option autoImplicit false

/-! # KinematicsService, PowerService and ThermalService

The physics models driven by `PhysicsTick`. Their handlers run under the service's own `mu_`; the
request handlers copy the fields under it and publish the copy after releasing it. -/

namespace ReflectPytest

open FloatOps

variable {F : Type} [FloatOps F]

/-- `tick.dt_us / 1e6f`. -/
def PhysicsTickPayload.dtS (tick : PhysicsTickPayload) : F := ofInt tick.dtUs / lit 1000000

/-! ## KinematicsService -/

/-- `K_RPM_TO_MPS`. -/
def kRpmToMps : F := lit (1 / 100)

structure KinematicsService (F : Type) where
  cmdId : Nat
  elapsedUs : Nat
  positionM : F
  speedMps : F

namespace KinematicsService

/-- The state of a freshly constructed service. -/
def init : KinematicsService F := ⟨0, 0, 0, 0⟩

/-- `on_message(PhysicsTickPayload)`; `elapsed_us_` is a `uint32_t`. -/
def onPhysicsTick (s : KinematicsService F) (tick : PhysicsTickPayload) : KinematicsService F :=
  let speedMps := ofInt tick.speedRpm * kRpmToMps
  { cmdId := tick.cmdId
    elapsedUs := (s.elapsedUs + tick.dtUs) % 2 ^ 32
    positionM := s.positionM + speedMps * tick.dtS
    speedMps := speedMps }

/-- `on_message(MotorStatusPayload)`. -/
def onMotorStatus (s : KinematicsService F) (ms : MotorStatusPayload) : KinematicsService F :=
  if ms.isActive && decide (ms.cmdId ≠ s.cmdId) then { s with cmdId := ms.cmdId, elapsedUs := 0 }
  else if !ms.isActive then { s with speedMps := 0 }
  else s

/-- `on_message(KinematicsRequestPayload)`: the reply. -/
def onKinematicsRequest (s : KinematicsService F) : KinematicsPayload F :=
  ⟨s.cmdId, s.elapsedUs, s.positionM, s.speedMps⟩

@[simp] theorem onMotorStatus_positionM (s : KinematicsService F) (ms : MotorStatusPayload) :
    (s.onMotorStatus ms).positionM = s.positionM := by
  unfold onMotorStatus
  split_ifs <;> rfl

/-- A `MotorStatus` stops the vehicle or leaves its speed. -/
theorem onMotorStatus_speedMps (s : KinematicsService F) (ms : MotorStatusPayload) :
    (s.onMotorStatus ms).speedMps = if ms.isActive then s.speedMps else 0 := by
  unfold onMotorStatus
  cases ms.isActive <;> simp
  split <;> rfl

end KinematicsService

/-! ## PowerService -/

/-- `I_IDLE_A`. -/
def iIdleA : F := lit (1 / 10)
/-- `K_RPM_POW_TO_AMPS`. -/
def kRpmPowToAmps : F := lit (1863 / 10000000)
/-- `RPM_EXP_P`. -/
def rpmExpP : F := lit (16 / 10)
/-- `R_INT_OHM`. -/
def rIntOhm : F := lit (1 / 2)
/-- `V_MAX`. -/
def vMax : F := lit (126 / 10)
/-- `V_MIN`. -/
def vMin : F := lit (105 / 10)

structure PowerService (F : Type) where
  cmdId : Nat
  voltageV : F
  currentA : F
  soc : Int

namespace PowerService

/-- The state of a freshly constructed service. -/
def init : PowerService F := ⟨0, vMax, 0, 100⟩

/-- `on_message(PhysicsTickPayload)`, with `pow` standing for `std::pow`. -/
def onPhysicsTick (pow : F → F → F) (s : PowerService F) (tick : PhysicsTickPayload) :
    PowerService F :=
  let rpmAbs : F := FloatOps.abs (ofInt tick.speedRpm)
  let currentA := iIdleA + kRpmPowToAmps * pow rpmAbs rpmExpP
  let dv := currentA * rIntOhm * tick.dtS
  let voltageV := FloatOps.max vMin (s.voltageV - dv)
  { cmdId := tick.cmdId
    voltageV := voltageV
    currentA := currentA
    soc := trunc (clamp ((voltageV - vMin) / (vMax - vMin) * lit 100) (lit 0) (lit 100)) }

/-- `on_message(MotorStatusPayload)`. -/
def onMotorStatus (s : PowerService F) (ms : MotorStatusPayload) : PowerService F :=
  { s with cmdId := ms.cmdId, currentA := if !ms.isActive then 0 else s.currentA }

/-- `on_message(PowerRequestPayload)`: the reply. -/
def onPowerRequest (s : PowerService F) : PowerPayload F :=
  ⟨s.cmdId, s.voltageV, s.currentA, s.soc⟩

end PowerService

/-! ## ThermalService -/

structure ThermalService (F : Type) where
  ambientTempC : F
  motorTempC : F
  batteryTempC : F

namespace ThermalService

/-- The state of a freshly constructed service. -/
def init : ThermalService F := ⟨lit 20, lit 20, lit 20⟩

/-- `on_message(PhysicsTickPayload)`. -/
def onPhysicsTick (s : ThermalService F) (tick : PhysicsTickPayload) : ThermalService F :=
  let dtS : F := tick.dtS
  let rpmAbs : F := ofInt |tick.speedRpm|
  let motorHeatRate := rpmAbs * lit (5 / 1000)
  let motorCoolingRate := (s.motorTempC - s.ambientTempC) * lit (5 / 100)
  let batteryHeatRate := rpmAbs * lit (2 / 1000)
  let batteryCoolingRate := (s.batteryTempC - s.ambientTempC) * lit (2 / 100)
  { s with
    motorTempC := s.motorTempC + (motorHeatRate - motorCoolingRate) * dtS
    batteryTempC := s.batteryTempC + (batteryHeatRate - batteryCoolingRate) * dtS }

/-- `on_message(EnvironmentPayload)`. -/
def onEnvironmentData (s : ThermalService F) (env : EnvironmentPayload F) : ThermalService F :=
  { s with ambientTempC := env.ambientTempC }

/-- `publish_data`: the reply to a `ThermalRequest`. -/
def publishData (s : ThermalService F) : ThermalPayload F := ⟨s.motorTempC, s.batteryTempC⟩

end ThermalService

end ReflectPytest
