import Mathlib.Tactic

/-! The agent's record of one host and the configuration that judges it. -/
namespace Lrlb.Agent

/-- How a ratio of counters is compared with a configured rate: `exceeds n d r` is the code's
`n * 1.0 / d > r` and `reaches n d r` its `n * 1.0 / d >= r`. -/
class RateArith (R : Type) where
  exceeds : UInt32 → UInt32 → R → Bool
  reaches : UInt32 → UInt32 → R → Bool

/-- Exact rationals. As in IEEE division, `n / 0` is above every rate and `0 / 0` above none. -/
instance : RateArith ℚ where
  exceeds n d r := if d = 0 then n ≠ 0 else r * d.toNat < n.toNat
  reaches n d r := if d = 0 then n ≠ 0 else r * d.toNat ≤ n.toNat

structure Config (R : Type) where
  probeNum : Int32
  initSuccCnt : Int32
  initErrCnt : Int32
  errRate : R
  succRate : R
  continErrLimit : Int32
  continSuccLimit : Int32
  localIp : UInt32
  windowErrRate : R
  idleTimeout : Int32
  overloadTimeout : Int32
  updateTimeout : Int64

/-- The defaults of `init_lb_agent`, on a host whose own address is 127.0.0.1. -/
def defaultConfig : Config ℚ where
  probeNum := 10
  initSuccCnt := 180
  initErrCnt := 5
  errRate := 1 / 10
  succRate := 92 / 100
  continErrLimit := 10
  continSuccLimit := 10
  localIp := 2130706433
  windowErrRate := 7 / 10
  idleTimeout := 15
  overloadTimeout := 15
  updateTimeout := 15

structure HostInfo where
  ip : UInt32
  port : Int32
  vsucc : UInt32
  verr : UInt32
  rsucc : UInt32
  rerr : UInt32
  continSucc : UInt32
  continErr : UInt32
  overload : Bool
  idleTs : Int64
  overloadTs : Int64
deriving DecidableEq, Repr, Inhabited

/-- What the memory of a new `host_info` held where its constructor writes nothing. -/
structure RawHost where
  idleTs : Int64
  overloadTs : Int64
deriving DecidableEq, Repr, Inhabited

namespace HostInfo

def new (raw : RawHost) (ip : UInt32) (port : Int32) (initVsucc : UInt32) : HostInfo where
  ip := ip
  port := port
  vsucc := initVsucc
  verr := 0
  rsucc := 0
  rerr := 0
  continSucc := 0
  continErr := 0
  overload := false
  idleTs := raw.idleTs
  overloadTs := raw.overloadTs

variable {R : Type}

def setIdle (cfg : Config R) (time : Int64) (h : HostInfo) : HostInfo :=
  { h with
    vsucc := cfg.initSuccCnt.toUInt32, verr := 0, rsucc := 0, rerr := 0,
    continSucc := 0, continErr := 0, overload := false, idleTs := time }

def setOverload (cfg : Config R) (time : Int64) (h : HostInfo) : HostInfo :=
  { h with
    vsucc := 0, verr := cfg.initErrCnt.toUInt32, rsucc := 0, rerr := 0,
    continErr := 0, continSucc := 0, overload := true, overloadTs := time }

def checkWindow [RateArith R] (cfg : Config R) (h : HostInfo) : Bool :=
  if h.rsucc + h.rerr = 0 then false
  else RateArith.reaches h.rerr (h.rsucc + h.rerr) cfg.windowErrRate

end HostInfo

end Lrlb.Agent
