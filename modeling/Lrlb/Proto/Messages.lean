import Mathlib.Tactic

/-! The messages of `lrlb.proto`. A `message` is a structure over the same scalar types, a
`repeated` field is a list and a singular message field is an option. -/
namespace Lrlb.Proto

inductive MessageID where
  | idUnknow | idGetRouteRequest | idGetRouteResponse | idReportStatusRequest
  | idGetHostRequest | idGetHostResponse | idReportRequest
  | idAPIGetRouteRequest | idAPIGetRouteResponse
deriving DecidableEq, Repr

def MessageID.value : MessageID → Int32
  | .idUnknow => 0
  | .idGetRouteRequest => 1
  | .idGetRouteResponse => 2
  | .idReportStatusRequest => 3
  | .idGetHostRequest => 4
  | .idGetHostResponse => 5
  | .idReportRequest => 6
  | .idAPIGetRouteRequest => 7
  | .idAPIGetRouteResponse => 8

inductive LrlbRetCode where
  | retSucc | retOverload | retSystemError | retNoexist
deriving DecidableEq, Repr

def LrlbRetCode.value : LrlbRetCode → Int32
  | .retSucc => 0
  | .retOverload => 1
  | .retSystemError => 2
  | .retNoexist => 3

structure HostInfo where
  ip : Int32 := 0
  port : Int32 := 0
deriving DecidableEq, Repr

structure GetRouteRequest where
  modid : Int32 := 0
  cmdid : Int32 := 0
deriving DecidableEq, Repr

structure GetRouteResponse where
  modid : Int32 := 0
  cmdid : Int32 := 0
  host : List HostInfo := []
deriving DecidableEq, Repr

structure HostCallResult where
  ip : Int32 := 0
  port : Int32 := 0
  succ : UInt32 := 0
  err : UInt32 := 0
  overload : Bool := false
deriving DecidableEq, Repr

structure ReportStatusReq where
  modid : Int32 := 0
  cmdid : Int32 := 0
  caller : Int32 := 0
  results : List HostCallResult := []
  ts : UInt32 := 0
deriving DecidableEq, Repr

structure GetHostRequest where
  seq : UInt32 := 0
  modid : Int32 := 0
  cmdid : Int32 := 0
deriving DecidableEq, Repr

structure GetHostResponse where
  seq : UInt32 := 0
  modid : Int32 := 0
  cmdid : Int32 := 0
  retcode : Int32 := 0
  host : Option HostInfo := none
deriving DecidableEq, Repr

structure ReportRequest where
  modid : Int32 := 0
  cmdid : Int32 := 0
  host : Option HostInfo := none
  retcode : Int32 := 0
deriving DecidableEq, Repr

end Lrlb.Proto
