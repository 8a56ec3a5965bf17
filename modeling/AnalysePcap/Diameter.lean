import Mathlib.Data.Rat.Floor
import Mathlib.Data.Fin.VecNotation

/-! The Diameter object as its constructor leaves it, and the constants the
interfaces compare it with. Time stamps are exact rationals. -/

namespace AnalysePcap

abbrev Text := List Char

inductive Iface where
  | GX
  | GY
  | S6B
  deriving DecidableEq, Repr

def Iface.appId : Iface → Nat
  | .GX => 16777238
  | .GY => 4
  | .S6B => 16777999

def Iface.ofAppId (appId : Nat) : Option Iface :=
  if appId = Iface.GX.appId then some .GX
  else if appId = Iface.GY.appId then some .GY
  else if appId = Iface.S6B.appId then some .S6B
  else none

inductive ReqType where
  | INITIAL
  | UPDATE
  | TERMINATE
  | EVENT
  deriving DecidableEq, Repr

def ReqType.code : ReqType → Nat
  | .INITIAL => 1
  | .UPDATE => 2
  | .TERMINATE => 3
  | .EVENT => 4

inductive CC where
  | CCRorA
  | S6BAA
  | S6BTERMINATE
  deriving DecidableEq, Repr

def CC.code : CC → Nat
  | .CCRorA => 272
  | .S6BAA => 265
  | .S6BTERMINATE => 275

inductive MSGType where
  | AA
  | TERM
  deriving DecidableEq, Repr

def MSGType.code : MSGType → Nat
  | .AA => 0
  | .TERM => 1

structure Diameter where
  request : Int
  cc : Nat
  appId : Nat
  hopIdentifier : Int
  resCode : Int
  reqType : Nat
  timeStamp : ℚ
  valid : Bool
  deriving DecidableEq, Repr

/-- The `uint32_t` key that a hop identifier is converted to. -/
def Diameter.hopKey (pkt : Diameter) : Nat := (pkt.hopIdentifier % 2 ^ 32).toNat

/-- The `unsigned int` that `checkTime` receives for a time stamp. The conversion is defined for
those above -1 and below `2 ^ 32`, and of others nothing is said here. -/
def Diameter.seconds (pkt : Diameter) : Nat := ⌊pkt.timeStamp⌋₊

end AnalysePcap
