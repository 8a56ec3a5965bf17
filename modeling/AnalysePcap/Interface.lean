import AnalysePcap.Diameter
import AnalysePcap.NestedTable

/-! The interface objects: the reporting window of the base class, and the
statistics and the table of pending requests that the three derived classes
keep. The classes differ only in an `InterfaceKind`. Counters are naturals. -/

namespace AnalysePcap

structure Interface where
  startTime : Nat
  endTime : Nat
  deriving DecidableEq, Repr

def Interface.checkTime (w : Interface) (newTime : Nat) : Interface × Nat :=
  if newTime < w.startTime then (w, 0)
  else if newTime < w.endTime then (w, 1)
  else if w.endTime < newTime then
    let startTime := newTime - newTime % 10
    (⟨startTime, startTime + 10⟩, 2)
  -- here the time is the end of the window
  else if w.startTime = 0 then (⟨newTime, newTime + 10⟩, 1)
  else (w, 1)

/-- What distinguishes the three derived classes. `msgKey` is the choice of the
message type at the head of `addPkt`, `none` where it returns 1. The statistics
arrays hold `size` counters, and `base` is subtracted from a message type to
index them. -/
structure InterfaceKind where
  ix : String
  base : Nat
  size : Nat
  label : Fin size → String
  msgKey : Diameter → Option Nat
  fits : base + size < 2 ^ 32
  msgKey_valid : ∀ pkt k, msgKey pkt = some k → base ≤ k ∧ k < base + size

namespace InterfaceKind

/-- The array index computed from a message type, in `unsigned int`. -/
def index (K : InterfaceKind) (k : Nat) : Nat := (k + 2 ^ 32 - K.base) % 2 ^ 32

def IsType (K : InterfaceKind) (k : Nat) : Prop := K.base ≤ k ∧ k < K.base + K.size

theorem index_of_isType {K : InterfaceKind} {k : Nat} (hk : K.IsType k) :
    K.index k = k - K.base := by
  have hf := K.fits
  obtain ⟨hb, hs⟩ := hk
  rw [index, show k + 2 ^ 32 - K.base = (k - K.base) + 2 ^ 32 by omega, Nat.add_mod_right]
  exact Nat.mod_eq_of_lt (by omega)

theorem index_lt {K : InterfaceKind} {k : Nat} (hk : K.IsType k) : K.index k < K.size := by
  rw [index_of_isType hk]
  have := hk.1
  have := hk.2
  omega

theorem isType_of_msgKey {K : InterfaceKind} {pkt : Diameter} {k : Nat}
    (h : K.msgKey pkt = some k) : K.IsType k := K.msgKey_valid pkt k h

def gx : InterfaceKind where
  ix := "Gx"
  base := 1
  size := 3
  label := ![ "INITIAL", "UPDATE", "TERMINATE"]
  msgKey pkt :=
    if pkt.cc ≠ CC.CCRorA.code then none
    else if pkt.reqType = ReqType.INITIAL.code ∨ pkt.reqType = ReqType.UPDATE.code ∨
        pkt.reqType = ReqType.TERMINATE.code then some pkt.reqType
    else none
  fits := by decide
  msgKey_valid pkt k h := by
    split_ifs at h with hcc hty
    simp only [Option.some.injEq] at h
    simp only [ReqType.code] at hty
    omega

def gy : InterfaceKind where
  ix := "Gy"
  base := 1
  size := 4
  label := ![ "INITIAL", "UPDATE", "TERMINATE", "EVENT"]
  msgKey pkt :=
    if pkt.cc ≠ CC.CCRorA.code then none
    else if pkt.reqType = ReqType.INITIAL.code ∨ pkt.reqType = ReqType.UPDATE.code ∨
        pkt.reqType = ReqType.TERMINATE.code ∨ pkt.reqType = ReqType.EVENT.code then
      some pkt.reqType
    else none
  fits := by decide
  msgKey_valid pkt k h := by
    split_ifs at h with hcc hty
    simp only [Option.some.injEq] at h
    simp only [ReqType.code] at hty
    omega

def s6b : InterfaceKind where
  ix := "S6B"
  base := 0
  size := 2
  label := ![ "AA", "TERMINATE"]
  msgKey pkt :=
    if pkt.cc = CC.S6BAA.code then some MSGType.AA.code
    else if pkt.cc = CC.S6BTERMINATE.code then some MSGType.TERM.code
    else none
  fits := by decide
  msgKey_valid pkt k h := by
    split_ifs at h <;> simp only [Option.some.injEq, MSGType.code] at h <;> omega

end InterfaceKind

def Iface.kind : Iface → InterfaceKind
  | .GX => .gx
  | .GY => .gy
  | .S6B => .s6b

@[ext] structure Stats (n : Nat) where
  attempts : Fin n → Nat
  succCount : Fin n → Nat
  failCount : Fin n → Nat
  timeoutCount : Fin n → Nat
  unKnwRes : Fin n → Nat
  latencySize : Fin n → Nat
  latency : Fin n → ℚ

def addAt {n : Nat} {M : Type*} [Add M] (a : Fin n → M) (i : Nat) (x : M) : Fin n → M :=
  fun j => if j.val = i then a j + x else a j

def InterfaceKind.typeAt (K : InterfaceKind) (i : Fin K.size) : Nat := K.base + i

theorem isType_typeAt {K : InterfaceKind} (i : Fin K.size) : K.IsType (K.typeAt i) := by
  have := i.isLt
  exact ⟨by simp [InterfaceKind.typeAt], by simp [InterfaceKind.typeAt]⟩

theorem index_eq_iff {K : InterfaceKind} {k : Nat} (hk : K.IsType k) (i : Fin K.size) :
    i.val = K.index k ↔ k = K.typeAt i := by
  have hb := hk.1
  rw [InterfaceKind.index_of_isType hk, InterfaceKind.typeAt]
  omega

theorem addAt_index {K : InterfaceKind} {k : Nat} (hk : K.IsType k) (a : Fin K.size → Nat)
    (i : Fin K.size) : addAt a (K.index k) 1 i = a i + if k = K.typeAt i then 1 else 0 := by
  simp only [addAt, index_eq_iff hk]
  split_ifs <;> rfl

namespace Stats

variable {n : Nat}

def zero : Stats n :=
  ⟨fun _ => 0, fun _ => 0, fun _ => 0, fun _ => 0, fun _ => 0, fun _ => 0, fun _ => 0⟩

def unknown (st : Stats n) (i : Nat) : Stats n :=
  { st with unKnwRes := addAt st.unKnwRes i 1 }

def timeOut (st : Stats n) (i : Nat) : Stats n :=
  { st with attempts := addAt st.attempts i 1, timeoutCount := addAt st.timeoutCount i 1 }

def answered (st : Stats n) (i : Nat) (rtt : ℚ) (resCode : Int) : Stats n :=
  let st := { st with
    attempts := addAt st.attempts i 1
    latency := addAt st.latency i rtt
    latencySize := addAt st.latencySize i 1 }
  if resCode < 3000 ∨ resCode = 70001 then { st with succCount := addAt st.succCount i 1 }
  else { st with failCount := addAt st.failCount i 1 }

@[simp] theorem answered_attempts (st : Stats n) (i : Nat) (rtt : ℚ) (resCode : Int) :
    (st.answered i rtt resCode).attempts = addAt st.attempts i 1 := by
  rw [answered]
  split_ifs <;> rfl

@[simp] theorem answered_timeoutCount (st : Stats n) (i : Nat) (rtt : ℚ) (resCode : Int) :
    (st.answered i rtt resCode).timeoutCount = st.timeoutCount := by
  rw [answered]
  split_ifs <;> rfl

@[simp] theorem answered_latencySize (st : Stats n) (i : Nat) (rtt : ℚ) (resCode : Int) :
    (st.answered i rtt resCode).latencySize = addAt st.latencySize i 1 := by
  rw [answered]
  split_ifs <;> rfl

@[simp] theorem answered_latency (st : Stats n) (i : Nat) (rtt : ℚ) (resCode : Int) :
    (st.answered i rtt resCode).latency = addAt st.latency i rtt := by
  rw [answered]
  split_ifs <;> rfl

theorem answered_succ_add_fail (st : Stats n) (i : Nat) (rtt : ℚ) (resCode : Int) (j : Fin n) :
    (st.answered i rtt resCode).succCount j + (st.answered i rtt resCode).failCount j =
      addAt (fun j => st.succCount j + st.failCount j) i 1 j := by
  rw [answered]
  split_ifs <;> simp only [addAt] <;> split_ifs <;> omega

end Stats

def DIAMETER_TIMEOUT : ℚ := 5

structure DiameterInterface (K : InterfaceKind) extends Interface where
  stats : Stats K.size
  req : NestedTable Nat Nat ℚ

abbrev GxInterface := DiameterInterface .gx

abbrev GyInterface := DiameterInterface .gy

abbrev S6BInterface := DiameterInterface .s6b

/-- The lines printed for one message type. The latency is printed only after
at least one sample. -/
structure Row where
  ty : String
  att : Nat
  suc : Nat
  fail : Nat
  tout : Nat
  laty : Option Int
  deriving DecidableEq, Repr

structure Report (K : InterfaceKind) where
  time : Nat
  node : Text
  rows : Fin K.size → Row

/-- The conversion of a `double` to an `int`. The language defines it for numbers above
`-2 ^ 31 - 1` and below `2 ^ 31`, and of others nothing is said here. -/
def toInt (q : ℚ) : Int := q.num.tdiv q.den

namespace DiameterInterface

variable {K : InterfaceKind}

def initial : DiameterInterface K := { startTime := 0, endTime := 0, stats := .zero, req := ∅ }

def addPkt (s : DiameterInterface K) (pkt : Diameter) : DiameterInterface K × Int :=
  match K.msgKey pkt with
  | none => (s, 1)
  | some reqtype =>
    let i := K.index reqtype
    if pkt.request = 1 then
      ({ s with req := s.req.set reqtype pkt.hopKey pkt.timeStamp }, 0)
    else if pkt.request = 0 then
      -- `TS = req[reqtype][hop]` leaves a zero entry behind when there was none
      let found := s.req.fetch reqtype pkt.hopKey 0
      let s := { s with req := found.2 }
      if found.1 = 0 then ({ s with stats := s.stats.unknown i }, 0)
      else
        let RTT := pkt.timeStamp - found.1
        -- counted, but not erased
        if RTT < 0 ∨ 40 < RTT then ({ s with stats := s.stats.timeOut i }, 0)
        else
          ({ s with
              stats := s.stats.answered i RTT pkt.resCode
              req := s.req.remove reqtype pkt.hopKey }, 0)
    else (s, 1)

def expired (endTime : Nat) (ts : ℚ) : Bool := decide (ts + DIAMETER_TIMEOUT < endTime)

def row (s : DiameterInterface K) (i : Fin K.size) : Row where
  ty := K.label i
  att := s.stats.attempts i
  suc := s.stats.succCount i
  fail := s.stats.failCount i
  tout := s.stats.timeoutCount i
  laty :=
    if 0 < s.stats.latencySize i then
      some (toInt (s.stats.latency i / s.stats.latencySize i * 1000))
    else none

def sweep (s : DiameterInterface K) : DiameterInterface K :=
  let swept := s.req.sweep (expired s.endTime) (fun k st => st.timeOut (K.index k)) s.stats
  { s with stats := swept.2, req := swept.1 }

def printStats (s : DiameterInterface K) (node : Text) : DiameterInterface K × Report K :=
  (s.sweep, { time := s.startTime, node := node, rows := s.sweep.row })

def clearStats (s : DiameterInterface K) : DiameterInterface K := { s with stats := .zero }

/-- What `protocolTCP::addPkt` does with a packet and the interface it found. -/
def drive (node : Text) (s : DiameterInterface K) (dPkt : Diameter) :
    DiameterInterface K × Option (Report K) :=
  -- the window moves before the report about the old one is printed
  let checked := s.checkTime dPkt.seconds
  let s := { s with toInterface := checked.1 }
  match checked.2 with
  | 1 => ((s.addPkt dPkt).1, none)
  | 2 => (((s.printStats node).1.clearStats.addPkt dPkt).1, some (s.printStats node).2)
  | _ => (s, none)

end DiameterInterface

end AnalysePcap
