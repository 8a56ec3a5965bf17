import AnalysePcap.CString
import AnalysePcap.Deposits
import AnalysePcap.SharedStore

/-! The loop of `main.cpp`: put a key with a value into the shared hash file, get it, print it and
delete it, and the same with another key. Any number of processes run it on one file. As long as
there are not more of them than a key has places, all of them go on for ever, and each prints what
it would print alone.

A call is one step here, whatever lock it takes. So two lookups that copy a value, and hold the
lock of the window only as readers, do not shrink its tab at the same time. -/

namespace AnalysePcap

open CString Postcondition Shelves

/-- The two parts of the body of the loop. -/
inductive MainPart where
  | hop
  | test
  deriving DecidableEq

namespace MainPart

def key : MainPart → Text
  | hop => decimal 509078234981
  | test => ['t', 'e', 's', 't', '1']

def responsetm : MainPart → Int
  | hop => 1999234956
  | test => 1234

def keyV : MainPart → Text
  | hop => decimal 1999234956
  | test => ['1', '2', '3', '4']

def line : MainPart → Int → Text
  | hop, responsetm => "Test Key=".toList ++ hop.keyV ++ "Value=".toList ++ decimal responsetm
  | test, responsetm => "Test ".toList ++ decimal responsetm

def other : MainPart → MainPart
  | hop => test
  | test => hop

end MainPart

inductive MainStage where
  | put
  | get
  | del
  deriving DecidableEq

/-- A process in the loop, with the buffer of `shf_val` and what it has printed. -/
structure MainProcess where
  part : MainPart
  stage : MainStage
  shf_val : List (BitVec 8)
  printed : List Text

/-- `shf_init` maps 4096 bytes for `shf_val`. -/
def MainProcess.start : MainProcess := ⟨.hop, .put, List.replicate 4096 0, []⟩

/-- `bzero(shf_val, sizeof(shf_val))`, and the size is that of a pointer. -/
def bzeroVal (shf_val : List (BitVec 8)) : List (BitVec 8) :=
  List.replicate 8 0 ++ shf_val.drop 8

/-- How `shf_find_key_internal` copies a value to `shf_val`, which grows if need be. -/
def copyVal (shf_val val : List (BitVec 8)) : List (BitVec 8) :=
  if val.length > shf_val.length then
    val ++ List.replicate (SHF_MOD_PAGE val.length - val.length) 0
  else val ++ shf_val.drop val.length

/-- `SetDataNeedFactor (250)`. -/
def mainEnv (vfs_available : Nat) : ShfEnv := ⟨250, vfs_available⟩

/-- The largest record has 31 bytes. -/
def mainLimits (z : ShfSizes) : ShfLimits z where
  record := 31
  factor := 250
  tabMax_lt := by
    have hrefs := z.refs_le
    unfold ShfSizes.tabMax ShfSizes.dataMax ShfSizes.offset SHF_MOD_PAGE SHF_SIZE_PAGE
    omega

theorem mainEnv_within (z : ShfSizes) (vfs_available : Nat) :
    (mainEnv vfs_available).Within (mainLimits z) :=
  ⟨(by decide : 0 < 250), Nat.le_refl 250⟩

section Loop

variable (z : ShfSizes) (hash : List (BitVec 8) → BitVec 128)

def MainProcess.next (vfs_available : Nat) (p : MainProcess) (shf : Shf) :
    Except ShfExit (MainProcess × Shf) :=
  let env := mainEnv vfs_available
  let key := textBytes p.part.key
  match p.stage with
  | .put => do
    let (_, shf) ← shf.shf_put_key_val z hash env key (.bytes (textBytes p.part.keyV))
    return ({ p with stage := .get }, shf)
  | .get => do
    let shf_val := bzeroVal p.shf_val
    let (val, shf) ← shf.shf_find_key_internal z hash env key z.uidNone .andCopyVal
    let shf_val := val.elim shf_val (copyVal shf_val)
    return ({ p with
      stage := .del
      shf_val := shf_val
      printed := p.printed ++ [p.part.line (atoi shf_val)] }, shf)
  | .del => do
    let (_, shf) ← shf.shf_find_key_internal z hash env key z.uidNone .andDelete
    return ({ p with part := p.part.other, stage := .put }, shf)

end Loop

structure MainSystem (ι : Type) where
  shf : Shf
  process : ι → MainProcess

namespace MainSystem

variable {ι : Type} [DecidableEq ι] (z : ShfSizes) (hash : List (BitVec 8) → BitVec 128)

/-- A step of one process, and the space that there is at that time. -/
def next (s : MainSystem ι) (e : ι × Nat) : Except ShfExit (MainSystem ι) := do
  let (p, shf) ← (s.process e.1).next z hash e.2 s.shf
  return ⟨shf, Function.update s.process e.1 p⟩

def start : MainSystem ι := ⟨Shf.create z, fun _ => .start⟩

def run (events : List (ι × Nat)) : Except ShfExit (MainSystem ι) :=
  events.foldlM (next z hash) (start z)

end MainSystem

section Process

/-- The part after `n` parts. -/
def mainPart (n : Nat) : MainPart := if n % 2 = 0 then .hop else .test

def mainStage (n : Nat) : MainStage := if n % 3 = 0 then .put else if n % 3 = 1 then .get else .del

/-- What a process prints that is alone with the file. -/
def mainLines (n : Nat) : List Text :=
  (List.range n).map fun i => (mainPart i).line (mainPart i).responsetm

/-- A process after `n` steps. -/
structure MainProcess.After (n : Nat) (p : MainProcess) : Prop where
  part : p.part = mainPart (n / 3)
  stage : p.stage = mainStage n
  printed : p.printed = mainLines ((n + 1) / 3)
  shf_val : ∃ used rest, used.length = 10 ∧ p.shf_val = used ++ 0 :: rest

theorem mainPart_succ (n : Nat) : (mainPart n).other = mainPart (n + 1) := by
  unfold mainPart
  rcases Nat.mod_two_eq_zero_or_one n with h | h
  · rw [if_pos h, if_neg (by omega)]
    rfl
  · rw [if_neg (by omega), if_pos (by omega)]
    rfl

theorem mainLines_succ (n : Nat) :
    mainLines (n + 1) = mainLines n ++ [(mainPart n).line (mainPart n).responsetm] := by
  rw [mainLines, List.range_succ, List.map_append]
  rfl

theorem MainPart.keyV_digits (p : MainPart) : ∀ c ∈ textBytes p.keyV, isdigit c = true := by
  cases p with
  | hop => decide
  | test => decide

theorem MainPart.atoi_keyV (p : MainPart) (rest : List (BitVec 8)) :
    atoi (textBytes p.keyV ++ 0 :: rest) = p.responsetm := by
  have hstring : string (textBytes p.keyV ++ 0 :: rest) = textBytes p.keyV :=
    string_append_nul (fun c hc => (isdigit_plain c (p.keyV_digits c hc)).2.2.2) rest
  rw [atoi_of_digits (by rw [hstring]; exact p.keyV_digits), hstring]
  cases p with
  | hop => decide
  | test => decide

theorem copyVal_eq {shf_val val : List (BitVec 8)} (h : val.length ≤ shf_val.length) :
    copyVal shf_val val = val ++ shf_val.drop val.length := if_neg (Nat.not_lt.mpr h)

theorem bzeroVal_append {used rest : List (BitVec 8)} (h : used.length = 10) :
    bzeroVal (used ++ rest) = List.replicate 8 0 ++ used.drop 8 ++ rest := by
  rw [bzeroVal, List.drop_append_of_le_length (by omega), List.append_assoc]

/-- Behind what `bzero` clears there is a zero that has never been overwritten. -/
theorem exists_copyVal (p : MainPart) {used : List (BitVec 8)} (h : used.length = 10)
    (rest : List (BitVec 8)) :
    ∃ used', used'.length = 10 ∧
      copyVal (bzeroVal (used ++ 0 :: rest)) (textBytes p.keyV) = used' ++ 0 :: rest ∧
      atoi (used' ++ 0 :: rest) = p.responsetm := by
  have hlen : (used.drop 8).length = 2 := by
    rw [List.length_drop, h]
  rw [bzeroVal_append h]
  cases p with
  | hop =>
    have hval : (textBytes MainPart.hop.keyV).length = 10 := by decide
    refine ⟨textBytes MainPart.hop.keyV, hval, ?_, MainPart.atoi_keyV .hop rest⟩
    rw [copyVal_eq, hval, List.drop_append_of_le_length, List.drop_of_length_le, List.nil_append]
    all_goals simp [hlen, hval]
  | test =>
    have hval : (textBytes MainPart.test.keyV).length = 4 := by decide
    refine ⟨textBytes MainPart.test.keyV ++ (List.replicate 4 0 ++ used.drop 8), ?_, ?_, ?_⟩
    · simp [hlen, hval]
    · rw [copyVal_eq, hval, List.append_assoc, List.append_assoc]
      · rfl
      · simp [hlen, hval]
    · rw [List.append_assoc]
      exact MainPart.atoi_keyV .test _

namespace MainProcess

variable {n : Nat} {p : MainProcess}

theorem after_start : After 0 start := ⟨rfl, rfl, rfl, List.replicate 10 0, List.replicate 4085 0, rfl, rfl⟩

theorem After.put (h : p.After n) (hstage : p.stage = .put) : After (n + 1) { p with stage := .get } := by
  have hmod : n % 3 = 0 := by
    have hn := h.stage
    rw [hstage, mainStage] at hn
    split_ifs at hn
    assumption
  refine ⟨?_, ?_, ?_, h.shf_val⟩
  · rw [h.part]
    congr 1
    omega
  · rw [mainStage, if_neg (by omega), if_pos (by omega)]
  · rw [h.printed]
    congr 1
    omega

theorem After.get (h : p.After n) (hstage : p.stage = .get) :
    After (n + 1) { p with
      stage := .del
      shf_val := copyVal (bzeroVal p.shf_val) (textBytes p.part.keyV)
      printed := p.printed ++
        [p.part.line (atoi (copyVal (bzeroVal p.shf_val) (textBytes p.part.keyV)))] } := by
  have hmod : n % 3 = 1 := by
    have hn := h.stage
    rw [hstage, mainStage] at hn
    split_ifs at hn
    assumption
  obtain ⟨used, rest, hused, hval⟩ := h.shf_val
  obtain ⟨used', hused', hcopy, hatoi⟩ := exists_copyVal p.part hused rest
  refine ⟨?_, ?_, ?_, used', rest, hused', ?_⟩
  · rw [h.part]
    congr 1
    omega
  · rw [mainStage, if_neg (by omega), if_neg (by omega)]
  · have hn : (n + 1 + 1) / 3 = n / 3 + 1 := by omega
    have hn' : (n + 1) / 3 = n / 3 := by omega
    dsimp only
    rw [hn, mainLines_succ, hval, hcopy, hatoi, h.printed, hn', h.part]
  · dsimp only
    rw [hval, hcopy]

theorem After.del (h : p.After n) (hstage : p.stage = .del) :
    After (n + 1) { p with part := p.part.other, stage := .put } := by
  have hmod : n % 3 = 2 := by
    have hn := h.stage
    rw [hstage, mainStage] at hn
    split_ifs at hn
    omega
  have hn : (n + 1) / 3 = n / 3 + 1 := by omega
  refine ⟨?_, ?_, ?_, h.shf_val⟩
  · dsimp only
    rw [h.part, mainPart_succ, hn]
  · rw [mainStage, if_pos (by omega)]
  · rw [h.printed]
    congr 1
    omega

end MainProcess

end Process

/-- What is in the file under a key of the loop. -/
def mainVal (key : List (BitVec 8)) : List (BitVec 8) :=
  if key = textBytes MainPart.hop.key then textBytes MainPart.hop.keyV
  else textBytes MainPart.test.keyV

theorem mainVal_key (p : MainPart) : mainVal (textBytes p.key) = textBytes p.keyV := by
  cases p with
  | hop => exact if_pos rfl
  | test => exact if_neg (by decide)

theorem MainPart.record_le (p : MainPart) :
    1 + 4 + (textBytes p.key).length + 4 + (ShfVal.bytes (textBytes p.keyV)).val_len ≤ 31 := by
  cases p with
  | hop => decide
  | test => decide

/-- What the process has put and not deleted. -/
def MainProcess.deposit (p : MainProcess) : Option (List (BitVec 8)) :=
  if p.stage = .put then none else some (textBytes p.part.key)

namespace MainSystem

variable {ι : Type} {z : ShfSizes} {hash : List (BitVec 8) → BitVec 128} {s : MainSystem ι}
  {count : ι → Nat}

structure Inv (z : ShfSizes) (hash : List (BitVec 8) → BitVec 128) (count : ι → Nat)
    (s : MainSystem ι) : Prop where
  sound : s.shf.Sound (mainLimits z) hash
  after : ∀ i, (s.process i).After (count i)
  deposits : ∃ spot, Deposits (z.placesOf hash) mainVal (s.shf.content z)
    (fun i => (s.process i).deposit) spot

theorem inv_start : Inv z hash (fun _ => 0) (start z : MainSystem ι) where
  sound := Shf.sound_create (mainLimits z) hash
  after _ := MainProcess.after_start
  deposits := by
    refine ⟨fun _ => z.place 0, ?_⟩
    rw [start, Shf.content_create]
    exact deposits_empty _ _ _

/-- Why a process exits: there is less space than for a tab, or there are more processes than a
key has places. -/
def Exit (z : ShfSizes) (ι : Type) [Fintype ι] (vfs_available : Nat) (e : ShfExit) : Prop :=
  e = .space ∧ vfs_available ≤ z.tabMax 31 250 ∨ e = .tabOverflow ∧ z.refs < Fintype.card ι

variable [DecidableEq ι]

theorem update_after {p : MainProcess} {i : ι} (h : ∀ j, (s.process j).After (count j))
    (hp : p.After (count i + 1)) (j : ι) :
    (Function.update s.process i p j).After (Function.update count i (count i + 1) j) := by
  by_cases hj : j = i
  · rw [hj, Function.update_self, Function.update_self]
    exact hp
  · rw [Function.update_of_ne hj, Function.update_of_ne hj]
    exact h j

theorem update_deposit (s : MainSystem ι) (i : ι) (p : MainProcess) :
    (fun j => (Function.update s.process i p j).deposit) =
      Function.update (fun j => (s.process j).deposit) i p.deposit := by
  funext j
  by_cases hj : j = i
  · rw [hj, Function.update_self, Function.update_self]
  · rw [Function.update_of_ne hj, Function.update_of_ne hj]

variable [Fintype ι]

theorem nodup_placesOf (z : ShfSizes) (hash : List (BitVec 8) → BitVec 128)
    (key : List (BitVec 8)) : (z.placesOf hash key).Nodup := by
  refine List.nodup_range.map fun ref ref' heq => ?_
  exact congrArg ShfPlace.ref heq

theorem length_placesOf (z : ShfSizes) (hash : List (BitVec 8) → BitVec 128)
    (key : List (BitVec 8)) : (z.placesOf hash key).length = z.refs := by
  rw [ShfSizes.placesOf, List.length_map, List.length_range]

/-- What a step of the process `i` leaves. -/
structure Stepped (z : ShfSizes) (hash : List (BitVec 8) → BitVec 128) (count : ι → Nat)
    (s : MainSystem ι) (i : ι) (r : MainProcess × Shf) : Prop where
  after : r.1.After (count i + 1)
  sound : r.2.Sound (mainLimits z) hash
  deposits : ∃ spot, Deposits (z.placesOf hash) mainVal (r.2.content z)
    (Function.update (fun j => (s.process j).deposit) i r.1.deposit) spot

variable {i : ι} {vfs_available : Nat}

theorem Inv.put (h : Inv z hash count s) (hstage : (s.process i).stage = .put) :
    Ensures (Exit z ι vfs_available) (Stepped z hash count s i)
      ((s.process i).next z hash vfs_available s.shf) := by
  obtain ⟨spot, hdeposits⟩ := h.deposits
  have hnone : (s.process i).deposit = none := if_pos hstage
  have henv := mainEnv_within z vfs_available
  unfold MainProcess.next
  rw [hstage]
  dsimp only
  by_cases hfree : ∃ p ∈ z.placesOf hash (textBytes (s.process i).part.key),
      s.shf.content z p = none
  · refine ((h.sound.ensures_put henv (s.process i).part.record_le hfree).weaken
      fun e => .inl).bind ?_
    rintro ⟨uid, shf⟩ ⟨hs, p, hp, hpnone, -, -, hcontent⟩
    refine ensures_ok ⟨(h.after i).put hstage, hs, Function.update spot i p, ?_⟩
    have hdeposit := hdeposits.put hnone hp hpnone
    rw [mainVal_key] at hdeposit
    dsimp only at hcontent ⊢
    rw [hcontent]
    exact hdeposit
  · have hfull : s.shf.Full z hash (textBytes (s.process i).part.key) :=
      fun p hp hpnone => hfree ⟨p, hp, hpnone⟩
    refine ((h.sound.ensures_put_full henv hfull
      (.bytes (textBytes (s.process i).part.keyV))).weaken fun e he => ?_).bind
        fun _ hfalse => hfalse.elim
    rcases he with hspace | hover
    · exact .inl hspace
    · refine .inr ⟨hover, ?_⟩
      by_contra hcard
      rw [← length_placesOf z hash (textBytes (s.process i).part.key)] at hcard
      exact hfree (hdeposits.exists_free hnone (nodup_placesOf z hash _) (Nat.not_lt.mp hcard))

omit [DecidableEq ι] in
theorem Inv.find (h : Inv z hash count s) (key : List (BitVec 8)) (what : ShfFind) :
    Ensures (Exit z ι vfs_available)
      (fun r => r.2.Sound (mainLimits z) hash ∧
        r.1 = value (z.placesOf hash) (s.shf.content z) (.key key) ∧
        r.2.content z = if what = .andDelete then
          clear (s.shf.content z) (Shelves.find (z.placesOf hash) (s.shf.content z) (.key key))
          else s.shf.content z)
      (s.shf.shf_find_key_internal z hash (mainEnv vfs_available) key z.uidNone what) := by
  have hfind := h.sound.ensures_find (mainEnv_within z vfs_available) key z.uidNone what
  have hquery : ShfAccess.query z key z.uidNone = .key key := if_pos rfl
  rw [hquery] at hfind
  exact hfind.weaken fun e => .inl

theorem Inv.get (h : Inv z hash count s) (hstage : (s.process i).stage = .get) :
    Ensures (Exit z ι vfs_available) (Stepped z hash count s i)
      ((s.process i).next z hash vfs_available s.shf) := by
  obtain ⟨spot, hdeposits⟩ := h.deposits
  have hsome : (s.process i).deposit = some (textBytes (s.process i).part.key) :=
    if_neg (by rw [hstage]; decide)
  unfold MainProcess.next
  rw [hstage]
  dsimp only
  refine (h.find _ _).bind ?_
  rintro ⟨val, shf⟩ ⟨hs, hval, hcontent⟩
  dsimp only at hs hval hcontent ⊢
  rw [hdeposits.value_eq hsome, mainVal_key] at hval
  rw [hval]
  refine ensures_ok ⟨(h.after i).get hstage, hs, spot, ?_⟩
  rw [hcontent, if_neg (by decide)]
  change Deposits _ _ _
    (Function.update _ i (some (textBytes (s.process i).part.key))) spot
  rw [← hsome, Function.update_eq_self]
  exact hdeposits

theorem Inv.del (h : Inv z hash count s) (hstage : (s.process i).stage = .del) :
    Ensures (Exit z ι vfs_available) (Stepped z hash count s i)
      ((s.process i).next z hash vfs_available s.shf) := by
  obtain ⟨spot, hdeposits⟩ := h.deposits
  have hsome : (s.process i).deposit = some (textBytes (s.process i).part.key) :=
    if_neg (by rw [hstage]; decide)
  unfold MainProcess.next
  rw [hstage]
  dsimp only
  refine (h.find _ _).bind ?_
  rintro ⟨val, shf⟩ ⟨hs, -, hcontent⟩
  refine ensures_ok ⟨(h.after i).del hstage, hs, ?_⟩
  dsimp only at hcontent ⊢
  rw [hcontent, if_pos rfl]
  exact hdeposits.del hsome

theorem Inv.next (h : Inv z hash count s) (i : ι) (vfs_available : Nat) :
    Ensures (Exit z ι vfs_available) (Inv z hash (Function.update count i (count i + 1)))
      (s.next z hash (i, vfs_available)) := by
  have hstep : Ensures (Exit z ι vfs_available) (Stepped z hash count s i)
      ((s.process i).next z hash vfs_available s.shf) := by
    cases hstage : (s.process i).stage with
    | put => exact h.put hstage
    | get => exact h.get hstage
    | del => exact h.del hstage
  refine hstep.bind fun r hr => ensures_ok ⟨hr.sound, update_after h.after hr.after, ?_⟩
  rw [update_deposit]
  exact hr.deposits

/-- How often each process has taken a step. -/
def steps (events : List (ι × Nat)) (i : ι) : Nat := events.countP fun e => e.1 = i

omit [Fintype ι] in
theorem steps_append (done : List (ι × Nat)) (e : ι × Nat) :
    steps (done ++ [e]) = Function.update (steps done) e.1 (steps done e.1 + 1) := by
  funext i
  rw [steps, List.countP_append, List.countP_singleton]
  by_cases hi : e.1 = i
  · rw [if_pos (by simpa using hi), ← hi, Function.update_self]
    rfl
  · rw [if_neg (by simpa using hi), Function.update_of_ne (Ne.symm hi)]
    rfl

theorem ensures_run (z : ShfSizes) (hash : List (BitVec 8) → BitVec 128)
    (events : List (ι × Nat)) :
    Ensures (fun e => ∃ event ∈ events, Exit z ι event.2 e) (Inv z hash (steps events))
      (run z hash events) := by
  refine Ensures.foldlM (I := fun done => Inv z hash (steps done)) ?_ inv_start
  rintro done ⟨i, vfs_available⟩ rest s hevents h
  rw [steps_append]
  refine (h.next i vfs_available).weaken fun e he => ⟨(i, vfs_available), ?_, he⟩
  rw [hevents]
  exact List.mem_append_right _ List.mem_cons_self

section Results

variable {events : List (ι × Nat)}

/-- Up to as many processes as a key has places go on for ever, whatever the order of their calls,
if there is space for one more tab at each step. What each of them prints depends only on how far
it is. -/
theorem run_prints (hcard : Fintype.card ι ≤ z.refs)
    (hspace : ∀ e ∈ events, z.tabMax 31 250 < e.2) :
    ∃ s, run z hash events = .ok s ∧
      ∀ i, (s.process i).printed = mainLines ((steps events i + 1) / 3) := by
  have hrun : Ensures (fun _ => False) (Inv z hash (steps events)) (run z hash events) := by
    apply (ensures_run z hash events).weaken
    rintro e ⟨event, hmem, ⟨-, hle⟩ | ⟨-, hlt⟩⟩
    · exact absurd (hspace event hmem) (Nat.not_lt.mpr hle)
    · exact absurd hlt (Nat.not_lt.mpr hcard)
  obtain ⟨s, hs, h⟩ := hrun.exists_ok
  exact ⟨s, hs, fun i => (h.after i).printed⟩

example : mainLines 2 =
    ["Test Key=1999234956Value=1999234956".toList, "Test 1234".toList] := by decide

theorem run_prints_two : ∃ s : MainSystem Bool,
    run shfSizes (fun _ => 0) [(true, 2 ^ 20), (false, 2 ^ 20), (true, 2 ^ 20)] = .ok s ∧
      ∀ i, (s.process i).printed =
        mainLines ((steps [(true, 2 ^ 20), (false, 2 ^ 20), (true, 2 ^ 20)] i + 1) / 3) :=
  run_prints (by decide) (by decide)

/-- With one process more than a key has places, there is an order of steps after which one of them
exits, however much space there is. -/
theorem run_exits_of_card (hcard : z.refs < Fintype.card ι) (vfs_available : Nat) :
    ∃ events : List (ι × Nat), (∀ e ∈ events, e.2 = vfs_available) ∧
      ∃ e, run z hash events = .error e := by
  have hsteps (i : ι) : steps (Finset.univ.toList.map fun i => (i, vfs_available)) i = 1 := by
    rw [steps, List.countP_map]
    exact List.count_eq_one_of_mem (Finset.nodup_toList _) (Finset.mem_toList.mpr (Finset.mem_univ i))
  refine ⟨Finset.univ.toList.map fun i => (i, vfs_available), ?_, ?_⟩
  · intro e he
    obtain ⟨i, -, rfl⟩ := List.mem_map.mp he
    rfl
  · cases hrun : run z hash (Finset.univ.toList.map fun i : ι => (i, vfs_available)) with
    | error e => exact ⟨e, rfl⟩
    | ok s =>
      have h := (ensures_run z hash _).of_eq_ok hrun
      have hput (i : ι) : (s.process i).deposit = some (textBytes MainPart.hop.key) := by
        have hafter := h.after i
        rw [hsteps] at hafter
        rw [MainProcess.deposit, hafter.stage, hafter.part]
        rfl
      obtain ⟨spot, hdeposits⟩ := h.deposits
      have hle := hdeposits.card_le hput
      rw [length_placesOf] at hle
      exact absurd hcard (Nat.not_lt.mpr hle)

theorem run_exits_of_card_seventeen : 16 < Fintype.card (Fin 17) ∧
    ∃ events : List (Fin 17 × Nat), (∀ e ∈ events, e.2 = 2 ^ 30) ∧
      ∃ e, run shfSizes (fun _ => 0) events = .error e :=
  ⟨by decide, run_exits_of_card (by decide) (2 ^ 30)⟩

end Results

end MainSystem

end AnalysePcap
