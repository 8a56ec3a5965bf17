import AnalysePcap.ShfWindow
import AnalysePcap.Shelf

/-! A shared hash file as its users see it, `shf.c`. A uid is a place, and each key has the places
of one row under one number. Whatever tabs are parted and shrunk, the file is a shelf. -/

namespace AnalysePcap

open ByteMemory Postcondition Shelves

/-- `SHF_UID`, `as_part`. -/
structure ShfPlace where
  win : Nat
  tab : Nat
  row : Nat
  ref : Nat
  deriving DecidableEq

/-- `shf_hash.u16` and `shf_hash.u32`. -/
def hashU16 (hash : BitVec 128) (i : Nat) : Nat := hash.toNat / 2 ^ (16 * i) % 2 ^ 16

def hashU32 (hash : BitVec 128) (i : Nat) : Nat := hash.toNat / 2 ^ (32 * i) % 2 ^ 32

namespace ShfSizes

/-- `SHF_UID`, `as_u32`: the window has the lowest bits. -/
def uid (z : ShfSizes) (p : ShfPlace) : Nat :=
  p.win + z.wins * (p.tab + z.tabs * (p.row + z.rows * p.ref))

def place (z : ShfSizes) (uid : Nat) : ShfPlace where
  win := uid % z.wins
  tab := uid / z.wins % z.tabs
  row := uid / z.wins / z.tabs % z.rows
  ref := uid / z.wins / z.tabs / z.rows % z.refs

/-- `SHF_UID_NONE`. -/
def uidNone (z : ShfSizes) : Nat := z.wins * z.tabs * z.rows * z.refs - 1

example : shfSizes.uidNone = 4294967295 := by decide

section Hash

variable (z : ShfSizes) (hash : List (BitVec 8) → BitVec 128) (key : List (BitVec 8))

/-- Where `shf_make_hash` leads for a key; `hash` is `MurmurHash3_x64_128`. -/
def winOf : Nat := hashU16 (hash key) 0 % z.wins

def spotOf : ShfWin.Spot where
  tab2 := hashU16 (hash key) 1 % z.tabs
  row := hashU16 (hash key) 2 % z.rows
  rnd := hashU32 (hash key) 2 % (1 <<< (32 - 11))

def placeOf (ref : Nat) : ShfPlace :=
  ⟨z.winOf hash key, (z.spotOf hash key).tab2, (z.spotOf hash key).row, ref⟩

def placesOf : List ShfPlace := (List.range z.refs).map (z.placeOf hash key)

end Hash

variable {z : ShfSizes}

theorem uid_place {n : Nat} (h : n < z.wins * z.tabs * z.rows * z.refs) :
    z.uid (z.place n) = n := by
  have hlast : n / z.wins / z.tabs / z.rows < z.refs := by
    rw [Nat.div_div_eq_div_mul, Nat.div_div_eq_div_mul, ← Nat.mul_assoc]
    exact Nat.div_lt_of_lt_mul h
  simp only [place, uid, Nat.mod_eq_of_lt hlast, Nat.mod_add_div]

theorem uid_lt {p : ShfPlace} (hwin : p.win < z.wins) (htab : p.tab < z.tabs)
    (hrow : p.row < z.rows) (href : p.ref < z.refs) :
    z.uid p < z.wins * z.tabs * z.rows * z.refs := by
  have hlt {a n x m : Nat} (ha : a < n) (hx : x < m) : a + n * x < n * m :=
    calc a + n * x < n + n * x := Nat.add_lt_add_right ha _
      _ = n * (x + 1) := by rw [Nat.mul_succ, Nat.add_comm]
      _ ≤ n * m := Nat.mul_le_mul_left n hx
  rw [Nat.mul_assoc, Nat.mul_assoc]
  exact hlt hwin (hlt htab (hlt hrow href))

theorem place_uid {p : ShfPlace} (hwin : p.win < z.wins) (htab : p.tab < z.tabs)
    (hrow : p.row < z.rows) (href : p.ref < z.refs) : z.place (z.uid p) = p := by
  have hdiv (a n x : Nat) (ha : a < n) : (a + n * x) / n = x := by
    rw [Nat.add_mul_div_left _ _ (Nat.zero_lt_of_lt ha), Nat.div_eq_of_lt ha, Nat.zero_add]
  have hmod (a n x : Nat) (ha : a < n) : (a + n * x) % n = a := by
    rw [Nat.add_mul_mod_self_left, Nat.mod_eq_of_lt ha]
  obtain ⟨win, tab, row, ref⟩ := p
  simp only [place, uid, hdiv _ _ _ hwin, hmod _ _ _ hwin, hdiv _ _ _ htab, hmod _ _ _ htab,
    hdiv _ _ _ hrow, hmod _ _ _ hrow, Nat.mod_eq_of_lt href]

end ShfSizes

/-- `SHF_SHF_MMAP` with the tabs. -/
structure Shf where
  win : Nat → ShfWin

inductive ShfMethod where
  | put (val : ShfVal)
  | find (uid : Nat) (what : ShfFind)

/-- A call of `shf_put_key_val` or `shf_find_key_internal`; `key` is what the thread has called
`shf_make_hash` with. -/
structure ShfAccess where
  env : ShfEnv
  key : List (BitVec 8)
  op : ShfMethod

inductive ShfAnswer where
  | uid (uid : Nat)
  | found (val : Option (List (BitVec 8)))
  deriving DecidableEq

namespace Shf

def create (z : ShfSizes) : Shf := ⟨fun _ => ShfWin.create z⟩

def setWin (s : Shf) (win : Nat) (w : ShfWin) : Shf := ⟨Function.update s.win win w⟩

variable (z : ShfSizes) (hash : List (BitVec 8) → BitVec 128)

def shf_put_key_val (env : ShfEnv) (s : Shf) (key : List (BitVec 8)) (val : ShfVal) :
    Except ShfExit (Nat × Shf) := do
  let win := z.winOf hash key
  let (ref, w) ← (s.win win).put z env (z.spotOf hash key) key val (z.tabs + 1)
  return (z.uid (z.placeOf hash key ref), s.setWin win w)

/-- A uid that is `SHF_UID_NONE` stands for the key. -/
def shf_find_key_internal (env : ShfEnv) (s : Shf) (key : List (BitVec 8)) (uid : Nat)
    (what : ShfFind) : Except ShfExit (Option (List (BitVec 8)) × Shf) :=
  if uid = z.uidNone then do
    let win := z.winOf hash key
    let (val, w) ← (s.win win).findByKey z env (z.spotOf hash key) key what
    return (val, s.setWin win w)
  else do
    let p := z.place uid
    let (val, w) ← (s.win p.win).findByUid z env p.tab p.row p.ref what
    return (val, s.setWin p.win w)

def access (s : Shf) (a : ShfAccess) : Except ShfExit (ShfAnswer × Shf) :=
  match a.op with
  | .put val => do
    let (uid, s) ← s.shf_put_key_val z hash a.env a.key val
    return (.uid uid, s)
  | .find uid what => do
    let (val, s) ← s.shf_find_key_internal z hash a.env a.key uid what
    return (.found val, s)

/-- Calls of all processes, one after the other. -/
def run : Shf → List ShfAccess → Except ShfExit (List ShfAnswer × Shf)
  | s, [] => return ([], s)
  | s, a :: as => do
    let (answer, s) ← s.access z hash a
    let (answers, s) ← run s as
    return (answer :: answers, s)

/-- What is at a place: the key and the value. -/
def content (s : Shf) : Shelf ShfPlace (List (BitVec 8)) (List (BitVec 8)) := fun p =>
  if p.tab < z.tabs then
    ((s.win p.win).content p.tab (p.row, p.ref)).map fun e => (e.key, e.val)
  else none

end Shf

/-- The call keeps to the limits, which the code does not check. With a factor of 0 a tab would not
grow, and with larger ones its size would be cut to 32 bits. -/
structure ShfAccess.Valid {z : ShfSizes} (l : ShfLimits z) (a : ShfAccess) : Prop where
  env : a.env.Within l
  record : ∀ val, a.op = .put val → 1 + 4 + a.key.length + 4 + val.val_len ≤ l.record

def ShfAccess.query (z : ShfSizes) (key : List (BitVec 8)) (uid : Nat) :
    Query ShfPlace (List (BitVec 8)) :=
  if uid = z.uidNone then .key key else .place (z.place uid)

/-- What a call is on the shelf. -/
def ShfAccess.shelfOp (z : ShfSizes) (a : ShfAccess) :
    Shelves.Op ShfPlace (List (BitVec 8)) (List (BitVec 8)) :=
  match a.op with
  | .put val => .put a.key val.content
  | .find uid .andDelete => .del (query z a.key uid)
  | .find uid _ => .get (query z a.key uid)

def ShfAnswer.shelf (z : ShfSizes) : ShfAnswer → Answer ShfPlace (List (BitVec 8))
  | .uid n => .placed (z.place n)
  | .found val => .found val

namespace Shf

/-- Every window is sound, and every item is at a place of its key. -/
structure Sound {z : ShfSizes} (l : ShfLimits z) (hash : List (BitVec 8) → BitVec 128) (s : Shf) :
    Prop where
  win : ∀ win, (s.win win).Sound l
  tight : ∀ win, (s.win win).Tight z
  keyed : ∀ {win tab2 slot e}, tab2 < z.tabs → (s.win win).content tab2 slot = some e →
    z.winOf hash e.key = win ∧ z.spotOf hash e.key = ⟨tab2, slot.1, e.rnd⟩

theorem sound_create {z : ShfSizes} (l : ShfLimits z) (hash : List (BitVec 8) → BitVec 128) :
    (create z).Sound l hash where
  win _ := ShfWin.sound_create l
  tight _ := ShfWin.tight_create z
  keyed _ h := by cases h

theorem content_create (z : ShfSizes) : (create z).content z = fun _ => none := by
  funext p
  unfold content
  split_ifs
  · rfl
  · rfl

variable {z : ShfSizes} {l : ShfLimits z} {hash : List (BitVec 8) → BitVec 128} {s : Shf}
  {env : ShfEnv} {key : List (BitVec 8)} {val : ShfVal} {w : ShfWin} {win : Nat} {p : ShfPlace}

theorem spotOf_tab2_lt : (z.spotOf hash key).tab2 < z.tabs := Nat.mod_lt _ z.tabs_pos

theorem spotOf_row_lt : (z.spotOf hash key).row < z.rows := Nat.mod_lt _ z.rows_pos

theorem winOf_lt : z.winOf hash key < z.wins := Nat.mod_lt _ z.wins_pos

theorem place_tab_lt (uid : Nat) : (z.place uid).tab < z.tabs := Nat.mod_lt _ z.tabs_pos

theorem mem_placesOf : p ∈ z.placesOf hash key ↔ ∃ ref < z.refs, z.placeOf hash key ref = p := by
  simp [ShfSizes.placesOf]

theorem place_uid_placeOf {ref : Nat} (href : ref < z.refs) :
    z.place (z.uid (z.placeOf hash key ref)) = z.placeOf hash key ref :=
  ShfSizes.place_uid winOf_lt spotOf_tab2_lt spotOf_row_lt href

theorem uid_lt_of_mem (hp : p ∈ z.placesOf hash key) :
    z.uid p < z.wins * z.tabs * z.rows * z.refs := by
  obtain ⟨ref, href, rfl⟩ := mem_placesOf.mp hp
  exact ShfSizes.uid_lt winOf_lt spotOf_tab2_lt spotOf_row_lt href

theorem content_of_lt (htab : p.tab < z.tabs) : s.content z p =
    ((s.win p.win).content p.tab (p.row, p.ref)).map fun e => (e.key, e.val) := if_pos htab

theorem content_eq_none_iff (htab : p.tab < z.tabs) :
    s.content z p = none ↔ (s.win p.win).content p.tab (p.row, p.ref) = none := by
  rw [content_of_lt htab, Option.map_eq_none_iff]

theorem content_placeOf (ref : Nat) : s.content z (z.placeOf hash key ref) =
    ((s.win (z.winOf hash key)).content (z.spotOf hash key).tab2
      ((z.spotOf hash key).row, ref)).map fun e => (e.key, e.val) := if_pos spotOf_tab2_lt

theorem content_setWin_of_ne (h : p.win ≠ win) : (s.setWin win w).content z p = s.content z p := by
  unfold content setWin
  dsimp only
  rw [Function.update_of_ne h]

theorem content_setWin_self (htab : p.tab < z.tabs) : (s.setWin p.win w).content z p =
    (w.content p.tab (p.row, p.ref)).map fun e => (e.key, e.val) := by
  rw [content_of_lt htab]
  simp only [setWin, Function.update_self]

theorem Sound.setWin (h : s.Sound l hash) (hw : w.Sound l) (htight : w.Tight z)
    (hkeyed : ∀ {tab2 slot e}, tab2 < z.tabs → w.content tab2 slot = some e →
      z.winOf hash e.key = win ∧ z.spotOf hash e.key = ⟨tab2, slot.1, e.rnd⟩) :
    (s.setWin win w).Sound l hash := by
  refine ⟨fun x => ?_, fun x => ?_, ?_⟩
  · by_cases hx : x = win
    · simpa [Shf.setWin, hx] using hw
    · simpa [Shf.setWin, hx] using h.win x
  · by_cases hx : x = win
    · simpa [Shf.setWin, hx] using htight
    · simpa [Shf.setWin, hx] using h.tight x
  · intro x tab2 slot e htab2 he
    by_cases hx : x = win
    · simp only [Shf.setWin, hx, Function.update_self] at he
      exact hx ▸ hkeyed htab2 he
    · simp only [Shf.setWin, Function.update_of_ne hx] at he
      exact h.keyed htab2 he

/-- An entry is at a place of its key. -/
theorem Sound.place_mem (h : s.Sound l hash) {v : List (BitVec 8)}
    (hp : s.content z p = some (key, v)) : p ∈ z.placesOf hash key := by
  have htab : p.tab < z.tabs := by
    by_contra hge
    rw [content, if_neg hge] at hp
    cases hp
  rw [content_of_lt htab, Option.map_eq_some_iff] at hp
  obtain ⟨e, he, hkv⟩ := hp
  obtain ⟨hwin, hspot⟩ := h.keyed htab he
  rw [(Prod.mk.inj hkv).1] at hwin hspot
  have hlive : ((s.win p.win).tab ((s.win p.win).tabs p.tab)).item (p.row, p.ref) ≠ none := by
    rw [(ShfWin.content_eq_some_iff.mp he).1]
    exact Option.some_ne_none e
  have hslot := ((h.win p.win).tab ((h.win p.win).redirect htab)).range
    (mt ShfTab.item_eq_none_iff.mpr hlive)
  refine mem_placesOf.mpr ⟨p.ref, (ShfTab.mem_slots.mp hslot).2, ?_⟩
  rw [ShfSizes.placeOf, hwin, hspot]

/-- A put into a free place of the key. -/
theorem Sound.ensures_put (h : s.Sound l hash) (henv : env.Within l)
    (hneeded : 1 + 4 + key.length + 4 + val.val_len ≤ l.record)
    (hfree : ∃ p ∈ z.placesOf hash key, s.content z p = none) :
    Ensures (NoSpace l env) (fun r => r.2.Sound l hash ∧
        ∃ p ∈ z.placesOf hash key, s.content z p = none ∧ r.1 = z.uid p ∧ z.place r.1 = p ∧
          r.2.content z = Function.update (s.content z) p (some (key, val.content)))
      (s.shf_put_key_val z hash env key val) := by
  have hfits : ShfWin.Fits l (z.spotOf hash key) key val :=
    ⟨spotOf_tab2_lt, spotOf_row_lt, hneeded⟩
  have hwin := h.win (z.winOf hash key)
  have hroom : ∃ ref < z.refs, (s.win (z.winOf hash key)).content (z.spotOf hash key).tab2
      ((z.spotOf hash key).row, ref) = none := by
    obtain ⟨p, hp, hnone⟩ := hfree
    obtain ⟨ref, href, rfl⟩ := mem_placesOf.mp hp
    exact ⟨ref, href, (content_eq_none_iff spotOf_tab2_lt).mp hnone⟩
  refine (ShfWin.ensures_put henv hfits hwin (h.tight _) hroom (by omega)).bind ?_
  rintro ⟨ref, w⟩ hr
  refine ensures_ok ⟨h.setWin hr.sound hr.tight ?_, z.placeOf hash key ref,
    mem_placesOf.mpr ⟨ref, hr.ref_lt, rfl⟩, (content_eq_none_iff spotOf_tab2_lt).mpr hr.free, rfl,
    place_uid_placeOf hr.ref_lt, ?_⟩
  · intro tab2 slot e htab2 he
    by_cases heq : (tab2, slot) = ((z.spotOf hash key).tab2, (z.spotOf hash key).row, ref)
    · cases heq
      rw [hr.content_self] at he
      cases he
      exact ⟨rfl, rfl⟩
    · rw [hr.content_other htab2 slot heq] at he
      exact h.keyed htab2 he
  · funext p
    by_cases hp : p = z.placeOf hash key ref
    · subst hp
      rw [Function.update_self]
      exact (content_setWin_self spotOf_tab2_lt).trans (congrArg _ hr.content_self)
    · rw [Function.update_of_ne hp]
      by_cases hwin' : p.win = z.winOf hash key
      · by_cases htab : p.tab < z.tabs
        · have hne : (p.tab, (p.row, p.ref)) ≠
              ((z.spotOf hash key).tab2, (z.spotOf hash key).row, ref) := by
            intro heq
            simp only [Prod.mk.injEq] at heq
            refine hp ?_
            obtain ⟨win, tab, row, ref'⟩ := p
            simp only [ShfSizes.placeOf, ShfPlace.mk.injEq]
            exact ⟨hwin', heq⟩
          rw [← hwin', content_setWin_self htab, hr.content_other htab _ hne, content_of_lt htab,
            hwin']
        · simp [content, htab]
      · exact content_setWin_of_ne hwin'

/-- When all places of the key are taken the process exits. -/
theorem Sound.ensures_put_full (h : s.Sound l hash) (henv : env.Within l)
    (hfull : ∀ p ∈ z.placesOf hash key, s.content z p ≠ none) (val : ShfVal) :
    Ensures (fun e => NoSpace l env e ∨ e = .tabOverflow) (fun _ => False)
      (s.shf_put_key_val z hash env key val) := by
  have hnone : ∀ ref < z.refs, (s.win (z.winOf hash key)).content (z.spotOf hash key).tab2
      ((z.spotOf hash key).row, ref) ≠ none := by
    intro ref href hnone
    exact hfull _ (mem_placesOf.mpr ⟨ref, href, rfl⟩)
      ((content_eq_none_iff spotOf_tab2_lt).mpr hnone)
  exact (ShfWin.ensures_put_full henv spotOf_tab2_lt (h.win _) hnone (by omega)).bind
    fun _ hfalse => hfalse.elim

section Find

variable {tab2 row : Nat} {what : ShfFind} {found : Option Nat}
  {q : Query ShfPlace (List (BitVec 8))}

/-- What a lookup in a window does to the shelf. -/
theorem Sound.acted (h : s.Sound l hash) (htab2 : tab2 < z.tabs)
    {r : Option (List (BitVec 8)) × ShfWin}
    (hr : ShfWin.Acted l (s.win win) tab2 row what found r)
    (hfind : find (z.placesOf hash) (s.content z) q = found.map fun ref => ⟨win, tab2, row, ref⟩) :
    (s.setWin win r.2).Sound l hash ∧ r.1 = value (z.placesOf hash) (s.content z) q ∧
      (s.setWin win r.2).content z =
        if what = .andDelete then clear (s.content z) (find (z.placesOf hash) (s.content z) q)
        else s.content z := by
  refine ⟨h.setWin hr.sound (hr.tight (h.tight win)) ?_, ?_, ?_⟩
  · intro x slot e hx he
    rw [hr.content hx] at he
    split_ifs at he
    exact h.keyed hx he
  · rw [hr.val, value, hfind]
    cases found with
    | none => rfl
    | some ref =>
      simp only [Option.map_some, Option.bind_some, content_of_lt (p := ⟨win, tab2, row, ref⟩) htab2,
        Option.map_map]
      rfl
  · have hiff (p : ShfPlace) : find (z.placesOf hash) (s.content z) q = some p ↔
        p.win = win ∧ p.tab = tab2 ∧ found.map (row, ·) = some (p.row, p.ref) := by
      obtain ⟨pwin, ptab, prow, pref⟩ := p
      rw [hfind]
      cases found with
      | none => simp
      | some ref => simp [eq_comm]
    funext p
    rw [apply_ite (fun c : Shelf _ _ _ => c p), clear_apply]
    simp only [hiff]
    by_cases hwin : p.win = win
    · subst hwin
      by_cases htab : p.tab < z.tabs
      · rw [content_setWin_self htab, hr.content htab, content_of_lt htab]
        by_cases hdelete : what = .andDelete
        · by_cases hp : p.tab = tab2 ∧ found.map (row, ·) = some (p.row, p.ref)
          · rw [if_pos ⟨hdelete, hp⟩, if_pos hdelete, if_pos ⟨rfl, hp⟩]
            rfl
          · rw [if_neg fun hc => hp hc.2, if_pos hdelete, if_neg fun hc => hp hc.2]
        · rw [if_neg fun hc => hdelete hc.1, if_neg hdelete]
      · simp [content, htab]
    · simp [content_setWin_of_ne hwin, hwin]

theorem find_key_eq (h : s.Sound l hash) (key : List (BitVec 8)) :
    find (z.placesOf hash) (s.content z) (.key key) =
      ((s.win (z.winOf hash key)).foundKey z (z.spotOf hash key) key).map (z.placeOf hash key) := by
  rw [find, ShfSizes.placesOf, List.find?_map, ShfWin.foundKey]
  congr 2
  funext ref
  rw [Function.comp_apply, holds, content_placeOf]
  cases he : (s.win (z.winOf hash key)).content (z.spotOf hash key).tab2
      ((z.spotOf hash key).row, ref) with
  | none => rfl
  | some e =>
    obtain ⟨-, hspot⟩ := h.keyed spotOf_tab2_lt he
    simp only [Option.map_some, Option.any_some, decide_eq_decide]
    constructor
    · rintro rfl
      exact ⟨(congrArg ShfWin.Spot.rnd hspot).symm, rfl⟩
    · exact And.right

theorem find_place_eq (s : Shf) (uid : Nat) :
    find (z.placesOf hash) (s.content z) (.place (z.place uid)) =
      ((s.win (z.place uid).win).foundUid (z.place uid).tab (z.place uid).row
        (z.place uid).ref).map fun ref =>
          ⟨(z.place uid).win, (z.place uid).tab, (z.place uid).row, ref⟩ := by
  rw [find, ShfWin.foundUid, content_of_lt (place_tab_lt uid), Option.isSome_map]
  split_ifs
  · rfl
  · rfl

/-- `shf_find_key_internal` on the shelf. -/
theorem Sound.ensures_find (h : s.Sound l hash) (henv : env.Within l)
    (key : List (BitVec 8)) (uid : Nat) (what : ShfFind) :
    Ensures (NoSpace l env) (fun r => r.2.Sound l hash ∧
        r.1 = value (z.placesOf hash) (s.content z) (ShfAccess.query z key uid) ∧
        r.2.content z = if what = .andDelete then
          clear (s.content z) (find (z.placesOf hash) (s.content z) (ShfAccess.query z key uid))
          else s.content z)
      (s.shf_find_key_internal z hash env key uid what) := by
  unfold shf_find_key_internal ShfAccess.query
  by_cases hnone : uid = z.uidNone
  · rw [if_pos hnone, if_pos hnone]
    refine (ShfWin.ensures_findByKey henv (h.win _) spotOf_tab2_lt key what).bind ?_
    rintro ⟨val, w⟩ hr
    exact ensures_ok (h.acted spotOf_tab2_lt hr (find_key_eq h key))
  · rw [if_neg hnone, if_neg hnone]
    refine (ShfWin.ensures_findByUid henv (h.win _) (place_tab_lt uid) _ _ what).bind ?_
    rintro ⟨val, w⟩ hr
    exact ensures_ok (h.acted (place_tab_lt uid) hr (find_place_eq s uid))

end Find

section Runs

variable {a : ShfAccess}

/-- All places of the key are taken. -/
def Full (z : ShfSizes) (hash : List (BitVec 8) → BitVec 128) (s : Shf) (key : List (BitVec 8)) :
    Prop := ∀ p ∈ z.placesOf hash key, s.content z p ≠ none

/-- One call is one step on the shelf. It exits only for want of space, or if it puts a key whose
places are all taken. -/
theorem Sound.ensures_access (h : s.Sound l hash) (ha : a.Valid l) :
    Ensures (fun e => NoSpace l a.env e ∨
        e = .tabOverflow ∧ (∃ val, a.op = .put val) ∧ s.Full z hash a.key)
      (fun r => r.2.Sound l hash ∧
        Step (z.placesOf hash) (s.content z) (a.shelfOp z) (r.1.shelf z) (r.2.content z))
      (s.access z hash a) := by
  unfold access ShfAccess.shelfOp
  cases hop : a.op with
  | put val =>
    dsimp only
    by_cases hfree : ∃ p ∈ z.placesOf hash a.key, s.content z p = none
    · refine ((h.ensures_put ha.env (ha.record val hop) hfree).weaken
        fun _ he => .inl he).bind ?_
      rintro ⟨uid, s'⟩ ⟨hs', p, hp, hnone, huid, hplace, hcontent⟩
      refine ensures_ok ⟨hs', ?_⟩
      rw [hcontent, ShfAnswer.shelf, hplace]
      exact .put a.key val.content p hp hnone
    · have hfull : s.Full z hash a.key := fun p hp hnone => hfree ⟨p, hp, hnone⟩
      refine ((h.ensures_put_full ha.env hfull val).weaken fun e he =>
        he.imp_right fun he => ⟨he, ⟨val, rfl⟩, hfull⟩).bind fun _ hfalse => hfalse.elim
  | find uid what =>
    dsimp only
    refine ((h.ensures_find ha.env a.key uid what).weaken fun _ he => .inl he).bind ?_
    rintro ⟨val, s'⟩ ⟨hs', hval, hcontent⟩
    refine ensures_ok ⟨hs', ?_⟩
    rw [ShfAnswer.shelf, hval, hcontent]
    cases what with
    | keyOrUid => exact .get _
    | andCopyVal => exact .get _
    | andDelete => exact .del _

/-- The calls with their answers on the shelf. -/
def events (z : ShfSizes) (as : List ShfAccess) (answers : List ShfAnswer) :
    List (Shelves.Op ShfPlace (List (BitVec 8)) (List (BitVec 8)) ×
      Answer ShfPlace (List (BitVec 8))) :=
  List.zipWith (fun a answer => (a.shelfOp z, answer.shelf z)) as answers

theorem exists_of_mem_events {as : List ShfAccess} {answers : List ShfAnswer}
    {e : Shelves.Op ShfPlace (List (BitVec 8)) (List (BitVec 8)) ×
      Answer ShfPlace (List (BitVec 8))} (h : e ∈ events z as answers) :
    ∃ a ∈ as, e.1 = a.shelfOp z := by
  induction as generalizing answers with
  | nil => cases h
  | cons a as ih =>
    cases answers with
    | nil => cases h
    | cons answer answers =>
      rcases List.mem_cons.mp h with rfl | h
      · exact ⟨a, List.mem_cons_self, rfl⟩
      · obtain ⟨a', ha', he⟩ := ih h
        exact ⟨a', List.mem_cons_of_mem _ ha', he⟩

/-- Why a run exits: a call has no space, or it puts a key whose places are all taken. -/
def Exit {z : ShfSizes} (l : ShfLimits z) (hash : List (BitVec 8) → BitVec 128) (s : Shf)
    (as : List ShfAccess) (e : ShfExit) : Prop :=
  (∃ a ∈ as, NoSpace l a.env e) ∨
    e = .tabOverflow ∧ ∃ before a after answers s', as = before ++ a :: after ∧
      s.run z hash before = .ok (answers, s') ∧ (∃ val, a.op = .put val) ∧ s'.Full z hash a.key

theorem Exit.cons {answer : ShfAnswer} {s' : Shf} {as : List ShfAccess} {e : ShfExit}
    (ha : s.access z hash a = .ok (answer, s')) (h : Exit l hash s' as e) :
    Exit l hash s (a :: as) e := by
  rcases h with ⟨b, hb, hspace⟩ | ⟨he, before, b, after, answers, s'', has, hrun, hput, hfull⟩
  · exact .inl ⟨b, List.mem_cons_of_mem a hb, hspace⟩
  · refine .inr ⟨he, a :: before, b, after, answer :: answers, s'', by rw [has]; rfl, ?_, hput,
      hfull⟩
    rw [run, ha]
    change (s'.run z hash before >>= _) = _
    rw [hrun]
    rfl

/-- A whole run of calls is a run on the shelf. -/
theorem Sound.ensures_run (h : s.Sound l hash) {as : List ShfAccess} (has : ∀ a ∈ as, a.Valid l) :
    Ensures (Exit l hash s as)
      (fun r => r.1.length = as.length ∧ r.2.Sound l hash ∧
        Run (z.placesOf hash) (s.content z) (events z as r.1) (r.2.content z))
      (s.run z hash as) := by
  induction as generalizing s with
  | nil => exact ensures_ok ⟨rfl, h, .nil⟩
  | cons a as ih =>
    rw [List.forall_mem_cons] at has
    have haccess := h.ensures_access has.1
    unfold run
    cases ha : s.access z hash a with
    | error e =>
      rcases haccess.of_eq_error ha with hspace | ⟨he, hput, hfull⟩
      · exact ensures_error (.inl ⟨a, List.mem_cons_self, hspace⟩)
      · exact ensures_error (.inr ⟨he, [], a, as, [], s, rfl, rfl, hput, hfull⟩)
    | ok r =>
      obtain ⟨answer, s'⟩ := r
      obtain ⟨hs', hstep⟩ := haccess.of_eq_ok ha
      refine ((ih hs' has.2).weaken fun e => Exit.cons ha).bind ?_
      rintro ⟨answers, s''⟩ ⟨hlength, hs'', hrun⟩
      exact ensures_ok ⟨congrArg Nat.succ hlength, hs'', .cons hstep hrun⟩

end Runs

section Results

variable {as bs : List ShfAccess} {answers answers' : List ShfAnswer} {s s₁ s₂ s₃ : Shf}

theorem sound_of_run (has : ∀ a ∈ as, a.Valid l)
    (hrun : (create z).run z hash as = .ok (answers, s)) : s.Sound l hash :=
  (((sound_create l hash).ensures_run has).of_eq_ok hrun).2.1

/-- Records of up to 400000 bytes and factors up to 250, as `main.cpp` has it. -/
def fileLimits : ShfLimits shfSizes where
  record := 400000
  factor := 250
  tabMax_lt := by decide

/-- Two keys with the same places, and a lookup of the second one. -/
def twoPuts : List ShfAccess :=
  [⟨⟨1, 2 ^ 30⟩, [0], .put (.bytes [7])⟩, ⟨⟨250, 2 ^ 30⟩, [1], .put (.reserve 5000)⟩,
    ⟨⟨1, 2 ^ 30⟩, [1], .find shfSizes.uidNone .andCopyVal⟩]

theorem twoPuts_valid : ∀ a ∈ twoPuts, a.Valid fileLimits := by
  simp only [twoPuts, List.forall_mem_cons, List.not_mem_nil, false_imp_iff, implies_true, and_true]
  refine ⟨⟨⟨by decide, by decide⟩, ?_⟩, ⟨⟨by decide, by decide⟩, ?_⟩, ⟨by decide, by decide⟩, ?_⟩
  · rintro _ ⟨⟩
    decide
  · rintro _ ⟨⟩
    decide
  · rintro _ ⟨⟩

theorem twoPuts_run : ∃ answers s, (create shfSizes).run shfSizes (fun _ => 0) twoPuts =
    .ok (answers, s) := by
  have hok : ((create shfSizes).run shfSizes (fun _ => 0) twoPuts).isOk = true := by decide +kernel
  cases hrun : (create shfSizes).run shfSizes (fun _ => 0) twoPuts with
  | ok r => exact ⟨r.1, r.2, rfl⟩
  | error e =>
    rw [hrun] at hok
    cases hok

/-- Whatever the processes call, the file answers like the shelf. -/
theorem run_on_shelf (has : ∀ a ∈ as, a.Valid l)
    (hrun : (create z).run z hash as = .ok (answers, s)) :
    Run (z.placesOf hash) (fun _ => none) (events z as answers) (s.content z) := by
  have h := (((sound_create l hash).ensures_run has).of_eq_ok hrun).2.2
  rw [content_create] at h
  exact h

theorem run_on_shelf_two :
    ∃ answers s, (create shfSizes).run shfSizes (fun _ => 0) twoPuts = .ok (answers, s) ∧
      Run (shfSizes.placesOf fun _ => 0) (fun _ => none) (events shfSizes twoPuts answers)
        (s.content shfSizes) :=
  have ⟨answers, s, hrun⟩ := twoPuts_run
  ⟨answers, s, hrun, run_on_shelf twoPuts_valid hrun⟩

-- above the limits the new size of the tab is cut to 32 bits, and the record does not fit
example : (match (create shfSizes).shf_put_key_val shfSizes (fun _ => 0) ⟨250, 2 ^ 40⟩ [0]
    (.reserve 17180000) with
  | .ok _ => none
  | .error e => some e) = some ShfExit.appendVal := by decide +kernel

/-- A record for which the tab has to grow, and a disk that is full. -/
def fullDisk : List ShfAccess := [⟨⟨1, 1⟩, [0], .put (.reserve 5000)⟩]

theorem fullDisk_valid : ∀ a ∈ fullDisk, a.Valid fileLimits := by
  simp only [fullDisk, List.forall_mem_cons, List.not_mem_nil, false_imp_iff, implies_true,
    and_true]
  refine ⟨⟨by decide, by decide⟩, ?_⟩
  rintro _ ⟨⟩
  decide

theorem within_fileLimits : ShfEnv.Within fileLimits ⟨1, 2 ^ 20⟩ := ⟨by decide, by decide⟩

theorem nil_valid : ∀ a ∈ ([] : List ShfAccess), a.Valid fileLimits := by simp

theorem run_nil : (create shfSizes).run shfSizes (fun _ => 0) [] = .ok ([], create shfSizes) := rfl

/-- A value is found under its uid until the uid or the key is deleted. -/
theorem found_until_deleted (has : ∀ a ∈ as, a.Valid l)
    (hrun : (create z).run z hash as = .ok (answers, s₁)) (henv : env.Within l)
    (hneeded : 1 + 4 + key.length + 4 + val.val_len ≤ l.record) {uid : Nat}
    (hput : s₁.shf_put_key_val z hash env key val = .ok (uid, s₂)) (huid : uid ≠ z.uidNone)
    (hbs : ∀ b ∈ bs, b.Valid l) (hrun' : s₂.run z hash bs = .ok (answers', s₃))
    (hkeep : ∀ b ∈ bs, b.shelfOp z ≠ .del (.place (z.place uid)) ∧ b.shelfOp z ≠ .del (.key key))
    {env' : ShfEnv} (henv' : env'.Within l) (key' : List (BitVec 8)) (what : ShfFind) :
    Ensures (· = .space) (fun r => r.1 = some val.content)
      (s₃.shf_find_key_internal z hash env' key' uid what) := by
  have h₁ := sound_of_run has hrun
  have hfree : ∃ p ∈ z.placesOf hash key, s₁.content z p = none := by
    by_contra hnone
    have hfull : s₁.Full z hash key := fun p hp hp' => hnone ⟨p, hp, hp'⟩
    exact (h₁.ensures_put_full henv hfull val).of_eq_ok hput
  obtain ⟨h₂, p, -, -, -, hplace, hcontent⟩ := (h₁.ensures_put henv hneeded hfree).of_eq_ok hput
  dsimp only at h₂ hplace hcontent
  obtain ⟨-, h₃, hshelf⟩ := (h₂.ensures_run hbs).of_eq_ok hrun'
  dsimp only at h₃ hshelf
  have hthere : s₂.content z p = some (key, val.content) := by
    rw [hcontent, Function.update_self]
  have hstill : s₃.content z p = some (key, val.content) := by
    refine hshelf.keeps hthere (fun e he => ?_) fun e he => ?_
    · obtain ⟨b, hb, hop⟩ := exists_of_mem_events he
      rw [hop, ← hplace]
      exact (hkeep b hb).1
    · obtain ⟨b, hb, hop⟩ := exists_of_mem_events he
      rw [hop]
      exact (hkeep b hb).2
  refine ((h₃.ensures_find henv' key' uid what).weaken fun e he => he.1).imp ?_
  rintro r ⟨-, hr, -⟩
  rw [hr, ShfAccess.query, if_neg huid, value_place, hplace, hstill]
  rfl

theorem found_until_deleted_first :
    ∃ uid s₂, (create shfSizes).shf_put_key_val shfSizes (fun _ => 0) ⟨1, 2 ^ 20⟩ [9]
        (.bytes [7]) = .ok (uid, s₂) ∧ uid ≠ shfSizes.uidNone ∧
      ∃ answers' s₃, s₂.run shfSizes (fun _ => 0) twoPuts = .ok (answers', s₃) ∧
        Ensures (· = .space) (fun r => r.1 = some [7])
          (s₃.shf_find_key_internal shfSizes (fun _ => 0) ⟨1, 2 ^ 20⟩ [1] uid .andCopyVal) := by
  have hok : (((create shfSizes).shf_put_key_val shfSizes (fun _ => 0) ⟨1, 2 ^ 20⟩ [9]
      (.bytes [7])).bind fun r => (r.2.run shfSizes (fun _ => 0) twoPuts).map fun _ => r.1).toOption =
      some 0 := by decide +kernel
  cases hput : (create shfSizes).shf_put_key_val shfSizes (fun _ => 0) ⟨1, 2 ^ 20⟩ [9]
      (.bytes [7]) with
  | error e =>
    rw [hput] at hok
    cases hok
  | ok r =>
    rw [hput] at hok
    change ((r.2.run shfSizes (fun _ => 0) twoPuts).map fun _ => r.1).toOption = some 0 at hok
    cases hrun : r.2.run shfSizes (fun _ => 0) twoPuts with
    | error e =>
      rw [hrun] at hok
      cases hok
    | ok r' =>
      rw [hrun] at hok
      have huid : r.1 ≠ shfSizes.uidNone := by
        have hzero : r.1 = 0 := Option.some.inj hok
        rw [hzero]
        decide
      refine ⟨r.1, r.2, rfl, huid, r'.1, r'.2, hrun, ?_⟩
      exact found_until_deleted nil_valid run_nil within_fileLimits (by decide) hput huid
        twoPuts_valid hrun (by simp [twoPuts, ShfAccess.shelfOp]) within_fileLimits [1] .andCopyVal

/-- Limits for small records. -/
def smallLimits : ShfLimits shfSizes := ⟨20, 1, by decide⟩

def smallPut : ShfAccess := ⟨⟨1, 2 ^ 20⟩, [0], .put (.bytes [7])⟩

end Results

end Shf

end AnalysePcap
