import AnalysePcap.ByteMemory
import AnalysePcap.Postcondition
import Mathlib.Algebra.BigOperators.Group.Finset.Basic
import Mathlib.Algebra.Order.BigOperators.Group.Finset
import Mathlib.Data.Finset.Prod

/-! A tab of a shared hash file, `shf.c`: rows of refs, and behind them the records that the
refs point to. A record is only ever appended. A deleted one stays until the tab is shrunk, which
copies all others into a new tab. Sizes and positions have 32 bits. There is a bound for each tab
that depends on the largest record and not on how many records are put and deleted, and everything
here is about records for which the bound has 32 bits. -/

namespace AnalysePcap

open ByteMemory Postcondition

/-- `SHF_WINS_PER_SHF`, `SHF_TABS_PER_WIN`, `SHF_ROWS_PER_TAB` and `SHF_REFS_PER_ROW`. A tab has
few refs, so that 32 bits are enough for the tab with all refs used. -/
structure ShfSizes where
  wins : Nat
  tabs : Nat
  rows : Nat
  refs : Nat
  wins_pos : 0 < wins
  tabs_pos : 0 < tabs
  rows_pos : 0 < rows
  refs_pos : 0 < refs
  refs_le : rows * refs ≤ 2 ^ 16

def shfSizes : ShfSizes where
  wins := 1 <<< 8
  tabs := 1 <<< 11
  rows := 512
  refs := 16
  wins_pos := by decide
  tabs_pos := by decide
  rows_pos := by decide
  refs_pos := by decide
  refs_le := by decide

/-- `offsetof(SHF_TAB_MMAP, data)`: five words, and two words for each ref. -/
def ShfSizes.offset (z : ShfSizes) : Nat := 5 * 4 + z.rows * z.refs * 8

/-- The places of the refs in the order of the loops over them. -/
def ShfSizes.slots (z : ShfSizes) : List (Nat × Nat) := List.range z.rows ×ˢ List.range z.refs

def SHF_SIZE_PAGE : Nat := 4096

def SHF_MOD_PAGE (bytes : Nat) : Nat := ((bytes - 1) / SHF_SIZE_PAGE + 1) * SHF_SIZE_PAGE

/-- The bytes of all records of a tab, if none has more than `record`. -/
def ShfSizes.dataMax (z : ShfSizes) (record : Nat) : Nat := z.rows * z.refs * record

/-- What a tab can grow to, if no factor is larger than `factor`. -/
def ShfSizes.tabMax (z : ShfSizes) (record factor : Nat) : Nat :=
  SHF_MOD_PAGE (z.offset + 6 * z.dataMax record / 5 + record + record * factor)

/-- Limits for the records and for the factors under which no tab has 4 GiB. -/
structure ShfLimits (z : ShfSizes) where
  record : Nat
  factor : Nat
  tabMax_lt : z.tabMax record factor < 2 ^ 32

theorem le_SHF_MOD_PAGE (n : Nat) : n ≤ SHF_MOD_PAGE n := by
  unfold SHF_MOD_PAGE SHF_SIZE_PAGE
  omega

theorem SHF_MOD_PAGE_mono {m n : Nat} (h : m ≤ n) : SHF_MOD_PAGE m ≤ SHF_MOD_PAGE n := by
  unfold SHF_MOD_PAGE SHF_SIZE_PAGE
  omega

theorem ShfLimits.record_lt {z : ShfSizes} (l : ShfLimits z) : l.record < 2 ^ 32 := by
  have hlt := l.tabMax_lt
  have hle := le_SHF_MOD_PAGE
    (z.offset + 6 * z.dataMax l.record / 5 + l.record + l.record * l.factor)
  unfold ShfSizes.tabMax at hlt
  omega

/-- `key_type` and `val_type` of a string with a length of 32 bits. -/
def SHF_DATA_TYPE_STR32 : BitVec 8 := 0x3e

def SHF_DATA_TYPE_DELETED : BitVec 8 := 0xff

/-- The assertions of `shf.c`, at which the process exits. `unfinished` is not one of them, but
stands for a loop that was not followed to its end. -/
inductive ShfExit where
  | space
  | appendKey
  | appendVal
  | tabOverflow
  | redirect
  | partRange
  | partTab
  | findPos
  | findKey
  | findVal
  | unfinished
  deriving DecidableEq

def SHF_ASSERT {ε : Type} (condition : Prop) [Decidable condition] (e : ε) : Except ε Unit :=
  if condition then .ok () else .error e

theorem ensures_assert {ε : Type} {condition : Prop} [Decidable condition] {E : ε → Prop} {e : ε}
    (h : condition) : Ensures E (fun _ => condition) (SHF_ASSERT condition e) := by
  rw [SHF_ASSERT, if_pos h]
  exact h

/-- `shf_data_needed_factor` of the thread, and what `shf_get_vfs_available` returns. -/
structure ShfEnv where
  data_needed_factor : Nat
  vfs_available : Nat

structure ShfEnv.Within {z : ShfSizes} (l : ShfLimits z) (env : ShfEnv) : Prop where
  factor_pos : 0 < env.data_needed_factor
  factor_le : env.data_needed_factor ≤ l.factor

/-- There is no space only if there is less than a tab can grow to. -/
def NoSpace {z : ShfSizes} (l : ShfLimits z) (env : ShfEnv) (e : ShfExit) : Prop :=
  e = .space ∧ env.vfs_available ≤ z.tabMax l.record l.factor

/-- `SHF_REF_MMAP`; a ref with `pos` 0 is not used. -/
structure ShfRef where
  tab : Nat
  rnd : Nat
  pos : Nat
  deriving DecidableEq

/-- `SHF_TAB_MMAP`. -/
structure ShfTab where
  tab_size : Nat
  tab_used : Nat
  tab_data_free : Nat
  tab_data_used : Nat
  ref : Nat × Nat → ShfRef
  bytes : Memory

/-- `shf_tab_create`, and how `SHF_GET_TAB_MMAP` initialises a new tab. -/
def ShfTab.create (z : ShfSizes) : ShfTab where
  tab_size := SHF_MOD_PAGE z.offset
  tab_used := z.offset
  tab_data_free := 0
  tab_data_used := 0
  ref _ := ⟨0, 0, 0⟩
  bytes _ := 0

/-- The arguments `val` and `val_len`; without a `val` the bytes are only reserved. -/
inductive ShfVal where
  | bytes (val : List (BitVec 8))
  | reserve (val_len : Nat)

namespace ShfVal

def val_len : ShfVal → Nat
  | bytes val => val.length
  | reserve val_len => val_len

def content : ShfVal → List (BitVec 8)
  | bytes val => val
  | reserve val_len => List.replicate val_len 0

@[simp] theorem length_content (val : ShfVal) : val.content.length = val.val_len := by
  cases val with
  | bytes val => rfl
  | reserve val_len => exact List.length_replicate

end ShfVal

section Record

def recordKeyLen (m : Memory) (pos : Nat) : Nat := loadU32 m (u32 (pos + 1))

def recordKey (m : Memory) (pos : Nat) : List (BitVec 8) :=
  load m (u32 (pos + 1 + 4)) (recordKeyLen m pos)

def recordValLen (m : Memory) (pos : Nat) : Nat :=
  loadU32 m (u32 (pos + 1 + 4 + recordKeyLen m pos))

def recordVal (m : Memory) (pos : Nat) : List (BitVec 8) :=
  load m (u32 (pos + 1 + 4 + recordKeyLen m pos + 4)) (recordValLen m pos)

def recordSize (m : Memory) (pos : Nat) : Nat :=
  1 + 4 + recordKeyLen m pos + 4 + recordValLen m pos

/-- A value that is only reserved is not written. -/
def writeVal (m : Memory) (pos : Nat) : ShfVal → Memory
  | .bytes val => store m pos val
  | .reserve _ => m

/-- What `SHF_TAB_APPEND` writes. -/
def writeRecord (m : Memory) (pos : Nat) (key : List (BitVec 8)) (val : ShfVal) : Memory :=
  let m := store m pos [SHF_DATA_TYPE_STR32]
  let m := storeU32 m (u32 (pos + 1)) key.length
  let m := store m (u32 (pos + 1 + 4)) key
  let m := storeU32 m (u32 (pos + 1 + 4 + key.length)) val.val_len
  writeVal m (u32 (pos + 1 + 4 + key.length + 4)) val

/-- What `SHF_TAB_REF_MARK_AS_DELETED` writes. -/
def writeDeleted (m : Memory) (pos key_len val_len : Nat) : Memory :=
  storeU32 (store m pos [SHF_DATA_TYPE_DELETED]) (u32 (pos + 1)) (u32 (key_len + val_len))

variable {m m' : Memory} {pos : Nat} {key : List (BitVec 8)} {val : ShfVal}

@[simp] theorem length_recordKey (m : Memory) (pos : Nat) :
    (recordKey m pos).length = recordKeyLen m pos := length_load _ _ _

@[simp] theorem length_recordVal (m : Memory) (pos : Nat) :
    (recordVal m pos).length = recordValLen m pos := length_load _ _ _

/-- Two memories that agree on a record have the same record. -/
theorem record_congr (hlt : pos + recordSize m pos < 2 ^ 32)
    (h : Agree m m' pos (recordSize m pos)) :
    recordKey m' pos = recordKey m pos ∧ recordVal m' pos = recordVal m pos := by
  unfold recordSize at h hlt
  have hkeyLen : recordKeyLen m' pos = recordKeyLen m pos := by
    unfold recordKeyLen
    rw [u32_of_lt (by omega)]
    exact (h.mono (by omega) (by omega)).loadU32
  have hvalLen : recordValLen m' pos = recordValLen m pos := by
    unfold recordValLen
    rw [hkeyLen, u32_of_lt (by omega)]
    exact (h.mono (by omega) (by omega)).loadU32
  constructor
  · unfold recordKey
    rw [hkeyLen, u32_of_lt (by omega)]
    exact (h.mono (by omega) (by omega)).load
  · unfold recordVal
    rw [hkeyLen, hvalLen, u32_of_lt (by omega)]
    exact (h.mono (by omega) (by omega)).load

theorem recordSize_eq (m : Memory) (pos : Nat) :
    recordSize m pos = 1 + 4 + (recordKey m pos).length + 4 + (recordVal m pos).length := by
  rw [length_recordKey, length_recordVal]
  rfl

theorem recordSize_congr (hlt : pos + recordSize m pos < 2 ^ 32)
    (h : Agree m m' pos (recordSize m pos)) : recordSize m' pos = recordSize m pos := by
  obtain ⟨hkey, hval⟩ := record_congr hlt h
  rw [recordSize_eq, recordSize_eq, hkey, hval]

/-- A record that lies below 4 GiB. -/
theorem writeRecord_eq (hlt : pos + (1 + 4 + key.length + 4 + val.val_len) < 2 ^ 32) :
    writeRecord m pos key val = writeVal (storeU32 (store (storeU32
      (store m pos [SHF_DATA_TYPE_STR32]) (pos + 1) key.length) (pos + 1 + 4) key)
      (pos + 1 + 4 + key.length) val.val_len) (pos + 1 + 4 + key.length + 4) val := by
  unfold writeRecord
  rw [u32_of_lt (by omega), u32_of_lt (by omega), u32_of_lt (by omega), u32_of_lt (by omega)]

theorem writeRecord_outside {x : Nat}
    (hlt : pos + (1 + 4 + key.length + 4 + val.val_len) < 2 ^ 32)
    (h : x < pos ∨ pos + (1 + 4 + key.length + 4 + val.val_len) ≤ x) :
    writeRecord m pos key val x = m x := by
  have hrest : storeU32 (store (storeU32 (store m pos [SHF_DATA_TYPE_STR32]) (pos + 1) key.length)
      (pos + 1 + 4) key) (pos + 1 + 4 + key.length) val.val_len x = m x := by
    rw [storeU32_outside (by omega), store_outside (by omega), storeU32_outside (by omega),
      store_outside (by simp only [List.length_cons, List.length_nil]; omega)]
  rw [writeRecord_eq hlt]
  cases val with
  | bytes val =>
    dsimp only [ShfVal.val_len, writeVal] at h hrest ⊢
    rw [store_outside (by omega), hrest]
  | reserve val_len => exact hrest

/-- What was written is what is read, also if the bytes were only reserved. -/
theorem record_writeRecord (hlt : pos + (1 + 4 + key.length + 4 + val.val_len) < 2 ^ 32)
    (hclean : ∀ x, pos ≤ x → m x = 0) :
    recordKey (writeRecord m pos key val) pos = key ∧
      recordVal (writeRecord m pos key val) pos = val.content := by
  -- the last store does not touch what is before the value
  have hlast : Agree (storeU32 (store (storeU32 (store m pos [SHF_DATA_TYPE_STR32]) (pos + 1)
      key.length) (pos + 1 + 4) key) (pos + 1 + 4 + key.length) val.val_len)
      (writeRecord m pos key val) pos (1 + 4 + key.length + 4) := by
    rw [writeRecord_eq hlt]
    cases val with
    | bytes val => exact agree_store (by omega)
    | reserve val_len => exact fun _ _ _ => rfl
  have hkeyLen : recordKeyLen (writeRecord m pos key val) pos = key.length := by
    unfold recordKeyLen
    rw [u32_of_lt (by omega), (hlast.mono (by omega) (by omega)).loadU32,
      (agree_storeU32 (by omega)).loadU32, (agree_store (by omega)).loadU32,
      loadU32_storeU32 _ _ (by omega)]
  have hvalLen : recordValLen (writeRecord m pos key val) pos = val.val_len := by
    unfold recordValLen
    rw [hkeyLen, u32_of_lt (by omega), (hlast.mono (by omega) (by omega)).loadU32,
      loadU32_storeU32 _ _ (by omega)]
  constructor
  · unfold recordKey
    rw [hkeyLen, u32_of_lt (by omega), (hlast.mono (by omega) (by omega)).load,
      (agree_storeU32 (by omega)).load, load_store_self]
  · unfold recordVal
    rw [hkeyLen, hvalLen, u32_of_lt (by omega), writeRecord_eq hlt]
    cases val with
    | bytes val => exact load_store_self _ _ _
    | reserve val_len =>
      refine load_zero fun x hx => ?_
      dsimp only [writeVal]
      rw [storeU32_outside (by omega), store_outside (by omega), storeU32_outside (by omega),
        store_outside (by simp only [List.length_cons, List.length_nil]; omega)]
      exact hclean x (by omega)

theorem writeDeleted_outside {x key_len val_len : Nat} (hlt : pos + 5 < 2 ^ 32)
    (h : x < pos ∨ pos + 5 ≤ x) : writeDeleted m pos key_len val_len x = m x := by
  unfold writeDeleted
  rw [u32_of_lt (by omega), storeU32_outside (by omega),
    store_outside (by simp only [List.length_cons, List.length_nil]; omega)]

end Record

namespace ShfTab

/-- Whether a record fits, and the size of the tab then. The sum has 64 bits and the field
`tab_size` 32. -/
def grow (env : ShfEnv) (t : ShfTab) (data_needed : Nat) : Except ShfExit Nat :=
  let data_available := sub32 t.tab_size t.tab_used
  if data_needed > data_available then do
    let new_tab_size :=
      u64 (SHF_MOD_PAGE (u64 (t.tab_size + data_needed * env.data_needed_factor)))
    SHF_ASSERT (sub64 new_tab_size t.tab_size < env.vfs_available) .space
    return u32 new_tab_size
  else return t.tab_size

/-- `SHF_TAB_APPEND`. -/
def append (env : ShfEnv) (t : ShfTab) (key : List (BitVec 8)) (val : ShfVal) :
    Except ShfExit ShfTab := do
  let data_needed := 1 + 4 + key.length + 4 + val.val_len
  let tab_size ← t.grow env data_needed
  SHF_ASSERT (u32 (t.tab_used + 1 + 4 + key.length) ≤ tab_size) .appendKey
  SHF_ASSERT (u32 (t.tab_used + 1 + 4 + key.length + 4 + val.val_len) ≤ tab_size) .appendVal
  return { t with
    tab_size := tab_size
    tab_used := u32 (t.tab_used + data_needed)
    tab_data_used := u32 (t.tab_data_used + data_needed)
    bytes := writeRecord t.bytes t.tab_used key val }

def setRef (t : ShfTab) (slot : Nat × Nat) (ref : ShfRef) : ShfTab :=
  { t with ref := Function.update t.ref slot ref }

/-- `SHF_TAB_REF_MARK_AS_DELETED`. -/
def markAsDeleted (t : ShfTab) (slot : Nat × Nat) (key_len val_len : Nat) : ShfTab :=
  { t with
    bytes := writeDeleted t.bytes (t.ref slot).pos key_len val_len
    tab_data_used := sub32 t.tab_data_used (1 + 4 + key_len + 4 + val_len)
    tab_data_free := u32 (t.tab_data_free + (1 + 4 + key_len + 4 + val_len))
    ref := Function.update t.ref slot { t.ref slot with pos := 0 } }

section

variable (t : ShfTab) (slot : Nat × Nat) (key_len val_len : Nat)

theorem markAsDeleted_bytes : (t.markAsDeleted slot key_len val_len).bytes =
    writeDeleted t.bytes (t.ref slot).pos key_len val_len := rfl

theorem markAsDeleted_ref : (t.markAsDeleted slot key_len val_len).ref =
    Function.update t.ref slot { t.ref slot with pos := 0 } := rfl

theorem markAsDeleted_tab_data_used : (t.markAsDeleted slot key_len val_len).tab_data_used =
    sub32 t.tab_data_used (1 + 4 + key_len + 4 + val_len) := rfl

theorem markAsDeleted_tab_data_free : (t.markAsDeleted slot key_len val_len).tab_data_free =
    u32 (t.tab_data_free + (1 + 4 + key_len + 4 + val_len)) := rfl

end

/-- `SHF_TAB_REF_COPY` from the first tab to the second one. -/
def refCopy (env : ShfEnv) (tabs : ShfTab × ShfTab) (slot : Nat × Nat) :
    Except ShfExit (ShfTab × ShfTab) := do
  let (old, new) := tabs
  let pos := (old.ref slot).pos
  let new' ← new.append env (recordKey old.bytes pos) (.bytes (recordVal old.bytes pos))
  let old' := old.markAsDeleted slot (recordKeyLen old.bytes pos) (recordValLen old.bytes pos)
  return (old', new'.setRef slot ⟨(old.ref slot).tab, (old.ref slot).rnd, new.tab_used⟩)

/-- A round of the loops over all refs of `shf_tab_shrink` and `shf_tab_part`; `choose` says from
the `tab` of a ref whether it is copied. -/
def copyRef (env : ShfEnv) (choose : Nat → Except ShfExit Bool) (tabs : ShfTab × ShfTab)
    (slot : Nat × Nat) : Except ShfExit (ShfTab × ShfTab) :=
  if (tabs.1.ref slot).pos ≠ 0 then do
    if ← choose (tabs.1.ref slot).tab then refCopy env tabs slot else return tabs
  else return tabs

def copyRefs (z : ShfSizes) (env : ShfEnv) (choose : Nat → Except ShfExit Bool)
    (tabs : ShfTab × ShfTab) : Except ShfExit (ShfTab × ShfTab) :=
  z.slots.foldlM (copyRef env choose) tabs

/-- `shf_tab_shrink`. -/
def shrink (z : ShfSizes) (env : ShfEnv) (t : ShfTab) : Except ShfExit ShfTab := do
  let tabs ← copyRefs z env (fun _ => return true) (t, create z)
  return tabs.2

end ShfTab

/-- What a ref stands for. -/
structure ShfItem where
  tab : Nat
  rnd : Nat
  key : List (BitVec 8)
  val : List (BitVec 8)
  deriving DecidableEq

def ShfItem.size (e : ShfItem) : Nat := 1 + 4 + e.key.length + 4 + e.val.length

namespace ShfTab

def item (t : ShfTab) (slot : Nat × Nat) : Option ShfItem :=
  if (t.ref slot).pos = 0 then none
  else some {
    tab := (t.ref slot).tab
    rnd := (t.ref slot).rnd
    key := recordKey t.bytes (t.ref slot).pos
    val := recordVal t.bytes (t.ref slot).pos }

theorem item_eq_none_iff {t : ShfTab} {slot : Nat × Nat} :
    t.item slot = none ↔ (t.ref slot).pos = 0 := by
  unfold item
  split_ifs with h
  · simp [h]
  · simp [h]

theorem item_of_pos_ne {t : ShfTab} {slot : Nat × Nat} (h : (t.ref slot).pos ≠ 0) :
    t.item slot = some {
      tab := (t.ref slot).tab
      rnd := (t.ref slot).rnd
      key := recordKey t.bytes (t.ref slot).pos
      val := recordVal t.bytes (t.ref slot).pos } := if_neg h

theorem item_congr {t t' : ShfTab} {slot : Nat × Nat} (href : t'.ref slot = t.ref slot)
    (hbytes : (t.ref slot).pos ≠ 0 →
      (t.ref slot).pos + recordSize t.bytes (t.ref slot).pos < 2 ^ 32 ∧
        Agree t.bytes t'.bytes (t.ref slot).pos (recordSize t.bytes (t.ref slot).pos)) :
    t'.item slot = t.item slot := by
  by_cases h : (t.ref slot).pos = 0
  · rw [item_eq_none_iff.mpr h, item_eq_none_iff, href, h]
  · obtain ⟨hkey, hval⟩ := record_congr (hbytes h).1 (hbytes h).2
    rw [item_of_pos_ne h, item_of_pos_ne (by rw [href]; exact h), href, hkey, hval]

end ShfTab

def itemSize (e : Option ShfItem) : Nat := e.elim 0 ShfItem.size

theorem itemSize_some (tab rnd : Nat) (key val : List (BitVec 8)) :
    itemSize (some ⟨tab, rnd, key, val⟩) = 1 + 4 + key.length + 4 + val.length := rfl

theorem ShfTab.itemSize_item {t : ShfTab} {slot : Nat × Nat} (h : (t.ref slot).pos ≠ 0) :
    itemSize (t.item slot) = recordSize t.bytes (t.ref slot).pos := by
  rw [item_of_pos_ne h, itemSize_some, recordSize_eq]

/-- The bytes of all records. -/
def ShfSizes.total (z : ShfSizes) (items : Nat × Nat → Option ShfItem) : Nat :=
  ∑ slot ∈ z.slots.toFinset, itemSize (items slot)

theorem ShfSizes.total_update (z : ShfSizes) (items : Nat × Nat → Option ShfItem)
    {slot : Nat × Nat} (hslot : slot ∈ z.slots) (e : Option ShfItem) :
    z.total (Function.update items slot e) + itemSize (items slot) =
      z.total items + itemSize e := by
  have hmem : slot ∈ z.slots.toFinset := List.mem_toFinset.mpr hslot
  have hrest : ∑ s ∈ z.slots.toFinset.erase slot, itemSize (Function.update items slot e s) =
      ∑ s ∈ z.slots.toFinset.erase slot, itemSize (items s) := by
    refine Finset.sum_congr rfl fun s hs => ?_
    rw [Function.update_of_ne (Finset.ne_of_mem_erase hs)]
  unfold ShfSizes.total
  rw [← Finset.add_sum_erase _ _ hmem, ← Finset.add_sum_erase _ (fun s => itemSize (items s)) hmem,
    hrest, Function.update_self]
  omega

namespace ShfTab

/-- The records keep to the limits and lie apart from each other between the refs and `tab_used`,
and the bytes are counted right. -/
structure Sound {z : ShfSizes} (l : ShfLimits z) (t : ShfTab) : Prop where
  range : ∀ {slot}, (t.ref slot).pos ≠ 0 → slot ∈ z.slots
  inside : ∀ {slot}, (t.ref slot).pos ≠ 0 → z.offset ≤ (t.ref slot).pos ∧
    (t.ref slot).pos + recordSize t.bytes (t.ref slot).pos ≤ t.tab_used
  apart : ∀ {slot slot'}, slot ≠ slot' → (t.ref slot).pos ≠ 0 → (t.ref slot').pos ≠ 0 →
    (t.ref slot).pos + recordSize t.bytes (t.ref slot).pos ≤ (t.ref slot').pos ∨
      (t.ref slot').pos + recordSize t.bytes (t.ref slot').pos ≤ (t.ref slot).pos
  used_le : t.tab_used ≤ t.tab_size
  size_le : t.tab_size ≤ z.tabMax l.record l.factor
  small : ∀ {slot e}, t.item slot = some e → e.size ≤ l.record
  clean : ∀ x, t.tab_used ≤ x → t.bytes x = 0
  data_used : z.total t.item = t.tab_data_used
  data_all : z.offset + t.tab_data_used + t.tab_data_free = t.tab_used

/-- There is at most a fifth of garbage, if all refs have records of the largest size. -/
def Trim {z : ShfSizes} (l : ShfLimits z) (t : ShfTab) : Prop :=
  5 * t.tab_used ≤ 5 * z.offset + 6 * z.dataMax l.record

variable {z : ShfSizes} {l : ShfLimits z} {t : ShfTab} {slot : Nat × Nat} {env : ShfEnv}
  {key : List (BitVec 8)} {val : ShfVal}

theorem item_create (z : ShfSizes) : (create z).item = fun _ => none := rfl

theorem sound_create (l : ShfLimits z) : Sound l (create z) where
  range h := absurd rfl h
  inside h := absurd rfl h
  apart _ h := absurd rfl h
  used_le := le_SHF_MOD_PAGE _
  size_le := SHF_MOD_PAGE_mono (by omega)
  small h := by cases h
  clean _ _ := rfl
  data_used := by
    rw [item_create]
    exact Finset.sum_eq_zero fun _ _ => rfl
  data_all := rfl

theorem nodup_slots (z : ShfSizes) : z.slots.Nodup :=
  List.Nodup.product List.nodup_range List.nodup_range

theorem Sound.used_lt (h : Sound l t) : t.tab_used < 2 ^ 32 :=
  h.used_le.trans_lt (h.size_le.trans_lt l.tabMax_lt)

theorem Sound.record_lt (h : Sound l t) (hpos : (t.ref slot).pos ≠ 0) :
    (t.ref slot).pos + recordSize t.bytes (t.ref slot).pos < 2 ^ 32 :=
  (h.inside hpos).2.trans_lt h.used_lt

theorem Sound.data_used_le (h : Sound l t) : t.tab_data_used ≤ z.dataMax l.record := by
  have hcard : z.slots.toFinset.card = z.rows * z.refs := by
    rw [List.toFinset_card_of_nodup (nodup_slots z), ShfSizes.slots, List.length_product,
      List.length_range, List.length_range]
  rw [← h.data_used, ShfSizes.total, ShfSizes.dataMax, ← hcard, ← Nat.nsmul_eq_mul]
  apply Finset.sum_le_card_nsmul
  intro slot _
  cases hitem : t.item slot with
  | none => exact Nat.zero_le _
  | some e => exact h.small hitem

theorem Sound.trim (h : Sound l t) (hfree : 5 * t.tab_data_free ≤ t.tab_data_used) :
    t.Trim l := by
  have hall := h.data_all
  have hused := h.data_used_le
  unfold Trim
  omega

theorem ensures_grow (henv : env.Within l) (h : Sound l t) (htrim : t.Trim l) {data_needed : Nat}
    (hneeded : data_needed ≤ l.record) :
    Ensures (NoSpace l env)
      (fun size => t.tab_used + data_needed ≤ size ∧ size ≤ z.tabMax l.record l.factor)
      (t.grow env data_needed) := by
  have hlt := l.tabMax_lt
  have hused := h.used_le
  have hsize := h.size_le
  have havailable : sub32 t.tab_size t.tab_used = t.tab_size - t.tab_used :=
    sub32_of_le hused (by omega)
  unfold grow
  dsimp only
  rw [havailable]
  split_ifs with hgrow
  · have hmul : data_needed * env.data_needed_factor ≤ l.record * l.factor :=
      Nat.mul_le_mul hneeded henv.factor_le
    have hpos := Nat.le_mul_of_pos_right data_needed henv.factor_pos
    have hle := le_SHF_MOD_PAGE (t.tab_size + data_needed * env.data_needed_factor)
    have hnew : SHF_MOD_PAGE (t.tab_size + data_needed * env.data_needed_factor) ≤
        z.tabMax l.record l.factor := by
      unfold Trim at htrim
      exact SHF_MOD_PAGE_mono (by omega)
    -- nothing is cut off in 64 bits or in 32
    rw [u64_of_lt (n := t.tab_size + _) (by omega), u64_of_lt (by omega),
      sub64_of_le (by omega) (by omega), u32_of_lt (by omega)]
    unfold SHF_ASSERT
    split_ifs with hspace
    · exact ensures_ok ⟨by omega, hnew⟩
    · exact ensures_error ⟨rfl, by omega⟩
  · exact ensures_ok ⟨by omega, hsize⟩

/-- The tab with a record behind the others. -/
def appended (t : ShfTab) (tab_size : Nat) (key : List (BitVec 8)) (val : ShfVal) : ShfTab :=
  { t with
    tab_size := tab_size
    tab_used := t.tab_used + (1 + 4 + key.length + 4 + val.val_len)
    tab_data_used := t.tab_data_used + (1 + 4 + key.length + 4 + val.val_len)
    bytes := writeRecord t.bytes t.tab_used key val }

theorem ensures_append (henv : env.Within l) (h : Sound l t) (htrim : t.Trim l)
    (hneeded : 1 + 4 + key.length + 4 + val.val_len ≤ l.record) :
    Ensures (NoSpace l env) (fun t' => ∃ tab_size ≤ z.tabMax l.record l.factor,
        t.tab_used + (1 + 4 + key.length + 4 + val.val_len) ≤ tab_size ∧
          t' = t.appended tab_size key val)
      (t.append env key val) := by
  unfold append
  refine (ensures_grow henv h htrim hneeded).bind ?_
  rintro tab_size ⟨hsize, hmax⟩
  have hlt := l.tabMax_lt
  have hall := h.data_all
  have hkey : u32 (t.tab_used + 1 + 4 + key.length) ≤ tab_size := by
    rw [u32_of_lt (by omega)]
    omega
  have hval : u32 (t.tab_used + 1 + 4 + key.length + 4 + val.val_len) ≤ tab_size := by
    rw [u32_of_lt (by omega)]
    omega
  refine (ensures_assert hkey).bind fun _ _ => ?_
  refine (ensures_assert hval).bind fun _ _ => ?_
  refine ensures_ok ⟨tab_size, hmax, hsize, ?_⟩
  rw [u32_of_lt (by omega), u32_of_lt (by omega), appended]

section Place

variable (h : Sound l t) (hfree : (t.ref slot).pos = 0) (hslot : slot ∈ z.slots) {tab_size : Nat}
  (hmax : tab_size ≤ z.tabMax l.record l.factor)
  (hsize : t.tab_used + (1 + 4 + key.length + 4 + val.val_len) ≤ tab_size)
include h hmax hsize

theorem Sound.agree_appended {slot' : Nat × Nat} (hpos : (t.ref slot').pos ≠ 0) :
    Agree t.bytes (writeRecord t.bytes t.tab_used key val) (t.ref slot').pos
      (recordSize t.bytes (t.ref slot').pos) := by
  intro x _ hx
  have hinside := (h.inside hpos).2
  have hlt := l.tabMax_lt
  exact writeRecord_outside (by omega) (by omega)

include hfree

theorem Sound.item_place (tab rnd : Nat) :
    ((t.appended tab_size key val).setRef slot ⟨tab, rnd, t.tab_used⟩).item =
      Function.update t.item slot (some ⟨tab, rnd, key, val.content⟩) := by
  have hused : t.tab_used ≠ 0 := by
    have hall := h.data_all
    unfold ShfSizes.offset at hall
    omega
  funext slot'
  by_cases heq : slot' = slot
  · subst heq
    have hlt : t.tab_used + (1 + 4 + key.length + 4 + val.val_len) < 2 ^ 32 :=
      hsize.trans_lt (hmax.trans_lt l.tabMax_lt)
    obtain ⟨hk, hv⟩ := record_writeRecord hlt h.clean
    rw [Function.update_self]
    simp only [item, setRef, appended, Function.update_self, if_neg hused, hk, hv]
  · rw [Function.update_of_ne heq]
    refine item_congr (Function.update_of_ne heq _ _) fun hpos => ?_
    exact ⟨h.record_lt hpos, h.agree_appended hmax hsize hpos⟩

omit hfree

/-- The refs of the tab are the new one and those that were there. -/
theorem Sound.record_place (tab rnd : Nat) {t' : ShfTab}
    (ht' : (t.appended tab_size key val).setRef slot ⟨tab, rnd, t.tab_used⟩ = t')
    {slot' : Nat × Nat} (hpos : (t'.ref slot').pos ≠ 0) :
    slot' = slot ∧ (t'.ref slot').pos = t.tab_used ∧
        recordSize t'.bytes (t'.ref slot').pos = 1 + 4 + key.length + 4 + val.val_len ∨
      (t.ref slot').pos ≠ 0 ∧ (t'.ref slot').pos = (t.ref slot').pos ∧
        recordSize t'.bytes (t'.ref slot').pos = recordSize t.bytes (t.ref slot').pos := by
  subst ht'
  by_cases heq : slot' = slot
  · have hlt : t.tab_used + (1 + 4 + key.length + 4 + val.val_len) < 2 ^ 32 :=
      hsize.trans_lt (hmax.trans_lt l.tabMax_lt)
    obtain ⟨hk, hv⟩ := record_writeRecord hlt h.clean
    have hnew : ((t.appended tab_size key val).setRef slot ⟨tab, rnd, t.tab_used⟩).ref slot =
        ⟨tab, rnd, t.tab_used⟩ := Function.update_self _ _ _
    rw [heq, hnew]
    refine .inl ⟨rfl, rfl, ?_⟩
    change recordSize (writeRecord t.bytes t.tab_used key val) t.tab_used = _
    rw [recordSize_eq, hk, hv, ShfVal.length_content]
  · have hsame : ((t.appended tab_size key val).setRef slot ⟨tab, rnd, t.tab_used⟩).ref slot' =
        t.ref slot' := Function.update_of_ne heq _ _
    rw [hsame] at hpos ⊢
    exact .inr ⟨hpos, rfl, recordSize_congr (h.record_lt hpos) (h.agree_appended hmax hsize hpos)⟩

include hfree hslot

/-- A record behind the others and a ref to it. -/
theorem Sound.place (tab rnd : Nat)
    (hneeded : 1 + 4 + key.length + 4 + val.val_len ≤ l.record) :
    Sound l ((t.appended tab_size key val).setRef slot ⟨tab, rnd, t.tab_used⟩) := by
  have hall := h.data_all
  have hitems := h.item_place hfree hmax hsize tab rnd
  have hrecord {slot' : Nat × Nat}
      (hpos : (((t.appended tab_size key val).setRef slot ⟨tab, rnd, t.tab_used⟩).ref slot').pos ≠ 0) :=
    h.record_place hmax hsize tab rnd rfl hpos
  refine ⟨?_, ?_, ?_, hsize, hmax, ?_, ?_, ?_, ?_⟩
  · intro slot' hpos
    rcases hrecord hpos with ⟨rfl, -⟩ | ⟨hlive, -⟩
    · exact hslot
    · exact h.range hlive
  · intro slot' hpos
    change _ ∧ _ ≤ t.tab_used + (1 + 4 + key.length + 4 + val.val_len)
    rcases hrecord hpos with ⟨-, hnew, hneed⟩ | ⟨hlive, hsame, hold⟩
    · omega
    · have hinside := h.inside hlive
      omega
  -- the new record is behind all others
  · intro slot₁ slot₂ hne hpos₁ hpos₂
    rcases hrecord hpos₁ with ⟨heq₁, hnew₁, -⟩ | ⟨hlive₁, hsame₁, hold₁⟩
    · rcases hrecord hpos₂ with ⟨heq₂, -⟩ | ⟨hlive₂, hsame₂, hold₂⟩
      · exact absurd (heq₁.trans heq₂.symm) hne
      · have hinside := (h.inside hlive₂).2
        omega
    · rcases hrecord hpos₂ with ⟨-, hnew₂, -⟩ | ⟨hlive₂, hsame₂, hold₂⟩
      · have hinside := (h.inside hlive₁).2
        omega
      · have hapart := h.apart hne hlive₁ hlive₂
        omega
  · intro slot' e he
    rw [hitems] at he
    by_cases heq : slot' = slot
    · rw [heq, Function.update_self] at he
      cases he
      rw [ShfItem.size, ShfVal.length_content]
      exact hneeded
    · rw [Function.update_of_ne heq] at he
      exact h.small he
  · intro x hx
    change t.tab_used + (1 + 4 + key.length + 4 + val.val_len) ≤ x at hx
    have hlt := hsize.trans_lt (hmax.trans_lt l.tabMax_lt)
    exact (writeRecord_outside hlt (.inr hx)).trans (h.clean x (by omega))
  · have htotal := z.total_update t.item hslot (some ⟨tab, rnd, key, val.content⟩)
    have hdata := h.data_used
    rw [item_eq_none_iff.mpr hfree] at htotal
    simp only [itemSize, Option.elim, ShfItem.size, ShfVal.length_content] at htotal
    rw [hitems]
    change _ = t.tab_data_used + (1 + 4 + key.length + 4 + val.val_len)
    omega
  · change z.offset + (t.tab_data_used + (1 + 4 + key.length + 4 + val.val_len)) +
      t.tab_data_free = t.tab_used + (1 + 4 + key.length + 4 + val.val_len)
    omega

end Place

section Delete

variable (h : Sound l t) (hpos : (t.ref slot).pos ≠ 0)
include h hpos

theorem Sound.agree_writeDeleted {slot' : Nat × Nat} (hne : slot' ≠ slot)
    (hpos' : (t.ref slot').pos ≠ 0) (key_len val_len : Nat) :
    Agree t.bytes (writeDeleted t.bytes (t.ref slot).pos key_len val_len) (t.ref slot').pos
      (recordSize t.bytes (t.ref slot').pos) := by
  intro x hx hx'
  have hlt := h.record_lt hpos
  have hsize : 5 ≤ recordSize t.bytes (t.ref slot).pos := by
    unfold recordSize
    omega
  refine writeDeleted_outside (by omega) ?_
  rcases h.apart hne hpos' hpos with hbefore | hbehind
  · exact .inl (by omega)
  · exact .inr (by omega)

theorem Sound.item_markAsDeleted (key_len val_len : Nat) :
    (t.markAsDeleted slot key_len val_len).item = Function.update t.item slot none := by
  funext slot'
  by_cases heq : slot' = slot
  · subst heq
    rw [Function.update_self, item_eq_none_iff]
    simp only [markAsDeleted, Function.update_self]
  · rw [Function.update_of_ne heq]
    refine item_congr (Function.update_of_ne heq _ _) fun hpos' => ?_
    exact ⟨h.record_lt hpos', h.agree_writeDeleted hpos heq hpos' key_len val_len⟩

theorem Sound.size_le_data_used :
    recordSize t.bytes (t.ref slot).pos ≤ t.tab_data_used := by
  rw [← itemSize_item hpos, ← h.data_used]
  exact Finset.single_le_sum (f := fun s => itemSize (t.item s)) (fun _ _ => Nat.zero_le _)
    (List.mem_toFinset.mpr (h.range hpos))

/-- A tab that differs only in the ref and in its record. -/
theorem Sound.forget {t' : ShfTab} (href : (t'.ref slot).pos = 0)
    (hrefs : ∀ slot', slot' ≠ slot → t'.ref slot' = t.ref slot')
    (hbytes : ∀ slot', slot' ≠ slot → (t.ref slot').pos ≠ 0 →
      Agree t.bytes t'.bytes (t.ref slot').pos (recordSize t.bytes (t.ref slot').pos))
    (hitems : t'.item = Function.update t.item slot none)
    (hclean : ∀ x, t.tab_used ≤ x → t'.bytes x = 0) (hsize : t'.tab_size = t.tab_size)
    (hused : t'.tab_used = t.tab_used)
    (hdata : t'.tab_data_used = t.tab_data_used - recordSize t.bytes (t.ref slot).pos)
    (hfree : t'.tab_data_free = t.tab_data_free + recordSize t.bytes (t.ref slot).pos) :
    Sound l t' := by
  have hle := h.size_le_data_used hpos
  have hall := h.data_all
  have hother {slot' : Nat × Nat} (hpos' : (t'.ref slot').pos ≠ 0) :
      slot' ≠ slot ∧ (t.ref slot').pos ≠ 0 ∧ t'.ref slot' = t.ref slot' := by
    have hne : slot' ≠ slot := by
      rintro rfl
      exact hpos' href
    exact ⟨hne, hrefs slot' hne ▸ hpos', hrefs slot' hne⟩
  refine ⟨?_, ?_, ?_, ?_, hsize.le.trans h.size_le, ?_, ?_, ?_, by omega⟩
  · intro slot' hpos'
    exact h.range (hother hpos').2.1
  · intro slot' hpos'
    obtain ⟨hne, hlive, hsame⟩ := hother hpos'
    rw [hsame, recordSize_congr (h.record_lt hlive) (hbytes slot' hne hlive), hused]
    exact h.inside hlive
  · intro slot₁ slot₂ hne hpos₁ hpos₂
    obtain ⟨hne₁, hlive₁, hsame₁⟩ := hother hpos₁
    obtain ⟨hne₂, hlive₂, hsame₂⟩ := hother hpos₂
    rw [hsame₁, hsame₂, recordSize_congr (h.record_lt hlive₁) (hbytes slot₁ hne₁ hlive₁),
      recordSize_congr (h.record_lt hlive₂) (hbytes slot₂ hne₂ hlive₂)]
    exact h.apart hne hlive₁ hlive₂
  · rw [hused, hsize]
    exact h.used_le
  · intro slot' e he
    rw [hitems] at he
    by_cases heq : slot' = slot
    · rw [heq, Function.update_self] at he
      cases he
    · rw [Function.update_of_ne heq] at he
      exact h.small he
  · rw [hused]
    exact hclean
  · have htotal := z.total_update t.item (h.range hpos) none
    have hdata' := h.data_used
    rw [itemSize_item hpos] at htotal
    simp only [itemSize, Option.elim] at htotal
    rw [hitems]
    omega

theorem Sound.markAsDeleted {key_len val_len : Nat}
    (hkey : recordKeyLen t.bytes (t.ref slot).pos = key_len)
    (hval : recordValLen t.bytes (t.ref slot).pos = val_len) :
    Sound l (t.markAsDeleted slot key_len val_len) := by
  have hsize : recordSize t.bytes (t.ref slot).pos = 1 + 4 + key_len + 4 + val_len := by
    rw [recordSize, hkey, hval]
  have hlt := h.used_lt
  have hall := h.data_all
  have hle := h.size_le_data_used hpos
  refine h.forget hpos ?_ ?_ ?_ (h.item_markAsDeleted hpos key_len val_len) ?_ rfl rfl ?_ ?_
  · rw [markAsDeleted_ref, Function.update_self]
  · intro slot' hne
    rw [markAsDeleted_ref, Function.update_of_ne hne]
  · intro slot' hne hpos'
    rw [markAsDeleted_bytes]
    exact h.agree_writeDeleted hpos hne hpos' key_len val_len
  · intro x hx
    have hinside := (h.inside hpos).2
    rw [markAsDeleted_bytes, writeDeleted_outside (by omega) (.inr (by omega))]
    exact h.clean x hx
  · rw [markAsDeleted_tab_data_used, hsize, sub32_of_le (by omega) (by omega)]
  · rw [markAsDeleted_tab_data_free, hsize, u32_of_lt (by omega)]

end Delete

section Copy

variable {old new : ShfTab}

theorem ensures_refCopy (henv : env.Within l) (hold : Sound l old) (hnew : Sound l new)
    (htrim : new.Trim l) (hpos : (old.ref slot).pos ≠ 0) (hfree : (new.ref slot).pos = 0) :
    Ensures (NoSpace l env) (fun tabs => Sound l tabs.1 ∧ Sound l tabs.2 ∧
        tabs.1.item = Function.update old.item slot none ∧
        tabs.2.item = Function.update new.item slot (old.item slot) ∧
        tabs.2.tab_data_free = new.tab_data_free)
      (refCopy env (old, new) slot) := by
  have hneeded : 1 + 4 + (recordKey old.bytes (old.ref slot).pos).length + 4 +
      (ShfVal.bytes (recordVal old.bytes (old.ref slot).pos)).val_len ≤ l.record :=
    hold.small (item_of_pos_ne hpos)
  unfold refCopy
  refine (ensures_append henv hnew htrim hneeded).bind ?_
  rintro _ ⟨tab_size, hmax, hsize, rfl⟩
  refine ensures_ok ⟨hold.markAsDeleted hpos rfl rfl,
    hnew.place hfree (hold.range hpos) hmax hsize _ _ hneeded, hold.item_markAsDeleted hpos _ _,
    ?_, rfl⟩
  rw [item_of_pos_ne hpos]
  exact hnew.item_place hfree hmax hsize _ _

theorem mem_slots {z : ShfSizes} {slot : Nat × Nat} :
    slot ∈ z.slots ↔ slot.1 < z.rows ∧ slot.2 < z.refs := by
  obtain ⟨row, ref⟩ := slot
  exact List.pair_mem_product.trans (by rw [List.mem_range, List.mem_range])

theorem Sound.item_of_notMem (h : Sound l t) (hslot : slot ∉ z.slots) : t.item slot = none :=
  item_eq_none_iff.mpr (by_contra fun hpos => hslot (h.range hpos))

/-- The items of `old` at the slots `done` have been moved if they are chosen. -/
structure Moved {z : ShfSizes} (l : ShfLimits z) (old : ShfTab) (chosen : Nat → Bool) (done : List (Nat × Nat))
    (tabs : ShfTab × ShfTab) : Prop where
  sound_old : Sound l tabs.1
  sound_new : Sound l tabs.2
  item_old : ∀ slot, tabs.1.item slot =
    if slot ∈ done then (old.item slot).filter fun e => !chosen e.tab else old.item slot
  item_new : ∀ slot, tabs.2.item slot =
    if slot ∈ done then (old.item slot).filter fun e => chosen e.tab else none
  free_new : tabs.2.tab_data_free = 0

variable {choose : Nat → Except ShfExit Bool} {chosen : Nat → Bool} {done : List (Nat × Nat)}
  {tabs : ShfTab × ShfTab}

theorem Moved.stay (h : Moved l old chosen done tabs) (hslot : slot ∉ done)
    (hstay : ∀ e, old.item slot = some e → chosen e.tab = false) :
    Moved l old chosen (done ++ [slot]) tabs := by
  have hold : (old.item slot).filter (fun e => !chosen e.tab) = old.item slot := by
    cases hitem : old.item slot with
    | none => rfl
    | some e => simp [Option.filter_some, hstay e hitem]
  have hnew : (old.item slot).filter (fun e => chosen e.tab) = none := by
    cases hitem : old.item slot with
    | none => rfl
    | some e => simp [Option.filter_some, hstay e hitem]
  refine ⟨h.sound_old, h.sound_new, fun slot' => ?_, fun slot' => ?_, h.free_new⟩
  · rw [h.item_old]
    by_cases heq : slot' = slot
    · simp [heq, hslot, hold]
    · simp [heq]
  · rw [h.item_new]
    by_cases heq : slot' = slot
    · simp [heq, hslot, hnew]
    · simp [heq]

theorem Moved.move (h : Moved l old chosen done tabs) {e : ShfItem}
    (hitem : old.item slot = some e) (hchosen : chosen e.tab = true) {tabs' : ShfTab × ShfTab}
    (hold : Sound l tabs'.1) (hnew : Sound l tabs'.2)
    (hitem₁ : tabs'.1.item = Function.update tabs.1.item slot none)
    (hitem₂ : tabs'.2.item = Function.update tabs.2.item slot (some e))
    (hfree : tabs'.2.tab_data_free = tabs.2.tab_data_free) :
    Moved l old chosen (done ++ [slot]) tabs' := by
  refine ⟨hold, hnew, fun slot' => ?_, fun slot' => ?_, hfree.trans h.free_new⟩
  · rw [hitem₁]
    by_cases heq : slot' = slot
    · simp [heq, hitem, Option.filter_some, hchosen]
    · simp [heq, h.item_old]
  · rw [hitem₂]
    by_cases heq : slot' = slot
    · simp [heq, hitem, Option.filter_some, hchosen]
    · simp [heq, h.item_new]

theorem Moved.ensures_copyRef (h : Moved l old chosen done tabs)
    (henv : env.Within l) (hslot : slot ∉ done)
    (hchoose : ∀ slot e, old.item slot = some e → choose e.tab = .ok (chosen e.tab)) :
    Ensures (NoSpace l env) (Moved l old chosen (done ++ [slot])) (copyRef env choose tabs slot) := by
  have hitem := h.item_old slot
  rw [if_neg hslot] at hitem
  unfold copyRef
  split_ifs with hpos
  · rw [item_of_pos_ne hpos] at hitem
    have hchosen := hchoose slot _ hitem.symm
    dsimp only at hchosen
    rw [hchosen]
    change Ensures _ _ (if chosen (tabs.1.ref slot).tab = true then _ else _)
    split_ifs with hmove
    · have hfree : (tabs.2.ref slot).pos = 0 := by
        rw [← item_eq_none_iff, h.item_new, if_neg hslot]
      have htrim := h.sound_new.trim (by rw [h.free_new]; omega)
      refine (ensures_refCopy henv h.sound_old h.sound_new htrim hpos hfree).imp ?_
      rintro tabs' ⟨hold', hnew', hitem₁, hitem₂, hfree'⟩
      rw [h.item_old, if_neg hslot, ← hitem] at hitem₂
      exact h.move hitem.symm hmove hold' hnew' hitem₁ hitem₂ hfree'
    · refine ensures_ok (h.stay hslot fun e he => ?_)
      rw [← hitem] at he
      cases he
      exact Bool.eq_false_iff.mpr hmove
  · refine ensures_ok (h.stay hslot fun e he => ?_)
    rw [← hitem, item_eq_none_iff.mpr (not_not.mp hpos)] at he
    cases he

theorem moved_start (hold : Sound l old) (chosen : Nat → Bool) :
    Moved l old chosen [] (old, create z) :=
  ⟨hold, sound_create l, by simp, by simp [item_create], rfl⟩

theorem notMem_of_slots_eq {rest : List (Nat × Nat)} (h : z.slots = done ++ slot :: rest) :
    slot ∉ done := by
  have hnodup := nodup_slots z
  rw [h] at hnodup
  exact fun hmem => (List.nodup_append.mp hnodup).2.2 slot hmem slot List.mem_cons_self rfl

/-- The loop over all refs moves the items that are chosen and leaves the others. -/
theorem ensures_copyRefs (henv : env.Within l) (hold : Sound l old) (chosen : Nat → Bool)
    (hchoose : ∀ slot e, old.item slot = some e → choose e.tab = .ok (chosen e.tab)) :
    Ensures (NoSpace l env) (fun tabs => Sound l tabs.1 ∧ Sound l tabs.2 ∧
        (∀ slot, tabs.1.item slot = (old.item slot).filter fun e => !chosen e.tab) ∧
        (∀ slot, tabs.2.item slot = (old.item slot).filter fun e => chosen e.tab) ∧
        tabs.2.tab_data_free = 0)
      (copyRefs z env choose (old, create z)) := by
  have hloop : Ensures (NoSpace l env) (Moved l old chosen z.slots)
      (copyRefs z env choose (old, create z)) := by
    refine Ensures.foldlM (I := Moved l old chosen) ?_ (moved_start hold chosen)
    intro done slot rest tabs hslots h
    exact h.ensures_copyRef henv (notMem_of_slots_eq hslots) hchoose
  refine hloop.imp fun tabs h => ⟨h.sound_old, h.sound_new, fun slot => ?_, fun slot => ?_,
    h.free_new⟩
  · rw [h.item_old]
    split_ifs with hslot
    · rfl
    · rw [hold.item_of_notMem hslot]
      rfl
  · rw [h.item_new]
    split_ifs with hslot
    · rfl
    · rw [hold.item_of_notMem hslot]
      rfl

/-- A tab that is shrunk has the same items at the same slots, and nothing else. -/
theorem ensures_shrink (henv : env.Within l) (h : Sound l t) :
    Ensures (NoSpace l env) (fun t' => Sound l t' ∧ t'.Trim l ∧ t'.item = t.item)
      (t.shrink z env) := by
  unfold shrink
  refine (ensures_copyRefs henv h (fun _ => true) fun _ _ _ => rfl).bind ?_
  rintro tabs ⟨-, hnew, -, hitem, hfree⟩
  refine ensures_ok ⟨hnew, hnew.trim (by rw [hfree]; omega), funext fun slot => ?_⟩
  rw [hitem]
  cases t.item slot with
  | none => rfl
  | some e => rfl

end Copy

end ShfTab

end AnalysePcap
