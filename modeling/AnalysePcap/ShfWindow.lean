import AnalysePcap.ShfTab
import Mathlib.Data.Finset.Card
import Mathlib.Data.Finset.Image
import Mathlib.Order.Interval.Finset.Nat

/-! A window of a shared hash file, `shf.c`: its tabs, and for each number of a tab in a uid the
tab where it is. When a row is full its tab is parted: every other number that led to it leads to
a new tab, and the refs with these numbers move there. -/

namespace AnalysePcap

open ByteMemory Postcondition

/-- `SHF_WIN_MMAP` and the tabs of the window. -/
structure ShfWin where
  tabs : Nat → Nat
  tabs_used : Nat
  tab : Nat → ShfTab

namespace ShfWin

/-- A window of a new file has one tab. -/
def create (z : ShfSizes) : ShfWin where
  tabs _ := 0
  tabs_used := 1
  tab _ := ShfTab.create z

def setTab (w : ShfWin) (tab : Nat) (t : ShfTab) : ShfWin :=
  { w with tab := Function.update w.tab tab t }

/-- One round of the loop of `shf_tab_part` over the numbers. -/
def switchTab (tab_old tab_new : Nat) (s : (Nat → Nat) × Bool) (tab2 : Nat) :
    Except ShfExit ((Nat → Nat) × Bool) := do
  let (tabs, tab_switch) := s
  SHF_ASSERT (tabs tab2 < tab_new) .redirect
  if tabs tab2 = tab_old then
    return (Function.update tabs tab2 (if tab_switch then tab_new else tab_old), !tab_switch)
  else return (tabs, tab_switch)

/-- Whether `shf_tab_part` copies a ref to the new tab. -/
def goesToNew (z : ShfSizes) (tabs : Nat → Nat) (tab_old tab_new tab2 : Nat) :
    Except ShfExit Bool := do
  SHF_ASSERT (tabs tab2 < z.tabs) .partRange
  SHF_ASSERT (tabs tab2 = tab_old ∨ tabs tab2 = tab_new) .partTab
  return decide (tabs tab2 = tab_new)

/-- `shf_tab_part`. -/
def part (z : ShfSizes) (env : ShfEnv) (w : ShfWin) (tab_old : Nat) : Except ShfExit ShfWin := do
  let tab_new := w.tabs_used
  SHF_ASSERT (tab_new < z.tabs) .tabOverflow
  let (tabs, _) ← (List.range z.tabs).foldlM (switchTab tab_old tab_new) (w.tabs, false)
  let (old, new) ← ShfTab.copyRefs z env (goesToNew z tabs tab_old tab_new)
    (w.tab tab_old, ShfTab.create z)
  let old ← old.shrink z env
  return {
    tabs := tabs
    tabs_used := w.tabs_used + 1
    tab := Function.update (Function.update w.tab tab_new new) tab_old old }

/-- What `shf_hash` says about a key in its window. -/
structure Spot where
  tab2 : Nat
  row : Nat
  rnd : Nat

/-- Whether `shf_put_key_val` shrinks the tab afterwards; the product has 32 bits. -/
def shrinksAfterPut (t : ShfTab) : Bool :=
  decide (t.tab_data_free > u32 (t.tab_data_used * 20) / 100)

/-- `shf_put_key_val` in the window; it returns the ref. Each round parts a tab, and there are
not more rounds than tabs. -/
def put (z : ShfSizes) (env : ShfEnv) (spot : Spot) (key : List (BitVec 8)) (val : ShfVal) :
    Nat → ShfWin → Except ShfExit (Nat × ShfWin)
  | 0, _ => .error .unfinished
  | rounds + 1, w =>
    let tab := w.tabs spot.tab2
    let t := w.tab tab
    match (List.range z.refs).find? fun ref => decide ((t.ref (spot.row, ref)).pos = 0) with
    | some ref => do
      let pos := t.tab_used
      let t ← t.append env key val
      let t := t.setRef (spot.row, ref) ⟨spot.tab2, spot.rnd, pos⟩
      let t ← if shrinksAfterPut t then t.shrink z env else pure t
      return (ref, w.setTab tab t)
    | none => do
      let w ← w.part z env tab
      put z env spot key val rounds w

/-- The assertions of `shf_find_key_internal` about a record. -/
def checkRecord (t : ShfTab) (pos : Nat) : Except ShfExit Unit := do
  SHF_ASSERT (pos < t.tab_size) .findPos
  SHF_ASSERT (u32 (pos + 1 + 4 + recordKeyLen t.bytes pos) ≤ t.tab_size) .findKey
  SHF_ASSERT (u32 (pos + 1 + 4 + recordKeyLen t.bytes pos + 4 + recordValLen t.bytes pos) ≤
    t.tab_size) .findVal

/-- The search of `shf_find_key_internal` for a key in the refs of its row. -/
def findKey (t : ShfTab) (spot : Spot) (key : List (BitVec 8)) :
    List Nat → Except ShfExit (Option Nat)
  | [] => return none
  | ref :: refs =>
    let r := t.ref (spot.row, ref)
    if r.pos ≠ 0 ∧ r.rnd = spot.rnd ∧ r.tab = spot.tab2 then do
      checkRecord t r.pos
      if recordKeyLen t.bytes r.pos ≠ key.length then findKey t spot key refs
      else if load t.bytes (u32 (r.pos + 1 + 4)) key.length ≠ key then findKey t spot key refs
      else return some ref
    else findKey t spot key refs

/-- The lookup of `shf_find_key_internal` for a uid. -/
def findUid (t : ShfTab) (tab2 row ref : Nat) : Except ShfExit (Option Nat) :=
  let r := t.ref (row, ref)
  if r.pos ≠ 0 ∧ r.tab = tab2 then do
    checkRecord t r.pos
    return some ref
  else return none

end ShfWin

/-- `SHF_FIND_KEY_AND`. -/
inductive ShfFind where
  | keyOrUid
  | andCopyVal
  | andDelete
  deriving DecidableEq

namespace ShfWin

def shrinksAfterGet (t : ShfTab) : Bool := decide (t.tab_data_free > t.tab_data_used / 4)

/-- What `shf_find_key_internal` does with the ref that it has found, if any; it returns the
bytes of the value. -/
def act (z : ShfSizes) (env : ShfEnv) (w : ShfWin) (tab2 row : Nat) (what : ShfFind) :
    Option Nat → Except ShfExit (Option (List (BitVec 8)) × ShfWin)
  | none => return (none, w)
  | some ref => do
    let tab := w.tabs tab2
    let t := w.tab tab
    let pos := (t.ref (row, ref)).pos
    let val := recordVal t.bytes pos
    match what with
    | .keyOrUid => return (some val, w)
    | .andCopyVal =>
      if shrinksAfterGet t then do
        let t ← t.shrink z env
        return (some val, w.setTab tab t)
      else return (some val, w)
    | .andDelete =>
      let t := t.markAsDeleted (row, ref) (recordKeyLen t.bytes pos) (recordValLen t.bytes pos)
      return (some val, w.setTab tab t)

/-- `shf_find_key_internal` for a key. -/
def findByKey (z : ShfSizes) (env : ShfEnv) (w : ShfWin) (spot : Spot) (key : List (BitVec 8))
    (what : ShfFind) : Except ShfExit (Option (List (BitVec 8)) × ShfWin) := do
  let found ← findKey (w.tab (w.tabs spot.tab2)) spot key (List.range z.refs)
  w.act z env spot.tab2 spot.row what found

/-- `shf_find_key_internal` for a uid. -/
def findByUid (z : ShfSizes) (env : ShfEnv) (w : ShfWin) (tab2 row ref : Nat) (what : ShfFind) :
    Except ShfExit (Option (List (BitVec 8)) × ShfWin) := do
  let found ← findUid (w.tab (w.tabs tab2)) tab2 row ref
  w.act z env tab2 row what found

section Switch

/-- Every other number in `done` that led to `tab_old` leads to `tab_new`. -/
structure Switched (tabs : Nat → Nat) (tab_old tab_new : Nat) (done : List Nat)
    (s : (Nat → Nat) × Bool) : Prop where
  same : ∀ tab2, tab2 ∉ done ∨ tabs tab2 ≠ tab_old → s.1 tab2 = tabs tab2
  split : ∀ tab2, tabs tab2 = tab_old → s.1 tab2 = tab_old ∨ s.1 tab2 = tab_new
  count_old : 2 * done.countP (fun tab2 => s.1 tab2 = tab_old) =
    done.countP (fun tab2 => tabs tab2 = tab_old) + s.2.toNat
  count_new : 2 * done.countP (fun tab2 => s.1 tab2 = tab_new) + s.2.toNat =
    done.countP fun tab2 => tabs tab2 = tab_old

variable {tabs : Nat → Nat} {tab_old tab_new tab2 : Nat} {done : List Nat}
  {s : (Nat → Nat) × Bool}

theorem countP_update_of_notMem (f : Nat → Nat) {l : List Nat} (h : tab2 ∉ l) (a b : Nat) :
    l.countP (fun x => Function.update f tab2 a x = b) = l.countP fun x => f x = b := by
  refine List.countP_congr fun x hx => ?_
  have hne : x ≠ tab2 := by
    rintro rfl
    exact h hx
  simp [Function.update_of_ne hne]

theorem Switched.next (h : Switched tabs tab_old tab_new done s) (hnew : tab_old < tab_new)
    (htab2 : tab2 ∉ done) (hlt : tabs tab2 < tab_new) :
    ∃ s', switchTab tab_old tab_new s tab2 = .ok s' ∧
      Switched tabs tab_old tab_new (done ++ [tab2]) s' := by
  obtain ⟨f, tab_switch⟩ := s
  have hsame : f tab2 = tabs tab2 := h.same tab2 (.inl htab2)
  have hold := h.count_old
  have hcount := h.count_new
  dsimp only at hold hcount
  have hassert : SHF_ASSERT (f tab2 < tab_new) ShfExit.redirect = .ok () := if_pos (hsame ▸ hlt)
  by_cases heq : tabs tab2 = tab_old
  · refine ⟨(Function.update f tab2 (if tab_switch then tab_new else tab_old), !tab_switch), ?_,
      ?_, ?_, ?_, ?_⟩
    · rw [switchTab, hassert, if_pos (hsame.trans heq)]
      rfl
    · intro x hx
      have hne : x ≠ tab2 := by
        rintro rfl
        exact hx.elim (fun hnot => hnot (by simp)) fun hne => hne heq
      dsimp only
      rw [Function.update_of_ne hne]
      exact h.same x (hx.imp_left fun hnot hmem => hnot (by simp [hmem]))
    · intro x hx
      dsimp only
      by_cases hx2 : x = tab2
      · rw [hx2, Function.update_self]
        cases tab_switch
        · exact .inl rfl
        · exact .inr rfl
      · rw [Function.update_of_ne hx2]
        exact h.split x hx
    · dsimp only
      rw [List.countP_append, List.countP_append, countP_update_of_notMem f htab2]
      cases tab_switch <;> simp [heq, hnew.ne'] at hold ⊢ <;> omega
    · dsimp only
      rw [List.countP_append, List.countP_append, countP_update_of_notMem f htab2]
      cases tab_switch <;> simp [heq, hnew.ne] at hcount ⊢ <;> omega
  · refine ⟨(f, tab_switch), ?_, ?_, h.split, ?_, ?_⟩
    · rw [switchTab, hassert, if_neg (hsame ▸ heq)]
      rfl
    · intro x hx
      by_cases hx2 : x = tab2
      · rw [hx2]
        exact hsame
      · exact h.same x (hx.imp_left fun hnot hmem => hnot (by simp [hmem]))
    · dsimp only
      rw [List.countP_append, List.countP_append]
      simpa [hsame, heq] using hold
    · dsimp only
      rw [List.countP_append, List.countP_append]
      simpa [hsame, heq, hlt.ne] using hcount

theorem ensures_switch {E : ShfExit → Prop} {n : Nat} (hnew : tab_old < tab_new)
    (hlt : ∀ tab2 < n, tabs tab2 < tab_new) :
    Ensures E (Switched tabs tab_old tab_new (List.range n))
      ((List.range n).foldlM (switchTab tab_old tab_new) (tabs, false)) := by
  refine Ensures.foldlM (I := Switched tabs tab_old tab_new) ?_
    ⟨fun _ _ => rfl, fun _ h => .inl h, rfl, rfl⟩
  intro done tab2 rest s hrange h
  have htab2 : tab2 ∉ done := by
    have hnodup := List.nodup_range (n := n)
    rw [hrange] at hnodup
    exact fun hmem => (List.nodup_append.mp hnodup).2.2 tab2 hmem tab2 List.mem_cons_self rfl
  have hmem : tab2 ∈ List.range n := by
    rw [hrange]
    simp
  obtain ⟨s', hs', h'⟩ := h.next hnew htab2 (hlt tab2 (List.mem_range.mp hmem))
  rw [hs']
  exact h'

/-- If two numbers led to the old tab then one still does, and one leads to the new tab. -/
theorem Switched.exists_both {n a b : Nat} (h : Switched tabs tab_old tab_new (List.range n) s)
    (ha : a < n) (hb : b < n) (hab : a ≠ b) (hta : tabs a = tab_old) (htb : tabs b = tab_old) :
    (∃ tab2 < n, s.1 tab2 = tab_old) ∧ ∃ tab2 < n, s.1 tab2 = tab_new := by
  have htwo : 2 ≤ (List.range n).countP fun tab2 => tabs tab2 = tab_old := by
    rw [List.countP_eq_length_filter,
      ← List.toFinset_card_of_nodup (List.nodup_range.filter _)]
    exact Finset.one_lt_card.mpr ⟨a, by simp [ha, hta], b, by simp [hb, htb], hab⟩
  have hbool := Bool.toNat_le s.2
  have hold := h.count_old
  have hnew := h.count_new
  constructor
  · obtain ⟨x, hx, hx'⟩ := List.countP_pos_iff.mp
      (show 0 < (List.range n).countP fun tab2 => s.1 tab2 = tab_old by omega)
    exact ⟨x, List.mem_range.mp hx, of_decide_eq_true hx'⟩
  · obtain ⟨x, hx, hx'⟩ := List.countP_pos_iff.mp
      (show 0 < (List.range n).countP fun tab2 => s.1 tab2 = tab_new by omega)
    exact ⟨x, List.mem_range.mp hx, of_decide_eq_true hx'⟩

end Switch

/-- What a uid with this number of a tab and this slot stands for. -/
def content (w : ShfWin) (tab2 : Nat) (slot : Nat × Nat) : Option ShfItem :=
  ((w.tab (w.tabs tab2)).item slot).filter fun e => decide (e.tab = tab2)

/-- Every number leads to a tab, and every item is in the tab where its number leads. -/
structure Sound {z : ShfSizes} (l : ShfLimits z) (w : ShfWin) : Prop where
  tab : ∀ {t}, t < w.tabs_used → (w.tab t).Sound l
  trim : ∀ {t}, t < w.tabs_used → (w.tab t).Trim l
  used_le : w.tabs_used ≤ z.tabs
  redirect : ∀ {tab2}, tab2 < z.tabs → w.tabs tab2 < w.tabs_used
  homed : ∀ {t slot e}, t < w.tabs_used → (w.tab t).item slot = some e →
    e.tab < z.tabs ∧ w.tabs e.tab = t

/-- Some number leads to every tab. -/
def Tight (z : ShfSizes) (w : ShfWin) : Prop :=
  ∀ t < w.tabs_used, ∃ tab2 < z.tabs, w.tabs tab2 = t

variable {z : ShfSizes} {l : ShfLimits z} {w : ShfWin} {env : ShfEnv} {tab tab2 : Nat}
  {slot : Nat × Nat}

theorem content_eq_some_iff {e : ShfItem} : w.content tab2 slot = some e ↔
    (w.tab (w.tabs tab2)).item slot = some e ∧ e.tab = tab2 := by
  unfold content
  rw [Option.filter_eq_some_iff, decide_eq_true_eq]

theorem sound_create (l : ShfLimits z) : (create z).Sound l where
  tab _ := ShfTab.sound_create l
  trim _ := (ShfTab.sound_create l).trim (Nat.zero_le _)
  used_le := z.tabs_pos
  redirect _ := Nat.zero_lt_one
  homed _ h := by cases h

theorem tight_create (z : ShfSizes) : (create z).Tight z :=
  fun _ ht => ⟨0, z.tabs_pos, (Nat.lt_one_iff.mp ht).symm⟩

/-- Two numbers that lead to one tab leave room for another tab. -/
theorem Tight.used_lt (htight : w.Tight z) {a b : Nat} (ha : a < z.tabs) (hb : b < z.tabs)
    (hab : a ≠ b) (heq : w.tabs a = w.tabs b) : w.tabs_used < z.tabs := by
  have hsub : Finset.range w.tabs_used ⊆ ((Finset.range z.tabs).erase a).image w.tabs := by
    intro t ht
    obtain ⟨x, hx, hxt⟩ := htight t (Finset.mem_range.mp ht)
    by_cases hxa : x = a
    · refine Finset.mem_image.mpr ⟨b, ?_, by rw [← heq, ← hxa, hxt]⟩
      exact Finset.mem_erase.mpr ⟨hab.symm, Finset.mem_range.mpr hb⟩
    · exact Finset.mem_image.mpr
        ⟨x, Finset.mem_erase.mpr ⟨hxa, Finset.mem_range.mpr hx⟩, hxt⟩
  have hcard := (Finset.card_le_card hsub).trans Finset.card_image_le
  rw [Finset.card_range, Finset.card_erase_of_mem (Finset.mem_range.mpr ha),
    Finset.card_range] at hcard
  omega

section Replace

variable {t' : ShfTab}

theorem Sound.setTab (h : w.Sound l) (ht : t'.Sound l) (htrim : t'.Trim l)
    (hhomed : ∀ slot e, t'.item slot = some e → e.tab < z.tabs ∧ w.tabs e.tab = tab) :
    (w.setTab tab t').Sound l := by
  refine ⟨?_, ?_, h.used_le, h.redirect, ?_⟩
  · intro x hx
    by_cases heq : x = tab
    · simpa [ShfWin.setTab, heq] using ht
    · simpa [ShfWin.setTab, heq] using h.tab hx
  · intro x hx
    by_cases heq : x = tab
    · simpa [ShfWin.setTab, heq] using htrim
    · simpa [ShfWin.setTab, heq] using h.trim hx
  · intro x slot e hx he
    by_cases heq : x = tab
    · simp only [ShfWin.setTab, heq, Function.update_self] at he
      exact heq ▸ hhomed slot e he
    · simp only [ShfWin.setTab, Function.update_of_ne heq] at he
      exact h.homed hx he

theorem content_setTab_of_eq (htab : w.tabs tab2 = tab) :
    (w.setTab tab t').content tab2 slot = (t'.item slot).filter fun e => decide (e.tab = tab2) := by
  simp [content, setTab, htab]

theorem content_setTab_of_ne (htab : w.tabs tab2 ≠ tab) :
    (w.setTab tab t').content tab2 slot = w.content tab2 slot := by
  simp [content, setTab, htab]

theorem content_setTab_of_item (hitem : t'.item = (w.tab tab).item) :
    (w.setTab tab t').content tab2 slot = w.content tab2 slot := by
  by_cases htab : w.tabs tab2 = tab
  · rw [content_setTab_of_eq htab, hitem, content, htab]
  · exact content_setTab_of_ne htab

end Replace

section Part

variable {tab_old : Nat}

/-- What parting a tab leaves as it was. -/
structure Parted {z : ShfSizes} (l : ShfLimits z) (w : ShfWin) (tab_old : Nat) (w' : ShfWin) :
    Prop where
  sound : w'.Sound l
  tabs_used : w'.tabs_used = w.tabs_used + 1
  content : ∀ {tab2}, tab2 < z.tabs → ∀ slot, w'.content tab2 slot = w.content tab2 slot
  tight : w.Tight z → ∀ {a b}, a < z.tabs → b < z.tabs → a ≠ b → w.tabs a = tab_old →
    w.tabs b = tab_old → w'.Tight z

/-- The window with a part of the old tab in a new one. -/
def withParts (w : ShfWin) (tabs : Nat → Nat) (tab_old : Nat) (old new : ShfTab) : ShfWin where
  tabs := tabs
  tabs_used := w.tabs_used + 1
  tab := Function.update (Function.update w.tab w.tabs_used new) tab_old old

section Parts

variable {tabs : Nat → Nat} {old new : ShfTab}

theorem tab_withParts_old : (w.withParts tabs tab_old old new).tab tab_old = old :=
  Function.update_self _ _ _

theorem tab_withParts_new (htab : tab_old < w.tabs_used) :
    (w.withParts tabs tab_old old new).tab w.tabs_used = new := by
  simp only [withParts, Function.update_of_ne htab.ne', Function.update_self]

theorem tab_withParts_of_lt {t : Nat} (ht : t < w.tabs_used) (hne : t ≠ tab_old) :
    (w.withParts tabs tab_old old new).tab t = w.tab t := by
  simp only [withParts, Function.update_of_ne hne, Function.update_of_ne ht.ne]

/-- What holds for both parts and for the other tabs holds for all tabs. -/
theorem forall_tab_withParts {P : Nat → ShfTab → Prop} (htab : tab_old < w.tabs_used)
    (hold : P tab_old old) (hnew : P w.tabs_used new)
    (hother : ∀ t < w.tabs_used, t ≠ tab_old → P t (w.tab t)) {t : Nat}
    (ht : t < w.tabs_used + 1) : P t ((w.withParts tabs tab_old old new).tab t) := by
  by_cases heq : t = tab_old
  · rw [heq, tab_withParts_old]
    exact hold
  · by_cases heq' : t = w.tabs_used
    · rw [heq', tab_withParts_new htab]
      exact hnew
    · rw [tab_withParts_of_lt (by omega) heq]
      exact hother t (by omega) heq

end Parts

section Split

variable {s : (Nat → Nat) × Bool} {old new : ShfTab}

theorem Switched.tight_withParts
    (hs : Switched w.tabs tab_old w.tabs_used (List.range z.tabs) s) (htight : w.Tight z) {a b : Nat}
    (ha : a < z.tabs) (hb : b < z.tabs) (hab : a ≠ b) (hta : w.tabs a = tab_old)
    (htb : w.tabs b = tab_old) : (w.withParts s.1 tab_old old new).Tight z := by
  obtain ⟨⟨x, hx, hxt⟩, y, hy, hyt⟩ := hs.exists_both ha hb hab hta htb
  intro t ht
  change t < w.tabs_used + 1 at ht
  by_cases heq : t = tab_old
  · exact ⟨x, hx, heq ▸ hxt⟩
  · by_cases heq' : t = w.tabs_used
    · exact ⟨y, hy, heq' ▸ hyt⟩
    · obtain ⟨tab2, htab2, hleads⟩ := htight t (by omega)
      exact ⟨tab2, htab2, (hs.same tab2 (.inr (by omega))).trans hleads⟩

variable (h : w.Sound l) (htab : tab_old < w.tabs_used)
  (hs : Switched w.tabs tab_old w.tabs_used (List.range z.tabs) s)
  (hitem_old : ∀ slot, old.item slot = ((w.tab tab_old).item slot).filter
    fun e => !decide (s.1 e.tab = w.tabs_used))
  (hitem_new : ∀ slot, new.item slot = ((w.tab tab_old).item slot).filter
    fun e => decide (s.1 e.tab = w.tabs_used))

include h htab hs hitem_old hitem_new

theorem Sound.homed_withParts {t : Nat} {slot : Nat × Nat} {e : ShfItem}
    (ht : t < w.tabs_used + 1)
    (he : ((w.withParts s.1 tab_old old new).tab t).item slot = some e) :
    e.tab < z.tabs ∧ s.1 e.tab = t := by
  revert he
  refine forall_tab_withParts (P := fun t t' => t'.item slot = some e →
    e.tab < z.tabs ∧ s.1 e.tab = t) htab ?_ ?_ ?_ ht
  · intro he
    rw [hitem_old, Option.filter_eq_some_iff] at he
    obtain ⟨hlt, hleads⟩ := h.homed htab he.1
    have hstays : s.1 e.tab ≠ w.tabs_used := by simpa using he.2
    exact ⟨hlt, (hs.split e.tab hleads).resolve_right hstays⟩
  · intro he
    rw [hitem_new, Option.filter_eq_some_iff] at he
    exact ⟨(h.homed htab he.1).1, of_decide_eq_true he.2⟩
  · intro t ht hne he
    obtain ⟨hlt, hleads⟩ := h.homed ht he
    exact ⟨hlt, (hs.same e.tab (.inr (by omega))).trans hleads⟩

/-- An item is found in the tab where its number leads now. -/
theorem Sound.content_withParts (htab2 : tab2 < z.tabs) (slot : Nat × Nat) :
    (w.withParts s.1 tab_old old new).content tab2 slot = w.content tab2 slot := by
  change (((w.withParts s.1 tab_old old new).tab (s.1 tab2)).item slot).filter _ =
    ((w.tab (w.tabs tab2)).item slot).filter _
  by_cases hleads : w.tabs tab2 = tab_old
  · rcases hs.split tab2 hleads with heq | heq
    · rw [heq, tab_withParts_old, hitem_old, hleads, Option.filter_filter]
      congr 1
      funext e
      by_cases he : e.tab = tab2
      · simp [he, heq, htab.ne]
      · simp [he]
    · rw [heq, tab_withParts_new htab, hitem_new, hleads, Option.filter_filter]
      congr 1
      funext e
      by_cases he : e.tab = tab2
      · simp [he, heq]
      · simp [he]
  · rw [hs.same tab2 (.inr hleads), tab_withParts_of_lt (h.redirect htab2) hleads]

/-- The items that go to the new tab are those whose number leads there now. -/
theorem Sound.parted (hused : w.tabs_used < z.tabs) (hold : old.Sound l) (hnew : new.Sound l)
    (htrim_old : old.Trim l) (htrim_new : new.Trim l) :
    Parted l w tab_old (w.withParts s.1 tab_old old new) where
  sound :=
    { tab := forall_tab_withParts (P := fun _ t => t.Sound l) htab hold hnew fun _ ht _ => h.tab ht
      trim := forall_tab_withParts (P := fun _ t => t.Trim l) htab htrim_old htrim_new
        fun _ ht _ => h.trim ht
      used_le := hused
      redirect := by
        intro tab2 htab2
        change s.1 tab2 < w.tabs_used + 1
        have hlt := h.redirect htab2
        by_cases hleads : w.tabs tab2 = tab_old
        · rcases hs.split tab2 hleads with heq | heq
          · omega
          · omega
        · rw [hs.same tab2 (.inr hleads)]
          omega
      homed := fun ht he => h.homed_withParts htab hs hitem_old hitem_new ht he }
  tabs_used := rfl
  content htab2 := h.content_withParts htab hs hitem_old hitem_new htab2
  tight := hs.tight_withParts

end Split

theorem Switched.goesToNew_eq {s : (Nat → Nat) × Bool}
    (hs : Switched w.tabs tab_old w.tabs_used (List.range z.tabs) s) (h : w.Sound l)
    (htab : tab_old < w.tabs_used) (hused : w.tabs_used < z.tabs) (slot : Nat × Nat) (e : ShfItem)
    (he : (w.tab tab_old).item slot = some e) :
    goesToNew z s.1 tab_old w.tabs_used e.tab = .ok (decide (s.1 e.tab = w.tabs_used)) := by
  have hsplit := hs.split e.tab (h.homed htab he).2
  have hlt : s.1 e.tab < z.tabs := by omega
  rw [goesToNew, SHF_ASSERT, if_pos hlt, SHF_ASSERT, if_pos hsplit]
  rfl

/-- Parting a tab fails only when there are no tabs left or no space. -/
theorem ensures_part (henv : env.Within l) (h : w.Sound l) (htab : tab_old < w.tabs_used) :
    Ensures (fun e => NoSpace l env e ∨ e = .tabOverflow ∧ w.tabs_used = z.tabs)
      (Parted l w tab_old) (w.part z env tab_old) := by
  unfold part
  dsimp only
  by_cases hused : w.tabs_used < z.tabs
  · rw [SHF_ASSERT, if_pos hused]
    refine Ensures.bind (P := fun _ => True) (ensures_ok trivial) fun _ _ => ?_
    refine (ensures_switch htab fun tab2 => h.redirect).bind fun s hs => ?_
    refine ((ShfTab.ensures_copyRefs henv (h.tab htab)
      (fun tab2 => decide (s.1 tab2 = w.tabs_used)) (hs.goesToNew_eq h htab hused)).weaken fun _ he =>
        .inl he).bind fun copied hcopied => ?_
    obtain ⟨hold, hnew, hitem_old, hitem_new, hfree⟩ := hcopied
    refine ((ShfTab.ensures_shrink henv hold).weaken fun _ he => .inl he).bind fun old hold' => ?_
    obtain ⟨hold', htrim, hitem'⟩ := hold'
    exact ensures_ok (h.parted htab hs (fun slot => by rw [hitem', hitem_old]) hitem_new hused hold'
      hnew htrim (hnew.trim (by rw [hfree]; omega)))
  · rw [SHF_ASSERT, if_neg hused]
    exact .inr ⟨rfl, le_antisymm h.used_le (Nat.le_of_not_lt hused)⟩

end Part

section Put

variable {spot : Spot} {key : List (BitVec 8)} {val : ShfVal} {rounds : Nat}

/-- The spot lies in the window, and the record keeps to the limits. -/
structure Fits {z : ShfSizes} (l : ShfLimits z) (spot : Spot) (key : List (BitVec 8))
    (val : ShfVal) : Prop where
  tab2 : spot.tab2 < z.tabs
  row : spot.row < z.rows
  needed : 1 + 4 + key.length + 4 + val.val_len ≤ l.record

/-- The item is at a slot that was free, and all others are where they were. -/
structure Placed {z : ShfSizes} (l : ShfLimits z) (spot : Spot) (key : List (BitVec 8))
    (val : ShfVal) (w : ShfWin) (r : Nat × ShfWin) : Prop where
  sound : r.2.Sound l
  tight : r.2.Tight z
  ref_lt : r.1 < z.refs
  free : w.content spot.tab2 (spot.row, r.1) = none
  content_self : r.2.content spot.tab2 (spot.row, r.1) =
    some ⟨spot.tab2, spot.rnd, key, val.content⟩
  content_other : ∀ {tab2}, tab2 < z.tabs → ∀ slot, (tab2, slot) ≠ (spot.tab2, spot.row, r.1) →
    r.2.content tab2 slot = w.content tab2 slot

theorem Placed.of_content {w' : ShfWin} {r : Nat × ShfWin} (h : Placed l spot key val w' r)
    (hfits : Fits l spot key val)
    (hcontent : ∀ {tab2}, tab2 < z.tabs → ∀ slot, w'.content tab2 slot = w.content tab2 slot) :
    Placed l spot key val w r where
  sound := h.sound
  tight := h.tight
  ref_lt := h.ref_lt
  free := by rw [← hcontent hfits.tab2, h.free]
  content_self := h.content_self
  content_other htab2 slot hne := by rw [h.content_other htab2 slot hne, hcontent htab2]

theorem Sound.placed (h : w.Sound l) (htight : w.Tight z) (hfits : Fits l spot key val)
    {ref : Nat} (href : ref < z.refs)
    (hfree : (w.tab (w.tabs spot.tab2)).item (spot.row, ref) = none) {t' : ShfTab}
    (ht' : t'.Sound l) (htrim : t'.Trim l)
    (hitem : t'.item = Function.update (w.tab (w.tabs spot.tab2)).item (spot.row, ref)
      (some ⟨spot.tab2, spot.rnd, key, val.content⟩)) :
    Placed l spot key val w (ref, w.setTab (w.tabs spot.tab2) t') := by
  refine ⟨h.setTab ht' htrim ?_, htight, href, ?_, ?_, ?_⟩
  · intro slot e he
    rw [hitem] at he
    by_cases hslot : slot = (spot.row, ref)
    · rw [hslot, Function.update_self] at he
      cases he
      exact ⟨hfits.tab2, rfl⟩
    · rw [Function.update_of_ne hslot] at he
      exact h.homed (h.redirect hfits.tab2) he
  · rw [content, hfree]
    rfl
  · dsimp only
    rw [content_setTab_of_eq rfl, hitem, Function.update_self]
    simp [Option.filter_some]
  · intro tab2 _ slot hne
    dsimp only
    by_cases hleads : w.tabs tab2 = w.tabs spot.tab2
    · rw [content_setTab_of_eq hleads, hitem, content, hleads]
      by_cases hslot : slot = (spot.row, ref)
      · have htab2 : spot.tab2 ≠ tab2 := by
          rintro rfl
          exact hne (by rw [hslot])
        rw [hslot, Function.update_self, hfree]
        simp [Option.filter_some, htab2]
      · rw [Function.update_of_ne hslot]
    · exact content_setTab_of_ne hleads

/-- The round that finds a free ref. -/
theorem ensures_place (henv : env.Within l) (h : w.Sound l) (htight : w.Tight z)
    (hfits : Fits l spot key val) {ref : Nat} (href : ref < z.refs)
    (hfree : ((w.tab (w.tabs spot.tab2)).ref (spot.row, ref)).pos = 0) :
    Ensures (NoSpace l env) (Placed l spot key val w) (do
      let t := w.tab (w.tabs spot.tab2)
      let pos := t.tab_used
      let t ← t.append env key val
      let t := t.setRef (spot.row, ref) ⟨spot.tab2, spot.rnd, pos⟩
      let t ← if shrinksAfterPut t then t.shrink z env else pure t
      return (ref, w.setTab (w.tabs spot.tab2) t)) := by
  have hsound := h.tab (h.redirect hfits.tab2)
  have hslot : (spot.row, ref) ∈ z.slots := ShfTab.mem_slots.mpr ⟨hfits.row, href⟩
  refine (ShfTab.ensures_append henv hsound (h.trim (h.redirect hfits.tab2)) hfits.needed).bind ?_
  rintro _ ⟨tab_size, hmax, hsize, rfl⟩
  have hitem := hsound.item_place hfree hmax hsize spot.tab2 spot.rnd
  have hplace := hsound.place hfree hslot hmax hsize spot.tab2 spot.rnd hfits.needed
  dsimp only
  generalize ((w.tab (w.tabs spot.tab2)).appended tab_size key val).setRef (spot.row, ref)
    ⟨spot.tab2, spot.rnd, (w.tab (w.tabs spot.tab2)).tab_used⟩ = t at hitem hplace ⊢
  have hnone := ShfTab.item_eq_none_iff.mpr hfree
  by_cases hshrink : shrinksAfterPut t = true
  · rw [if_pos hshrink]
    refine (ShfTab.ensures_shrink henv hplace).bind ?_
    rintro t' ⟨ht', htrim, hitem'⟩
    exact ensures_ok (h.placed htight hfits href hnone ht' htrim (hitem'.trans hitem))
  · rw [if_neg hshrink]
    refine ensures_ok (h.placed htight hfits href hnone hplace (hplace.trim ?_) hitem)
    have hle : ¬ t.tab_data_free > u32 (t.tab_data_used * 20) / 100 := by
      simpa [shrinksAfterPut] using hshrink
    have hcut := u32_le (t.tab_data_used * 20)
    omega

/-- A free place under this number and row, of which a put finds one. -/
theorem ensures_put (henv : env.Within l) (hfits : Fits l spot key val)
    (h : w.Sound l) (htight : w.Tight z)
    (hfree : ∃ ref < z.refs, w.content spot.tab2 (spot.row, ref) = none)
    (hrounds : z.tabs < w.tabs_used + rounds) :
    Ensures (NoSpace l env) (Placed l spot key val w) (put z env spot key val rounds w) := by
  induction rounds generalizing w with
  | zero =>
    have hle := h.used_le
    omega
  | succ rounds ih =>
    unfold put
    dsimp only
    split
    case h_1 ref hfind =>
      have hpos : ((w.tab (w.tabs spot.tab2)).ref (spot.row, ref)).pos = 0 := by
        simpa using List.find?_some hfind
      have href := List.mem_range.mp (List.mem_of_find?_eq_some hfind)
      exact ensures_place henv h htight hfits href hpos
    case h_2 hfind =>
      -- the place is taken by an item with another number that leads to the same tab
      obtain ⟨ref, href, hnone⟩ := hfree
      have hpos : ((w.tab (w.tabs spot.tab2)).ref (spot.row, ref)).pos ≠ 0 := by
        simpa using List.find?_eq_none.mp hfind ref (List.mem_range.mpr href)
      obtain ⟨e, he⟩ := Option.ne_none_iff_exists'.mp (mt ShfTab.item_eq_none_iff.mp hpos)
      obtain ⟨htab2, hleads⟩ := h.homed (h.redirect hfits.tab2) he
      have hne : e.tab ≠ spot.tab2 := by
        intro heq
        rw [content_eq_some_iff.mpr ⟨he, heq⟩] at hnone
        cases hnone
      have hroom := htight.used_lt htab2 hfits.tab2 hne hleads
      have hpart := (ensures_part henv h (h.redirect hfits.tab2)).weaken
        fun x hx => hx.resolve_right fun hx => by omega
      refine hpart.bind fun w' hw' => ?_
      have hused := hw'.tabs_used
      have hnext := ih hw'.sound (hw'.tight htight htab2 hfits.tab2 hne hleads rfl)
        ⟨ref, href, by rw [hw'.content hfits.tab2, hnone]⟩ (by omega)
      exact hnext.imp fun r hr => hr.of_content hfits hw'.content

/-- When all places under this number and row are taken, parting tabs goes on until there are no
tabs left. -/
theorem ensures_put_full (henv : env.Within l) (htab2 : spot.tab2 < z.tabs)
    (h : w.Sound l) (hfull : ∀ ref < z.refs, w.content spot.tab2 (spot.row, ref) ≠ none)
    (hrounds : z.tabs < w.tabs_used + rounds) :
    Ensures (fun e => NoSpace l env e ∨ e = .tabOverflow) (fun _ => False)
      (put z env spot key val rounds w) := by
  induction rounds generalizing w with
  | zero =>
    have hle := h.used_le
    omega
  | succ rounds ih =>
    unfold put
    dsimp only
    split
    case h_1 ref hfind =>
      have hpos : ((w.tab (w.tabs spot.tab2)).ref (spot.row, ref)).pos = 0 := by
        simpa using List.find?_some hfind
      have href := List.mem_range.mp (List.mem_of_find?_eq_some hfind)
      refine absurd ?_ (hfull ref href)
      rw [content, ShfTab.item_eq_none_iff.mpr hpos]
      rfl
    case h_2 hfind =>
      refine ((ensures_part henv h (h.redirect htab2)).weaken fun x hx =>
        hx.imp_right And.left).bind fun w' hw' => ?_
      have hused := hw'.tabs_used
      refine ih hw'.sound (fun ref href => ?_) (by omega)
      rw [hw'.content htab2]
      exact hfull ref href

end Put

section Find

variable {t : ShfTab} {spot : Spot} {key : List (BitVec 8)} {row : Nat}

theorem checkRecord_eq (h : t.Sound l) (hpos : (t.ref slot).pos ≠ 0) :
    checkRecord t (t.ref slot).pos = .ok () := by
  have hinside := (h.inside hpos).2
  have hused := h.used_le
  have hlt := h.used_lt
  unfold recordSize at hinside
  unfold checkRecord
  rw [u32_of_lt (by omega), u32_of_lt (by omega), SHF_ASSERT, if_pos (by omega), SHF_ASSERT,
    if_pos (by omega), SHF_ASSERT, if_pos (by omega)]
  rfl

theorem recordKey_eq_iff (m : Memory) (pos : Nat) (key : List (BitVec 8)) :
    recordKey m pos = key ↔
      recordKeyLen m pos = key.length ∧ load m (u32 (pos + 1 + 4)) key.length = key := by
  constructor
  · rintro rfl
    rw [length_recordKey]
    exact ⟨rfl, rfl⟩
  · rintro ⟨hlen, hload⟩
    rw [recordKey, hlen, hload]

/-- The search finds the first item with the key, and no assertion stops it. -/
theorem findKey_eq (h : t.Sound l) (spot : Spot) (key : List (BitVec 8)) (refs : List Nat) :
    findKey t spot key refs = .ok (refs.find? fun ref => (t.item (spot.row, ref)).any fun e =>
      decide (e.tab = spot.tab2 ∧ e.rnd = spot.rnd ∧ e.key = key)) := by
  induction refs with
  | nil => rfl
  | cons ref refs ih =>
    rw [findKey, List.find?_cons]
    by_cases hpos : (t.ref (spot.row, ref)).pos = 0
    · rw [if_neg (by simp [hpos]), ih, ShfTab.item_eq_none_iff.mpr hpos]
      rfl
    · rw [ShfTab.item_of_pos_ne hpos, Option.any_some]
      by_cases hspot : (t.ref (spot.row, ref)).rnd = spot.rnd ∧
          (t.ref (spot.row, ref)).tab = spot.tab2
      · have hkey := recordKey_eq_iff t.bytes (t.ref (spot.row, ref)).pos key
        rw [if_pos ⟨hpos, hspot⟩, checkRecord_eq h hpos]
        simp only [hspot, hkey, true_and]
        change (if _ ≠ _ then _ else if _ ≠ _ then _ else _) = _
        by_cases hlen : recordKeyLen t.bytes (t.ref (spot.row, ref)).pos = key.length
        · by_cases hload : load t.bytes (u32 ((t.ref (spot.row, ref)).pos + 1 + 4)) key.length = key
          · rw [if_neg (not_not.mpr hlen), if_neg (not_not.mpr hload),
              decide_eq_true ⟨hlen, hload⟩]
            rfl
          · rw [if_neg (not_not.mpr hlen), if_pos hload, ih, decide_eq_false fun hc => hload hc.2]
        · rw [if_pos hlen, ih, decide_eq_false fun hc => hlen hc.1]
      · have hno : ¬ ((t.ref (spot.row, ref)).tab = spot.tab2 ∧
            (t.ref (spot.row, ref)).rnd = spot.rnd ∧
              recordKey t.bytes (t.ref (spot.row, ref)).pos = key) :=
          fun hc => hspot ⟨hc.2.1, hc.1⟩
        rw [if_neg fun hc => hspot hc.2, ih, decide_eq_false hno]

/-- The ref under which a key is found. -/
def foundKey (z : ShfSizes) (w : ShfWin) (spot : Spot) (key : List (BitVec 8)) : Option Nat :=
  (List.range z.refs).find? fun ref => (w.content spot.tab2 (spot.row, ref)).any fun e =>
    decide (e.rnd = spot.rnd ∧ e.key = key)

theorem findKey_eq_foundKey (h : w.Sound l) (htab2 : spot.tab2 < z.tabs)
    (key : List (BitVec 8)) :
    findKey (w.tab (w.tabs spot.tab2)) spot key (List.range z.refs) =
      .ok (w.foundKey z spot key) := by
  rw [findKey_eq (h.tab (h.redirect htab2)), foundKey]
  congr 2
  funext ref
  unfold content
  cases (w.tab (w.tabs spot.tab2)).item (spot.row, ref) with
  | none => rfl
  | some e =>
    by_cases he : e.tab = spot.tab2
    · simp [Option.filter_some, he]
    · simp [Option.filter_some, he]

def foundUid (w : ShfWin) (tab2 row ref : Nat) : Option Nat :=
  if (w.content tab2 (row, ref)).isSome then some ref else none

theorem findUid_eq_foundUid (h : w.Sound l) (htab2 : tab2 < z.tabs) (row ref : Nat) :
    findUid (w.tab (w.tabs tab2)) tab2 row ref = .ok (w.foundUid tab2 row ref) := by
  unfold findUid foundUid content
  dsimp only
  by_cases hpos : ((w.tab (w.tabs tab2)).ref (row, ref)).pos = 0
  · rw [if_neg (by simp [hpos]), ShfTab.item_eq_none_iff.mpr hpos]
    rfl
  · rw [ShfTab.item_of_pos_ne hpos]
    by_cases htab : ((w.tab (w.tabs tab2)).ref (row, ref)).tab = tab2
    · rw [if_pos ⟨hpos, htab⟩, checkRecord_eq (h.tab (h.redirect htab2)) hpos, Option.filter_some,
        if_pos (decide_eq_true htab)]
      rfl
    · rw [if_neg fun hc => htab hc.2, Option.filter_some, if_neg (by simpa using htab)]
      rfl

/-- What a lookup returns and what it leaves. -/
structure Acted {z : ShfSizes} (l : ShfLimits z) (w : ShfWin) (tab2 row : Nat) (what : ShfFind)
    (found : Option Nat) (r : Option (List (BitVec 8)) × ShfWin) : Prop where
  sound : r.2.Sound l
  tight : w.Tight z → r.2.Tight z
  val : r.1 = found.bind fun ref => (w.content tab2 (row, ref)).map ShfItem.val
  content : ∀ {x}, x < z.tabs → ∀ slot, r.2.content x slot =
    if what = .andDelete ∧ x = tab2 ∧ found.map (row, ·) = some slot then none
    else w.content x slot

section Act

variable {ref : Nat} {e : ShfItem} {t' : ShfTab} (h : w.Sound l) (htab2 : tab2 < z.tabs)
  (he : w.content tab2 (row, ref) = some e) (ht' : t'.Sound l) (htrim : t'.Trim l)

include he

theorem result_of_content : some e.val = (some ref).bind fun ref =>
    (w.content tab2 (row, ref)).map ShfItem.val := by
  simp [he]

include h htab2 ht' htrim

theorem Sound.acted_shrink (hitem' : t'.item = (w.tab (w.tabs tab2)).item) :
    Acted l w tab2 row .andCopyVal (some ref) (some e.val, w.setTab (w.tabs tab2) t') where
  sound := by
    refine h.setTab ht' htrim fun slot e he => ?_
    rw [hitem'] at he
    exact h.homed (h.redirect htab2) he
  tight := id
  val := result_of_content he
  content _ slot := by
    rw [content_setTab_of_item hitem']
    simp

theorem Sound.acted_delete
    (hitem' : t'.item = Function.update (w.tab (w.tabs tab2)).item (row, ref) none) :
    Acted l w tab2 row .andDelete (some ref) (some e.val, w.setTab (w.tabs tab2) t') where
  sound := by
    refine h.setTab ht' htrim fun slot e he => ?_
    rw [hitem'] at he
    by_cases hslot : slot = (row, ref)
    · rw [hslot, Function.update_self] at he
      cases he
    · rw [Function.update_of_ne hslot] at he
      exact h.homed (h.redirect htab2) he
  tight := id
  val := result_of_content he
  content := by
    intro x _ slot
    obtain ⟨hitem, hnumber⟩ := content_eq_some_iff.mp he
    have hslots : (some ref).map (row, ·) = some slot ↔ slot = (row, ref) := by
      rw [Option.map_some, Option.some.injEq, eq_comm]
    simp only [hslots, true_and]
    by_cases hleads : w.tabs x = w.tabs tab2
    · rw [content_setTab_of_eq hleads, hitem']
      by_cases hslot : slot = (row, ref)
      · rw [hslot, Function.update_self]
        split_ifs with hx
        · rfl
        · rw [content, hleads, hitem, Option.filter_some, if_neg]
          · rfl
          · simpa [hnumber, eq_comm] using hx
      · rw [Function.update_of_ne hslot, if_neg fun hc => hslot hc.2, content, hleads]
    · rw [content_setTab_of_ne hleads, if_neg fun hc => hleads (by rw [hc.1])]

end Act

theorem ensures_act (henv : env.Within l) (h : w.Sound l) (htab2 : tab2 < z.tabs)
    {found : Option Nat}
    (hfound : ∀ ref, found = some ref → w.content tab2 (row, ref) ≠ none) (what : ShfFind) :
    Ensures (NoSpace l env) (Acted l w tab2 row what found) (w.act z env tab2 row what found) := by
  cases found with
  | none =>
    exact ensures_ok ⟨h, id, rfl, fun _ _ => by simp⟩
  | some ref =>
    obtain ⟨e, he⟩ := Option.ne_none_iff_exists'.mp (hfound ref rfl)
    obtain ⟨hitem, -⟩ := content_eq_some_iff.mp he
    have hlt := h.redirect htab2
    have hpos : ((w.tab (w.tabs tab2)).ref (row, ref)).pos ≠ 0 := by
      intro hzero
      rw [ShfTab.item_eq_none_iff.mpr hzero] at hitem
      cases hitem
    have hval : recordVal (w.tab (w.tabs tab2)).bytes ((w.tab (w.tabs tab2)).ref (row, ref)).pos =
        e.val := by
      rw [ShfTab.item_of_pos_ne hpos] at hitem
      rw [← Option.some.inj hitem]
    unfold act
    dsimp only
    rw [hval]
    cases what with
    | keyOrUid =>
      exact ensures_ok ⟨h, id, result_of_content he, fun _ _ => by simp⟩
    | andCopyVal =>
      dsimp only
      by_cases hshrink : shrinksAfterGet (w.tab (w.tabs tab2)) = true
      · rw [if_pos hshrink]
        refine (ShfTab.ensures_shrink henv (h.tab hlt)).bind ?_
        rintro t' ⟨ht', htrim, hitem'⟩
        exact ensures_ok (h.acted_shrink htab2 he ht' htrim hitem')
      · rw [if_neg hshrink]
        exact ensures_ok ⟨h, id, result_of_content he, fun _ _ => by simp⟩
    | andDelete =>
      exact ensures_ok (h.acted_delete htab2 he ((h.tab hlt).markAsDeleted hpos rfl rfl)
        (h.trim hlt) ((h.tab hlt).item_markAsDeleted hpos _ _))

theorem content_of_foundKey {ref : Nat} (h : w.foundKey z spot key = some ref) :
    w.content spot.tab2 (spot.row, ref) ≠ none := by
  have hany := List.find?_some h
  intro hnone
  simp [hnone] at hany

theorem content_of_foundUid {ref ref' : Nat} (h : w.foundUid tab2 row ref = some ref') :
    w.content tab2 (row, ref') ≠ none := by
  unfold foundUid at h
  split_ifs at h with hsome
  cases h
  intro hnone
  simp [hnone] at hsome

theorem ensures_findByKey (henv : env.Within l) (h : w.Sound l)
    (htab2 : spot.tab2 < z.tabs) (key : List (BitVec 8)) (what : ShfFind) :
    Ensures (NoSpace l env) (Acted l w spot.tab2 spot.row what (w.foundKey z spot key))
      (w.findByKey z env spot key what) := by
  unfold findByKey
  rw [findKey_eq_foundKey h htab2 key]
  exact ensures_act henv h htab2 (fun ref => content_of_foundKey) what

theorem ensures_findByUid (henv : env.Within l) (h : w.Sound l)
    (htab2 : tab2 < z.tabs) (row ref : Nat) (what : ShfFind) :
    Ensures (NoSpace l env) (Acted l w tab2 row what (w.foundUid tab2 row ref))
      (w.findByUid z env tab2 row ref what) := by
  unfold findByUid
  rw [findUid_eq_foundUid h htab2 row ref]
  exact ensures_act henv h htab2 (fun ref' => content_of_foundUid) what

end Find

end ShfWin

end AnalysePcap
