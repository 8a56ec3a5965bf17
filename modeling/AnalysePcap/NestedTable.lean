import Mathlib.Data.List.AList
import Mathlib.Logic.Function.Iterate

/-! Maps of maps with the operations of a C++ map: indexing creates what it
does not find, and entries may be erased while the map is being iterated. The
order of the entries stands for the order in which the map enumerates them. -/

abbrev NestedTable (κ η τ : Type*) := AList fun _ : κ => AList fun _ : η => τ

namespace NestedTable

variable {κ η τ σ : Type*}

section Sweep

/-- The inner loop of a sweep: `p` says which entries are erased, and `f` is
done once for each entry erased. -/
def sweepRow (p : τ → Bool) (f : σ → σ) :
    List (Sigma fun _ : η => τ) → σ → List (Sigma fun _ : η => τ) × σ
  | [], acc => ([], acc)
  | e :: es, acc =>
    if p e.2 then
      sweepRow p f es (f acc)
    else
      let rest := sweepRow p f es acc
      (e :: rest.1, rest.2)

theorem sweepRow_eq (p : τ → Bool) (f : σ → σ) (es : List (Sigma fun _ : η => τ)) (acc : σ) :
    sweepRow p f es acc =
      (es.filter fun e => !p e.2, f^[es.countP fun e => p e.2] acc) := by
  induction es generalizing acc with
  | nil => rfl
  | cons e es ih =>
    by_cases he : p e.2 = true <;> simp [sweepRow, ih, he]

theorem sweepRow_nodupKeys (p : τ → Bool) (f : σ → σ) (r : AList fun _ : η => τ) (acc : σ) :
    (sweepRow p f r.entries acc).1.NodupKeys := by
  rw [sweepRow_eq]
  exact r.nodupKeys.sublist List.filter_sublist

def sweepRows (p : τ → Bool) (f : κ → σ → σ) :
    List (Sigma fun _ : κ => AList fun _ : η => τ) → σ →
      List (Sigma fun _ : κ => AList fun _ : η => τ) × σ
  | [], acc => ([], acc)
  | ⟨k, r⟩ :: rs, acc =>
    let inner := sweepRow p (f k) r.entries acc
    let rest := sweepRows p f rs inner.2
    (⟨k, ⟨inner.1, sweepRow_nodupKeys p (f k) r acc⟩⟩ :: rest.1, rest.2)

def keep (p : τ → Bool) (r : AList fun _ : η => τ) : AList fun _ : η => τ :=
  ⟨r.entries.filter fun e => !p e.2, r.nodupKeys.sublist List.filter_sublist⟩

def selected (p : τ → Bool) (r : AList fun _ : η => τ) : List η :=
  (r.entries.filter fun e => p e.2).map Sigma.fst

theorem selected_nodup (p : τ → Bool) (r : AList fun _ : η => τ) : (selected p r).Nodup :=
  r.nodupKeys.sublist List.filter_sublist

theorem sweepRows_cons (p : τ → Bool) (f : κ → σ → σ) (k : κ) (r : AList fun _ : η => τ)
    (rs : List (Sigma fun _ : κ => AList fun _ : η => τ)) (acc : σ) :
    sweepRows p f (⟨k, r⟩ :: rs) acc =
      (⟨k, keep p r⟩ :: (sweepRows p f rs ((f k)^[(selected p r).length] acc)).1,
        (sweepRows p f rs ((f k)^[(selected p r).length] acc)).2) := by
  have hr : (⟨(sweepRow p (f k) r.entries acc).1, sweepRow_nodupKeys p (f k) r acc⟩ :
      AList fun _ : η => τ) = keep p r := by
    apply AList.ext
    simp [keep, sweepRow_eq]
  have hacc : (sweepRow p (f k) r.entries acc).2 = (f k)^[(selected p r).length] acc := by
    simp [sweepRow_eq, selected, List.countP_eq_length_filter]
  simp only [sweepRows, hr, hacc]

theorem sweepRows_fst (p : τ → Bool) (f : κ → σ → σ)
    (rs : List (Sigma fun _ : κ => AList fun _ : η => τ)) (acc : σ) :
    (sweepRows p f rs acc).1 = rs.map fun e => ⟨e.1, keep p e.2⟩ := by
  induction rs generalizing acc with
  | nil => rfl
  | cons e rs ih =>
    obtain ⟨k, r⟩ := e
    simp only [sweepRows_cons, ih, List.map_cons]

theorem sweepRows_nodupKeys (p : τ → Bool) (f : κ → σ → σ) (t : NestedTable κ η τ) (acc : σ) :
    (sweepRows p f t.entries acc).1.NodupKeys := by
  rw [sweepRows_fst]
  exact t.nodupKeys.map₂ (fun _ r => keep p r)

def sweep (p : τ → Bool) (f : κ → σ → σ) (t : NestedTable κ η τ) (acc : σ) :
    NestedTable κ η τ × σ :=
  (⟨(sweepRows p f t.entries acc).1, sweepRows_nodupKeys p f t acc⟩,
    (sweepRows p f t.entries acc).2)

theorem mem_sweep {p : τ → Bool} {f : κ → σ → σ} {t : NestedTable κ η τ} {acc : σ} {k : κ} :
    k ∈ (sweep p f t acc).1 ↔ k ∈ t := by
  show k ∈ (sweepRows p f t.entries acc).1.keys ↔ k ∈ t.entries.keys
  rw [sweepRows_fst]
  simp [List.keys]

theorem sweepRows_invariant {p : τ → Bool} {f : κ → σ → σ} {P : σ → Prop}
    (rs : List (Sigma fun _ : κ => AList fun _ : η => τ))
    (hf : ∀ k ∈ rs.keys, ∀ acc, P acc → P (f k acc)) {acc : σ} (hacc : P acc) :
    P (sweepRows p f rs acc).2 := by
  induction rs generalizing acc with
  | nil => exact hacc
  | cons e rs ih =>
    obtain ⟨k, r⟩ := e
    rw [sweepRows_cons]
    refine ih (fun k' hk => hf k' (by simp [hk])) ?_
    exact Function.Iterate.rec P hacc (hf k (by simp)) _

theorem sweep_invariant {p : τ → Bool} {f : κ → σ → σ} {P : σ → Prop} {t : NestedTable κ η τ}
    (hf : ∀ k ∈ t, ∀ acc, P acc → P (f k acc)) {acc : σ} (hacc : P acc) :
    P (sweep p f t acc).2 :=
  sweepRows_invariant t.entries hf hacc

end Sweep

variable [DecidableEq κ]

def row (t : NestedTable κ η τ) (k : κ) : AList fun _ : η => τ := (t.lookup k).getD ∅

theorem row_insert (t : NestedTable κ η τ) (k k' : κ) (r : AList fun _ : η => τ) :
    row (AList.insert k r t) k' = if k' = k then r else t.row k' := by
  by_cases hk : k' = k
  · subst hk
    simp [row]
  · simp [row, AList.lookup_insert_ne hk, hk]

theorem row_sweep (p : τ → Bool) (f : κ → σ → σ) (t : NestedTable κ η τ) (acc : σ) (k : κ) :
    (sweep p f t acc).1.row k = keep p (t.row k) := by
  have hl : (sweep p f t acc).1.lookup k = (t.lookup k).map (keep p) := by
    simp only [sweep, AList.lookup, sweepRows_fst]
    exact List.dlookup_map₂ (f := fun _ r => keep p r) k
  rw [row, row, hl]
  cases t.lookup k <;> rfl

/-- A measure that grows by one with each entry erased at `k` and ignores the
other keys grows by the number of entries erased at `k`. -/
theorem sweepRows_measure {p : τ → Bool} {f : κ → σ → σ} {m : σ → Nat} {k : κ}
    (hsame : ∀ acc, m (f k acc) = m acc + 1)
    (rs : List (Sigma fun _ : κ => AList fun _ : η => τ)) (hnd : rs.NodupKeys)
    (hother : ∀ k' ∈ rs.keys, k' ≠ k → ∀ acc, m (f k' acc) = m acc) (acc : σ) :
    m (sweepRows p f rs acc).2 =
      m acc + (selected p ((rs.dlookup k).getD ∅)).length := by
  have hiter : ∀ n acc, m ((f k)^[n] acc) = m acc + n := by
    intro n
    induction n with
    | zero => intro acc; rfl
    | succ n ih => intro acc; rw [Function.iterate_succ_apply, ih, hsame]; omega
  induction rs generalizing acc with
  | nil => rfl
  | cons e rs ih =>
    obtain ⟨k', r⟩ := e
    have hk := List.nodupKeys_cons.mp hnd
    rw [sweepRows_cons, ih hk.2 (fun k'' h => hother k'' (by simp [h]))]
    by_cases he : k = k'
    · subst he
      have hno : rs.dlookup k = none := List.dlookup_eq_none.mpr hk.1
      rw [hiter, hno, List.dlookup_cons_eq]
      rfl
    · have hskip : m ((f k')^[(selected p r).length] acc) = m acc :=
        Function.Iterate.rec (fun a => m a = m acc) rfl
          (fun a ha => (hother k' (by simp) (Ne.symm he) a).trans ha) _
      rw [hskip, List.dlookup_cons_ne _ _ he]

theorem sweep_measure {p : τ → Bool} {f : κ → σ → σ} {m : σ → Nat} {k : κ}
    (hsame : ∀ acc, m (f k acc) = m acc + 1) {t : NestedTable κ η τ}
    (hother : ∀ k' ∈ t, k' ≠ k → ∀ acc, m (f k' acc) = m acc) (acc : σ) :
    m (sweep p f t acc).2 = m acc + (selected p (t.row k)).length :=
  sweepRows_measure hsame t.entries t.nodupKeys hother acc

variable [DecidableEq η]

def get? (t : NestedTable κ η τ) (k : κ) (h : η) : Option τ := (t.row k).lookup h

def set (t : NestedTable κ η τ) (k : κ) (h : η) (v : τ) : NestedTable κ η τ :=
  AList.insert k ((t.row k).insert h v) t

/-- Reading `t[k][h]`: a missing entry is first created with the value `d`. -/
def fetch (t : NestedTable κ η τ) (k : κ) (h : η) (d : τ) : τ × NestedTable κ η τ :=
  match t.get? k h with
  | some v => (v, t)
  | none => (d, t.set k h d)

def remove (t : NestedTable κ η τ) (k : κ) (h : η) : NestedTable κ η τ :=
  AList.insert k ((t.row k).erase h) t

@[simp] theorem get?_empty (k : κ) (h : η) : get? (∅ : NestedTable κ η τ) k h = none := rfl

theorem get?_set (t : NestedTable κ η τ) (k k' : κ) (h h' : η) (v : τ) :
    (t.set k h v).get? k' h' = if k' = k ∧ h' = h then some v else t.get? k' h' := by
  unfold get? set
  rw [row_insert]
  by_cases hk : k' = k
  · subst hk
    by_cases hh : h' = h
    · subst hh
      simp
    · simp [hh, AList.lookup_insert_ne hh]
  · simp [hk]

theorem get?_remove (t : NestedTable κ η τ) (k k' : κ) (h h' : η) :
    (t.remove k h).get? k' h' = if k' = k ∧ h' = h then none else t.get? k' h' := by
  unfold get? remove
  rw [row_insert]
  by_cases hk : k' = k
  · subst hk
    by_cases hh : h' = h
    · subst hh
      simp
    · simp [hh, AList.lookup_erase_ne hh]
  · simp [hk]

theorem fetch_of_some {t : NestedTable κ η τ} {k : κ} {h : η} {v : τ} (hv : t.get? k h = some v)
    (d : τ) : t.fetch k h d = (v, t) := by
  simp [fetch, hv]

theorem fetch_of_none {t : NestedTable κ η τ} {k : κ} {h : η} (hv : t.get? k h = none)
    (d : τ) : t.fetch k h d = (d, t.set k h d) := by
  simp [fetch, hv]

theorem get?_fetch (t : NestedTable κ η τ) (k k' : κ) (h h' : η) (d : τ) :
    (t.fetch k h d).2.get? k' h' =
      if k' = k ∧ h' = h then some ((t.get? k h).getD d) else t.get? k' h' := by
  cases hv : t.get? k h with
  | none => rw [fetch_of_none hv, get?_set]; rfl
  | some v =>
    rw [fetch_of_some hv]
    split_ifs with he
    · obtain ⟨rfl, rfl⟩ := he
      exact hv
    · rfl

theorem get?_sweep (p : τ → Bool) (f : κ → σ → σ) (t : NestedTable κ η τ) (acc : σ) (k : κ)
    (h : η) : (sweep p f t acc).1.get? k h = (t.get? k h).filter fun v => !p v := by
  rw [get?, get?, row_sweep]
  ext v
  simp only [← Option.mem_def, AList.mem_lookup_iff, keep, List.mem_filter, Option.mem_filter_iff]

theorem mem_selected {p : τ → Bool} {t : NestedTable κ η τ} {k : κ} {h : η} :
    h ∈ selected p (t.row k) ↔ ∃ v, t.get? k h = some v ∧ p v = true := by
  simp only [selected, List.mem_map, List.mem_filter, get?, ← Option.mem_def, AList.mem_lookup_iff]
  constructor
  · rintro ⟨⟨h', v⟩, hv, rfl⟩
    exact ⟨v, hv⟩
  · rintro ⟨v, hv⟩
    exact ⟨⟨h, v⟩, hv, rfl⟩

theorem mem_row_iff {t : NestedTable κ η τ} {k : κ} {h : η} :
    h ∈ t.row k ↔ ∃ v, t.get? k h = some v := by
  rw [← AList.lookup_isSome]
  exact Option.isSome_iff_exists

theorem mem_set {t : NestedTable κ η τ} {k k' : κ} {h : η} {v : τ} :
    k' ∈ t.set k h v ↔ k' = k ∨ k' ∈ t := AList.mem_insert t

theorem mem_of_get? {t : NestedTable κ η τ} {k : κ} {h : η} {v : τ} (hv : t.get? k h = some v) :
    k ∈ t := by
  by_contra hk
  have hrow : t.lookup k = none := AList.lookup_eq_none.mpr hk
  rw [get?, row, hrow] at hv
  cases hv

theorem mem_fetch_iff {t : NestedTable κ η τ} {k k' : κ} {h : η} {d : τ} :
    k' ∈ (t.fetch k h d).2 ↔ k' = k ∨ k' ∈ t := by
  cases hv : t.get? k h with
  | none =>
    rw [fetch_of_none hv]
    exact mem_set
  | some v =>
    rw [fetch_of_some hv]
    have hmem : k ∈ t := mem_of_get? hv
    exact (or_iff_right_of_imp fun he => he ▸ hmem).symm

theorem mem_remove {t : NestedTable κ η τ} {k k' : κ} {h : η} :
    k' ∈ t.remove k h ↔ k' = k ∨ k' ∈ t := AList.mem_insert t

/-- All the values, in the order in which the map enumerates them. -/
def values (t : NestedTable κ η τ) : List τ := t.entries.flatMap fun e => e.2.entries.map Sigma.snd

theorem get?_of_mem {t : NestedTable κ η τ} {k : κ} {r : AList fun _ : η => τ} {h : η} {v : τ}
    (hr : ⟨k, r⟩ ∈ t.entries) (hv : ⟨h, v⟩ ∈ r.entries) : t.get? k h = some v := by
  have hrow : t.lookup k = some r := AList.mem_lookup_iff.mpr hr
  rw [get?, row, hrow]
  exact AList.mem_lookup_iff.mpr hv

theorem mem_values {t : NestedTable κ η τ} {v : τ} :
    v ∈ t.values ↔ ∃ k h, t.get? k h = some v := by
  simp only [values, List.mem_flatMap, List.mem_map]
  constructor
  · rintro ⟨⟨k, r⟩, hr, ⟨h, v'⟩, hv, rfl⟩
    exact ⟨k, h, get?_of_mem hr hv⟩
  · rintro ⟨k, h, hv⟩
    cases hrow : t.lookup k with
    | none => simp [get?, row, hrow] at hv
    | some r =>
      have hr : (⟨k, r⟩ : Sigma fun _ : κ => AList fun _ : η => τ) ∈ t.entries :=
        AList.mem_lookup_iff.mp hrow
      rw [get?, row, hrow] at hv
      exact ⟨⟨k, r⟩, hr, ⟨h, v⟩, AList.mem_lookup_iff.mp hv, rfl⟩

theorem values_nodup {t : NestedTable κ η τ}
    (hinj : ∀ {k k' h h' v}, t.get? k h = some v → t.get? k' h' = some v → k = k' ∧ h = h') :
    t.values.Nodup := by
  rw [values, List.nodup_flatMap]
  constructor
  · rintro ⟨k, r⟩ hr
    refine (List.nodup_map_iff_inj_on r.nodupKeys.nodup).mpr ?_
    rintro ⟨h, v⟩ hv ⟨h', v'⟩ hv' rfl
    have hkey := hinj (get?_of_mem hr hv) (get?_of_mem hr hv')
    rw [hkey.2]
  · refine (List.nodupKeys_iff_pairwise.mp t.nodupKeys).imp_of_mem ?_
    rintro ⟨k, r⟩ ⟨k', r'⟩ hr hr' hne v hv hv'
    obtain ⟨⟨h, v⟩, hmem, rfl⟩ := List.mem_map.mp hv
    obtain ⟨⟨h', v'⟩, hmem', hval⟩ := List.mem_map.mp hv'
    obtain rfl : v' = v := hval
    exact hne (hinj (get?_of_mem hr hmem) (get?_of_mem hr' hmem')).1

end NestedTable
