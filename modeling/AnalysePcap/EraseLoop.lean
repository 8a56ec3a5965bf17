import Mathlib.Algebra.GroupWithZero.Nat
import Mathlib.Algebra.Order.Ring.Nat
import Mathlib.Algebra.Order.BigOperators.Group.List
import AnalysePcap.NestedTable

/-! Loops that erase from a map while an iterator runs over it. An iterator is the key of
the entry it points to, or `none` at the end of the map, and to use the iterator of an entry
that is no longer there has no result. Erasing keeps the order of the other entries. -/

namespace NestedTable

variable {κ η τ σ : Type*}

section Iterator

variable {β : κ → Type*}

def begin (m : AList β) : Option κ := m.keys.head?

theorem notMem_keys_of_split {m : AList β} {pre rest : List (Sigma β)} {e : Sigma β}
    (hm : m.entries = pre ++ e :: rest) : e.1 ∉ pre.keys := by
  intro hk
  have hnodup : (pre ++ e :: rest).keys.Nodup := hm ▸ m.keys_nodup
  rw [List.keys, List.map_append, List.map_cons] at hnodup
  exact (List.nodup_append.mp hnodup).2.2 e.1 hk e.1 List.mem_cons_self rfl

variable [DecidableEq κ]

def advance (m : AList β) (k : κ) : Option κ := (m.keys.dropWhile (· ≠ k)).tail.head?

theorem advance_of_split {m : AList β} {pre rest : List (Sigma β)} {e : Sigma β}
    (hm : m.entries = pre ++ e :: rest) : advance m e.1 = rest.keys.head? := by
  have hkeys : m.keys = pre.keys ++ e.1 :: rest.keys := by
    simp [AList.keys, hm, List.keys]
  have hpre : ∀ k ∈ pre.keys, decide (k ≠ e.1) = true := by
    intro k hk
    have hne : k ≠ e.1 := fun he => notMem_keys_of_split hm (he ▸ hk)
    simpa using hne
  rw [advance, hkeys, List.dropWhile_append_of_pos hpre]
  simp

theorem lookup_of_split {m : AList β} {pre rest : List (Sigma β)} {e : Sigma β}
    (hm : m.entries = pre ++ e :: rest) : m.lookup e.1 = some e.2 := by
  apply AList.mem_lookup_iff.mpr
  rw [hm]
  simp

theorem entries_erase_of_split {m : AList β} {pre rest : List (Sigma β)} {e : Sigma β}
    (hm : m.entries = pre ++ e :: rest) : (m.erase e.1).entries = pre ++ rest := by
  show m.entries.kerase e.1 = pre ++ rest
  rw [hm, List.kerase_append_right (notMem_keys_of_split hm), List.kerase_cons_eq rfl]

theorem entries_replace_of_split {m : AList β} {pre rest : List (Sigma β)} {e : Sigma β}
    (hm : m.entries = pre ++ e :: rest) (v : β e.1) :
    (m.replace e.1 v).entries = pre ++ ⟨e.1, v⟩ :: rest := by
  have hnot := notMem_keys_of_split hm
  show m.entries.kreplace e.1 v = pre ++ ⟨e.1, v⟩ :: rest
  rw [hm]
  clear hm
  induction pre with
  | nil => exact List.lookmap_cons_some _ rest (if_pos rfl)
  | cons d pre ih =>
    have hd : e.1 ≠ d.1 := fun he => hnot (by simp [List.keys, he])
    have hpre : e.1 ∉ pre.keys := fun hk => hnot (List.mem_cons_of_mem d.1 hk)
    rw [List.cons_append, List.cons_append, ← ih hpre]
    exact List.lookmap_cons_none _ _ (if_neg hd)

end Iterator

variable [DecidableEq κ] [DecidableEq η]

/-- The inner loop. The iterator is advanced before the entry it pointed to is erased. The
last component lists the entries in the order in which they are visited. -/
def eraseLoop (p : τ → Bool) (f : σ → σ) :
    Nat → Option η → (AList fun _ : η => τ) → σ → Option ((AList fun _ : η => τ) × σ × List η)
  | _, none, m, acc => some (m, acc, [])
  | 0, some _, _, _ => none
  | fuel + 1, some h, m, acc =>
    match m.lookup h with
    | none => none
    | some v =>
      let it := advance m h
      let rest := if p v then eraseLoop p f fuel it (m.erase h) (f acc)
        else eraseLoop p f fuel it m acc
      rest.map fun r => (r.1, r.2.1, h :: r.2.2)

/-- The outer loop, which runs the inner one over the map of each key in place. -/
def eraseLoops (p : τ → Bool) (f : κ → σ → σ) (rounds : Nat) :
    Nat → Option κ → NestedTable κ η τ → σ → Option (NestedTable κ η τ × σ × List (κ × η))
  | _, none, t, acc => some (t, acc, [])
  | 0, some _, _, _ => none
  | fuel + 1, some k, t, acc =>
    match t.lookup k with
    | none => none
    | some m =>
      match eraseLoop p (f k) rounds (begin m) m acc with
      | none => none
      | some (m', acc', visited) =>
        let t' := t.replace k m'
        (eraseLoops p f rounds fuel (advance t' k) t' acc').map fun r =>
          (r.1, r.2.1, visited.map (Prod.mk k) ++ r.2.2)

-- The induction is on the entries that the iterator has not passed.
theorem eraseLoop_of_split (p : τ → Bool) (f : σ → σ) {fuel : Nat}
    {m : AList fun _ : η => τ} (pre : List (Sigma fun _ : η => τ))
    {rest : List (Sigma fun _ : η => τ)} (hm : m.entries = pre ++ rest)
    (hfuel : rest.length ≤ fuel) (acc : σ) :
    ∃ m', eraseLoop p f fuel rest.keys.head? m acc =
        some (m', (sweepRow p f rest acc).2, rest.keys) ∧
      m'.entries = pre ++ (sweepRow p f rest acc).1 := by
  induction rest generalizing fuel m pre acc with
  | nil => exact ⟨m, by simp [eraseLoop, sweepRow], by simpa [sweepRow] using hm⟩
  | cons e rest ih =>
    obtain ⟨n, rfl⟩ : ∃ n, fuel = n + 1 := ⟨fuel - 1, by simp at hfuel; omega⟩
    have hrest : rest.length ≤ n := by simpa using hfuel
    have hhead : (List.keys (e :: rest)).head? = some e.1 := rfl
    rw [hhead, eraseLoop, lookup_of_split hm, advance_of_split hm]
    by_cases hp : p e.2 = true
    · obtain ⟨m', hloop, hentries⟩ := ih pre (entries_erase_of_split hm) hrest (f acc)
      exact ⟨m', by simp [hp, hloop, sweepRow], by simpa [hp, sweepRow] using hentries⟩
    · obtain ⟨m', hloop, hentries⟩ := ih (pre ++ [e]) (by simpa using hm) hrest acc
      exact ⟨m', by simp [hp, hloop, sweepRow], by simpa [hp, sweepRow] using hentries⟩

theorem eraseLoop_begin (p : τ → Bool) (f : σ → σ) {fuel : Nat} {m : AList fun _ : η => τ}
    (hfuel : m.entries.length ≤ fuel) (acc : σ) :
    eraseLoop p f fuel (begin m) m acc =
      some (⟨(sweepRow p f m.entries acc).1, sweepRow_nodupKeys p f m acc⟩,
        (sweepRow p f m.entries acc).2, m.keys) := by
  obtain ⟨m', hloop, hentries⟩ := eraseLoop_of_split p f [] rfl hfuel acc
  have hm' : m' = ⟨(sweepRow p f m.entries acc).1, sweepRow_nodupKeys p f m acc⟩ :=
    AList.ext hentries
  exact hm' ▸ hloop

/-- The keys of all entries, in the order in which the map enumerates them. -/
def places (rows : List (Sigma fun _ : κ => AList fun _ : η => τ)) : List (κ × η) :=
  rows.flatMap fun e => e.2.keys.map (Prod.mk e.1)

theorem eraseLoops_of_split (p : τ → Bool) (f : κ → σ → σ) {rounds fuel : Nat}
    {t : NestedTable κ η τ} (pre : List (Sigma fun _ : κ => AList fun _ : η => τ))
    {rest : List (Sigma fun _ : κ => AList fun _ : η => τ)}
    (ht : t.entries = pre ++ rest) (hrounds : ∀ e ∈ rest, e.2.entries.length ≤ rounds)
    (hfuel : rest.length ≤ fuel) (acc : σ) :
    ∃ t', eraseLoops p f rounds fuel rest.keys.head? t acc =
        some (t', (sweepRows p f rest acc).2, places rest) ∧
      t'.entries = pre ++ (sweepRows p f rest acc).1 := by
  induction rest generalizing fuel t pre acc with
  | nil => exact ⟨t, by simp [eraseLoops, sweepRows, places], by simpa [sweepRows] using ht⟩
  | cons e rest ih =>
    obtain ⟨k, m⟩ := e
    obtain ⟨n, rfl⟩ : ∃ n, fuel = n + 1 := ⟨fuel - 1, by simp at hfuel; omega⟩
    have hrest : rest.length ≤ n := by simpa using hfuel
    have hhead : (List.keys (⟨k, m⟩ :: rest)).head? = some k := rfl
    have hinner := eraseLoop_begin p (f k) (hrounds _ List.mem_cons_self) acc
    have hreplace := entries_replace_of_split ht
      ⟨(sweepRow p (f k) m.entries acc).1, sweepRow_nodupKeys p (f k) m acc⟩
    obtain ⟨t', hloop, hentries⟩ := ih
      (pre ++ [⟨k, ⟨(sweepRow p (f k) m.entries acc).1, _⟩⟩]) (by simpa using hreplace)
      (fun e he => hrounds e (List.mem_cons_of_mem _ he)) hrest (sweepRow p (f k) m.entries acc).2
    refine ⟨t', ?_, by simpa [sweepRows] using hentries⟩
    have hlookup : t.lookup k = some m := lookup_of_split ht
    rw [hhead, eraseLoops, hlookup]
    dsimp only at hinner ⊢
    rw [hinner]
    dsimp only
    rw [advance_of_split hreplace, hloop]
    rfl

def enough (t : NestedTable κ η τ) : Nat :=
  t.entries.length + (t.entries.map fun e => e.2.entries.length).sum

omit [DecidableEq κ] [DecidableEq η] in
theorem length_le_enough {t : NestedTable κ η τ} {e : Sigma fun _ : κ => AList fun _ : η => τ}
    (he : e ∈ t.entries) : e.2.entries.length ≤ enough t := by
  have hle := List.single_le_sum (l := t.entries.map fun e => e.2.entries.length)
    (fun _ _ => Nat.zero_le _) e.2.entries.length (List.mem_map_of_mem he)
  unfold enough
  omega

/-- The loops end, and they compute the sweep that recurses over the entries. -/
theorem eraseLoops_eq_sweep (p : τ → Bool) (f : κ → σ → σ) {rounds : Nat} (t : NestedTable κ η τ)
    (hrounds : enough t ≤ rounds) (acc : σ) :
    eraseLoops p f rounds rounds (begin t) t acc =
      some ((sweep p f t acc).1, (sweep p f t acc).2, places t.entries) := by
  have hrows : t.entries.length ≤ rounds := (Nat.le_add_right _ _).trans hrounds
  obtain ⟨t', hloop, hentries⟩ := eraseLoops_of_split p f [] rfl
    (fun e he => (length_le_enough he).trans hrounds) hrows acc
  have ht' : t' = (sweep p f t acc).1 := AList.ext hentries
  exact ht' ▸ hloop

theorem mem_places {t : NestedTable κ η τ} {k : κ} {h : η} :
    (k, h) ∈ places t.entries ↔ ∃ v, t.get? k h = some v := by
  simp only [places, List.mem_flatMap, List.mem_map, Prod.mk.injEq]
  constructor
  · rintro ⟨⟨k', m⟩, hm, h', hh, rfl, rfl⟩
    obtain ⟨v, hv⟩ := List.mem_keys.mp hh
    exact ⟨v, get?_of_mem hm hv⟩
  · rintro ⟨v, hv⟩
    cases hrow : t.lookup k with
    | none => simp [get?, row, hrow] at hv
    | some m =>
      rw [get?, row, hrow] at hv
      exact ⟨⟨k, m⟩, AList.mem_lookup_iff.mp hrow, h,
        List.mem_keys.mpr ⟨v, AList.mem_lookup_iff.mp hv⟩, rfl, rfl⟩

omit [DecidableEq κ] [DecidableEq η] in
theorem places_nodup (t : NestedTable κ η τ) : (places t.entries).Nodup := by
  rw [places, List.nodup_flatMap]
  constructor
  · rintro ⟨k, m⟩ _
    exact m.keys_nodup.map fun h h' he => (Prod.mk.inj he).2
  · refine (List.nodupKeys_iff_pairwise.mp t.nodupKeys).imp ?_
    rintro ⟨k, m⟩ ⟨k', m'⟩ hne e he he'
    obtain ⟨h, _, rfl⟩ := List.mem_map.mp he
    obtain ⟨h', _, hpair⟩ := List.mem_map.mp he'
    exact hne (Prod.mk.inj hpair).1.symm

/-- The same map, enumerated in any order. -/
structure SameContent (t t' : NestedTable κ η τ) : Prop where
  mem : ∀ k, k ∈ t ↔ k ∈ t'
  get : ∀ k h, t.get? k h = t'.get? k h

theorem SameContent.sweep {t t' : NestedTable κ η τ} (h : SameContent t t') (p : τ → Bool)
    (f : κ → σ → σ) (acc acc' : σ) : SameContent (sweep p f t acc).1 (sweep p f t' acc').1 := by
  refine ⟨fun k => ?_, fun k hop => ?_⟩
  · rw [mem_sweep, mem_sweep, h.mem]
  · rw [get?_sweep, get?_sweep, h.get]

theorem SameContent.length_selected {t t' : NestedTable κ η τ} (h : SameContent t t')
    (p : τ → Bool) (k : κ) :
    (selected p (t.row k)).length = (selected p (t'.row k)).length := by
  have hperm : (selected p (t.row k)).Perm (selected p (t'.row k)) := by
    refine (List.perm_ext_iff_of_nodup (selected_nodup p _) (selected_nodup p _)).mpr ?_
    intro hop
    rw [mem_selected, mem_selected, h.get]
  exact hperm.length_eq

end NestedTable
