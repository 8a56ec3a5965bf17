import AnalysePcap.PairCount
import AnalysePcap.Reorder

/-! A transaction is a message type and a hop. Seen as a store with one cell for each
transaction, an interface handles a packet in the cell of its transaction alone, and what it
adds to the statistics commutes. -/

namespace AnalysePcap

open DiameterInterface Machine Reorder

variable {K : InterfaceKind}

def InterfaceKind.transaction (K : InterfaceKind) (pkt : Diameter) : Option (Nat × Nat) :=
  (K.msgKey pkt).map fun k => (k, pkt.hopKey)

namespace Stats

variable {n : Nat}

def add (st d : Stats n) : Stats n where
  attempts j := st.attempts j + d.attempts j
  succCount j := st.succCount j + d.succCount j
  failCount j := st.failCount j + d.failCount j
  timeoutCount j := st.timeoutCount j + d.timeoutCount j
  unKnwRes j := st.unKnwRes j + d.unKnwRes j
  latencySize j := st.latencySize j + d.latencySize j
  latency j := st.latency j + d.latency j

theorem add_zero (st : Stats n) : st.add .zero = st := by
  ext j <;> simp [add, zero]

theorem add_right_comm (st d e : Stats n) : (st.add d).add e = (st.add e).add d := by
  ext j <;> simp only [add] <;> ring

theorem addAt_eq_add {M : Type*} [AddMonoid M] (a : Fin n → M) (i : Nat) (x : M) (j : Fin n) :
    addAt a i x j = a j + addAt (fun _ => 0) i x j := by
  unfold addAt
  split_ifs <;> simp

theorem unknown_eq_add (st : Stats n) (i : Nat) : st.unknown i = st.add (zero.unknown i) := by
  ext j <;> simp [add, zero, unknown, addAt_eq_add st.unKnwRes]

theorem timeOut_eq_add (st : Stats n) (i : Nat) : st.timeOut i = st.add (zero.timeOut i) := by
  ext j <;> simp [add, zero, timeOut, addAt_eq_add st.attempts, addAt_eq_add st.timeoutCount]

theorem answered_eq_add (st : Stats n) (i : Nat) (rtt : ℚ) (resCode : Int) :
    st.answered i rtt resCode = st.add (zero.answered i rtt resCode) := by
  unfold answered
  by_cases h : resCode < 3000 ∨ resCode = 70001
  · ext j <;> simp [add, zero, h, addAt_eq_add st.attempts, addAt_eq_add st.latency,
      addAt_eq_add st.latencySize, addAt_eq_add st.succCount]
  · ext j <;> simp [add, zero, h, addAt_eq_add st.attempts, addAt_eq_add st.latency,
      addAt_eq_add st.latencySize, addAt_eq_add st.failCount]

end Stats

/-- What a packet adds to the statistics when the cell of its transaction holds `cell`. -/
def Diameter.delta (n : Nat) (pkt : Diameter) (i : Nat) (cell : Option ℚ) : Stats n :=
  if pkt.request = 0 then
    match cell with
    | none => Stats.zero.unknown i
    | some ts =>
      if ts = 0 then Stats.zero.unknown i
      else if pkt.timeStamp - ts < 0 ∨ 40 < pkt.timeStamp - ts then Stats.zero.timeOut i
      else Stats.zero.answered i (pkt.timeStamp - ts) pkt.resCode
  else .zero

/-- What a packet leaves in the cell of its transaction. -/
def Diameter.leave (pkt : Diameter) (cell : Option ℚ) : Option ℚ :=
  if pkt.request = 1 then some pkt.timeStamp
  else if pkt.request = 0 then
    match cell with
    | none => some 0
    | some ts =>
      if ts = 0 then some 0
      else if pkt.timeStamp - ts < 0 ∨ 40 < pkt.timeStamp - ts then some ts
      else none
  else cell

/-- The statistics, and the message types that have a map of their own. -/
@[ext] structure Account (n : Nat) where
  stats : Stats n
  types : Set Nat

def Account.gain (K : InterfaceKind) (pkt : Diameter) (t : Nat × Nat) (cell : Option ℚ)
    (acc : Account K.size) : Account K.size where
  stats := acc.stats.add (pkt.delta K.size (K.index t.1) cell)
  types := if pkt.request = 1 ∨ pkt.request = 0 then insert t.1 acc.types else acc.types

theorem Account.gain_comm (a b : Diameter) (t t' : Nat × Nat) (x y : Option ℚ)
    (acc : Account K.size) :
    (acc.gain K a t x).gain K b t' y = (acc.gain K b t' y).gain K a t x := by
  ext1
  · exact Stats.add_right_comm _ _ _
  · unfold gain
    split_ifs
    · exact Set.insert_comm _ _ _
    all_goals rfl

/-- The store of transactions that an interface refines. -/
def InterfaceKind.settle (K : InterfaceKind) :
    Cells (Nat × Nat) (Option ℚ) (Account K.size) → Diameter →
      Cells (Nat × Nat) (Option ℚ) (Account K.size) :=
  Cells.act K.transaction (Account.gain K) Diameter.leave

def DiameterInterface.cells (s : DiameterInterface K) :
    Cells (Nat × Nat) (Option ℚ) (Account K.size) where
  total := ⟨s.stats, { k | k ∈ s.req }⟩
  cell t := s.req.get? t.1 t.2

section Refinement

variable {s : DiameterInterface K} {pkt : Diameter} {k h : Nat}
  {c : Cells (Nat × Nat) (Option ℚ) (Account K.size)}

theorem settle_of_request (hp : IsRequest K pkt k h) :
    K.settle c pkt = ⟨⟨c.total.stats, insert k c.total.types⟩,
      Function.update c.cell (k, h) (some pkt.timeStamp)⟩ := by
  obtain ⟨hk, hr, rfl⟩ := hp
  have ht : K.transaction pkt = some (k, pkt.hopKey) := by simp [InterfaceKind.transaction, hk]
  rw [InterfaceKind.settle, Cells.act_of_some ht]
  simp [Account.gain, Diameter.delta, Diameter.leave, hr, Stats.add_zero]

theorem settle_of_answer (hp : IsAnswer K pkt k h) :
    K.settle c pkt =
      ⟨⟨c.total.stats.add (pkt.delta K.size (K.index k) (c.cell (k, h))),
        insert k c.total.types⟩,
      Function.update c.cell (k, h) (pkt.leave (c.cell (k, h)))⟩ := by
  obtain ⟨hk, hr, rfl⟩ := hp
  have ht : K.transaction pkt = some (k, pkt.hopKey) := by simp [InterfaceKind.transaction, hk]
  rw [InterfaceKind.settle, Cells.act_of_some ht]
  simp [Account.gain, hr]

theorem settle_of_rejected (ho : outcome s pkt = .rejected) : K.settle c pkt = c := by
  cases ht : K.transaction pkt with
  | none => exact Cells.act_of_none ht c
  | some t =>
    obtain ⟨k, hk, rfl⟩ := Option.map_eq_some_iff.mp ht
    have h1 : pkt.request ≠ 1 := by
      intro h1
      rw [outcome_of_request ⟨hk, h1, rfl⟩] at ho
      cases ho
    have h0 : pkt.request ≠ 0 := by
      intro h0
      have hspec := outcome_of_answer (s := s) ⟨hk, h0, rfl⟩
      rw [ho] at hspec
      revert hspec
      cases s.req.get? k pkt.hopKey with
      | none => nofun
      | some ts => dsimp only; split_ifs <;> nofun
    rw [InterfaceKind.settle, Cells.act_of_some ht]
    simp [Account.gain, Diameter.delta, Diameter.leave, h1, h0, Stats.add_zero]

theorem settle_of_unknown (ho : outcome s pkt = .unknown k h) :
    K.settle s.cells pkt = ⟨⟨s.stats.unknown (K.index k), insert k s.cells.total.types⟩,
      Function.update s.cells.cell (k, h) (some 0)⟩ := by
  obtain ⟨hp, hget⟩ := outcome_unknown ho
  have hleave : pkt.leave (s.cells.cell (k, h)) = some 0 := by
    rcases hget with hn | hz <;> simp [Diameter.leave, cells, hp.2.1, *]
  have hdelta : pkt.delta K.size (K.index k) (s.cells.cell (k, h)) =
      Stats.zero.unknown (K.index k) := by
    rcases hget with hn | hz <;> simp [Diameter.delta, cells, hp.2.1, *]
  rw [settle_of_answer hp, hleave, hdelta, ← Stats.unknown_eq_add]
  rfl

theorem settle_of_late {ts : ℚ} (ho : outcome s pkt = .late k h ts) :
    K.settle s.cells pkt = ⟨⟨s.stats.timeOut (K.index k), insert k s.cells.total.types⟩,
      Function.update s.cells.cell (k, h) (some ts)⟩ := by
  obtain ⟨hp, hget, hne, hrange⟩ := outcome_late ho
  have hleave : pkt.leave (s.cells.cell (k, h)) = some ts := by
    simp only [Diameter.leave, cells, hp.2.1, hget, if_neg hne, if_pos hrange]
    rfl
  have hdelta : pkt.delta K.size (K.index k) (s.cells.cell (k, h)) =
      Stats.zero.timeOut (K.index k) := by
    simp only [Diameter.delta, cells, hp.2.1, hget, if_neg hne, if_pos hrange]
    rfl
  rw [settle_of_answer hp, hleave, hdelta, ← Stats.timeOut_eq_add]
  rfl

theorem settle_of_matched {ts : ℚ} (ho : outcome s pkt = .matched k h ts) :
    K.settle s.cells pkt =
      ⟨⟨s.stats.answered (K.index k) (pkt.timeStamp - ts) pkt.resCode,
        insert k s.cells.total.types⟩,
      Function.update s.cells.cell (k, h) none⟩ := by
  obtain ⟨hp, hget, hne, hlow, hhigh⟩ := outcome_matched ho
  have hrange : ¬ (pkt.timeStamp - ts < 0 ∨ 40 < pkt.timeStamp - ts) := by
    push Not
    exact ⟨hlow, hhigh⟩
  have hleave : pkt.leave (s.cells.cell (k, h)) = none := by
    simp only [Diameter.leave, cells, hp.2.1, hget, if_neg hne, if_neg hrange]
    rfl
  have hdelta : pkt.delta K.size (K.index k) (s.cells.cell (k, h)) =
      Stats.zero.answered (K.index k) (pkt.timeStamp - ts) pkt.resCode := by
    simp only [Diameter.delta, cells, hp.2.1, hget, if_neg hne, if_neg hrange]
    rfl
  rw [settle_of_answer hp, hleave, hdelta, ← Stats.answered_eq_add]
  rfl

theorem cells_eq_update {s' : DiameterInterface K} {x : Option ℚ}
    (htypes : ∀ k', k' ∈ s'.req ↔ k' = k ∨ k' ∈ s.req)
    (hcell : ∀ k' h', s'.req.get? k' h' = if k' = k ∧ h' = h then x else s.req.get? k' h') :
    s'.cells = ⟨⟨s'.stats, insert k s.cells.total.types⟩,
      Function.update s.cells.cell (k, h) x⟩ := by
  ext1
  · exact Account.ext rfl (Set.ext htypes)
  · funext t
    show s'.req.get? t.1 t.2 = Function.update s.cells.cell (k, h) x t
    rw [Function.update_apply, hcell]
    simp only [Prod.ext_iff]
    rfl

end Refinement

theorem cells_addPkt (s : DiameterInterface K) (pkt : Diameter) :
    (s.addPkt pkt).1.cells = K.settle s.cells pkt := by
  rw [addPkt_fst]
  cases ho : outcome s pkt with
  | rejected => exact (settle_of_rejected ho).symm
  | stored k h ts =>
    obtain ⟨hp, rfl⟩ := outcome_stored ho
    rw [settle_of_request hp]
    exact cells_eq_update (fun k' => NestedTable.mem_set) fun k' h' => get?_after s pkt _ k' h'
  | unknown k h =>
    have hzero : (s.req.get? k h).getD 0 = 0 := by
      rcases (outcome_unknown ho).2 with hn | hz <;> simp [*]
    rw [settle_of_unknown ho]
    refine cells_eq_update (fun k' => NestedTable.mem_fetch_iff) fun k' h' => ?_
    rw [get?_after]
    dsimp only
    rw [hzero]
  | late k h ts =>
    obtain ⟨-, hget, -⟩ := outcome_late ho
    rw [settle_of_late ho]
    refine cells_eq_update (fun k' => ?_) fun k' h' => ?_
    · have hmem : k ∈ s.req := NestedTable.mem_of_get? hget
      exact (or_iff_right_of_imp fun he => he ▸ hmem).symm
    · rw [get?_after]
      split_ifs with he
      · rw [he.1, he.2, hget]
      · rfl
  | matched k h ts =>
    rw [settle_of_matched ho]
    exact cells_eq_update (fun k' => NestedTable.mem_remove) fun k' h' => get?_after s pkt _ k' h'

theorem cells_addPkts (s : DiameterInterface K) (pkts : List Diameter) :
    (s.addPkts pkts).cells = run K.settle s.cells pkts :=
  (List.foldl_hom cells fun s pkt => (cells_addPkt s pkt).symm).symm

theorem addPkts_of_reordered (s : DiameterInterface K) {pkts pkts' : List Diameter}
    (h : Reordered K.transaction pkts pkts') :
    (s.addPkts pkts).stats = (s.addPkts pkts').stats ∧
      (∀ k, k ∈ (s.addPkts pkts).req ↔ k ∈ (s.addPkts pkts').req) ∧
      ∀ k hop, (s.addPkts pkts).req.get? k hop = (s.addPkts pkts').req.get? k hop := by
  have hcells : (s.addPkts pkts).cells = (s.addPkts pkts').cells := by
    rw [cells_addPkts, cells_addPkts]
    exact Cells.run_act_of_reordered Account.gain_comm h s.cells
  have htotal := congrArg Cells.total hcells
  refine ⟨congrArg Account.stats htotal, ?_, ?_⟩
  · intro k
    exact Set.ext_iff.mp (congrArg Account.types htotal) k
  · intro k hop
    exact congrFun (congrArg Cells.cell hcells) (k, hop)

theorem addPkts_of_swapped :
    let pkts := [gxRequest 1 20, gxAnswer 1 21, gxRequest 2 22, gxAnswer 2 (45 / 2)]
    let pkts' := [gxRequest 1 20, gxRequest 2 22, gxAnswer 1 21, gxAnswer 2 (45 / 2)]
    Reordered InterfaceKind.gx.transaction pkts pkts' ∧
      ((initial : GxInterface).addPkts pkts).stats =
        ((initial : GxInterface).addPkts pkts').stats := by
  have hfirst : InterfaceKind.gx.transaction (gxAnswer 1 21) = some (1, 1) := by decide
  have hsecond : InterfaceKind.gx.transaction (gxRequest 2 22) = some (1, 2) := by decide
  have hind : Independent InterfaceKind.gx.transaction (gxAnswer 1 21) (gxRequest 2 22) := by
    rintro t ht ht'
    rw [hfirst] at ht
    rw [hsecond, ← ht] at ht'
    exact absurd ht' (by decide)
  have h := reordered_swap hind [gxRequest 1 20] [gxAnswer 2 (45 / 2)]
  exact ⟨h, (addPkts_of_reordered initial h).1⟩

end AnalysePcap
