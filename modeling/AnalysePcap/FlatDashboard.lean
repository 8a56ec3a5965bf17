import AnalysePcap.ObjectTable
import AnalysePcap.Run
import AnalysePcap.Totals

/-! `getProtoBase` called any number of times. The two dashboards, with their maps of maps,
refine one table of objects with the protocol and both addresses as its key. The iterator
`it2` is a member, and what it holds at each of its uses is listed. -/

namespace AnalysePcap

open Machine

structure Query where
  srcIp : BitVec 32
  dstIp : BitVec 32
  type : IPProto
  deriving DecidableEq, Repr

def Query.key (q : Query) : Option (Transport × BitVec 32 × BitVec 32) :=
  (Transport.ofProto q.type).map fun transport => (transport, q.srcIp, q.dstIp)

/-- A comparison with the end of the inner map, or a use of the element that the iterator
points to. -/
structure IteratorUse where
  it2 : Option Iterator
  dereferenced : Bool

namespace DisplayStats

/-- The uses of `it2` in one call: in the search, and, when this has found nothing, on the
way to the insertion. -/
def it2Uses (b : DisplayStats) (srcIp dstIp : BitVec 32) (type : IPProto) : List IteratorUse :=
  match Transport.ofProto type with
  | none => []
  | some transport =>
    match (b.dashboard transport).lookup srcIp with
    | none => []
    | some row =>
      let found : Option Iterator × Option Nat × List IteratorUse :=
        if 0 < row.entries.length then
          match row.lookup dstIp with
          | some p =>
            let it2 := some ⟨(transport, srcIp), some dstIp⟩
            (it2, p, [⟨it2, false⟩, ⟨it2, true⟩])
          | none =>
            let it2 := some ⟨(transport, srcIp), none⟩
            (it2, none, [⟨it2, false⟩])
        else (b.it2, none, [])
      match found with
      | (_, some _, uses) => uses
      | (it2, none, uses) =>
        match it2.bind Iterator.at? with
        | some _ => uses ++ [⟨it2, false⟩, ⟨it2, true⟩]
        | none => uses ++ [⟨it2, false⟩]

/-- The members that `getProtoBase` reads are as they were, apart from the interval, and no
object is made or destroyed. -/
structure Untouched (b b' : DisplayStats) : Prop where
  dashboard : b'.dashboard = b.dashboard
  it2 : b'.it2 = b.it2
  classes : b'.heap.map Flow.m_protocoltyp = b.heap.map Flow.m_protocoltyp

end DisplayStats

/-- A call of `getProtoBase`, with the object as it was before the call. -/
structure Visit where
  query : Query
  before : DisplayStats

namespace Visit

def after (v : Visit) : DisplayStats :=
  (v.before.getProtoBase v.query.srcIp v.query.dstIp v.query.type).1

def answer (v : Visit) : Option Nat :=
  (v.before.getProtoBase v.query.srcIp v.query.dstIp v.query.type).2

def uses (v : Visit) : List IteratorUse :=
  v.before.it2Uses v.query.srcIp v.query.dstIp v.query.type

end Visit

/-- The calls of `getProtoBase` on one object in their order. Anything else that happens
to the object in between leaves it untouched. -/
inductive History : DisplayStats → List Visit → Prop
  | initial (ppkt : MPacket) : History (.initial ppkt) []
  | other {b b' : DisplayStats} {vs : List Visit} :
      History b vs → b.Untouched b' → History b' vs
  | call {b : DisplayStats} {vs : List Visit} (q : Query) :
      History b vs → History (Visit.after ⟨q, b⟩) (vs ++ [⟨q, b⟩])

/-- The iterator is set, belongs to the inner map of the call, and points to an element of
it where one is used. -/
def IteratorUse.Sound (u : IteratorUse) (v : Visit) : Prop :=
  ∃ transport dst, Transport.ofProto v.query.type = some transport ∧
    u.it2 = some ⟨(transport, v.query.srcIp), dst⟩ ∧
    (u.dereferenced = true → ∃ d p, dst = some d ∧
      (v.before.dashboard transport).get? v.query.srcIp d = some p)

def Visit.First (v : Visit) (earlier : List Visit) : Prop :=
  ∃ k, v.query.key = some k ∧ ∀ u ∈ earlier, u.query.key ≠ some k

structure FlatMap (b : DisplayStats) (vs : List Visit) : Prop where
  returned : ∀ v ∈ vs, v.answer.isSome ↔ v.query.key.isSome
  same : ∀ v ∈ vs, ∀ v' ∈ vs, v.query.key.isSome → v'.query.key.isSome →
    (v.answer = v'.answer ↔ v.query.key = v'.query.key)
  created : ∀ earlier v later, vs = earlier ++ v :: later → v.First earlier →
    v.answer = some v.before.heap.length ∧ v.after.heap.length = v.before.heap.length + 1
  reused : ∀ earlier v later, vs = earlier ++ v :: later → ¬ v.First earlier →
    v.after.heap = v.before.heap
  row_pos : ∀ transport src row, (b.dashboard transport).lookup src = some row →
    0 < row.entries.length
  stored : ∀ transport src dst p, (b.dashboard transport).get? src dst = some p → p ≠ none
  sound : ∀ v ∈ vs, ∀ u ∈ v.uses, u.Sound v

/-- The table of objects that the dashboards stand for, with the class of each object. -/
structure Flattens (b : DisplayStats)
    (t : ObjectTable (Transport × BitVec 32 × BitVec 32) Transport) : Prop where
  wellKept : b.WellKept
  pointer : ∀ transport src dst, (b.dashboard transport).get? src dst =
    (t.ptrs.lookup (transport, src, dst)).map some
  heap : b.heap.map Flow.m_protocoltyp = t.heap.map Transport.proto

namespace Flattens

variable {b : DisplayStats} {t : ObjectTable (Transport × BitVec 32 × BitVec 32) Transport}

theorem initial (ppkt : MPacket) : Flattens (.initial ppkt) .empty where
  wellKept := DisplayStats.wellKept_initial ppkt
  pointer _ _ _ := rfl
  heap := rfl

theorem length_heap (h : Flattens b t) : b.heap.length = t.heap.length := by
  simpa using congrArg List.length h.heap

theorem other (h : Flattens b t) {b' : DisplayStats} (hb : b.Untouched b') : Flattens b' t where
  wellKept :=
    { row_pos := fun hrow => h.wellKept.row_pos (hb.dashboard ▸ hrow)
      stored := fun {transport src dst p} hp => by
        rw [hb.dashboard] at hp
        obtain ⟨p', flow, rfl, hflow, hclass⟩ := h.wellKept.stored hp
        have hget := congrArg (·[p']?) hb.classes
        simp only [List.getElem?_map, hflow, Option.map_some] at hget
        obtain ⟨flow', hflow', hclass'⟩ := Option.map_eq_some_iff.mp hget
        exact ⟨p', flow', rfl, hflow', hclass'.trans hclass⟩
      stored_inj := fun hp hp' =>
        h.wellKept.stored_inj (hb.dashboard ▸ hp) (hb.dashboard ▸ hp')
      stored_all := fun {p} hp => by
        have hlen : b'.heap.length = b.heap.length := by simpa using congrArg List.length hb.classes
        rw [hb.dashboard]
        exact h.wellKept.stored_all (hlen ▸ hp) }
  pointer := hb.dashboard ▸ h.pointer
  heap := hb.classes.trans h.heap

theorem call_of_lookup (h : Flattens b t) {q : Query} {k : Transport × BitVec 32 × BitVec 32}
    (hk : q.key = some k) {p : Nat} (hp : t.ptrs.lookup k = some p) :
    Flattens (Visit.after ⟨q, b⟩) t ∧ Visit.answer ⟨q, b⟩ = some p ∧
      (Visit.after ⟨q, b⟩).heap = b.heap := by
  obtain ⟨transport, ht, rfl⟩ := Option.map_eq_some_iff.mp hk
  have hpointer := h.pointer transport q.srcIp q.dstIp
  rw [hp] at hpointer
  obtain ⟨it2, hget⟩ := DisplayStats.getProtoBase_of_some h.wellKept ht hpointer
  rw [Visit.after, Visit.answer, hget]
  exact ⟨⟨⟨h.wellKept.row_pos, h.wellKept.stored, h.wellKept.stored_inj, h.wellKept.stored_all⟩,
    h.pointer, h.heap⟩, rfl, rfl⟩

theorem call_of_not_lookup (h : Flattens b t) {q : Query}
    {k : Transport × BitVec 32 × BitVec 32} (hk : q.key = some k) (hp : t.ptrs.lookup k = none) :
    Flattens (Visit.after ⟨q, b⟩) (t.create k k.1) ∧
      Visit.answer ⟨q, b⟩ = some b.heap.length ∧
      (Visit.after ⟨q, b⟩).heap.length = b.heap.length + 1 := by
  obtain ⟨transport, ht, rfl⟩ := Option.map_eq_some_iff.mp hk
  have hpointer := h.pointer transport q.srcIp q.dstIp
  rw [hp] at hpointer
  have htype := Transport.eq_proto_of_ofProto ht
  have hclass : (Flow.new q.type b.curIntStarttime b.curIntEndtime).m_protocoltyp =
      transport.proto := htype
  obtain ⟨it2, hget⟩ := DisplayStats.getProtoBase_of_none h.wellKept ht hpointer
  rw [Visit.after, Visit.answer, hget]
  refine ⟨⟨h.wellKept.create hpointer it2 hclass, ?_, ?_⟩, rfl, ?_⟩
  · intro transport' src dst
    rw [DisplayStats.get?_store]
    simp only [ObjectTable.create, ObjectTable.lookup_insert, Prod.mk.injEq, h.length_heap]
    split_ifs with hkey
    · rfl
    · exact h.pointer transport' src dst
  · simp [DisplayStats.store, ObjectTable.create, h.heap, Flow.new, htype]
  · simp [DisplayStats.store]

theorem call_of_no_key (h : Flattens b t) {q : Query} (hk : q.key = none) :
    Flattens (Visit.after ⟨q, b⟩) t ∧ Visit.answer ⟨q, b⟩ = none ∧
      (Visit.after ⟨q, b⟩).heap = b.heap := by
  have ht : Transport.ofProto q.type = none := Option.map_eq_none_iff.mp hk
  have hget : b.getProtoBase q.srcIp q.dstIp q.type = (b, none) := by
    simp only [DisplayStats.getProtoBase, ht]
  rw [Visit.after, Visit.answer, hget]
  exact ⟨h, rfl, rfl⟩

end Flattens

/-- The search has set `it2` in the same call, for otherwise the inner map would be empty. -/
theorem DisplayStats.WellKept.sound {b : DisplayStats} (hb : b.WellKept) (q : Query) :
    ∀ u ∈ Visit.uses ⟨q, b⟩, u.Sound ⟨q, b⟩ := by
  intro u hu
  simp only [Visit.uses, DisplayStats.it2Uses] at hu
  cases ht : Transport.ofProto q.type with
  | none => simp [ht] at hu
  | some transport =>
    cases hrow : (b.dashboard transport).lookup q.srcIp with
    | none => simp [ht, hrow] at hu
    | some row =>
      have hpos := hb.row_pos hrow
      simp only [ht, hrow, hpos, if_true] at hu
      cases hp : row.lookup q.dstIp with
      | none =>
        simp only [hp, Option.bind, List.singleton_append, List.mem_cons, List.not_mem_nil,
          or_false, or_self] at hu
        exact ⟨transport, none, ht, by rw [hu], by simp [hu]⟩
      | some p =>
        have hget : (b.dashboard transport).get? q.srcIp q.dstIp = some p := by
          simp [NestedTable.get?, NestedTable.row, hrow, hp]
        obtain ⟨p', _, rfl, -⟩ := hb.stored hget
        simp only [hp, List.mem_cons, List.not_mem_nil, or_false] at hu
        refine ⟨transport, some q.dstIp, ht, ?_, fun _ => ⟨q.dstIp, some p', rfl, hget⟩⟩
        rcases hu with rfl | rfl <;> rfl

/-- The table has the keys of the calls, and the calls were answered from it. -/
structure Records (t : ObjectTable (Transport × BitVec 32 × BitVec 32) Transport)
    (vs : List Visit) : Prop where
  asked : ∀ {k p}, t.ptrs.lookup k = some p → ∃ v ∈ vs, v.query.key = some k
  returned : ∀ v ∈ vs, v.answer.isSome = v.query.key.isSome
  answered : ∀ v ∈ vs, v.answer = v.query.key.bind t.ptrs.lookup

namespace Records

variable {t t' : ObjectTable (Transport × BitVec 32 × BitVec 32) Transport} {vs : List Visit}

theorem lookup_isSome (h : Records t vs) {v : Visit} (hv : v ∈ vs)
    {k : Transport × BitVec 32 × BitVec 32} (hk : v.query.key = some k) :
    (t.ptrs.lookup k).isSome := by
  have hsome := h.returned v hv
  rw [h.answered v hv, hk] at hsome
  exact hsome

theorem first_iff (h : Records t vs) {v : Visit} {k : Transport × BitVec 32 × BitVec 32}
    (hk : v.query.key = some k) : v.First vs ↔ t.ptrs.lookup k = none := by
  constructor
  · rintro ⟨k', hk', hfirst⟩
    cases hk.symm.trans hk'
    cases hp : t.ptrs.lookup k with
    | none => rfl
    | some p =>
      obtain ⟨u, hu, hkey⟩ := h.asked hp
      exact absurd hkey (hfirst u hu)
  · intro hp
    refine ⟨k, hk, fun u hu hkey => ?_⟩
    have hsome := h.lookup_isSome hu hkey
    rw [hp] at hsome
    cases hsome

theorem same (h : Records t vs) {v v' : Visit} (hv : v ∈ vs) (hv' : v' ∈ vs)
    (hk : v.query.key.isSome) (hk' : v'.query.key.isSome) :
    v.answer = v'.answer ↔ v.query.key = v'.query.key := by
  obtain ⟨k, hk⟩ := Option.isSome_iff_exists.mp hk
  obtain ⟨k', hk'⟩ := Option.isSome_iff_exists.mp hk'
  obtain ⟨p, hp⟩ := Option.isSome_iff_exists.mp (h.lookup_isSome hv hk)
  rw [h.answered v hv, h.answered v' hv', hk, hk', Option.bind_some, Option.bind_some,
    Option.some_inj]
  constructor
  · intro hptr
    exact t.ptr_inj hp (hptr ▸ hp)
  · rintro rfl
    rfl

theorem concat (h : Records t vs) {v : Visit}
    (hkept : ∀ {k p}, t.ptrs.lookup k = some p → t'.ptrs.lookup k = some p)
    (hnew : ∀ {k p}, t'.ptrs.lookup k = some p →
      t.ptrs.lookup k = some p ∨ v.query.key = some k)
    (hreturned : v.answer.isSome = v.query.key.isSome)
    (hanswered : v.answer = v.query.key.bind t'.ptrs.lookup) : Records t' (vs ++ [v]) where
  asked {k p} hp := by
    rcases hnew hp with hp | hk
    · obtain ⟨u, hu, hkey⟩ := h.asked hp
      exact ⟨u, List.mem_append_left _ hu, hkey⟩
    · exact ⟨v, by simp, hk⟩
  returned u hu := by
    rcases List.mem_append.mp hu with hu | hu
    · exact h.returned u hu
    · rw [List.mem_singleton.mp hu, hreturned]
  answered u hu := by
    rcases List.mem_append.mp hu with hu | hu
    · rw [h.answered u hu]
      cases hk : u.query.key with
      | none => rfl
      | some k =>
        obtain ⟨p, hp⟩ := Option.isSome_iff_exists.mp (h.lookup_isSome hu hk)
        rw [Option.bind_some, Option.bind_some, hp, hkept hp]
    · rw [List.mem_singleton.mp hu, hanswered]

end Records

namespace History

variable {b : DisplayStats} {vs : List Visit}

theorem flattens (h : History b vs) : ∃ t, Flattens b t ∧ Records t vs := by
  induction h with
  | initial ppkt => exact ⟨.empty, .initial ppkt, fun hp => by simp [ObjectTable.empty] at hp,
      fun _ hv => by simp at hv, fun _ hv => by simp at hv⟩
  | other _ hb ih =>
    obtain ⟨t, ht, hrec⟩ := ih
    exact ⟨t, ht.other hb, hrec⟩
  | @call b vs q _ ih =>
    obtain ⟨t, ht, hrec⟩ := ih
    cases hk : q.key with
    | none =>
      obtain ⟨hflat, hanswer, -⟩ := ht.call_of_no_key hk
      exact ⟨t, hflat, hrec.concat id .inl (by rw [hanswer, hk]; rfl) (by rw [hanswer, hk]; rfl)⟩
    | some k =>
      cases hp : t.ptrs.lookup k with
      | some p =>
        obtain ⟨hflat, hanswer, -⟩ := ht.call_of_lookup hk hp
        exact ⟨t, hflat, hrec.concat id .inl (by rw [hanswer, hk]; rfl)
          (by rw [hanswer, hk, Option.bind_some, hp])⟩
      | none =>
        obtain ⟨hflat, hanswer, -⟩ := ht.call_of_not_lookup hk hp
        have hlookup (k' : Transport × BitVec 32 × BitVec 32) :
            (t.create k k.1).ptrs.lookup k' =
              if k' = k then some b.heap.length else t.ptrs.lookup k' := by
          rw [ht.length_heap]
          exact ObjectTable.lookup_insert _ _ _ _
        refine ⟨_, hflat, hrec.concat ?_ ?_ (by rw [hanswer, hk]; rfl) ?_⟩
        · intro k' p hp'
          have hne : k' ≠ k := by
            rintro rfl
            rw [hp] at hp'
            cases hp'
          rw [hlookup, if_neg hne, hp']
        · intro k' p hp'
          rw [hlookup] at hp'
          split_ifs at hp' with hkey
          · exact .inr (hkey ▸ hk)
          · exact .inl hp'
        · rw [hanswer, hk, Option.bind_some, hlookup, if_pos rfl]

theorem before (h : History b vs) {earlier later : List Visit} {v : Visit}
    (hvs : vs = earlier ++ v :: later) : History v.before earlier := by
  induction h generalizing later with
  | initial => simp at hvs
  | other _ _ ih => exact ih hvs
  | @call b vs q h ih =>
    rcases List.eq_nil_or_concat later with rfl | ⟨later, last, rfl⟩
    · obtain ⟨rfl, hv⟩ := List.append_inj' hvs rfl
      cases hv
      exact h
    · rw [List.concat_eq_append, ← List.cons_append, ← List.append_assoc] at hvs
      exact ih (List.append_inj' hvs rfl).1

end History

theorem getProtoBase_flatMap {b : DisplayStats} {vs : List Visit} (h : History b vs) :
    FlatMap b vs := by
  obtain ⟨t, ht, hrec⟩ := h.flattens
  refine ⟨fun v hv => by rw [hrec.returned v hv], fun v hv v' hv' => hrec.same hv hv', ?_, ?_,
    fun _ _ _ => ht.wellKept.row_pos, ?_, ?_⟩
  · intro earlier v later hvs hfirst
    obtain ⟨t, ht, hrec⟩ := (h.before hvs).flattens
    obtain ⟨k, hk, -⟩ := id hfirst
    exact (ht.call_of_not_lookup hk ((hrec.first_iff hk).mp hfirst)).2
  · intro earlier v later hvs hfirst
    obtain ⟨t, ht, hrec⟩ := (h.before hvs).flattens
    cases hk : v.query.key with
    | none => exact (ht.call_of_no_key hk).2.2
    | some k =>
      obtain ⟨p, hp⟩ := Option.ne_none_iff_exists'.mp (mt (hrec.first_iff hk).mpr hfirst)
      exact (ht.call_of_lookup hk hp).2.2
  · intro transport src dst p hp
    obtain ⟨p', _, rfl, -⟩ := ht.wellKept.stored hp
    simp
  · intro v hv
    obtain ⟨earlier, later, hvs⟩ := List.append_of_mem hv
    obtain ⟨t, ht, -⟩ := (h.before hvs).flattens
    exact ht.wellKept.sound v.query

theorem getProtoBase_flatMap_alternating :
    let v₁ : Visit := ⟨⟨1, 2, .TCP⟩, .initial .zero⟩
    let v₂ : Visit := ⟨⟨1, 2, .UDP⟩, v₁.after⟩
    let v₃ : Visit := ⟨⟨1, 2, .TCP⟩, v₂.after⟩
    History v₃.after [v₁, v₂, v₃] ∧ FlatMap v₃.after [v₁, v₂, v₃] := by
  intro v₁ v₂ v₃
  have h : History v₃.after [v₁, v₂, v₃] :=
    .call ⟨1, 2, .TCP⟩ (.call ⟨1, 2, .UDP⟩ (.call ⟨1, 2, .TCP⟩ (.initial .zero)))
  exact ⟨h, getProtoBase_flatMap h⟩

namespace DisplayStats

variable {b : DisplayStats}

theorem untouched_openInterval (b : DisplayStats) (pktTime : Int) :
    b.Untouched (b.openInterval pktTime) := by
  rw [openInterval_eq]
  exact ⟨rfl, rfl, rfl⟩

theorem untouched_protoAddPkt (env : Platform) (locals : Locals) (b : DisplayStats) (p : Nat)
    (pkt : TracePacket) : b.Untouched (b.protoAddPkt env locals p pkt).1 := by
  have hcount : (b.heap.modify p fun flow => flow.count pkt b.ppkt).map Flow.m_protocoltyp =
      b.heap.map Flow.m_protocoltyp := by
    refine List.ext_getElem? fun i => ?_
    rw [List.getElem?_map, List.getElem?_map, List.getElem?_modify]
    split_ifs <;> cases b.heap[i]? <;> rfl
  unfold protoAddPkt
  split
  · exact ⟨rfl, rfl, rfl⟩
  · dsimp only
    split <;> exact ⟨rfl, rfl, hcount⟩

end DisplayStats

namespace History

variable {b : DisplayStats} {vs : List Visit}

theorem addPkt (h : History b vs) (env : Platform) (locals : Locals) (pkt : TracePacket)
    (prototype : IPProto) (pktTime : Int) :
    ∃ vs', History (b.addPkt env locals pkt prototype pktTime).1 vs' := by
  unfold DisplayStats.addPkt
  split_ifs
  · exact ⟨vs, h⟩
  · dsimp only
    have hcall := (h.other (b.untouched_openInterval pktTime)).call
      ⟨(b.openInterval pktTime).ppkt.ip4_src, (b.openInterval pktTime).ppkt.ip4_dst, prototype⟩
    unfold Visit.after at hcall
    split
    · rename_i b₁ hget
      rw [hget] at hcall
      exact ⟨_, hcall⟩
    · rename_i b₁ p hget
      rw [hget] at hcall
      have hadded := hcall.other (DisplayStats.untouched_protoAddPkt env locals b₁ p pkt)
      split
      · rename_i b₂ hadd
        rw [hadd] at hadded
        exact ⟨_, hadded⟩
      · rename_i b₂ r hr hadd
        rw [hadd] at hadded
        exact ⟨_, hadded.other ⟨rfl, rfl, rfl⟩⟩

theorem next (h : History b vs) (env : Platform) (c : DisplayStats.Call) :
    ∃ vs', History (b.next env c) vs' := by
  cases c with
  | addPkt locals ptrpkt prototype pktTime => exact h.addPkt env locals ptrpkt prototype pktTime
  | ParsePkt locals pkt =>
    have hfill : History (b.fillPkt locals pkt).1 vs := by
      rw [DisplayStats.fillPkt_eq]
      exact h.other ⟨rfl, rfl, rfl⟩
    simp only [DisplayStats.next, DisplayStats.call, DisplayStats.ParsePkt]
    split
    · rename_i b₁ hb
      rw [hb] at hfill
      exact ⟨vs, hfill⟩
    · rename_i b₁ proto hb
      rw [hb] at hfill
      exact hfill.addPkt env locals pkt proto _

/-- Whatever the public functions do to an object is a history of calls. -/
theorem of_run (env : Platform) (ppkt : MPacket) (calls : List DisplayStats.Call) :
    ∃ vs, History (run (DisplayStats.next env) (.initial ppkt) calls) vs :=
  run_invariant (P := fun b => ∃ vs, History b vs) (fun _ c ⟨_, h⟩ => h.next env c)
    ⟨[], .initial ppkt⟩ calls

end History

end AnalysePcap
