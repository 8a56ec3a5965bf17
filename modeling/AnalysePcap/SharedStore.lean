import AnalysePcap.SharedRequests
import AnalysePcap.ShfFile
import AnalysePcap.Digits
import AnalysePcap.Calls

/-! The variant of `GxInterface` with a shared hash file, over the file itself. A call of the store
is one step, and the lock is free between two calls of one `addPkt`. The table of requests is what
the file holds, as long as no process exits. A process that is alone never deletes a request; with
two processes one can delete a request that the other has just stored. -/

namespace AnalysePcap

open Postcondition Calls
open Shelves (find value clear value_place value_key_isSome_iff clear_apply exists_of_find
  find_eq_none_of_value)

/-- The bytes of a `std::string`. -/
def textBytes (text : Text) : List (BitVec 8) := text.map fun c => BitVec.ofNat 8 c.toNat

/-- A call of `shfrql`; `key` is what the process has last called `MakeHash` with. -/
inductive StoreCall where
  | PutKeyVal (key : Text) (val : ℚ)
  | GetKeyValCopy (key : Text)
  | GetUidValCopy (key : Text) (uid : Nat)
  | DelKeyVal (key : Text)
  | DelUidVal (key : Text) (uid : Nat)

/-- `GxInterface::addPkt` of the variant, call by call; `last` is what the process has last called
`MakeHash` with. -/
def SharedGx.addPktShf (toUid : Nat → Int) (g : SharedGx) (last : Text) (pkt : Diameter) :
    Prog StoreCall Nat (SharedGx × Text × Int) :=
  match InterfaceKind.gx.msgKey pkt with
  | none => return (g, last, 1)
  | some reqtype =>
    let i := InterfaceKind.gx.index reqtype
    let key := pkt.hopText
    if pkt.request = 1 then do
      let uid ← Prog.ask (.PutKeyVal key pkt.timeStamp)
      return ({ g with req := g.req.set reqtype pkt.hopKey uid }, key, 0)
    else if pkt.request = 0 then
      let found := g.req.fetch reqtype pkt.hopKey 0
      let g := { g with req := found.2 }
      let uid := toUid found.1
      if uid = 0 then do
        let answer ← Prog.ask (.GetKeyValCopy key)
        if answer = 0 then do
          -- by now another process may have stored a request under this key
          let _ ← Prog.ask (.DelKeyVal key)
          return ({ g with GxStats := g.GxStats.settled i pkt.resCode }, key, 0)
        else
          return ({ g with
            GxStats := { g.GxStats with timeoutCount := addAt g.GxStats.timeoutCount i 1 } },
            key, 0)
      else do
        let uid := (uid % 2 ^ 32).toNat
        let answer ← Prog.ask (.GetUidValCopy last uid)
        if answer = 0 then do
          let _ ← Prog.ask (.DelUidVal last uid)
          return ({ g with GxStats := g.GxStats.settled i pkt.resCode }, last, 0)
        else return ({ g with GxStats := g.GxStats.settled i pkt.resCode }, last, 0)
    else return (g, last, 1)

/-- A process with the packets that it sees. -/
def SharedGx.addPkts (toUid : Nat → Int) :
    SharedGx → Text → List Diameter → Prog StoreCall Nat (SharedGx × Text)
  | g, last, [] => return (g, last)
  | g, last, pkt :: pkts => do
    let (g, last, _) ← g.addPktShf toUid last pkt
    addPkts toUid g last pkts

section Serve

variable (z : ShfSizes) (hash : List (BitVec 8) → BitVec 128) (env : ShfEnv)
  (stamp : ℚ → List (BitVec 8))

/-- A lookup by `SharedHashFile` says whether something was found. -/
def Shf.lookup (s : Shf) (key : Text) (uid : Nat) (what : ShfFind) : Except ShfExit (Nat × Shf) := do
  let (val, s) ← s.shf_find_key_internal z hash env (textBytes key) uid what
  return (val.isSome.toNat, s)

/-- The methods of `SharedHashFile`; `stamp` prints a time stamp. -/
def Shf.serve (s : Shf) : StoreCall → Except ShfExit (Nat × Shf)
  | .PutKeyVal key val => s.shf_put_key_val z hash env (textBytes key) (.bytes (stamp val))
  | .GetKeyValCopy key => s.lookup z hash env key z.uidNone .andCopyVal
  | .GetUidValCopy key uid => s.lookup z hash env key uid .andCopyVal
  | .DelKeyVal key => s.lookup z hash env key z.uidNone .andDelete
  | .DelUidVal key uid => s.lookup z hash env key uid .andDelete

end Serve

/-- The processes of a node with the file that they share. -/
abbrev StoreSystem (ι : Type) := System ι Shf StoreCall Nat (SharedGx × Text)

namespace StoreSystem

variable {ι : Type} [DecidableEq ι]

def programs (toUid : Nat → Int) (start : ι → SharedGx) (pkts : ι → List Diameter) :
    ι → Prog StoreCall Nat (SharedGx × Text) := fun i => (start i).addPkts toUid [] (pkts i)

/-- The processes start with an empty file; `events` says whose call is next, and what space there
is at that time. -/
def run (z : ShfSizes) (hash : List (BitVec 8) → BitVec 128) (stamp : ℚ → List (BitVec 8))
    (toUid : Nat → Int) (start : ι → SharedGx) (pkts : ι → List Diameter)
    (events : List (ι × ShfEnv)) : Except ShfExit (StoreSystem ι) :=
  System.run (fun env => Shf.serve z hash env stamp) ⟨Shf.create z, programs toUid start pkts⟩ events

end StoreSystem

namespace RequestTable

/-- What a call may do to a table. The store chooses the uid of a new request, and the request that
it deletes among those with the key. -/
def Serve (t : RequestTable) : StoreCall → Nat → RequestTable → Prop
  | .PutKeyVal key val, uid, t' => t.GetUidValCopy uid = false ∧ t' = t.PutKeyVal uid key val
  | .GetKeyValCopy key, answer, t' => answer = (t.GetKeyValCopy key).toNat ∧ t' = t
  | .GetUidValCopy _ uid, answer, t' => answer = (t.GetUidValCopy uid).toNat ∧ t' = t
  | .DelKeyVal key, answer, t' => answer = (t.GetKeyValCopy key).toNat ∧
      (t.GetKeyValCopy key = false ∧ t' = t ∨ ∃ x ∈ t, x.key = key ∧ t' = t.DelUidVal x.uid)
  | .DelUidVal _ uid, answer, t' => answer = (t.GetUidValCopy uid).toNat ∧ t' = t.DelUidVal uid

theorem mem_delUidVal {t : RequestTable} (hnodup : (t.map ShfEntry.uid).Nodup) {uid : Nat}
    {x : ShfEntry} : x ∈ t.DelUidVal uid ↔ x ∈ t ∧ x.uid ≠ uid := by
  induction t with
  | nil => simp [DelUidVal]
  | cons y t ih =>
    rw [List.map_cons, List.nodup_cons] at hnodup
    by_cases hy : y.uid = uid
    · have herase : DelUidVal (y :: t) uid = t := List.eraseP_cons_of_pos (by simpa using hy)
      rw [herase, List.mem_cons]
      constructor
      · intro hx
        refine ⟨.inr hx, fun heq => hnodup.1 ?_⟩
        rw [hy, ← heq]
        exact List.mem_map_of_mem hx
      · rintro ⟨rfl | hx, hne⟩
        · exact absurd hy hne
        · exact hx
    · have herase : DelUidVal (y :: t) uid = y :: DelUidVal t uid :=
        List.eraseP_cons_of_neg (by simpa using hy)
      rw [herase, List.mem_cons, List.mem_cons, ih hnodup.2]
      constructor
      · rintro (rfl | ⟨hx, hne⟩)
        · exact ⟨.inl rfl, hy⟩
        · exact ⟨.inr hx, hne⟩
      · rintro ⟨rfl | hx, hne⟩
        · exact .inl rfl
        · exact .inr ⟨hx, hne⟩

end RequestTable

/-- A key that `sprintf` prints for a number. -/
def IsKey (text : Text) : Prop := text.length ≤ 11 ∧ ∀ c ∈ text, c.toNat < 256

/-- The entries of the table are those of the file. -/
structure Represents (z : ShfSizes) (stamp : ℚ → List (BitVec 8)) (s : Shf) (t : RequestTable) :
    Prop where
  entry : ∀ x ∈ t, s.content z (z.place x.uid) = some (textBytes x.key, stamp x.val)
  all : ∀ {p e}, s.content z p = some e → ∃ x ∈ t, z.place x.uid = p
  uid_lt : ∀ x ∈ t, x.uid < 2 ^ 32
  nodup : (t.map ShfEntry.uid).Nodup
  keys : ∀ x ∈ t, IsKey x.key

theorem toNat_lt_of_mem_decimal {n : Int} {c : Char} (hc : c ∈ decimal n) : c.toNat < 256 := by
  have hdigit {m : Nat} (hc : c ∈ Nat.toDigits 10 m) : c.toNat < 256 := by
    obtain ⟨d, hd, rfl⟩ := Digits.mem_toDigits (by decide) hc
    exact (by decide : ∀ d < 10, (Nat.digitChar d).toNat < 256) d hd
  unfold decimal at hc
  split_ifs at hc
  · rcases List.mem_cons.mp hc with rfl | hc
    · decide
    · exact hdigit hc
  · exact hdigit hc

theorem isKey_hopText (pkt : Diameter) : IsKey pkt.hopText := by
  have hrange : ((pkt.hopKey : Int).bmod (2 ^ 32)).natAbs < 10 ^ 10 := by
    have := Int.bmod_lt (x := (pkt.hopKey : Int)) (m := 2 ^ 32) (by decide)
    have := Int.le_bmod (x := (pkt.hopKey : Int)) (m := 2 ^ 32) (by decide)
    omega
  have hlen := (Nat.length_toDigits_le_iff (b := 10) (k := 10) (by decide) (by decide)).mpr hrange
  refine ⟨?_, fun c => toNat_lt_of_mem_decimal⟩
  rw [Diameter.hopText, decimal]
  split_ifs
  · rw [List.length_cons]
    omega
  · omega

theorem textBytes_inj {text text' : Text} (htext : IsKey text) (htext' : IsKey text')
    (h : textBytes text = textBytes text') : text = text' := by
  have hback {l : Text} (hl : IsKey l) : (textBytes l).map (fun b => Char.ofNat b.toNat) = l := by
    rw [textBytes, List.map_map]
    refine (List.map_congr_left fun c hc => ?_).trans (List.map_id l)
    simp [Nat.mod_eq_of_lt (hl.2 c hc)]
  rw [← hback htext, h, hback htext']

namespace Represents

variable {z : ShfSizes} {l : ShfLimits z} {hash : List (BitVec 8) → BitVec 128}
  {stamp : ℚ → List (BitVec 8)} {s s' : Shf} {t : RequestTable} {key : Text} {uid : Nat}

theorem create (z : ShfSizes) (stamp : ℚ → List (BitVec 8)) :
    Represents z stamp (Shf.create z) [] where
  entry x hx := by cases hx
  all h := by
    rw [Shf.content_create] at h
    cases h
  uid_lt x hx := by cases hx
  nodup := List.nodup_nil
  keys x hx := by cases hx

theorem of_content (h : Represents z stamp s t) (hcontent : s'.content z = s.content z) :
    Represents z stamp s' t where
  entry := by rw [hcontent]; exact h.entry
  all := by rw [hcontent]; exact h.all
  uid_lt := h.uid_lt
  nodup := h.nodup
  keys := h.keys

/-- An entry of the file with its request. -/
theorem exists_of_content (h : Represents z stamp s t) (hkey : IsKey key) {p : ShfPlace}
    {v : List (BitVec 8)} (hp : s.content z p = some (textBytes key, v)) :
    ∃ x ∈ t, z.place x.uid = p ∧ x.key = key := by
  obtain ⟨x, hx, rfl⟩ := h.all hp
  rw [h.entry x hx, Option.some.injEq, Prod.mk.injEq] at hp
  exact ⟨x, hx, rfl, textBytes_inj (h.keys x hx) hkey hp.1⟩

theorem getKeyValCopy (h : Represents z stamp s t) (hs : s.Sound l hash) (hkey : IsKey key) :
    t.GetKeyValCopy key =
      (value (z.placesOf hash) (s.content z) (.key (textBytes key))).isSome := by
  rw [Bool.eq_iff_iff, value_key_isSome_iff, RequestTable.GetKeyValCopy, List.any_eq_true]
  constructor
  · rintro ⟨x, hx, heq⟩
    have hentry := h.entry x hx
    rw [of_decide_eq_true heq] at hentry
    exact ⟨z.place x.uid, hs.place_mem hentry, stamp x.val, hentry⟩
  · rintro ⟨p, -, v, hv⟩
    obtain ⟨x, hx, -, heq⟩ := h.exists_of_content hkey hv
    exact ⟨x, hx, by simp [heq]⟩

section Uids

variable (hz : z.wins * z.tabs * z.rows * z.refs = 2 ^ 32)

include hz

theorem uid_eq (h : Represents z stamp s t) {x : ShfEntry} (hx : x ∈ t) (huid : uid < 2 ^ 32)
    (heq : z.place x.uid = z.place uid) : x.uid = uid := by
  have hback := congrArg z.uid heq
  rwa [ShfSizes.uid_place (hz ▸ h.uid_lt x hx), ShfSizes.uid_place (hz ▸ huid)] at hback

theorem getUidValCopy (h : Represents z stamp s t) (hash : List (BitVec 8) → BitVec 128)
    (huid : uid < 2 ^ 32) : t.GetUidValCopy uid =
      (value (z.placesOf hash) (s.content z) (.place (z.place uid))).isSome := by
  rw [Bool.eq_iff_iff, value_place, Option.isSome_map, RequestTable.GetUidValCopy,
    List.any_eq_true]
  constructor
  · rintro ⟨x, hx, heq⟩
    rw [← of_decide_eq_true heq, h.entry x hx]
    rfl
  · intro hsome
    obtain ⟨e, he⟩ := Option.isSome_iff_exists.mp hsome
    obtain ⟨x, hx, hplace⟩ := h.all he
    exact ⟨x, hx, by simp [h.uid_eq hz hx huid hplace]⟩

theorem delUidVal (h : Represents z stamp s t) {x : ShfEntry} (hx : x ∈ t)
    (hcontent : s'.content z = clear (s.content z) (some (z.place x.uid))) :
    Represents z stamp s' (t.DelUidVal x.uid) := by
  have hmem (y : ShfEntry) (hy : y ∈ t.DelUidVal x.uid) : y ∈ t ∧ y.uid ≠ x.uid :=
    (RequestTable.mem_delUidVal h.nodup).mp hy
  refine ⟨fun y hy => ?_, ?_, fun y hy => h.uid_lt y (hmem y hy).1,
    h.nodup.sublist (List.eraseP_sublist.map _), fun y hy => h.keys y (hmem y hy).1⟩
  · obtain ⟨hy, hne⟩ := hmem y hy
    rw [hcontent, clear_apply, if_neg, h.entry y hy]
    intro heq
    exact hne (h.uid_eq hz hy (h.uid_lt x hx) (Option.some.inj heq).symm)
  · intro p e hp
    rw [hcontent, clear_apply] at hp
    split_ifs at hp with heq
    obtain ⟨y, hy, hplace⟩ := h.all hp
    refine ⟨y, (RequestTable.mem_delUidVal h.nodup).mpr ⟨hy, fun huid => heq ?_⟩, hplace⟩
    rw [← hplace, huid]

end Uids

theorem putKeyVal (h : Represents z stamp s t) (huid : uid < 2 ^ 32) (hkey : IsKey key)
    (val : ℚ) (hfree : s.content z (z.place uid) = none)
    (hcontent : s'.content z = Function.update (s.content z) (z.place uid)
      (some (textBytes key, stamp val))) :
    t.GetUidValCopy uid = false ∧ Represents z stamp s' (t.PutKeyVal uid key val) := by
  have hnew (x : ShfEntry) (hx : x ∈ t) : z.place x.uid ≠ z.place uid := by
    intro heq
    have hentry := h.entry x hx
    rw [heq, hfree] at hentry
    cases hentry
  have hmem {x : ShfEntry} (hx : x ∈ t.PutKeyVal uid key val) : x ∈ t ∨ x = ⟨uid, key, val⟩ :=
    (List.mem_append.mp hx).imp_right List.mem_singleton.mp
  refine ⟨?_, fun x hx => ?_, ?_, fun x hx => ?_, ?_, fun x hx => ?_⟩
  · rw [RequestTable.GetUidValCopy, List.any_eq_false]
    intro x hx heq
    exact hnew x hx (by rw [of_decide_eq_true heq])
  · rw [hcontent]
    rcases hmem hx with hx | rfl
    · rw [Function.update_of_ne (hnew x hx)]
      exact h.entry x hx
    · rw [Function.update_self]
  · intro p e hp
    rw [hcontent] at hp
    by_cases heq : p = z.place uid
    · exact ⟨⟨uid, key, val⟩, by simp [RequestTable.PutKeyVal], heq.symm⟩
    · rw [Function.update_of_ne heq] at hp
      obtain ⟨x, hx, hplace⟩ := h.all hp
      exact ⟨x, List.mem_append_left _ hx, hplace⟩
  · rcases hmem hx with hx | rfl
    · exact h.uid_lt x hx
    · exact huid
  · rw [RequestTable.PutKeyVal, List.map_append, List.nodup_append]
    refine ⟨h.nodup, List.nodup_singleton _, ?_⟩
    intro a ha b hb heq
    obtain ⟨x, hx, rfl⟩ := List.mem_map.mp ha
    rw [List.map_singleton, List.mem_singleton] at hb
    exact hnew x hx (by rw [heq, hb])
  · rcases hmem hx with hx | rfl
    · exact h.keys x hx
    · exact hkey

/-- Requests of one hop identifier have places of one key. -/
theorem countP_le (h : Represents z stamp s t) (hs : s.Sound l hash)
    (hz : z.wins * z.tabs * z.rows * z.refs = 2 ^ 32) (text : Text) :
    t.countP (fun x => x.key = text) ≤ z.refs := by
  let l := t.filter fun x => x.key = text
  have hmem {x : ShfEntry} (hx : x ∈ l) : x ∈ t ∧ x.key = text := by
    simpa only [l, List.mem_filter, decide_eq_true_eq] using hx
  have hback : (l.map fun x => z.place x.uid).map z.uid = l.map ShfEntry.uid := by
    rw [List.map_map]
    exact List.map_congr_left fun x hx => ShfSizes.uid_place (hz ▸ h.uid_lt x (hmem hx).1)
  have hnodup : (l.map fun x => z.place x.uid).Nodup := by
    refine List.Nodup.of_map z.uid ?_
    rw [hback]
    exact h.nodup.sublist (List.filter_sublist.map _)
  have hsub : (l.map fun x => z.place x.uid) ⊆ z.placesOf hash (textBytes text) := by
    intro p hp
    obtain ⟨x, hx, rfl⟩ := List.mem_map.mp hp
    have hentry := h.entry x (hmem hx).1
    rw [(hmem hx).2] at hentry
    exact hs.place_mem hentry
  have hle := (hnodup.subperm hsub).length_le
  rwa [List.length_map, ← List.countP_eq_length_filter, ShfSizes.placesOf, List.length_map,
    List.length_range] at hle

end Represents

/-- The calls of a process that sees packets. -/
def StoreCall.Proper (z : ShfSizes) : StoreCall → Prop
  | .PutKeyVal key _ => IsKey key
  | .GetKeyValCopy key => IsKey key
  | .DelKeyVal key => IsKey key
  | .GetUidValCopy _ uid => uid < 2 ^ 32 ∧ uid ≠ z.uidNone
  | .DelUidVal _ uid => uid < 2 ^ 32 ∧ uid ≠ z.uidNone

section Serve

variable {z : ShfSizes} {l : ShfLimits z} {hash : List (BitVec 8) → BitVec 128} {env : ShfEnv}
  {stamp : ℚ → List (BitVec 8)} {s : Shf} {t : RequestTable} {key : Text} {uid : Nat}
  {what : ShfFind}

theorem query_key : ShfAccess.query z (textBytes key) z.uidNone = .key (textBytes key) := if_pos rfl

theorem query_uid (huid : uid ≠ z.uidNone) :
    ShfAccess.query z (textBytes key) uid = .place (z.place uid) := if_neg huid

theorem Shf.Sound.ensures_lookup (hs : s.Sound l hash) (henv : env.Within l) (key : Text)
    (uid : Nat) (what : ShfFind) :
    Ensures (NoSpace l env) (fun r => r.2.Sound l hash ∧
        r.1 = (value (z.placesOf hash) (s.content z)
          (ShfAccess.query z (textBytes key) uid)).isSome.toNat ∧
        r.2.content z = if what = .andDelete then
          clear (s.content z)
            (find (z.placesOf hash) (s.content z) (ShfAccess.query z (textBytes key) uid))
          else s.content z)
      (s.lookup z hash env key uid what) := by
  refine (hs.ensures_find henv (textBytes key) uid what).bind ?_
  rintro ⟨val, s'⟩ ⟨hs', hval, hcontent⟩
  refine ensures_ok ⟨hs', ?_, hcontent⟩
  rw [← hval]

section Deleted

variable {s' : Shf} (h : Represents z stamp s t) (hz : z.wins * z.tabs * z.rows * z.refs = 2 ^ 32)

include h hz

/-- What is deleted for a key is a request with the key. -/
theorem Represents.of_clear_key (hs : s.Sound l hash) (hkey : IsKey key)
    (hcontent : s'.content z = clear (s.content z)
      (find (z.placesOf hash) (s.content z) (.key (textBytes key)))) :
    ∃ t', (t.GetKeyValCopy key = false ∧ t' = t ∨ ∃ x ∈ t, x.key = key ∧ t' = t.DelUidVal x.uid) ∧
      Represents z stamp s' t' := by
  cases hfind : find (z.placesOf hash) (s.content z) (.key (textBytes key)) with
  | none =>
    have hget : t.GetKeyValCopy key = false := by
      rw [h.getKeyValCopy hs hkey, value, hfind]
      rfl
    rw [hfind] at hcontent
    exact ⟨t, .inl ⟨hget, rfl⟩, h.of_content hcontent⟩
  | some p =>
    obtain ⟨a, v, hp, heq | heq⟩ := exists_of_find hfind
    · cases heq
      obtain ⟨x, hx, rfl, rfl⟩ := h.exists_of_content hkey hp
      rw [hfind] at hcontent
      exact ⟨_, .inr ⟨x, hx, rfl, rfl⟩, h.delUidVal hz hx hcontent⟩
    · cases heq

theorem Represents.of_clear_uid (huid : uid < 2 ^ 32)
    (hcontent : s'.content z = clear (s.content z)
      (find (z.placesOf hash) (s.content z) (.place (z.place uid)))) :
    Represents z stamp s' (t.DelUidVal uid) := by
  cases hget : t.GetUidValCopy uid with
  | false =>
    have hnone := h.getUidValCopy hz hash huid
    rw [hget] at hnone
    rw [find_eq_none_of_value hnone.symm] at hcontent
    rw [RequestTable.delUidVal_of_not_found hget]
    exact h.of_content hcontent
  | true =>
    obtain ⟨x, hx, heq⟩ := List.any_eq_true.mp hget
    obtain rfl := of_decide_eq_true heq
    have hplace : find (z.placesOf hash) (s.content z) (.place (z.place x.uid)) =
        some (z.place x.uid) := by
      rw [find, h.entry x hx]
      rfl
    rw [hplace] at hcontent
    exact h.delUidVal hz hx hcontent

end Deleted

section Simulation

variable (h : Represents z stamp s t) (hs : s.Sound l hash) (henv : env.Within l)
  (hz : z.wins * z.tabs * z.rows * z.refs = 2 ^ 32)
  (hstamp : ∀ x, 20 + (stamp x).length ≤ l.record)

include h hs henv hz hstamp

theorem Represents.ensures_put (hkey : IsKey key) (val : ℚ) :
    Ensures (fun e => NoSpace l env e ∨ e = .tabOverflow ∧ s.Full z hash (textBytes key))
      (fun r => t.GetUidValCopy r.1 = false ∧ r.2.Sound l hash ∧
        Represents z stamp r.2 (t.PutKeyVal r.1 key val))
      (s.shf_put_key_val z hash env (textBytes key) (.bytes (stamp val))) := by
  by_cases hfree : ∃ p ∈ z.placesOf hash (textBytes key), s.content z p = none
  · have hrecord : 1 + 4 + (textBytes key).length + 4 + (ShfVal.bytes (stamp val)).val_len ≤
        l.record := by
      have hlength : (textBytes key).length ≤ 11 := by
        rw [textBytes, List.length_map]
        exact hkey.1
      have := hstamp val
      change 1 + 4 + (textBytes key).length + 4 + (stamp val).length ≤ l.record
      omega
    refine ((hs.ensures_put henv hrecord hfree).weaken fun e he => .inl he).imp ?_
    rintro ⟨uid, s'⟩ ⟨hs', p, hmem, hp, huid, hplace, hcontent⟩
    dsimp only at huid hplace hcontent
    have hlt : uid < 2 ^ 32 := by
      rw [huid, ← hz]
      exact Shf.uid_lt_of_mem hmem
    obtain ⟨hnew, h'⟩ := h.putKeyVal hlt hkey val (hplace.symm ▸ hp) (hplace.symm ▸ hcontent)
    exact ⟨hnew, hs', h'⟩
  · have hfull : s.Full z hash (textBytes key) := fun p hp hnone => hfree ⟨p, hp, hnone⟩
    exact ((hs.ensures_put_full henv hfull _).weaken fun e he =>
      he.imp_right fun he => ⟨he, hfull⟩).imp fun _ hfalse => hfalse.elim

/-- A call over the file does what a call over the table may do. -/
theorem Represents.ensures_serve {c : StoreCall} (hc : c.Proper z) :
    Ensures (fun e => NoSpace l env e ∨
        e = .tabOverflow ∧ ∃ key val, c = .PutKeyVal key val ∧ s.Full z hash (textBytes key))
      (fun r => ∃ t', t.Serve c r.1 t' ∧ r.2.Sound l hash ∧ Represents z stamp r.2 t')
      (s.serve z hash env stamp c) := by
  cases c with
  | PutKeyVal key val =>
    refine ((h.ensures_put hs henv hz hstamp hc val).weaken fun e he =>
      he.imp_right fun he => ⟨he.1, key, val, rfl, he.2⟩).imp ?_
    rintro ⟨uid, s'⟩ ⟨hnew, hs', h'⟩
    exact ⟨_, ⟨hnew, rfl⟩, hs', h'⟩
  | GetKeyValCopy key =>
    refine ((hs.ensures_lookup henv key z.uidNone .andCopyVal).weaken fun _ => .inl).imp ?_
    rintro ⟨answer, s'⟩ ⟨hs', hanswer, hcontent⟩
    rw [query_key, ← h.getKeyValCopy hs hc] at hanswer
    exact ⟨t, ⟨hanswer, rfl⟩, hs', h.of_content hcontent⟩
  | GetUidValCopy key uid =>
    refine ((hs.ensures_lookup henv key uid .andCopyVal).weaken fun _ => .inl).imp ?_
    rintro ⟨answer, s'⟩ ⟨hs', hanswer, hcontent⟩
    rw [query_uid hc.2, ← h.getUidValCopy hz hash hc.1] at hanswer
    exact ⟨t, ⟨hanswer, rfl⟩, hs', h.of_content hcontent⟩
  | DelKeyVal key =>
    refine ((hs.ensures_lookup henv key z.uidNone .andDelete).weaken fun _ => .inl).imp ?_
    rintro ⟨answer, s'⟩ ⟨hs', hanswer, hcontent⟩
    rw [query_key, ← h.getKeyValCopy hs hc] at hanswer
    rw [query_key, if_pos rfl] at hcontent
    obtain ⟨t', hdel, h'⟩ := h.of_clear_key hz hs hc hcontent
    exact ⟨t', ⟨hanswer, hdel⟩, hs', h'⟩
  | DelUidVal key uid =>
    refine ((hs.ensures_lookup henv key uid .andDelete).weaken fun _ => .inl).imp ?_
    rintro ⟨answer, s'⟩ ⟨hs', hanswer, hcontent⟩
    rw [query_uid hc.2, ← h.getUidValCopy hz hash hc.1] at hanswer
    rw [query_uid hc.2, if_pos rfl] at hcontent
    exact ⟨_, ⟨hanswer, rfl⟩, hs', h.of_clear_uid hz hc.1 hcontent⟩

end Simulation

end Serve

section Programs

variable {get del : StoreCall} {missing found : SharedGx × Text × Int}

theorem uses_lookup {P : StoreCall → Prop} (hget : P get) (hdel : P del) :
    (do
      let answer ← (Prog.ask get : Prog StoreCall Nat Nat)
      if answer = 0 then do
        let _ ← Prog.ask del
        return missing
      else return found).Uses P := by
  refine ⟨hget, fun answer => ?_⟩
  simp only [Prog.bind]
  split_ifs
  · exact ⟨hdel, fun _ => trivial⟩
  · trivial

theorem bounded_lookup (n : Nat) :
    (do
      let answer ← (Prog.ask get : Prog StoreCall Nat Nat)
      if answer = 0 then do
        let _ ← Prog.ask del
        return missing
      else return found).Bounded (n + 2) := by
  intro answer
  simp only [Prog.bind]
  split_ifs
  · exact fun _ => trivial
  · trivial

/-- A lookup with nobody in between: what is deleted was not there. -/
theorem alone_lookup {t : RequestTable} {b : Bool}
    (hget : ∀ {r t'}, t.Serve get r t' → r = b.toNat ∧ t' = t)
    (hdel : b = false → ∀ {r t'}, t.Serve del r t' → t' = t)
    {Q : SharedGx × Text × Int → RequestTable → Prop} (hmissing : b = false → Q missing t)
    (hfound : b = true → Q found t) :
    (do
      let answer ← Prog.ask get
      if answer = 0 then do
        let _ ← Prog.ask del
        return missing
      else return found).Alone RequestTable.Serve (fun t t' => t ⊆ t') Q t := by
  intro answer t' hserve
  obtain ⟨rfl, rfl⟩ := hget hserve
  refine ⟨List.Subset.refl _, ?_⟩
  cases b with
  | true => exact hfound rfl
  | false =>
    intro _ t'' hserve'
    obtain rfl := hdel rfl hserve'
    exact ⟨List.Subset.refl _, hmissing rfl⟩

variable {toUid : Nat → Int}

theorem uses_addPktShf {z : ShfSizes} (huid : ∀ n, (toUid n % 2 ^ 32).toNat ≠ z.uidNone)
    (g : SharedGx) (last : Text) (pkt : Diameter) :
    (g.addPktShf toUid last pkt).Uses (StoreCall.Proper z) := by
  have hkey := isKey_hopText pkt
  unfold SharedGx.addPktShf
  cases InterfaceKind.gx.msgKey pkt with
  | none => trivial
  | some reqtype =>
    dsimp only
    have hlt : (toUid (g.req.fetch reqtype pkt.hopKey 0).1 % 2 ^ 32).toNat < 2 ^ 32 := by omega
    have hproper := And.intro hlt (huid (g.req.fetch reqtype pkt.hopKey 0).1)
    split_ifs
    · exact ⟨hkey, fun _ => trivial⟩
    · exact uses_lookup hkey hkey
    · exact uses_lookup hproper hproper
    · trivial

theorem uses_addPkts {z : ShfSizes} (huid : ∀ n, (toUid n % 2 ^ 32).toNat ≠ z.uidNone)
    (g : SharedGx) (last : Text) (pkts : List Diameter) :
    (g.addPkts toUid last pkts).Uses (StoreCall.Proper z) := by
  induction pkts generalizing g last with
  | nil => trivial
  | cons pkt pkts ih => exact (uses_addPktShf huid g last pkt).bind fun r => ih r.1 r.2.1

theorem bounded_addPktShf (toUid : Nat → Int) (g : SharedGx) (last : Text) (pkt : Diameter)
    (n : Nat) : (g.addPktShf toUid last pkt).Bounded (n + 2) := by
  unfold SharedGx.addPktShf
  cases InterfaceKind.gx.msgKey pkt with
  | none => trivial
  | some reqtype =>
    dsimp only
    split_ifs
    · exact fun _ => trivial
    · exact bounded_lookup n
    · exact bounded_lookup n
    · trivial

theorem bounded_addPkts (toUid : Nat → Int) (g : SharedGx) (last : Text) (pkts : List Diameter)
    (n : Nat) : (g.addPkts toUid last pkts).Bounded (n + 2 * pkts.length) := by
  induction pkts generalizing g last n with
  | nil => trivial
  | cons pkt pkts ih =>
    rw [List.length_cons, Nat.mul_succ, Nat.add_comm _ 2, ← Nat.add_assoc]
    exact (bounded_addPktShf toUid g last pkt n).bind fun r => ih r.1 r.2.1

/-- `addPkt` with the table to itself deletes nothing, and does what it does as one step. -/
theorem alone_addPktShf (toUid : Nat → Int) (g : SharedGx) (last : Text) (pkt : Diameter)
    (t : RequestTable) : (g.addPktShf toUid last pkt).Alone RequestTable.Serve (fun t t' => t ⊆ t')
      (fun r t' => ∃ uid, g.addPkt toUid t pkt uid = (r.1, t', r.2.2)) t := by
  unfold SharedGx.addPktShf SharedGx.addPkt
  cases InterfaceKind.gx.msgKey pkt with
  | none => exact ⟨0, rfl⟩
  | some reqtype =>
    dsimp only
    by_cases hreq : pkt.request = 1
    · simp only [if_pos hreq]
      rintro uid _ ⟨-, rfl⟩
      exact ⟨List.subset_append_left _ _, uid, rfl⟩
    · simp only [if_neg hreq]
      by_cases hans : pkt.request = 0
      · simp only [if_pos hans]
        by_cases hzero : toUid (g.req.fetch reqtype pkt.hopKey 0).1 = 0
        · simp only [if_pos hzero]
          refine alone_lookup (b := t.GetKeyValCopy pkt.hopText) ?_ ?_ ?_ ?_
          · intro _ _ hserve
            exact hserve
          · rintro hget _ _ ⟨-, ⟨-, rfl⟩ | ⟨x, hx, heq, -⟩⟩
            · rfl
            · exact absurd (by simpa using heq) (List.any_eq_false.mp hget x hx)
          · intro hget
            exact ⟨0, by simp [hget, RequestTable.delKeyVal_of_not_found hget]⟩
          · intro hget
            exact ⟨0, by simp [hget]⟩
        · simp only [if_neg hzero]
          refine alone_lookup (b := t.GetUidValCopy
            (toUid (g.req.fetch reqtype pkt.hopKey 0).1 % 2 ^ 32).toNat) ?_ ?_ ?_ ?_
          · intro _ _ hserve
            exact hserve
          · rintro hget _ _ ⟨-, rfl⟩
            exact RequestTable.delUidVal_of_not_found hget
          · intro hget
            exact ⟨0, by rw [hget, RequestTable.delUidVal_of_not_found hget]; rfl⟩
          · intro hget
            exact ⟨0, by rw [hget]; rfl⟩
      · simp only [if_neg hans]
        exact ⟨0, rfl⟩

def Diameter.isGxRequest (pkt : Diameter) : Bool :=
  (InterfaceKind.gx.msgKey pkt).isSome && decide (pkt.request = 1)

/-- Only requests change the table. -/
theorem addPkt_table (toUid : Nat → Int) (g : SharedGx) (t : RequestTable) (pkt : Diameter)
    (uid : Nat) : (g.addPkt toUid t pkt uid).2.1 =
      if pkt.isGxRequest then t.PutKeyVal uid pkt.hopText pkt.timeStamp else t := by
  by_cases hans : pkt.IsGxAnswer
  · rw [(addPkt_of_isGxAnswer hans toUid g t uid).1, if_neg (by simp [Diameter.isGxRequest, hans.2])]
  · unfold SharedGx.addPkt Diameter.isGxRequest
    cases hmsg : InterfaceKind.gx.msgKey pkt with
    | none => rfl
    | some reqtype =>
      have hreq : pkt.request ≠ 0 := fun h => hans ⟨by rw [hmsg]; rfl, h⟩
      by_cases hone : pkt.request = 1
      · simp [hone]
      · simp [hone, hreq]

/-- The requests of a hop identifier among the packets. -/
def requestsOf (text : Text) (pkts : List Diameter) : Nat :=
  pkts.countP fun pkt => pkt.isGxRequest && decide (pkt.hopText = text)

/-- A process that has the table to itself deletes nothing, and in the end the table has all of
its requests. -/
theorem alone_addPkts (toUid : Nat → Int) (g : SharedGx) (last : Text) (pkts : List Diameter)
    (t : RequestTable) {n : Text → Nat}
    (hn : ∀ text, t.countP (fun x => x.key = text) + requestsOf text pkts = n text) :
    (g.addPkts toUid last pkts).Alone RequestTable.Serve (fun t t' => t ⊆ t')
      (fun _ t' => ∀ text, t'.countP (fun x => x.key = text) = n text) t := by
  induction pkts generalizing g last t with
  | nil => exact hn
  | cons pkt pkts ih =>
    refine (alone_addPktShf toUid g last pkt t).bind ?_
    rintro ⟨g', last', _⟩ t' ⟨uid, hadd⟩
    refine ih g' last' t' fun text => ?_
    have htable := addPkt_table toUid g t pkt uid
    rw [hadd] at htable
    dsimp only at htable
    rw [← hn text, htable, requestsOf, requestsOf, List.countP_cons]
    by_cases hreq : pkt.isGxRequest = true
    · rw [if_pos hreq, RequestTable.PutKeyVal, List.countP_append, List.countP_singleton, hreq,
        Bool.true_and]
      dsimp only
      omega
    · rw [if_neg hreq, Bool.eq_false_iff.mpr hreq, Bool.false_and, if_neg Bool.false_ne_true]
      omega

theorem addPkts_of_isGxAnswer (toUid : Nat → Int) (g : SharedGx) {pkt : Diameter}
    (h : pkt.IsGxAnswer) (hzero : toUid (g.req.fetch pkt.reqType pkt.hopKey 0).1 = 0) (last : Text)
    (pkts : List Diameter) : ∃ get del,
      g.addPkts toUid last (pkt :: pkts) = .call (.GetKeyValCopy pkt.hopText) get ∧
        get 0 = .call (.DelKeyVal pkt.hopText) del := by
  have hreq : pkt.request ≠ 1 := by
    rw [h.2]
    decide
  simp only [SharedGx.addPkts, SharedGx.addPktShf, msgKey_of_isGxAnswer h, if_neg hreq, if_pos h.2,
    if_pos hzero]
  exact ⟨_, _, rfl, rfl⟩

theorem addPkts_of_isGxRequest (toUid : Nat → Int) (g : SharedGx) {pkt : Diameter}
    (h : pkt.isGxRequest = true) (last : Text) (pkts : List Diameter) : ∃ put,
      g.addPkts toUid last (pkt :: pkts) = .call (.PutKeyVal pkt.hopText pkt.timeStamp) put := by
  obtain ⟨hsome, hreq⟩ := (Bool.and_eq_true _ _).mp h
  obtain ⟨reqtype, hmsg⟩ := Option.isSome_iff_exists.mp hsome
  simp only [SharedGx.addPkts, SharedGx.addPktShf, hmsg, if_pos (of_decide_eq_true hreq)]
  exact ⟨_, rfl⟩

end Programs

/-- No entry is deleted or changed. -/
def Shf.Keeps (z : ShfSizes) (s s' : Shf) : Prop :=
  ∀ p e, s.content z p = some e → s'.content z p = some e

namespace Represents

variable {z : ShfSizes} {stamp : ℚ → List (BitVec 8)} {s s' : Shf} {t t' : RequestTable}

theorem keeps (h : Represents z stamp s t) (h' : Represents z stamp s' t') (hsub : t ⊆ t') :
    s.Keeps z s' := by
  intro p e hp
  obtain ⟨x, hx, rfl⟩ := h.all hp
  rw [← hp, h.entry x hx, h'.entry x (hsub hx)]

theorem not_full (h : Represents z stamp s []) (hash : List (BitVec 8) → BitVec 128)
    (key : List (BitVec 8)) : ¬ s.Full z hash key := by
  intro hfull
  have hplace : z.placeOf hash key 0 ∈ z.placesOf hash key :=
    Shf.mem_placesOf.mpr ⟨0, z.refs_pos, rfl⟩
  obtain ⟨e, he⟩ := Option.ne_none_iff_exists'.mp (hfull _ hplace)
  obtain ⟨x, hx, -⟩ := h.all he
  cases hx

end Represents

namespace StoreSystem

variable {ι : Type} [DecidableEq ι] {z : ShfSizes} {l : ShfLimits z}
  {hash : List (BitVec 8) → BitVec 128} {env : ShfEnv} {stamp : ℚ → List (BitVec 8)}
  {toUid : Nat → Int}

section Results

variable (hz : z.wins * z.tabs * z.rows * z.refs = 2 ^ 32)
  (hstamp : ∀ x, 20 + (stamp x).length ≤ l.record)

include hz hstamp

/-- With space on the disk, the only call that exits is a put for which there is no place. -/
theorem next_call (henv : env.Within l) (hspace : z.tabMax l.record l.factor < env.vfs_available)
    {s : StoreSystem ι} {t : RequestTable} (hs : s.store.Sound l hash)
    (h : Represents z stamp s.store t) {i : ι} {c : StoreCall}
    {k : Nat → Prog StoreCall Nat (SharedGx × Text)} (hi : s.process i = .call c k)
    (hc : c.Proper z)
    (hfree : ∀ key val, c = .PutKeyVal key val → ¬ s.store.Full z hash (textBytes key)) :
    ∃ answer t' store, s.next (Shf.serve z hash env stamp) i =
        .ok ⟨store, Function.update s.process i (k answer)⟩ ∧
      t.Serve c answer t' ∧ store.Sound l hash ∧ Represents z stamp store t' := by
  have hserve : Ensures (fun _ => False)
      (fun r => ∃ t', t.Serve c r.1 t' ∧ r.2.Sound l hash ∧ Represents z stamp r.2 t')
      (s.store.serve z hash env stamp c) := by
    refine (h.ensures_serve hs henv hz hstamp hc).weaken ?_
    rintro e (⟨-, hle⟩ | ⟨-, key, val, hput, hfull⟩)
    · exact Nat.not_lt.mpr hle hspace
    · exact hfree key val hput hfull
  obtain ⟨⟨answer, store⟩, hok, t', ht', hs', h'⟩ := hserve.exists_ok
  refine ⟨answer, t', store, ?_, ht', hs', h'⟩
  rw [System.next, hi]
  dsimp only
  rw [hok]
  rfl

/-- Process `i` looks for a key, process `j` stores it, and then `i` deletes it. -/
theorem exists_not_keeps (hash : List (BitVec 8) → BitVec 128) (henv : env.Within l)
    (hspace : z.tabMax l.record l.factor < env.vfs_available) {i j : ι} (hne : i ≠ j)
    (process : ι → Prog StoreCall Nat (SharedGx × Text)) {key : Text} (hkey : IsKey key) {val : ℚ}
    {get put del : Nat → Prog StoreCall Nat (SharedGx × Text)}
    (hi : process i = .call (.GetKeyValCopy key) get) (hget : get 0 = .call (.DelKeyVal key) del)
    (hj : process j = .call (.PutKeyVal key val) put) :
    ∃ s s' : StoreSystem ι,
      System.run (fun env => Shf.serve z hash env stamp) ⟨Shf.create z, process⟩
          [(i, env), (j, env)] = .ok s ∧
        s.next (Shf.serve z hash env stamp) i = .ok s' ∧ ¬ s.store.Keeps z s'.store := by
  obtain ⟨_, _, s₁, hs₁, ⟨rfl, rfl⟩, hsound₁, h₁⟩ := next_call hz hstamp henv hspace
    (s := ⟨Shf.create z, process⟩) (c := .GetKeyValCopy key) (Shf.sound_create l hash)
    (Represents.create z stamp) hi hkey (fun _ _ hput => by cases hput)
  obtain ⟨uid, _, s₂, hs₂, ⟨-, rfl⟩, hsound₂, h₂⟩ := next_call hz hstamp henv hspace
    (s := ⟨s₁, Function.update process i (get 0)⟩) (i := j) (c := .PutKeyVal key val) hsound₁ h₁
    ((Function.update_of_ne hne.symm _ _).trans hj) hkey (fun _ _ _ => h₁.not_full hash _)
  let p₂ := Function.update (Function.update process i (get 0)) j (put uid)
  have hi₂ : p₂ i = .call (.DelKeyVal key) del := by
    simp only [p₂, Function.update_of_ne hne, Function.update_self, hget]
  obtain ⟨_, t₃, s₃, hs₃, ⟨-, hdel⟩, -, h₃⟩ := next_call hz hstamp henv hspace
    (s := ⟨s₂, p₂⟩) (c := .DelKeyVal key) hsound₂ h₂ hi₂ hkey (fun _ _ hput => by cases hput)
  refine ⟨⟨s₂, p₂⟩, _, ?_, hs₃, fun hkeeps => ?_⟩
  · rw [System.run, List.foldlM_cons, hs₁]
    change (System.next _ ⟨s₁, Function.update process i (get 0)⟩ j >>= pure) = _
    rw [hs₂]
    rfl
  · -- the table had the request of `j`, and is empty now
    obtain rfl : t₃ = [] := by
      rcases hdel with ⟨hmissing, -⟩ | ⟨x, hx, -, rfl⟩
      · simp [RequestTable.GetKeyValCopy, RequestTable.PutKeyVal] at hmissing
      · rw [List.mem_singleton.mp hx]
        simp [RequestTable.DelUidVal, RequestTable.PutKeyVal]
    have hentry := hkeeps _ _ (h₂.entry ⟨uid, key, val⟩ (List.mem_singleton_self _))
    obtain ⟨x, hx, -⟩ := h₃.all hentry
    cases hx

theorem ensures_call (henv : env.Within l) {s : Shf} {t : RequestTable}
    (h : s.Sound l hash ∧ Represents z stamp s t) {c : StoreCall} (hc : c.Proper z) :
    Ensures (fun e => e = .space ∨ e = .tabOverflow)
      (fun r => ∃ t', t.Serve c r.1 t' ∧ r.2.Sound l hash ∧ Represents z stamp r.2 t')
      (s.serve z hash env stamp c) :=
  (h.2.ensures_serve h.1 henv hz hstamp hc).weaken fun _ he => he.imp And.left And.left

variable (huid : ∀ n, (toUid n % 2 ^ 32).toNat ≠ z.uidNone)

include huid

theorem ensures_run (start : ι → SharedGx) (pkts : ι → List Diameter)
    {events : List (ι × ShfEnv)} (hevents : ∀ e ∈ events, e.2.Within l) :
    Ensures (fun e => e = .space ∨ e = .tabOverflow)
      (fun s => ∃ t, Run RequestTable.Serve ⟨[], programs toUid start pkts⟩ (events.map Prod.fst)
          ⟨t, s.process⟩ ∧ (s.store.Sound l hash ∧ Represents z stamp s.store t) ∧
        ∀ i, (s.process i).Uses (StoreCall.Proper z))
      (run z hash stamp toUid start pkts events) := by
  refine Calls.ensures_run (R := fun s t => s.Sound l hash ∧ Represents z stamp s t) ?_
    ⟨Shf.sound_create l hash, Represents.create z stamp⟩
    (fun i => uses_addPkts huid (start i) [] (pkts i))
  intro e he s t c h hc
  exact ensures_call hz hstamp (hevents e he) h hc

/-- Processes over the file that have not exited are where the calls over some table have brought
them, and the file has the entries of the table. -/
theorem run_refines {start : ι → SharedGx} {pkts : ι → List Diameter}
    {events : List (ι × ShfEnv)} (hevents : ∀ e ∈ events, e.2.Within l) {s : StoreSystem ι}
    (hrun : run z hash stamp toUid start pkts events = .ok s) :
    ∃ t, Run RequestTable.Serve ⟨[], programs toUid start pkts⟩ (events.map Prod.fst)
        ⟨t, s.process⟩ ∧ Represents z stamp s.store t := by
  obtain ⟨t, hrun', h, -⟩ :=
    (StoreSystem.ensures_run hz hstamp huid start pkts hevents).of_eq_ok hrun
  exact ⟨t, hrun', h.2⟩

/-- A single process deletes nothing. -/
theorem keeps_of_subsingleton [Subsingleton ι] {start : ι → SharedGx} {pkts : ι → List Diameter}
    {events : List (ι × ShfEnv)} (hevents : ∀ e ∈ events, e.2.Within l) (henv : env.Within l)
    {i : ι} {s s' : StoreSystem ι} (hrun : run z hash stamp toUid start pkts events = .ok s)
    (hnext : s.next (Shf.serve z hash env stamp) i = .ok s') : s.store.Keeps z s'.store := by
  obtain ⟨t, hrun', h, huses⟩ :=
    (StoreSystem.ensures_run hz hstamp huid start pkts hevents).of_eq_ok hrun
  obtain ⟨t', hstep, h', -⟩ :=
    (ensures_next (R := fun s t => s.Sound l hash ∧ Represents z stamp s t)
      (fun _ hc => ensures_call hz hstamp henv h hc) h huses i).of_eq_ok hnext
  have halone := hrun'.alone (alone_addPkts toUid (start i) [] (pkts i) [] fun _ => rfl)
  rcases (hstep.alone halone).1 with heq | hsub
  · obtain rfl : t' = t := congrArg System.store heq
    exact h.2.keeps h'.2 (List.Subset.refl _)
  · exact h.2.keeps h'.2 hsub

/-- A single process does not survive more requests of one hop identifier than a key has
places. -/
theorem exits_of_requests [Subsingleton ι] (start : ι → SharedGx) (pkts : ι → List Diameter)
    (i : ι) (text : Text) (hmany : z.refs < requestsOf text (pkts i))
    {events : List (ι × ShfEnv)} (hevents : ∀ e ∈ events, e.2.Within l)
    (hlen : 2 * (pkts i).length ≤ events.length) :
    ∃ e, run z hash stamp toUid start pkts events = .error e ∧ (e = .space ∨ e = .tabOverflow) := by
  have hbounded : (programs toUid start pkts i).Bounded events.length := by
    have h := bounded_addPkts toUid (start i) [] (pkts i) (events.length - 2 * (pkts i).length)
    rwa [Nat.sub_add_cancel hlen] at h
  cases hrun : run z hash stamp toUid start pkts events with
  | error e =>
    exact ⟨e, rfl, (StoreSystem.ensures_run hz hstamp huid start pkts hevents).of_eq_error hrun⟩
  | ok s =>
    obtain ⟨r, hdone⟩ :=
      (ensures_done (fun e _ => Subsingleton.elim e.1 i) hbounded).of_eq_ok hrun
    obtain ⟨t, hrun', h, -⟩ :=
      (StoreSystem.ensures_run hz hstamp huid start pkts hevents).of_eq_ok hrun
    have halone := hrun'.alone (alone_addPkts toUid (start i) [] (pkts i) [] fun _ => rfl)
    dsimp only at halone
    rw [hdone] at halone
    have hcount := halone text
    rw [List.countP_nil, Nat.zero_add] at hcount
    have hle := h.2.countP_le h.1 hz text
    rw [hcount] at hle
    exact absurd hle (Nat.not_le.mpr hmany)

end Results

/-- The conversion of a `double` to an `int` on the machine. -/
def machineUid (n : Nat) : Int := if n < 2 ^ 31 then n else -2 ^ 31

theorem machineUid_ne (n : Nat) : (machineUid n % 2 ^ 32).toNat ≠ shfSizes.uidNone := by
  have hnone : shfSizes.uidNone = 4294967295 := by decide
  rw [hnone]
  unfold machineUid
  split_ifs
  · omega
  · omega

/-- A process looks for a request, another one stores it, and the first one deletes it. -/
def threeCalls : List (Bool × ShfEnv) :=
  [(false, ⟨250, 2 ^ 30⟩), (true, ⟨250, 2 ^ 29⟩), (false, ⟨250, 2 ^ 29⟩)]

theorem threeCalls_within : ∀ e ∈ threeCalls, e.2.Within Shf.fileLimits := by
  simp only [threeCalls, List.forall_mem_cons, List.not_mem_nil, false_imp_iff, implies_true,
    and_true]
  exact ⟨⟨by decide, by decide⟩, ⟨by decide, by decide⟩, by decide, by decide⟩

theorem run_refines_three :
    let start : Bool → SharedGx := fun _ => ⟨.zero, ∅⟩
    let pkts : Bool → List Diameter := fun i => if i then [gxRequest 7 25] else [gxAnswer 7 26]
    ∃ s, run shfSizes (fun _ => 0) (fun _ => [0x32, 0x35]) machineUid start pkts threeCalls =
        .ok s ∧
      ∃ t, Run RequestTable.Serve ⟨[], programs machineUid start pkts⟩ [false, true, false]
          ⟨t, s.process⟩ ∧ Represents shfSizes (fun _ => [0x32, 0x35]) s.store t := by
  intro start pkts
  cases hrun : run shfSizes (fun _ => 0) (fun _ => [0x32, 0x35]) machineUid start pkts
      threeCalls with
  | ok s =>
    exact ⟨s, rfl, run_refines (by decide) (fun _ => by decide) machineUid_ne threeCalls_within
      hrun⟩
  | error e =>
    have hok : (run shfSizes (fun _ => 0) (fun _ => [0x32, 0x35]) machineUid start pkts
      threeCalls).isOk = true := by decide +kernel
    rw [hrun] at hok
    cases hok

end StoreSystem

end AnalysePcap
