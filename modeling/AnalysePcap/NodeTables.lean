import AnalysePcap.Digits
import AnalysePcap.Isolation
import AnalysePcap.NameRegistry
import AnalysePcap.Run
import Mathlib.Data.Fintype.Basic

/-! `Interface::initialiseShf` in any number of calls on one folder of shared hash files.
A call looks up its node pair, and if there is no entry it searches for the first name
`node_1`, `node_2`, ... without a table, publishes it, and only then creates the table. -/

namespace AnalysePcap

open NameRegistry

def nul : Char := Char.ofNat 0

/-- The text that `%s` prints for a buffer. -/
def cString (buffer : Text) : Text := buffer.takeWhile (· ≠ nul)

/-- `memcpy` to the beginning of a buffer. -/
def overwrite (val buffer : Text) : Text := val ++ buffer.drop val.length

def Shfnodelist : Text := "NodeList".toList

def nodeName (i : Nat) : Text := "node_".toList ++ Nat.toDigits 10 i

/-- The tables in the folder, and the pairs in the table `NodeList`. -/
structure Folder where
  tables : List Text
  nodeList : List (Text × Text)

namespace Folder

def Attach (f : Folder) (name : Text) : Folder :=
  if name ∈ f.tables then f else { f with tables := name :: f.tables }

def GetKeyValCopy (f : Folder) (key : Text) : Option Text :=
  (f.nodeList.find? fun entry => entry.1 = key).map Prod.snd

def PutKeyVal (f : Folder) (key val : Text) : Folder :=
  { f with nodeList := f.nodeList ++ [(key, val)] }

end Folder

inductive ShfOp where
  | attachExistingNodeList
  | attachNodeList
  | getKeyValCopy
  | probe (i : Nat)
  | putKeyVal (Shfhopreqlst : Text)
  | attachExisting (Shfhopreqlst : Text)
  | attach (Shfhopreqlst : Text)
  | returned
  deriving DecidableEq

/-- A call: its argument, the buffer `shf_val` of its thread, and the table that the
handle `shfrql` is attached to. -/
structure ShfCall where
  nodepair : Text
  shf_val : Text
  shfrql : Option Text
  op : ShfOp

def ShfCall.next (c : ShfCall) (f : Folder) : ShfCall × Folder :=
  match c.op with
  | .attachExistingNodeList =>
    if Shfnodelist ∈ f.tables then ({ c with op := .getKeyValCopy }, f)
    else ({ c with op := .attachNodeList }, f)
  | .attachNodeList => ({ c with op := .getKeyValCopy }, f.Attach Shfnodelist)
  | .getKeyValCopy =>
    -- `sizeof(shf_val)` is the size of a pointer
    let shf_val := overwrite (List.replicate 8 nul) c.shf_val
    match f.GetKeyValCopy c.nodepair with
    | some val =>
      let shf_val := overwrite val shf_val
      ({ c with shf_val := shf_val, op := .attachExisting (cString shf_val) }, f)
    | none => ({ c with shf_val := shf_val, op := .probe 1 }, f)
  | .probe i =>
    if nodeName i ∈ f.tables then ({ c with shfrql := some (nodeName i), op := .probe (i + 1) }, f)
    else ({ c with shfrql := none, op := .putKeyVal (nodeName i) }, f)
  | .putKeyVal Shfhopreqlst =>
    ({ c with op := .attachExisting Shfhopreqlst }, f.PutKeyVal c.nodepair Shfhopreqlst)
  | .attachExisting Shfhopreqlst =>
    if c.shfrql.isSome then ({ c with op := .returned }, f)
    else if Shfhopreqlst ∈ f.tables then
      ({ c with shfrql := some Shfhopreqlst, op := .returned }, f)
    else ({ c with shfrql := none, op := .attach Shfhopreqlst }, f)
  | .attach Shfhopreqlst =>
    ({ c with shfrql := some Shfhopreqlst, op := .returned }, f.Attach Shfhopreqlst)
  | .returned => (c, f)

structure ShfSystem (ι : Type*) where
  folder : Folder
  call : ι → ShfCall

namespace ShfSystem

variable {ι : Type*}

/-- The folder may have any tables, but nothing is published yet. -/
def initial (tables : List Text) (nodepair shf_val : ι → Text) : ShfSystem ι where
  folder := ⟨tables, []⟩
  call p := ⟨nodepair p, shf_val p, none, .attachExistingNodeList⟩

def next [DecidableEq ι] (s : ShfSystem ι) (p : ι) : ShfSystem ι where
  folder := ((s.call p).next s.folder).2
  call := Function.update s.call p ((s.call p).next s.folder).1

/-- Calls that have returned are attached to the same table exactly if they are for the
same node pair. -/
def Agreed (s : ShfSystem ι) : Prop :=
  ∀ p q m n, (s.call p).op = .returned → (s.call p).shfrql = some m →
    (s.call q).op = .returned → (s.call q).shfrql = some n →
      ((s.call p).nodepair = (s.call q).nodepair ↔ m = n)

end ShfSystem

namespace ShfCall

/-- The call has found no entry for its node pair and not yet published one. -/
def Choosing (c : ShfCall) : Bool :=
  match c.op with
  | .probe _ => true
  | .putKeyVal _ => true
  | _ => false

/-- The call is going to attach this table and may have to create it. -/
def Attaching (c : ShfCall) (name : Text) : Prop :=
  c.op = .putKeyVal name ∨ c.op = .attachExisting name ∨ c.op = .attach name

def status (c : ShfCall) : Status Text :=
  match c.op with
  | .attachExistingNodeList => .idle
  | .attachNodeList => .idle
  | .getKeyValCopy => .idle
  | .probe _ => .choosing
  | .putKeyVal name => .chosen name
  | .attachExisting name => .bound name
  | .attach name => .bound name
  | .returned =>
    match c.shfrql with
    | some name => .finished name
    | none => .idle

instance (c : ShfCall) (name : Text) : Decidable (c.Attaching name) :=
  inferInstanceAs (Decidable (_ ∨ _ ∨ _))

theorem choosing_of_undecided {c : ShfCall} (h : c.status.Undecided) : c.Choosing = true := by
  obtain ⟨nodepair, shf_val, shfrql, op⟩ := c
  cases op with
  | probe i => rfl
  | putKeyVal name => rfl
  | returned => cases shfrql <;> exact False.elim h
  | _ => exact False.elim h

theorem attaching_of_holds {c : ShfCall} {name : Text} (h : c.status.Holds name) :
    c.Attaching name := by
  obtain ⟨nodepair, shf_val, shfrql, op⟩ := c
  cases op with
  | putKeyVal name' => exact .inl (congrArg ShfOp.putKeyVal h)
  | attachExisting name' => exact .inr (.inl (congrArg ShfOp.attachExisting h))
  | attach name' => exact .inr (.inr (congrArg ShfOp.attach h))
  | returned => cases shfrql <;> exact False.elim h
  | _ => exact False.elim h

/-- The handle is attached only while the call searches and after it has returned, and no
name that it publishes has a zero in it. -/
structure Sound (c : ShfCall) : Prop where
  shfrql : (∀ i, c.op ≠ .probe i) → c.op ≠ .returned → c.shfrql = none
  name : ∀ {n}, c.op = .putKeyVal n → nul ∉ n

end ShfCall

namespace ShfSystem

variable {ι : Type*}

/-- Nothing comes between the steps of a call that depend on each other: no other call
for the same node pair is choosing a name when the lookup fails, no other call is about to
attach the table that a search finds missing, and the buffer has nothing left over after
the name that is copied to it. -/
def Undisturbed (s : ShfSystem ι) (p : ι) : Prop :=
  match (s.call p).op with
  | .getKeyValCopy =>
    match s.folder.GetKeyValCopy (s.call p).nodepair with
    | none => ∀ q ≠ p, (s.call q).nodepair = (s.call p).nodepair → ¬ (s.call q).Choosing
    | some val => val.length < 8 ∨ cString ((s.call p).shf_val.drop val.length) = []
  | .probe i => nodeName i ∉ s.folder.tables → ∀ q ≠ p, ¬ (s.call q).Attaching (nodeName i)
  | _ => True

instance [Fintype ι] [DecidableEq ι] (s : ShfSystem ι) (p : ι) : Decidable (s.Undisturbed p) :=
  match hop : (s.call p).op with
  | .getKeyValCopy =>
    match hget : s.folder.GetKeyValCopy (s.call p).nodepair with
    | none =>
      decidable_of_iff
        (∀ q ≠ p, (s.call q).nodepair = (s.call p).nodepair → ¬ (s.call q).Choosing)
        (by simp only [Undisturbed, hop, hget])
    | some val =>
      decidable_of_iff (val.length < 8 ∨ cString ((s.call p).shf_val.drop val.length) = [])
        (by simp only [Undisturbed, hop, hget])
  | .probe i =>
    decidable_of_iff
      (nodeName i ∉ s.folder.tables → ∀ q ≠ p, ¬ (s.call q).Attaching (nodeName i))
      (by simp only [Undisturbed, hop])
  | .attachExistingNodeList => .isTrue (by simp only [Undisturbed, hop])
  | .attachNodeList => .isTrue (by simp only [Undisturbed, hop])
  | .putKeyVal _ => .isTrue (by simp only [Undisturbed, hop])
  | .attachExisting _ => .isTrue (by simp only [Undisturbed, hop])
  | .attach _ => .isTrue (by simp only [Undisturbed, hop])
  | .returned => .isTrue (by simp only [Undisturbed, hop])

def registry (s : ShfSystem ι) : Registry Text Text ι where
  entries := s.folder.nodeList
  made := {name | name ∈ s.folder.tables}
  status p := (s.call p).status

structure Sound (nodepair : ι → Text) (s : ShfSystem ι) : Prop where
  nodepair : ∀ p, (s.call p).nodepair = nodepair p
  call : ∀ p, (s.call p).Sound
  nodeList : ∀ entry ∈ s.folder.nodeList, nul ∉ entry.2

theorem cString_append {val rest : Text} (h : nul ∉ val) :
    cString (val ++ rest) = val ++ cString rest := by
  unfold cString
  rw [List.takeWhile_append_of_pos]
  intro c hc
  have hne : c ≠ nul := fun heq => h (heq ▸ hc)
  simpa using hne

theorem cString_copied {val buffer : Text} (hval : nul ∉ val)
    (h : val.length < 8 ∨ cString (buffer.drop val.length) = []) :
    cString (overwrite val (overwrite (List.replicate 8 nul) buffer)) = val := by
  rw [overwrite, cString_append hval]
  have hrest : cString ((overwrite (List.replicate 8 nul) buffer).drop val.length) = [] := by
    rw [overwrite, List.length_replicate, List.drop_append, List.drop_replicate,
      List.length_replicate]
    -- the eight zeros protect a name of up to seven characters
    rcases Nat.lt_or_ge val.length 8 with hlt | hge
    · obtain ⟨k, hk⟩ : ∃ k, 8 - val.length = k + 1 := ⟨7 - val.length, by omega⟩
      simp [hk, List.replicate_succ, cString]
    · have hzero : 8 - val.length = 0 := by omega
      have hskip : 8 + (val.length - 8) = val.length := by omega
      rw [hzero, List.drop_drop, hskip]
      rcases h with h | h
      · omega
      · exact h
  rw [hrest, List.append_nil]

theorem nul_notMem_nodeName (i : Nat) : nul ∉ nodeName i := by
  intro h
  rcases List.mem_append.mp h with h | h
  · exact absurd h (by decide)
  · exact Digits.notMem_toDigits (by decide) (by decide) (by decide) h

theorem made_Attach (f : Folder) (name : Text) :
    {n | n ∈ (f.Attach name).tables} = insert name {n | n ∈ f.tables} := by
  ext n
  unfold Folder.Attach
  split_ifs with h
  · have hname : n = name → n ∈ f.tables := fun heq => heq ▸ h
    simpa using hname
  · simp

theorem mem_of_GetKeyValCopy {f : Folder} {key val : Text} (h : f.GetKeyValCopy key = some val) :
    (key, val) ∈ f.nodeList := by
  obtain ⟨⟨key', val'⟩, hfind, rfl⟩ := Option.map_eq_some_iff.mp h
  have hkey : key' = key := by simpa using List.find?_some hfind
  rw [← hkey]
  exact List.mem_of_find?_eq_some hfind

theorem notMem_of_GetKeyValCopy {f : Folder} {key : Text} (h : f.GetKeyValCopy key = none) :
    key ∉ f.nodeList.map Prod.fst := by
  rw [Folder.GetKeyValCopy, Option.map_eq_none_iff, List.find?_eq_none] at h
  intro hmem
  obtain ⟨entry, hentry, hkey⟩ := List.mem_map.mp hmem
  exact h entry hentry (by simpa using hkey)

variable [DecidableEq ι] {nodepair : ι → Text} {s : ShfSystem ι} {p : ι}

theorem registry_next {c : ShfCall} {f : Folder} (h : (s.call p).next s.folder = (c, f)) :
    (s.next p).registry =
      { s.registry.set p c.status with
        entries := f.nodeList
        made := {name | name ∈ f.tables} } := by
  have hstatus : (fun q => (Function.update s.call p c q).status) =
      Function.update s.registry.status p c.status :=
    funext fun q => Function.apply_update (fun _ => ShfCall.status) s.call p c q
  simp only [next, h, registry, Registry.set, hstatus]

theorem set_eq_self {status : Status Text} (h : status = (s.call p).status) :
    s.registry.set p status = s.registry := by
  rw [h, Registry.set]
  exact congrArg (Registry.mk _ _) (Function.update_eq_self p s.registry.status)

theorem nodeList_Attach (f : Folder) (name : Text) : (f.Attach name).nodeList = f.nodeList := by
  unfold Folder.Attach
  split_ifs <;> rfl

theorem step_lookup (hs : s.Sound nodepair) (hop : (s.call p).op = .getKeyValCopy)
    (h : s.Undisturbed p) : Step nodepair s.registry (s.next p).registry := by
  have hidle : s.registry.status p = .idle := by simp only [registry, ShfCall.status, hop]
  simp only [Undisturbed, hop] at h
  cases hget : s.folder.GetKeyValCopy (s.call p).nodepair with
  | none =>
    rw [hget] at h
    have hnext : (s.call p).next s.folder = ({ s.call p with
        shf_val := overwrite (List.replicate 8 nul) (s.call p).shf_val
        op := .probe 1 }, s.folder) := by
      simp only [ShfCall.next, hop, hget]
    have hkey := notMem_of_GetKeyValCopy hget
    rw [hs.nodepair p] at hkey
    rw [registry_next hnext]
    refine .miss p hidle hkey fun q hq hund => ?_
    have hne : q ≠ p := by
      rintro rfl
      rw [hidle] at hund
      exact hund
    refine h q hne ?_ (ShfCall.choosing_of_undecided hund)
    rw [hs.nodepair, hs.nodepair, hq]
  | some val =>
    rw [hget] at h
    have hmem := mem_of_GetKeyValCopy hget
    have hcopied := cString_copied (hs.nodeList _ hmem) h
    rw [hs.nodepair p] at hmem
    have hnext : (s.call p).next s.folder = ({ s.call p with
        shf_val := overwrite val (overwrite (List.replicate 8 nul) (s.call p).shf_val)
        op := .attachExisting val }, s.folder) := by
      simp only [ShfCall.next, hop, hget, hcopied]
    rw [registry_next hnext]
    exact .find p val hidle hmem

theorem step_probe (hop : ∃ i, (s.call p).op = .probe i) (h : s.Undisturbed p) :
    (s.next p).registry = s.registry ∨ Step nodepair s.registry (s.next p).registry := by
  obtain ⟨i, hop⟩ := hop
  have hchoosing : s.registry.status p = .choosing := by simp only [registry, ShfCall.status, hop]
  simp only [Undisturbed, hop] at h
  by_cases htable : nodeName i ∈ s.folder.tables
  · have hnext : (s.call p).next s.folder =
        ({ s.call p with shfrql := some (nodeName i), op := .probe (i + 1) }, s.folder) := by
      simp only [ShfCall.next, hop, if_pos htable]
    rw [registry_next hnext, set_eq_self (by simp only [ShfCall.status, hop])]
    exact .inl rfl
  · have hnext : (s.call p).next s.folder =
        ({ s.call p with shfrql := none, op := .putKeyVal (nodeName i) }, s.folder) := by
      simp only [ShfCall.next, hop, if_neg htable]
    rw [registry_next hnext]
    refine .inr (.choose p (nodeName i) hchoosing htable fun q hq => ?_)
    by_cases hqp : q = p
    · subst hqp
      rw [hchoosing] at hq
      exact hq
    · exact h htable q hqp (ShfCall.attaching_of_holds hq)

theorem step_attachExisting {name : Text} (hs : s.Sound nodepair)
    (hop : (s.call p).op = .attachExisting name) :
    (s.next p).registry = s.registry ∨ Step nodepair s.registry (s.next p).registry := by
  have hbound : s.registry.status p = .bound name := by simp only [registry, ShfCall.status, hop]
  have hhandle : (s.call p).shfrql = none := (hs.call p).shfrql (by simp [hop]) (by simp [hop])
  by_cases htable : name ∈ s.folder.tables
  · have hnext : (s.call p).next s.folder =
        ({ s.call p with shfrql := some name, op := .returned }, s.folder) := by
      simp [ShfCall.next, hop, hhandle, htable]
    have hmade : insert name s.registry.made = s.registry.made := Set.insert_eq_of_mem htable
    have hstep : Step nodepair s.registry _ := .make p name hbound
    rw [hmade] at hstep
    rw [registry_next hnext]
    exact .inr hstep
  · have hnext : (s.call p).next s.folder =
        ({ s.call p with shfrql := none, op := .attach name }, s.folder) := by
      simp [ShfCall.next, hop, hhandle, htable]
    rw [registry_next hnext, set_eq_self (by simp only [ShfCall.status, hop])]
    exact .inl rfl

/-- An undisturbed operation is a step of the registry, or leaves it as it is. -/
theorem registry_step (hs : s.Sound nodepair) (h : s.Undisturbed p) :
    (s.next p).registry = s.registry ∨ Step nodepair s.registry (s.next p).registry := by
  cases hop : (s.call p).op with
  | attachExistingNodeList =>
    have hnext : ((s.call p).next s.folder).2 = s.folder ∧
        ((s.call p).next s.folder).1.status = .idle := by
      simp only [ShfCall.next, hop]
      split_ifs <;> exact ⟨rfl, rfl⟩
    rw [registry_next (Prod.mk.eta (p := (s.call p).next s.folder)).symm, hnext.1, hnext.2,
      set_eq_self (by simp only [ShfCall.status, hop])]
    exact .inl rfl
  | attachNodeList =>
    have hnext : (s.call p).next s.folder =
        ({ s.call p with op := .getKeyValCopy }, s.folder.Attach Shfnodelist) := by
      simp only [ShfCall.next, hop]
    rw [registry_next hnext, set_eq_self (by simp only [ShfCall.status, hop]), made_Attach,
      nodeList_Attach]
    exact .inr (.other Shfnodelist)
  | getKeyValCopy => exact .inr (step_lookup hs hop h)
  | probe i => exact step_probe ⟨i, hop⟩ h
  | putKeyVal name =>
    have hnext : (s.call p).next s.folder = ({ s.call p with op := .attachExisting name },
        s.folder.PutKeyVal (nodepair p) name) := by
      simp only [ShfCall.next, hop, hs.nodepair p]
    rw [registry_next hnext]
    exact .inr (.publish p name (by simp only [registry, ShfCall.status, hop]))
  | attachExisting name => exact step_attachExisting hs hop
  | attach name =>
    have hnext : (s.call p).next s.folder = ({ s.call p with shfrql := some name, op := .returned },
        s.folder.Attach name) := by
      simp only [ShfCall.next, hop]
    rw [registry_next hnext, made_Attach, nodeList_Attach]
    exact .inr (.make p name (by simp only [registry, ShfCall.status, hop]))
  | returned =>
    have hnext : (s.call p).next s.folder = (s.call p, s.folder) := by
      simp only [ShfCall.next, hop]
    rw [registry_next hnext, set_eq_self rfl]
    exact .inl rfl

theorem nodepair_next (c : ShfCall) (f : Folder) : (c.next f).1.nodepair = c.nodepair := by
  unfold ShfCall.next
  cases c.op with
  | attachExistingNodeList =>
    dsimp only
    split_ifs <;> rfl
  | getKeyValCopy =>
    dsimp only
    split <;> rfl
  | probe i =>
    dsimp only
    split_ifs <;> rfl
  | attachExisting name =>
    dsimp only
    split_ifs <;> rfl
  | _ => rfl

theorem nodeList_next (c : ShfCall) (f : Folder) :
    (c.next f).2.nodeList = f.nodeList ∨ ∃ name, c.op = .putKeyVal name ∧
      (c.next f).2.nodeList = f.nodeList ++ [(c.nodepair, name)] := by
  unfold ShfCall.next
  cases c.op with
  | attachExistingNodeList =>
    dsimp only
    split_ifs <;> exact .inl rfl
  | attachNodeList => exact .inl (nodeList_Attach f Shfnodelist)
  | getKeyValCopy =>
    dsimp only
    split <;> exact .inl rfl
  | probe i =>
    dsimp only
    split_ifs <;> exact .inl rfl
  | putKeyVal name => exact .inr ⟨name, rfl, rfl⟩
  | attachExisting name =>
    dsimp only
    split_ifs <;> exact .inl rfl
  | attach name => exact .inl (nodeList_Attach f name)
  | returned => exact .inl rfl

theorem sound_call_next {c : ShfCall} (hc : c.Sound) (f : Folder) : (c.next f).1.Sound := by
  -- the handle stays detached in the steps before the search and between it and the end
  have hdetached (hprobe : ∀ i, c.op ≠ .probe i) (hreturned : c.op ≠ .returned) {shf_val : Text}
      {op : ShfOp} (hput : ∀ n, op ≠ .putKeyVal n) :
      (ShfCall.mk c.nodepair shf_val c.shfrql op).Sound :=
    ⟨fun _ _ => hc.shfrql hprobe hreturned, fun h => absurd h (hput _)⟩
  have hreturned {shfrql : Option Text} :
      (ShfCall.mk c.nodepair c.shf_val shfrql .returned).Sound :=
    ⟨fun _ h => absurd rfl h, fun h => nomatch h⟩
  unfold ShfCall.next
  cases hop : c.op with
  | attachExistingNodeList =>
    dsimp only
    split_ifs <;> exact hdetached (by simp [hop]) (by simp [hop]) (by simp)
  | attachNodeList => exact hdetached (by simp [hop]) (by simp [hop]) (by simp)
  | getKeyValCopy =>
    dsimp only
    split <;> exact hdetached (by simp [hop]) (by simp [hop]) (by simp)
  | probe i =>
    dsimp only
    split_ifs
    · exact ⟨fun h => absurd rfl (h (i + 1)), fun h => nomatch h⟩
    · refine ⟨fun _ _ => rfl, fun h => ?_⟩
      cases h
      exact nul_notMem_nodeName i
  | putKeyVal name => exact hdetached (by simp [hop]) (by simp [hop]) (by simp)
  | attachExisting name =>
    dsimp only
    split_ifs
    · exact hreturned
    · exact hreturned
    · exact ⟨fun _ _ => rfl, fun h => nomatch h⟩
  | attach name => exact hreturned
  | returned => exact hc

theorem Sound.next (hs : s.Sound nodepair) (p : ι) : (s.next p).Sound nodepair := by
  have hcall (q : ι) : (s.next p).call q = s.call q ∨
      q = p ∧ (s.next p).call q = ((s.call p).next s.folder).1 := by
    by_cases hq : q = p
    · subst hq
      exact .inr ⟨rfl, Function.update_self _ _ _⟩
    · exact .inl (Function.update_of_ne hq _ _)
  refine ⟨fun q => ?_, fun q => ?_, fun entry hentry => ?_⟩
  · rcases hcall q with h | ⟨rfl, h⟩
    · rw [h]
      exact hs.nodepair q
    · rw [h, nodepair_next]
      exact hs.nodepair q
  · rcases hcall q with h | ⟨rfl, h⟩
    · rw [h]
      exact hs.call q
    · rw [h]
      exact sound_call_next (hs.call q) s.folder
  · change entry ∈ ((s.call p).next s.folder).2.nodeList at hentry
    rcases nodeList_next (s.call p) s.folder with h | ⟨name, hop, h⟩ <;> rw [h] at hentry
    · exact hs.nodeList entry hentry
    · rcases List.mem_append.mp hentry with hold | hnew
      · exact hs.nodeList entry hold
      · rw [List.mem_singleton.mp hnew]
        exact (hs.call p).name hop

omit [DecidableEq ι] in
theorem kept_initial (tables : List Text) (nodepair shf_val : ι → Text) :
    Kept nodepair (initial tables nodepair shf_val).registry where
  keys := List.nodup_nil
  values := List.nodup_nil
  entry h := h.elim (fun h => nomatch h) (fun h => nomatch h)
  undecided h := False.elim h
  apart h := False.elim h
  fresh h := nomatch h
  alone h := nomatch h
  created h := absurd h List.not_mem_nil

/-- Calls that do not disturb each other agree about the tables, whatever the order of
their operations. -/
theorem agreed_of_undisturbed (tables : List Text) (nodepair shf_val : ι → Text) {events : List ι}
    (h : Machine.Along next Undisturbed (initial tables nodepair shf_val) events) :
    (Machine.run next (initial tables nodepair shf_val) events).Agreed := by
  have hrun : (Machine.run next (initial tables nodepair shf_val) events).Sound nodepair ∧
      Kept nodepair (Machine.run next (initial tables nodepair shf_val) events).registry := by
    refine Machine.run_history (I := fun _ (s : ShfSystem ι) => s.Sound nodepair ∧
      Kept nodepair s.registry) ?_ ?_ h
    · exact ⟨⟨fun _ => rfl, fun _ => ⟨fun _ _ => rfl, fun h => nomatch h⟩,
        fun _ h => absurd h List.not_mem_nil⟩, kept_initial tables nodepair shf_val⟩
    · rintro pre p ⟨hsound, hkept⟩ hp
      refine ⟨hsound.next p, ?_⟩
      rcases registry_step hsound hp with heq | hstep
      · rw [heq]
        exact hkept
      · exact hkept.step hstep
  obtain ⟨hsound, hkept⟩ := hrun
  intro p q m n hp hpm hq hqn
  rw [hsound.nodepair, hsound.nodepair]
  exact hkept.consistent (by simp only [registry, ShfCall.status, hp, hpm])
    (by simp only [registry, ShfCall.status, hq, hqn])

theorem agreed_of_undisturbed_sequence :
    let s := initial [] (fun _ : Bool => "a-b".toList) fun _ => []
    let events := List.replicate 7 false ++ List.replicate 3 true
    Machine.Along next Undisturbed s events ∧ (Machine.run next s events).Agreed ∧
      ((Machine.run next s events).call true).shfrql = some (nodeName 1) := by
  intro s events
  have hundisturbed : Machine.Along next Undisturbed s events := by decide +kernel
  exact ⟨hundisturbed, agreed_of_undisturbed _ _ _ hundisturbed, by decide +kernel⟩

/-- Both calls find `node_1` missing before either creates it, and get one table for two
node pairs. Or both find no entry for their node pair, and get two tables for it. -/
theorem calls_disagree :
    let s := initial [] (fun p => if p then "a-b".toList else "c-d".toList) fun _ => []
    let t := Machine.run next s
      [false, false, false, false, true, true, true, true, true, true, false, false]
    let s' := initial [] (fun _ : Bool => "a-b".toList) fun _ => []
    let t' := Machine.run next s'
      [false, false, false, true, true, false, false, false, false, true, true, true, true, true]
    ((t.call false).op = .returned ∧ (t.call true).op = .returned ∧
        (t.call false).shfrql = some (nodeName 1) ∧ (t.call true).shfrql = some (nodeName 1)) ∧
      ((t'.call false).op = .returned ∧ (t'.call true).op = .returned ∧
        (t'.call false).shfrql = some (nodeName 1) ∧ (t'.call true).shfrql = some (nodeName 2)) ∧
      ¬ t.Agreed ∧ ¬ t'.Agreed := by
  intro s t s' t'
  have h : (t.call false).op = .returned ∧ (t.call true).op = .returned ∧
      (t.call false).shfrql = some (nodeName 1) ∧ (t.call true).shfrql = some (nodeName 1) := by
    decide +kernel
  have h' : (t'.call false).op = .returned ∧ (t'.call true).op = .returned ∧
      (t'.call false).shfrql = some (nodeName 1) ∧ (t'.call true).shfrql = some (nodeName 2) := by
    decide +kernel
  refine ⟨h, h', fun hagreed => ?_, fun hagreed => ?_⟩
  · have hpair := (hagreed false true _ _ h.1 h.2.2.1 h.2.1 h.2.2.2).mpr rfl
    exact absurd hpair (by decide +kernel)
  · have hname := (hagreed false true _ _ h'.1 h'.2.2.1 h'.2.1 h'.2.2.2).mp (by decide +kernel)
    exact absurd hname (by decide)

end ShfSystem

end AnalysePcap
