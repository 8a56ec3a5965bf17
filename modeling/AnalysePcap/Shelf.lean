import Mathlib.Data.List.Basic
import Mathlib.Logic.Function.Basic
import Mathlib.Tactic.SplitIfs

/-! A shelf with numbered places. Each key has some places of its own, and an entry is put into
any of them that is free. It is asked for by its place, or by its key, and then the first place
that holds the key counts. The same key may be put more than once. -/

namespace Shelves

variable {κ α β : Type*}

abbrev Shelf (κ α β : Type*) := κ → Option (α × β)

/-- How an entry is asked for. -/
inductive Query (κ α : Type*) where
  | key (a : α)
  | place (p : κ)
  deriving DecidableEq

inductive Op (κ α β : Type*) where
  | put (a : α) (b : β)
  | get (q : Query κ α)
  | del (q : Query κ α)

inductive Answer (κ β : Type*) where
  | placed (p : κ)
  | found (b : Option β)
  deriving DecidableEq

section Find

variable [DecidableEq α]

def holds (c : Shelf κ α β) (a : α) (p : κ) : Bool := (c p).any fun e => decide (e.1 = a)

def find (places : α → List κ) (c : Shelf κ α β) : Query κ α → Option κ
  | .key a => (places a).find? (holds c a)
  | .place p => if (c p).isSome = true then some p else none

def value (places : α → List κ) (c : Shelf κ α β) (q : Query κ α) : Option β :=
  (find places c q).bind fun p => (c p).map Prod.snd

variable {places : α → List κ} {c : Shelf κ α β}

theorem holds_iff {a : α} {p : κ} : holds c a p = true ↔ ∃ b, c p = some (a, b) := by
  unfold holds
  cases hp : c p with
  | none => simp
  | some e =>
    obtain ⟨a', b⟩ := e
    simp

theorem exists_of_find {q : Query κ α} {p : κ} (h : find places c q = some p) :
    ∃ a b, c p = some (a, b) ∧ (q = .key a ∨ q = .place p) := by
  cases q with
  | key a =>
    obtain ⟨b, hb⟩ := holds_iff.mp (List.find?_some h)
    exact ⟨a, b, hb, .inl rfl⟩
  | place p' =>
    rw [find] at h
    split_ifs at h with hsome
    cases h
    obtain ⟨⟨a, b⟩, hb⟩ := Option.isSome_iff_exists.mp hsome
    exact ⟨a, b, hb, .inr rfl⟩

theorem value_place (p : κ) : value places c (.place p) = (c p).map Prod.snd := by
  rw [value, find]
  split_ifs with hsome
  · rfl
  · rw [Option.not_isSome_iff_eq_none.mp hsome]
    rfl

theorem find_eq_none_of_value {q : Query κ α} (h : (value places c q).isSome = false) :
    find places c q = none := by
  cases hfind : find places c q with
  | none => rfl
  | some p =>
    obtain ⟨a, b, hp, -⟩ := exists_of_find hfind
    simp [value, hfind, hp] at h

theorem value_key_isSome_iff {a : α} :
    (value places c (.key a)).isSome = true ↔ ∃ p ∈ places a, ∃ b, c p = some (a, b) := by
  unfold value
  constructor
  · intro h
    cases hfind : find places c (.key a) with
    | none => simp [hfind] at h
    | some p =>
      exact ⟨p, List.mem_of_find?_eq_some hfind, holds_iff.mp (List.find?_some hfind)⟩
  · rintro ⟨p, hp, b, hb⟩
    have hsome : (find places c (.key a)).isSome = true :=
      List.find?_isSome.mpr ⟨p, hp, holds_iff.mpr ⟨b, hb⟩⟩
    obtain ⟨p', hp'⟩ := Option.isSome_iff_exists.mp hsome
    obtain ⟨a', b', hb', -⟩ := exists_of_find hp'
    simp [hp', hb']

end Find

section Runs

variable [DecidableEq κ]

def clear (c : Shelf κ α β) : Option κ → Shelf κ α β
  | none => c
  | some p => Function.update c p none

theorem clear_apply (c : Shelf κ α β) (o : Option κ) (p : κ) :
    clear c o p = if o = some p then none else c p := by
  cases o with
  | none => rfl
  | some p' =>
    by_cases hp : p = p'
    · simp [clear, hp]
    · simp [clear, hp, Ne.symm hp]

variable [DecidableEq α]

inductive Step (places : α → List κ) (c : Shelf κ α β) :
    Op κ α β → Answer κ β → Shelf κ α β → Prop
  | put (a : α) (b : β) (p : κ) : p ∈ places a → c p = none →
      Step places c (.put a b) (.placed p) (Function.update c p (some (a, b)))
  | get (q : Query κ α) : Step places c (.get q) (.found (value places c q)) c
  | del (q : Query κ α) :
      Step places c (.del q) (.found (value places c q)) (clear c (find places c q))

/-- Operations with their answers, one after the other. -/
inductive Run (places : α → List κ) :
    Shelf κ α β → List (Op κ α β × Answer κ β) → Shelf κ α β → Prop
  | nil {c : Shelf κ α β} : Run places c [] c
  | cons {c c' c'' : Shelf κ α β} {op : Op κ α β} {answer : Answer κ β}
      {events : List (Op κ α β × Answer κ β)} : Step places c op answer c' →
      Run places c' events c'' → Run places c ((op, answer) :: events) c''

variable {places : α → List κ} {c c' : Shelf κ α β} {op : Op κ α β} {answer : Answer κ β}
  {a : α} {b : β} {p : κ}

/-- An entry stays as it is until its place or its key is deleted. -/
theorem Step.keeps (h : Step places c op answer c') (hp : c p = some (a, b))
    (hplace : op ≠ .del (.place p)) (hkey : op ≠ .del (.key a)) : c' p = some (a, b) := by
  cases h with
  | put a' b' p' _ hfree =>
    have hne : p ≠ p' := by
      rintro rfl
      rw [hfree] at hp
      cases hp
    rw [Function.update_of_ne hne, hp]
  | get q => exact hp
  | del q =>
    cases hfind : find places c q with
    | none => exact hp
    | some p' =>
      have hne : p ≠ p' := by
        rintro rfl
        obtain ⟨a', b', hp', hq | hq⟩ := exists_of_find hfind
        · rw [hp] at hp'
          cases hp'
          exact hkey (by rw [hq])
        · exact hplace (by rw [hq])
      rw [clear, Function.update_of_ne hne, hp]

theorem Run.keeps {events : List (Op κ α β × Answer κ β)} (h : Run places c events c')
    (hp : c p = some (a, b)) (hplace : ∀ e ∈ events, e.1 ≠ .del (.place p))
    (hkey : ∀ e ∈ events, e.1 ≠ .del (.key a)) : c' p = some (a, b) := by
  induction h with
  | nil => exact hp
  | cons hstep _ ih =>
    have hp' := hstep.keeps hp (hplace _ List.mem_cons_self) (hkey _ List.mem_cons_self)
    exact ih hp' (fun e he => hplace e (List.mem_cons_of_mem _ he))
      fun e he => hkey e (List.mem_cons_of_mem _ he)

end Runs

end Shelves
