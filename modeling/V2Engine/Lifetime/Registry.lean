import Mathlib.Logic.Function.Basic
import Mathlib.Data.List.Nodup

/-! Things that begin at a place and end there, each with a serial number of its own.
A registry is kept when every serial number is accounted for: its thing lives at one
place and has not ended, or lives nowhere and has ended once. -/
namespace Lifetime

variable {κ α : Type*}

structure Registry (κ α : Type*) where
  living : κ → Option (Nat × α)
  /-- The number of things begun so far, which is the next serial number. -/
  born : Nat
  ended : List Nat
  /-- How often an end was asked for where no such thing lived. -/
  strays : Nat

namespace Registry

def empty : Registry κ α := ⟨fun _ => none, 0, [], 0⟩

def stray (r : Registry κ α) : Registry κ α := { r with strays := r.strays + 1 }

/-- What lives at a place, without its serial number. -/
def find (r : Registry κ α) (k : κ) : Option α := (r.living k).map Prod.snd

theorem find_eq_some {r : Registry κ α} {k : κ} {a : α} :
    r.find k = some a ↔ ∃ n, r.living k = some (n, a) := by
  simp [find]

theorem find_eq_none {r : Registry κ α} {k : κ} : r.find k = none ↔ r.living k = none := by
  simp [find]

@[simp] theorem find_stray (r : Registry κ α) : r.stray.find = r.find := rfl

variable [DecidableEq κ]

/-- A thing begins at a place, over whatever was there. -/
def begins (r : Registry κ α) (k : κ) (a : α) : Registry κ α :=
  { r with living := Function.update r.living k (some (r.born, a)), born := r.born + 1 }

/-- The thing at a place ends, if it is what the caller takes it for. -/
def ends (r : Registry κ α) (expected : α → Bool) (k : κ) : Registry κ α :=
  match r.living k with
  | none => r.stray
  | some (n, a) =>
      if expected a then
        { r with living := Function.update r.living k none, ended := n :: r.ended }
      else r.stray

/-- What lives at a place changes, and is still the same thing. -/
def becomes (r : Registry κ α) (k : κ) (f : α → α) : Registry κ α :=
  { r with living := Function.update r.living k ((r.living k).map fun a => (a.1, f a.2)) }

theorem ends_of_living {r : Registry κ α} {expected : α → Bool} {k : κ} {n : Nat} {a : α}
    (h : r.living k = some (n, a)) (hExpected : expected a = true) :
    r.ends expected k =
      { r with living := Function.update r.living k none, ended := n :: r.ended } := by
  simp [ends, h, hExpected]

theorem ends_of_none {r : Registry κ α} {expected : α → Bool} {k : κ} (h : r.living k = none) :
    r.ends expected k = r.stray := by
  simp [ends, h]

theorem find_begins (r : Registry κ α) (k : κ) (a : α) :
    (r.begins k a).find = Function.update r.find k (some a) := by
  funext l
  by_cases h : l = k
  · subst h
    simp [find, begins]
  · simp [find, begins, h]

theorem find_ends {r : Registry κ α} {expected : α → Bool} {k : κ} {a : α} (h : r.find k = some a)
    (hExpected : expected a = true) : (r.ends expected k).find = Function.update r.find k none := by
  obtain ⟨n, hLiving⟩ := find_eq_some.mp h
  rw [ends_of_living hLiving hExpected]
  funext l
  by_cases hl : l = k
  · subst hl
    simp [find]
  · simp [find, hl]

theorem find_becomes (r : Registry κ α) (k : κ) (f : α → α) :
    (r.becomes k f).find = Function.update r.find k ((r.find k).map f) := by
  funext l
  by_cases hl : l = k
  · subst hl
    simp [find, becomes, Function.comp_def]
  · simp [find, becomes, hl]

theorem strays_ends {r : Registry κ α} {expected : α → Bool} {k : κ} {a : α} (h : r.find k = some a)
    (hExpected : expected a = true) : (r.ends expected k).strays = r.strays := by
  obtain ⟨n, hLiving⟩ := find_eq_some.mp h
  rw [ends_of_living hLiving hExpected]

/-- Every serial number given out is accounted for. -/
structure Kept (r : Registry κ α) : Prop where
  known : ∀ {k n a}, r.living k = some (n, a) → n < r.born
  /-- No thing lives at two places. -/
  alone : ∀ {k l n a b}, r.living k = some (n, a) → r.living l = some (n, b) → k = l
  unended : ∀ {k n a}, r.living k = some (n, a) → n ∉ r.ended
  once : r.ended.Nodup
  endedKnown : ∀ {n}, n ∈ r.ended → n < r.born
  covered : ∀ {n}, n < r.born → n ∈ r.ended ∨ ∃ k a, r.living k = some (n, a)

omit [DecidableEq κ] in
theorem Kept.empty : Kept (empty : Registry κ α) where
  known := nofun
  alone := nofun
  unended := nofun
  once := List.nodup_nil
  endedKnown := nofun
  covered := nofun

omit [DecidableEq κ] in
theorem Kept.stray {r : Registry κ α} (h : Kept r) : Kept r.stray :=
  ⟨h.known, h.alone, h.unended, h.once, h.endedKnown, h.covered⟩

theorem Kept.begins {r : Registry κ α} (h : Kept r) {k : κ} (hFree : r.find k = none) (a : α) :
    Kept (r.begins k a) := by
  have hNone := find_eq_none.mp hFree
  have hCases : ∀ {l n b}, (r.begins k a).living l = some (n, b) →
      (l = k ∧ n = r.born) ∨ (l ≠ k ∧ r.living l = some (n, b)) := by
    intro l n b hLiving
    by_cases hl : l = k
    · subst hl
      simp only [Registry.begins, Function.update_self, Option.some.injEq, Prod.mk.injEq] at hLiving
      exact .inl ⟨rfl, hLiving.1.symm⟩
    · simp only [Registry.begins, Function.update_of_ne hl] at hLiving
      exact .inr ⟨hl, hLiving⟩
  constructor
  case known =>
    intro l n b hLiving
    show n < r.born + 1
    rcases hCases hLiving with ⟨_, rfl⟩ | ⟨_, hOld⟩
    · omega
    · have hKnown := h.known hOld
      omega
  case alone =>
    intro l m n b c hl hm
    rcases hCases hl with ⟨rfl, rfl⟩ | ⟨_, hOld⟩ <;> rcases hCases hm with ⟨rfl, hn⟩ | ⟨_, hOld'⟩
    · rfl
    · exact absurd (h.known hOld') (Nat.lt_irrefl _)
    · subst hn
      exact absurd (h.known hOld) (Nat.lt_irrefl _)
    · exact h.alone hOld hOld'
  case unended =>
    intro l n b hLiving hEnded
    rcases hCases hLiving with ⟨_, rfl⟩ | ⟨_, hOld⟩
    · exact absurd (h.endedKnown hEnded) (Nat.lt_irrefl _)
    · exact h.unended hOld hEnded
  case once => exact h.once
  case endedKnown =>
    intro n hEnded
    exact Nat.lt_succ_of_lt (h.endedKnown hEnded)
  case covered =>
    intro n hn
    rcases Nat.lt_succ_iff_lt_or_eq.mp hn with hOld | rfl
    · rcases h.covered hOld with hEnded | ⟨l, b, hLiving⟩
      · exact .inl hEnded
      · have hl : l ≠ k := by
          rintro rfl
          simp [hNone] at hLiving
        exact .inr ⟨l, b, by simp [Registry.begins, hl, hLiving]⟩
    · exact .inr ⟨k, a, by simp [Registry.begins]⟩

theorem Kept.ends {r : Registry κ α} (h : Kept r) (expected : α → Bool) (k : κ) :
    Kept (r.ends expected k) := by
  unfold Registry.ends
  split
  · exact h.stray
  · rename_i n a hLiving
    split
    · have hStill : ∀ {l m b}, Function.update r.living k none l = some (m, b) →
          l ≠ k ∧ r.living l = some (m, b) := by
        intro l m b hl
        by_cases hlk : l = k
        · subst hlk
          simp at hl
        · exact ⟨hlk, by simpa [Function.update_of_ne hlk] using hl⟩
      constructor
      case known => exact fun hl => h.known (hStill hl).2
      case alone => exact fun hl hm => h.alone (hStill hl).2 (hStill hm).2
      case unended =>
        intro l m b hl hEnded
        obtain ⟨hne, hOld⟩ := hStill hl
        rcases List.mem_cons.mp hEnded with rfl | hEnded
        · exact hne (h.alone hOld hLiving)
        · exact h.unended hOld hEnded
      case once => exact List.nodup_cons.mpr ⟨h.unended hLiving, h.once⟩
      case endedKnown =>
        intro m hEnded
        rcases List.mem_cons.mp hEnded with rfl | hEnded
        · exact h.known hLiving
        · exact h.endedKnown hEnded
      case covered =>
        intro m hm
        rcases h.covered hm with hEnded | ⟨l, b, hl⟩
        · exact .inl (List.mem_cons_of_mem _ hEnded)
        · by_cases hlk : l = k
          · subst hlk
            rw [hLiving] at hl
            cases hl
            exact .inl (List.mem_cons_self ..)
          · exact .inr ⟨l, b, by simpa [Function.update_of_ne hlk] using hl⟩
    · exact h.stray

theorem living_becomes {r : Registry κ α} {k l : κ} {f : α → α} {n : Nat} :
    (∃ a, (r.becomes k f).living l = some (n, a)) ↔ ∃ a, r.living l = some (n, a) := by
  by_cases hl : l = k
  · subst hl
    cases hLiving : r.living l with
    | none => simp [becomes, hLiving]
    | some a => simp [becomes, hLiving, Prod.ext_iff]
  · simp [becomes, Function.update_of_ne hl]

theorem Kept.becomes {r : Registry κ α} (h : Kept r) (k : κ) (f : α → α) : Kept (r.becomes k f) := by
  have hOld : ∀ {l n a}, (r.becomes k f).living l = some (n, a) → ∃ b, r.living l = some (n, b) :=
    fun hl => living_becomes.mp ⟨_, hl⟩
  constructor
  case known =>
    intro l n a hl
    obtain ⟨b, hb⟩ := hOld hl
    exact h.known hb
  case alone =>
    intro l m n a b hl hm
    obtain ⟨c, hc⟩ := hOld hl
    obtain ⟨d, hd⟩ := hOld hm
    exact h.alone hc hd
  case unended =>
    intro l n a hl
    obtain ⟨b, hb⟩ := hOld hl
    exact h.unended hb
  case once => exact h.once
  case endedKnown => exact h.endedKnown
  case covered =>
    intro n hn
    rcases h.covered hn with hEnded | ⟨l, a, hl⟩
    · exact .inl hEnded
    · obtain ⟨b, hb⟩ := living_becomes.mpr ⟨a, hl⟩
      exact .inr ⟨l, b, hb⟩

omit [DecidableEq κ] in
/-- Each thing begun lives at exactly one place and has not ended, or it lives
nowhere and has ended exactly once. -/
theorem Kept.exactly_once {r : Registry κ α} (h : Kept r) {n : Nat} (hn : n < r.born) :
    (r.ended.count n = 0 ∧ ∃! k, ∃ a, r.living k = some (n, a)) ∨
      (r.ended.count n = 1 ∧ ∀ k a, r.living k ≠ some (n, a)) := by
  rcases h.covered hn with hEnded | ⟨k, a, hLiving⟩
  · exact .inr ⟨List.count_eq_one_of_mem h.once hEnded, fun k a hLiving => h.unended hLiving hEnded⟩
  · apply Or.inl
    refine ⟨List.count_eq_zero.mpr (h.unended hLiving), k, ⟨a, hLiving⟩, ?_⟩
    rintro l ⟨b, hl⟩
    exact h.alone hl hLiving

end Registry

end Lifetime
