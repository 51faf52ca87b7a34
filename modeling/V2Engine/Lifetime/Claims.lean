import V2Engine.Lifetime.Registry

/-! Who is going to end what lives in a registry. Every place counts the claims to it; the
registry is claimed when what lives has one claim, and nothing else has any. -/
namespace Lifetime

variable {κ : Type*}

namespace Registry

structure Claimed (r : Registry κ Unit) (claims : κ → Nat) : Prop where
  kept : r.Kept
  strays : r.strays = 0
  one : ∀ k, claims k = if (r.find k).isSome then 1 else 0

variable {r : Registry κ Unit} {claims claims' : κ → Nat} {k : κ}

namespace Claimed

theorem empty : Claimed (empty : Registry κ Unit) fun _ => 0 := ⟨Kept.empty, rfl, fun _ => rfl⟩

theorem congr (claimed : Claimed r claims) (h : ∀ k, claims' k = claims k) : Claimed r claims' :=
  ⟨claimed.kept, claimed.strays, fun k => (h k).trans (claimed.one k)⟩

theorem le_one (claimed : Claimed r claims) (k : κ) : claims k ≤ 1 := by
  rw [claimed.one]
  split <;> omega

theorem eq_zero (claimed : Claimed r claims) (hFree : r.find k = none) : claims k = 0 := by
  rw [claimed.one, hFree]
  rfl

/-- When nobody has a claim any more, all that ever began has ended once. -/
theorem ended_once (claimed : Claimed r claims) (hNone : ∀ k, claims k = 0) {n : Nat} (hn : n < r.born) :
    r.ended.count n = 1 := by
  rcases claimed.kept.exactly_once hn with ⟨_, k, ⟨a, ha⟩, _⟩ | ⟨hOnce, _⟩
  · have hSome : r.find k = some a := find_eq_some.mpr ⟨n, ha⟩
    have hOne := claimed.one k
    rw [hNone k, hSome] at hOne
    cases hOne
  · exact hOnce

variable [DecidableEq κ]

/-- What begins is claimed by whoever began it. -/
theorem begins (claimed : Claimed r claims) (hFree : r.find k = none)
    (h : ∀ l, claims' l = claims l + if l = k then 1 else 0) : Claimed (r.begins k ()) claims' := by
  refine ⟨claimed.kept.begins hFree (), claimed.strays, fun l => ?_⟩
  rw [h l, claimed.one l, find_begins]
  by_cases hl : l = k
  · subst hl
    simp [hFree]
  · simp [hl]

/-- Whoever has a claim may end what it is to, and gives the claim up. -/
theorem ends (claimed : Claimed r claims) (hClaim : 0 < claims k)
    (h : ∀ l, claims l = claims' l + if l = k then 1 else 0) : Claimed (r.ends (fun _ => true) k) claims' := by
  have hSome : (r.find k).isSome := by
    by_contra hNone
    rw [claimed.one, if_neg hNone] at hClaim
    cases hClaim
  obtain ⟨a, ha⟩ := Option.isSome_iff_exists.mp hSome
  refine ⟨claimed.kept.ends _ k, (strays_ends ha rfl).trans claimed.strays, fun l => ?_⟩
  have hBefore := (h l).symm.trans (claimed.one l)
  rw [find_ends ha rfl]
  by_cases hl : l = k
  · subst hl
    rw [if_pos rfl, if_pos hSome] at hBefore
    simpa using hBefore
  · simpa [hl] using hBefore

end Claimed

end Registry

end Lifetime
