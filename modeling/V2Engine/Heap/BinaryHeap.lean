import Mathlib.Order.Lattice
import Mathlib.Data.List.Basic

/-! A list as a binary heap: what is at a position comes no later than what is at the two positions
below it. The order is that of a key, which may change meanwhile. -/
namespace Heap

variable {α κ : Type*} [LinearOrder κ]

def parent (i : Nat) : Nat := (i - 1) / 2

/-- What is at `p` comes no later than what is at `c`, where there is something at both. -/
def Before (key : α → κ) (l : List α) (p c : Nat) : Prop := ∀ x ∈ l[p]?, ∀ y ∈ l[c]?, key x ≤ key y

instance (key : α → κ) (l : List α) (p c : Nat) : Decidable (Before key l p c) := by
  unfold Before
  infer_instance

def Ordered (key : α → κ) (l : List α) : Prop := ∀ c, 0 < c → Before key l (parent c) c

def swap (l : List α) (i j : Nat) : List α :=
  match l[i]?, l[j]? with
  | some x, some y => (l.set i y).set j x
  | _, _ => l

/-- Up to where the parent comes no later. -/
def siftUp (key : α → κ) : Nat → Nat → List α → List α
  | 0, _, l => l
  | fuel + 1, i, l =>
      if i = 0 ∨ Before key l (parent i) i then l else siftUp key fuel (parent i) (swap l (parent i) i)

/-- The earlier one of the two positions below. -/
def child (key : α → κ) (l : List α) (i : Nat) : Nat :=
  if 2 * i + 2 < l.length ∧ ¬Before key l (2 * i + 1) (2 * i + 2) then 2 * i + 2 else 2 * i + 1

/-- Down to where the children come no earlier. -/
def siftDown (key : α → κ) : Nat → Nat → List α → List α
  | 0, _, l => l
  | fuel + 1, i, l =>
      if Before key l i (child key l i) then l
      else siftDown key fuel (child key l i) (swap l i (child key l i))

def push (key : α → κ) (l : List α) (x : α) : List α := siftUp key l.length l.length (l ++ [x])

/-- The last one takes the place of the first. -/
def pop (key : α → κ) : List α → List α
  | [] => []
  | _ :: rest => match rest.getLast? with
    | none => []
    | some last => siftDown key rest.length 0 (last :: rest.dropLast)

variable {key key' : α → κ} {l : List α} {i j p c : Nat} {x : α}

theorem parent_lt (hi : 0 < i) : parent i < i := by
  unfold parent
  omega

theorem swap_eq (hi : i < l.length) (hj : j < l.length) : swap l i j = (l.set i l[j]).set j l[i] := by
  simp [swap, hi, hj]

theorem swap_perm (l : List α) (i j : Nat) : (swap l i j).Perm l := by
  by_cases hi : i < l.length
  · by_cases hj : j < l.length
    · rw [swap_eq hi hj]
      exact List.set_set_perm hi hj
    · rw [swap, List.getElem?_eq_none (Nat.le_of_not_lt hj)]
      cases l[i]? <;> exact .refl _
  · rw [swap, List.getElem?_eq_none (Nat.le_of_not_lt hi)]

theorem getElem?_swap (hi : i < l.length) (hj : j < l.length) (k : Nat) :
    (swap l i j)[k]? = if k = i then l[j]? else if k = j then l[i]? else l[k]? := by
  rw [swap_eq hi hj, List.getElem?_set, List.getElem?_set, List.length_set]
  by_cases hkj : j = k
  · subst hkj
    by_cases hki : j = i
    · subst hki
      simp [hj]
    · simp [hki, hj, List.getElem?_eq_getElem hi]
  · by_cases hki : i = k
    · subst hki
      simp [hkj, hi, List.getElem?_eq_getElem hj]
    · simp [hkj, hki, Ne.symm hki, Ne.symm hkj]

theorem Before.trans (h : Before key l i j) (h' : Before key l j c) (hj : j < l.length) : Before key l i c := by
  intro x hx z hz
  have hy : l[j]? = some l[j] := List.getElem?_eq_getElem hj
  exact le_trans (h x hx _ hy) (h' _ hy z hz)

theorem before_of_getElem? {l' : List α} {p' c' : Nat} (h : Before key l p c) (hp : l'[p']? = l[p]?) (hc : l'[c']? = l[c]?) :
    Before key l' p' c' := by
  unfold Before
  rw [hp, hc]
  exact h

/-- Two that are not in order are there, and are in order the other way round. -/
theorem of_not_before (h : ¬Before key l p c) : p < l.length ∧ c < l.length ∧ Before key l c p := by
  unfold Before at h ⊢
  cases hp : l[p]? with
  | none => simp [hp] at h
  | some x =>
      cases hc : l[c]? with
      | none => simp [hc] at h
      | some y =>
          have hLt : key y < key x := by simpa [hp, hc] using h
          obtain ⟨hp', _⟩ := List.getElem?_eq_some_iff.mp hp
          obtain ⟨hc', _⟩ := List.getElem?_eq_some_iff.mp hc
          refine ⟨hp', hc', fun y' hy x' hx => ?_⟩
          cases hy
          cases hx
          exact le_of_lt hLt

/-- In order but for one position, which may come too early. -/
structure UpOrder (key : α → κ) (l : List α) (i : Nat) : Prop where
  except : ∀ c, 0 < c → c ≠ i → Before key l (parent c) c
  grand : 0 < i → ∀ c, 0 < c → parent c = i → Before key l (parent i) c

/-- In order but for one position, which may come too late. -/
structure DownOrder (key : α → κ) (l : List α) (i : Nat) : Prop where
  except : ∀ c, 0 < c → parent c ≠ i → Before key l (parent c) c
  grand : 0 < i → ∀ c, 0 < c → parent c = i → Before key l (parent i) c

theorem UpOrder.swap (up : UpOrder key l i) (hi : 0 < i) (hNot : ¬Before key l (parent i) i) :
    UpOrder key (swap l (parent i) i) (parent i) := by
  obtain ⟨hp, hLen, hBack⟩ := of_not_before hNot
  have hlt := parent_lt hi
  have hAt := getElem?_swap hp hLen
  have hAtParent : (Heap.swap l (parent i) i)[parent i]? = l[i]? := by rw [hAt, if_pos rfl]
  have hAtI : (Heap.swap l (parent i) i)[i]? = l[parent i]? := by rw [hAt, if_neg (by omega), if_pos rfl]
  have hElse : ∀ k, k ≠ parent i → k ≠ i → (Heap.swap l (parent i) i)[k]? = l[k]? := by
    intro k hk hk'
    rw [hAt, if_neg hk, if_neg hk']
  constructor
  · intro c hc hne
    by_cases hci : c = i
    · subst hci
      exact before_of_getElem? hBack hAtParent hAtI
    by_cases hcp : parent c = i
    · rw [hcp]
      exact before_of_getElem? (up.grand hi c hc hcp) hAtI (hElse c hne hci)
    by_cases hSibling : parent c = parent i
    · rw [hSibling]
      have hAfter := up.except c hc hci
      rw [hSibling] at hAfter
      exact before_of_getElem? (hBack.trans hAfter hp) hAtParent (hElse c hne hci)
    · exact before_of_getElem? (up.except c hc hci) (hElse _ hSibling hcp) (hElse c hne hci)
  · intro hPositive c hc hcp
    have hGrand := parent_lt hPositive
    have hAbove := up.except (parent i) hPositive (by omega)
    have hSame := hElse (parent (parent i)) (by omega) (by omega)
    by_cases hci : c = i
    · subst hci
      exact before_of_getElem? hAbove hSame hAtI
    · have hBelow := up.except c hc hci
      rw [hcp] at hBelow
      have hne : c ≠ parent i := by
        rintro rfl
        omega
      exact before_of_getElem? (hAbove.trans hBelow hp) hSame (hElse c hne hci)

theorem siftUp_ordered {fuel : Nat} (up : UpOrder key l i) (hFuel : i ≤ fuel) : Ordered key (siftUp key fuel i l) := by
  induction fuel generalizing i l with
  | zero =>
      intro c hc
      exact up.except c hc (by omega)
  | succ fuel ih =>
      rw [siftUp]
      split
      · rename_i hDone
        intro c hc
        by_cases hci : c = i
        · subst hci
          exact hDone.resolve_left (by omega)
        · exact up.except c hc hci
      · rename_i hMore
        obtain ⟨hi, hNot⟩ := not_or.mp hMore
        have hlt := parent_lt (Nat.pos_of_ne_zero hi)
        exact ih (up.swap (Nat.pos_of_ne_zero hi) hNot) (by omega)

theorem siftUp_perm (fuel i : Nat) (l : List α) : (siftUp key fuel i l).Perm l := by
  induction fuel generalizing i l with
  | zero => exact .refl _
  | succ fuel ih =>
      rw [siftUp]
      split
      · exact .refl _
      · exact (ih _ _).trans (swap_perm _ _ _)

theorem parent_child (key : α → κ) (l : List α) (i : Nat) : 0 < child key l i ∧ parent (child key l i) = i := by
  unfold child parent
  split <;> omega

/-- No position below comes before the earlier one. -/
theorem child_before (hc : 0 < c) (hcp : parent c = i) : Before key l (child key l i) c := by
  have hCases : c = 2 * i + 1 ∨ c = 2 * i + 2 := by
    unfold parent at hcp
    omega
  have hSelf : ∀ k, Before key l k k := by
    intro k x hx y hy
    cases hx.symm.trans hy
    exact le_refl _
  unfold child
  rcases hCases with rfl | rfl <;> split <;> rename_i h
  · exact (of_not_before h.2).2.2
  · exact hSelf _
  · exact hSelf _
  · by_cases hLen : 2 * i + 2 < l.length
    · by_contra hNot
      exact h ⟨hLen, hNot⟩
    · intro x _ y hy
      rw [List.getElem?_eq_none (Nat.le_of_not_lt hLen)] at hy
      cases hy

theorem DownOrder.swap (down : DownOrder key l i) (hNot : ¬Before key l i (child key l i)) :
    DownOrder key (swap l i (child key l i)) (child key l i) := by
  obtain ⟨hLen, hChild, hBack⟩ := of_not_before hNot
  obtain ⟨hPositive, hParent⟩ := parent_child key l i
  have hFirst : ∀ c, 0 < c → parent c = i → Before key l (child key l i) c := fun c hc hcp => child_before hc hcp
  generalize child key l i = e at hChild hBack hPositive hParent hFirst
  have hlt := parent_lt hPositive
  have hAt := getElem?_swap hLen hChild
  have hAtI : (Heap.swap l i e)[i]? = l[e]? := by rw [hAt, if_pos rfl]
  have hAtE : (Heap.swap l i e)[e]? = l[i]? := by rw [hAt, if_neg (by omega), if_pos rfl]
  have hElse : ∀ k, k ≠ i → k ≠ e → (Heap.swap l i e)[k]? = l[k]? := by
    intro k hk hk'
    rw [hAt, if_neg hk, if_neg hk']
  constructor
  · intro c hc hcp
    have hcLt := parent_lt hc
    by_cases hce : c = e
    · rw [hce, hParent]
      exact before_of_getElem? hBack hAtI hAtE
    by_cases hSibling : parent c = i
    · rw [hSibling]
      exact before_of_getElem? (hFirst c hc hSibling) hAtI (hElse c (by omega) hce)
    by_cases hci : c = i
    · subst hci
      exact before_of_getElem? (down.grand hc e hPositive hParent) (hElse _ (by omega) (by omega)) hAtI
    · exact before_of_getElem? (down.except c hc hSibling) (hElse _ hSibling hcp) (hElse c hci hce)
  · intro _ c hc hcp
    have hcLt := parent_lt hc
    have hBelow := down.except c hc (by omega)
    rw [hcp] at hBelow
    rw [hParent]
    exact before_of_getElem? hBelow hAtI (hElse c (by omega) (by omega))

theorem siftDown_ordered {fuel : Nat} (down : DownOrder key l i) (hFuel : l.length ≤ i + fuel) :
    Ordered key (siftDown key fuel i l) := by
  induction fuel generalizing i l with
  | zero =>
      intro c hc
      by_cases hcp : parent c = i
      · have hlt := parent_lt hc
        intro x _ y hy
        obtain ⟨hLen, _⟩ := List.getElem?_eq_some_iff.mp hy
        rw [siftDown] at hLen
        omega
      · exact down.except c hc hcp
  | succ fuel ih =>
      rw [siftDown]
      split
      · rename_i hDone
        intro c hc
        by_cases hcp : parent c = i
        · have hAfter : Before key l (child key l i) c := child_before hc hcp
          rw [hcp]
          by_cases hLen : child key l i < l.length
          · exact hDone.trans hAfter hLen
          · intro x _ y hy
            obtain ⟨hcLen, _⟩ := List.getElem?_eq_some_iff.mp hy
            have hLeft : 2 * i + 1 ≤ c := by
              unfold parent at hcp
              omega
            unfold child at hLen
            split at hLen <;> omega
        · exact down.except c hc hcp
      · rename_i hNot
        obtain ⟨hPositive, hParent⟩ := parent_child key l i
        have hlt := parent_lt hPositive
        apply ih (down.swap hNot)
        rw [(swap_perm _ _ _).length_eq]
        omega

theorem siftDown_perm (fuel i : Nat) (l : List α) : (siftDown key fuel i l).Perm l := by
  induction fuel generalizing i l with
  | zero => exact .refl _
  | succ fuel ih =>
      rw [siftDown]
      split
      · exact .refl _
      · exact (ih _ _).trans (swap_perm _ _ _)

theorem ordered_nil : Ordered key [] := by
  intro c _ x hx
  cases hx

theorem push_perm (key : α → κ) (l : List α) (x : α) : (push key l x).Perm (x :: l) :=
  (siftUp_perm _ _ _).trans (List.perm_append_singleton x l)

theorem push_ordered (ordered : Ordered key l) (x : α) : Ordered key (push key l x) := by
  have hOld : ∀ c, c < l.length → (l ++ [x])[c]? = l[c]? := fun c hc => List.getElem?_append_left hc
  apply siftUp_ordered _ (Nat.le_refl _)
  constructor
  · intro c hc hne
    have hlt := parent_lt hc
    by_cases hLen : c < l.length
    · exact before_of_getElem? (ordered c hc) (hOld _ (by omega)) (hOld c hLen)
    · intro x' _ y hy
      obtain ⟨hAfter, _⟩ := List.getElem?_eq_some_iff.mp hy
      rw [List.length_append, List.length_singleton] at hAfter
      omega
  · intro _ c hc hcp x' _ y hy
    have hlt := parent_lt hc
    obtain ⟨hAfter, _⟩ := List.getElem?_eq_some_iff.mp hy
    rw [List.length_append, List.length_singleton] at hAfter
    omega

theorem pop_concat (key : α → κ) (x : α) (front : List α) (last : α) :
    pop key (x :: (front ++ [last])) = siftDown key (front.length + 1) 0 (last :: front) := by
  have hLast : (front ++ [last]).getLast? = some last := List.getLast?_concat
  have hPop : pop key (x :: (front ++ [last])) =
      siftDown key (front ++ [last]).length 0 (last :: (front ++ [last]).dropLast) := by
    simp only [pop, hLast]
  rw [hPop, List.dropLast_concat, List.length_append, List.length_singleton]

theorem pop_perm (key : α → κ) (x : α) (rest : List α) : (pop key (x :: rest)).Perm rest := by
  rcases List.eq_nil_or_concat rest with rfl | ⟨front, last, rfl⟩
  · exact .refl _
  · rw [List.concat_eq_append, pop_concat]
    exact (siftDown_perm _ _ _).trans (List.perm_append_singleton last front).symm

/-- The first one may have any key when it is taken out. -/
theorem pop_ordered (h : ∀ c, 0 < c → parent c ≠ 0 → Before key l (parent c) c) : Ordered key (pop key l) := by
  cases l with
  | nil => exact ordered_nil
  | cons x rest =>
      rcases List.eq_nil_or_concat rest with rfl | ⟨front, last, rfl⟩
      · exact ordered_nil
      rw [List.concat_eq_append] at h ⊢
      rw [pop_concat]
      -- but for the first one all positions hold what they held before
      have hSame : ∀ k, 0 < k → k < front.length + 1 → (last :: front)[k]? = (x :: (front ++ [last]))[k]? := by
        intro k hk hLen
        obtain ⟨k, rfl⟩ := Nat.exists_eq_succ_of_ne_zero (Nat.pos_iff_ne_zero.mp hk)
        rw [List.getElem?_cons_succ, List.getElem?_cons_succ, List.getElem?_append_left (by omega)]
      apply siftDown_ordered
      · refine ⟨fun c hc hcp => ?_, fun h => absurd h (Nat.lt_irrefl 0)⟩
        have hlt := parent_lt hc
        intro x' hx y hy
        obtain ⟨hLen, _⟩ := List.getElem?_eq_some_iff.mp hy
        rw [List.length_cons] at hLen
        have hBefore := h c hc hcp
        exact before_of_getElem? hBefore (hSame _ (Nat.pos_of_ne_zero hcp) (by omega)) (hSame c hc hLen) x' hx y hy
      · exact Nat.le_of_eq (by rw [List.length_cons, Nat.zero_add])

/-- The order is that of the keys of its elements. -/
theorem Ordered.congr (ordered : Ordered key l) (h : ∀ x ∈ l, key' x = key x) : Ordered key' l := by
  intro c hc x hx y hy
  rw [h x (List.mem_of_getElem? hx), h y (List.mem_of_getElem? hy)]
  exact ordered c hc x hx y hy

/-- The key of the first one may change before it is taken out. -/
theorem Ordered.pop (ordered : Ordered key (x :: l)) (h : ∀ y ∈ l, key' y = key y) :
    Ordered key (pop key' (x :: l)) := by
  have hRest : ∀ k, 0 < k → ∀ y ∈ (x :: l)[k]?, key' y = key y := by
    intro k hk y hy
    obtain ⟨k, rfl⟩ := Nat.exists_eq_succ_of_ne_zero (Nat.pos_iff_ne_zero.mp hk)
    exact h y (List.mem_of_getElem? hy)
  have hPopped : Ordered key' (Heap.pop key' (x :: l)) := by
    apply pop_ordered
    intro c hc hcp y hy z hz
    rw [hRest _ (Nat.pos_of_ne_zero hcp) y hy, hRest c hc z hz]
    exact ordered c hc y hy z hz
  exact hPopped.congr fun y hy => (h y ((pop_perm key' x l).mem_iff.mp hy)).symm

/-- Nothing comes before the first one. -/
theorem Ordered.first_le (ordered : Ordered key (x :: l)) : ∀ y ∈ x :: l, key x ≤ key y := by
  have hAt : ∀ i, Before key (x :: l) 0 i := by
    intro i
    induction i using Nat.strongRecOn with
    | ind i ih =>
        rcases Nat.eq_zero_or_pos i with rfl | hi
        · intro y hy z hz
          cases hy.symm.trans hz
          exact le_refl _
        · intro y hy z hz
          have hlt := parent_lt hi
          obtain ⟨hLen, _⟩ := List.getElem?_eq_some_iff.mp hz
          exact (ih (parent i) hlt).trans (ordered i hi) (by omega) y hy z hz
  intro y hy
  obtain ⟨i, hi⟩ := List.mem_iff_getElem?.mp hy
  exact hAt i x rfl y hi

end Heap
