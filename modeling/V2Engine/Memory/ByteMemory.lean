import Mathlib.Logic.Function.Basic
import Mathlib.Algebra.Order.Group.Nat
import Mathlib.Tactic.Ring

/-! Memory of bytes, words in it with their lowest byte first, and singly linked lists whose
links are such words. -/
namespace ByteMemory

abbrev Bytes := Nat → UInt8

/-- The number in `width` bytes from `addr` on. -/
def load (m : Bytes) : Nat → Nat → Nat
  | _, 0 => 0
  | addr, width + 1 => (m addr).toNat + 256 * load m (addr + 1) width

def store (m : Bytes) : Nat → Nat → Nat → Bytes
  | _, _, 0 => m
  | addr, value, width + 1 =>
      store (Function.update m addr (UInt8.ofNat value)) (addr + 1) (value / 256) width

variable {m m' : Bytes} {addr value width p : Nat}

/-- Only the bytes of the word are written. -/
theorem store_of_apart (h : p < addr ∨ addr + width ≤ p) : store m addr value width p = m p := by
  induction width generalizing m addr value with
  | zero => rfl
  | succ width ih =>
      rw [store, ih (by omega), Function.update_of_ne (by omega)]

/-- A word is read from its own bytes. -/
theorem load_congr (h : ∀ i, i < width → m' (addr + i) = m (addr + i)) :
    load m' addr width = load m addr width := by
  induction width generalizing addr with
  | zero => rfl
  | succ width ih =>
      have hFirst : m' addr = m addr := h 0 (Nat.succ_pos _)
      rw [load, load, hFirst, ih fun i hi => ?_]
      have := h (i + 1) (by omega)
      rwa [Nat.add_assoc, Nat.add_comm 1]

theorem load_store (h : value < 256 ^ width) : load (store m addr value width) addr width = value := by
  induction width generalizing m addr value with
  | zero =>
      rw [Nat.pow_zero] at h
      exact (Nat.lt_one_iff.mp h).symm
  | succ width ih =>
      have hRest : value / 256 < 256 ^ width := by
        rw [Nat.div_lt_iff_lt_mul (by decide), ← Nat.pow_succ]
        exact h
      rw [load, store, ih hRest, store_of_apart (by omega), Function.update_self]
      simp only [UInt8.toNat_ofNat']
      omega

/-- A list whose nodes each begin with the address of the next one; the last one's is null. -/
def Linked (m : Bytes) (width : Nat) : Nat → List Nat → Prop
  | head, [] => head = 0
  | head, node :: rest => head = node ∧ node ≠ 0 ∧ Linked m width (load m node width) rest

/-- The links are all that a list needs of the memory. -/
theorem Linked.congr {head : Nat} {nodes : List Nat} (linked : Linked m width head nodes)
    (h : ∀ node ∈ nodes, ∀ i, i < width → m' (node + i) = m (node + i)) :
    Linked m' width head nodes := by
  induction nodes generalizing head with
  | nil => exact linked
  | cons node rest ih =>
      obtain ⟨rfl, hNode, hRest⟩ := linked
      refine ⟨rfl, hNode, ?_⟩
      rw [load_congr (h head List.mem_cons_self)]
      exact ih hRest fun node hMem => h node (List.mem_cons_of_mem _ hMem)

/-- A node in front of a list that its link does not touch. -/
theorem Linked.cons {head : Nat} {nodes : List Nat} (linked : Linked m width head nodes)
    (hNode : p ≠ 0) (hHead : head < 256 ^ width)
    (hApart : ∀ node ∈ nodes, node + width ≤ p ∨ p + width ≤ node) :
    Linked (store m p head width) width p (p :: nodes) := by
  refine ⟨rfl, hNode, ?_⟩
  rw [load_store hHead]
  refine linked.congr fun node hMem i hi => store_of_apart ?_
  have := hApart node hMem
  omega

theorem Linked.eq_nil_iff {head : Nat} {nodes : List Nat} (linked : Linked m width head nodes) :
    head = 0 ↔ nodes = [] := by
  cases nodes with
  | nil => exact ⟨fun _ => rfl, fun _ => linked⟩
  | cons node rest =>
      obtain ⟨rfl, hNode, _⟩ := linked
      exact ⟨fun h => absurd h hNode, nofun⟩

end ByteMemory
