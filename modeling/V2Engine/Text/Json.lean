import Mathlib.Data.List.Basic

/-! Json values, the texts written for them and the typed reading of their members.
The number types `F` (what a record holds) and `D` (what a value holds) are parameters. -/
namespace Text

inductive Json (D : Type) where
  | null
  | boolean (b : Bool)
  | number (n : Int)
  | float (x : D)
  | string (s : String)
  | array (items : List (Json D))
  | object (members : List (String × Json D))

/-- The conversions between the floating types and the integers. -/
structure Floats (F D : Type) where
  widen : F → D
  narrow : D → F
  finite : D → Bool
  ofInt : Int → F
  truncate : D → Int32

namespace Json

variable {F D α β : Type}

/-- `std::map::emplace`: members are sorted by key, and the first of two equal keys stays. -/
def emplace (key : String) (item : β) : List (String × β) → List (String × β)
  | [] => [(key, item)]
  | (other, x) :: rest =>
      if key = other then (other, x) :: rest
      else if key < other then (key, item) :: (other, x) :: rest
      else (other, x) :: emplace key item rest

/-- The members of an object that is built from its list of pairs. -/
def membersOf (pairs : List (String × β)) : List (String × β) :=
  pairs.foldl (fun members pair => emplace pair.1 pair.2 members) []

def ofPairs (pairs : List (String × Json D)) : Json D := .object (membersOf pairs)

mutual

/-- What a text keeps of a value: numbers that are not finite are written as `null`. -/
def written (finite : D → Bool) : Json D → Json D
  | .null => .null
  | .boolean b => .boolean b
  | .number n => .number n
  | .float x => if finite x then .float x else .null
  | .string s => .string s
  | .array items => .array (writtenItems finite items)
  | .object members => .object (writtenMembers finite members)

def writtenItems (finite : D → Bool) : List (Json D) → List (Json D)
  | [] => []
  | item :: rest => written finite item :: writtenItems finite rest

def writtenMembers (finite : D → Bool) : List (String × Json D) → List (String × Json D)
  | [] => []
  | (key, item) :: rest => (key, written finite item) :: writtenMembers finite rest

end

mutual

/-- Where every number is finite the text keeps the value. -/
theorem written_eq_self {finite : D → Bool} (hFinite : ∀ x, finite x = true) :
    ∀ j : Json D, written finite j = j
  | .null | .boolean _ | .number _ | .string _ => rfl
  | .float x => if_pos (hFinite x)
  | .array items => congrArg Json.array (writtenItems_eq_self hFinite items)
  | .object members => congrArg Json.object (writtenMembers_eq_self hFinite members)

theorem writtenItems_eq_self {finite : D → Bool} (hFinite : ∀ x, finite x = true) :
    ∀ items : List (Json D), writtenItems finite items = items
  | [] => rfl
  | item :: rest => by rw [writtenItems, written_eq_self hFinite, writtenItems_eq_self hFinite]

theorem writtenMembers_eq_self {finite : D → Bool} (hFinite : ∀ x, finite x = true) :
    ∀ members : List (String × Json D), writtenMembers finite members = members
  | [] => rfl
  | (_, item) :: rest => by rw [writtenMembers, written_eq_self hFinite, writtenMembers_eq_self hFinite]

end

/-- `get<int>`: a stored number of any kind is cast. -/
def getInt (floats : Floats F D) : Json D → Option Int32
  | .number n => some (Int32.ofInt n)
  | .float x => some (floats.truncate x)
  | .boolean b => some (if b then 1 else 0)
  | _ => none

/-- `get<float>`. -/
def getFloat (floats : Floats F D) : Json D → Option F
  | .number n => some (floats.ofInt n)
  | .float x => some (floats.narrow x)
  | .boolean b => some (floats.ofInt (if b then 1 else 0))
  | _ => none

/-- `get<bool>`. -/
def getBool : Json D → Option Bool
  | .boolean b => some b
  | _ => none

/-- `get<std::string>`. -/
def getString : Json D → Option String
  | .string s => some s
  | _ => none

/-- `get<std::vector<α>>`. -/
def getArray (get : Json D → Option α) : Json D → Option (List α)
  | .array items => items.mapM get
  | _ => none

/-- A member, or a default when the object has none of that name; anything but an object throws. -/
def value (get : Json D → Option α) (j : Json D) (key : String) (absent : α) : Option α :=
  match j with
  | .object members => match members.lookup key with
    | some item => get item
    | none => some absent
  | _ => none

/-- `at`: a member that is not there throws. -/
def memberAt (get : Json D → Option α) (j : Json D) (key : String) : Option α :=
  match j with
  | .object members => members.lookup key >>= get
  | _ => none

variable {key other : String} {item : β} {members pairs : List (String × β)}

theorem lookup_emplace_of_ne (hne : other ≠ key) :
    (emplace key item members).lookup other = members.lookup other := by
  have hFalse : (other == key) = false := beq_false_of_ne hne
  induction members with
  | nil => simp [emplace, List.lookup_cons, hFalse]
  | cons head rest ih =>
      rw [emplace]
      split
      · rfl
      · split
        · rw [List.lookup_cons, hFalse]
        · rw [List.lookup_cons, List.lookup_cons, ih]

theorem lookup_emplace_self (hNew : members.lookup key = none) :
    (emplace key item members).lookup key = some item := by
  induction members with
  | nil => simp [emplace]
  | cons head rest ih =>
      have hne : key ≠ head.1 := by
        rintro rfl
        simp at hNew
      rw [List.lookup_cons, beq_false_of_ne hne] at hNew
      rw [emplace, if_neg hne]
      split
      · exact List.lookup_cons_self
      · rw [List.lookup_cons, beq_false_of_ne hne]
        exact ih hNew

/-- Members of new and different names do not hide what was there. -/
theorem lookup_foldl_emplace (hNodup : (pairs.map Prod.fst).Nodup)
    (hNew : ∀ pair ∈ pairs, members.lookup pair.1 = none) :
    (pairs.foldl (fun members pair => emplace pair.1 pair.2 members) members).lookup key
      = (members.lookup key).or (pairs.lookup key) := by
  induction pairs generalizing members with
  | nil => simp
  | cons pair pairs ih =>
      rw [List.map_cons, List.nodup_cons] at hNodup
      have hRest : ∀ p ∈ pairs, (emplace pair.1 pair.2 members).lookup p.1 = none := by
        intro p hp
        rw [lookup_emplace_of_ne]
        · exact hNew p (List.mem_cons_of_mem _ hp)
        · rintro heq
          exact hNodup.1 (heq ▸ List.mem_map_of_mem hp)
      rw [List.foldl_cons, ih hNodup.2 hRest, List.lookup_cons]
      by_cases hKey : key = pair.1
      · subst hKey
        rw [lookup_emplace_self (hNew pair List.mem_cons_self), hNew pair List.mem_cons_self]
        simp
      · rw [lookup_emplace_of_ne hKey, beq_false_of_ne hKey]

theorem lookup_membersOf (hNodup : (pairs.map Prod.fst).Nodup) :
    (membersOf pairs).lookup key = pairs.lookup key := by
  rw [membersOf, lookup_foldl_emplace hNodup (by simp)]
  rfl

variable {finite : D → Bool} {get : Json D → Option α} {absent : α}

theorem writtenItems_eq_map (items : List (Json D)) :
    writtenItems finite items = items.map (written finite) := by
  induction items with
  | nil => rfl
  | cons item rest ih => rw [writtenItems, ih, List.map_cons]

theorem lookup_writtenMembers (members : List (String × Json D)) :
    (writtenMembers finite members).lookup key = (members.lookup key).map (written finite) := by
  induction members with
  | nil => rfl
  | cons head rest ih =>
      rw [writtenMembers, List.lookup_cons, List.lookup_cons, ih]
      split <;> rfl

/-- A member of a written object is read as the text keeps it. -/
theorem value_written_ofPairs {pairs : List (String × Json D)} (hNodup : (pairs.map Prod.fst).Nodup) :
    value get (written finite (ofPairs pairs)) key absent
      = match pairs.lookup key with
        | some item => get (written finite item)
        | none => some absent := by
  rw [ofPairs, written, value, lookup_writtenMembers, lookup_membersOf hNodup]
  cases pairs.lookup key <;> rfl

theorem memberAt_written_ofPairs {pairs : List (String × Json D)} (hNodup : (pairs.map Prod.fst).Nodup) :
    memberAt get (written finite (ofPairs pairs)) key = pairs.lookup key >>= fun item => get (written finite item) := by
  rw [ofPairs, written, memberAt, lookup_writtenMembers, lookup_membersOf hNodup]
  cases pairs.lookup key <;> rfl

section Written

variable {floats : Floats F D}

@[simp] theorem getInt_written_number (n : Int) :
    getInt floats (written finite (.number n)) = some (Int32.ofInt n) := rfl

@[simp] theorem getBool_written_boolean (b : Bool) : getBool (written finite (.boolean b)) = some b := rfl

@[simp] theorem getString_written_string (s : String) : getString (written finite (.string s)) = some s := rfl

@[simp] theorem getFloat_written_float (x : D) :
    getFloat floats (written finite (.float x)) = if finite x then some (floats.narrow x) else none := by
  rw [written]
  split <;> rfl

@[simp] theorem getArray_written_array (items : List (Json D)) :
    getArray get (written finite (.array items)) = items.mapM fun item => get (written finite item) := by
  rw [written, getArray, writtenItems_eq_map, List.mapM_map]
  rfl

end Written

end Json

end Text
