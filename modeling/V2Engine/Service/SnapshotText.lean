import V2Engine.Service.MonitorData
import V2Engine.Text.Split
import Mathlib.Algebra.Group.Nat.Defs
import Mathlib.Algebra.Group.Int.Defs
import Mathlib.Tactic.Common

/-! What a client reads back from the text of a snapshot. -/
namespace Service

open Text

variable {F D : Type}

/-- What reading it as an `int` makes of a 64-bit unsigned field. -/
def narrowed (x : UInt64) : UInt64 := asUnsigned (Int32.ofInt x.toNat)

/-- The values that an `int` keeps, with its sign spread over the upper half. -/
def FitsInt (x : UInt64) : Prop := x.toNat < 2 ^ 31 ∨ 2 ^ 64 - 2 ^ 31 ≤ x.toNat

instance (x : UInt64) : Decidable (FitsInt x) := inferInstanceAs (Decidable (_ ∨ _))

theorem toNat_asUnsigned (x : Int32) : (asUnsigned x).toNat = (x.toInt % 2 ^ 64).toNat := by
  rw [asUnsigned, UInt64.ofInt, UInt64.toNat_ofNat']
  omega

theorem narrowed_eq_iff (x : UInt64) : narrowed x = x ↔ FitsInt x := by
  have hBound : x.toNat < 2 ^ 64 := x.toNat_lt
  rw [← UInt64.toNat_inj, narrowed, toNat_asUnsigned, Int32.toInt_ofInt, FitsInt, Int.bmod,
    show Int32.size = 2 ^ 32 from rfl]
  split <;> omega

section Reading

variable {floats : Floats F D} {pairs : List (String × Json D)} {key : String}

theorem unsignedValue_written {x : UInt64} (hNodup : (pairs.map Prod.fst).Nodup)
    (hMember : pairs.lookup key = some (unsigned x)) :
    unsignedValue floats (Json.written floats.finite (.ofPairs pairs)) key = some (narrowed x) := by
  rw [unsignedValue, Json.value_written_ofPairs hNodup, hMember]
  rfl

/-- A floating field is read back, with whatever rounding, when the text has a number for it. -/
theorem floatValue_written {x : F} (hNodup : (pairs.map Prod.fst).Nodup)
    (hMember : pairs.lookup key = some (measured floats x)) :
    floatValue floats (Json.written floats.finite (.ofPairs pairs)) key
      = if floats.finite (floats.widen x) then some (floats.narrow (floats.widen x)) else none := by
  rw [floatValue, Json.value_written_ofPairs hNodup, hMember]
  exact Json.getFloat_written_float _

/-- What comes back of a floating field whose value is finite. -/
def rounded (floats : Floats F D) (x : F) : F := floats.narrow (floats.widen x)

theorem bind_ite_none {α β : Type} {c : Prop} [Decidable c] (a : α) (f : α → Option β) :
    (if c then some a else none).bind f = if c then f a else none := by
  split <;> rfl

theorem ActorInfo.fromJson_written (a : ActorInfo) :
    ActorInfo.fromJson floats (Json.written floats.finite a.toJson) = some (a.mapFields narrowed) := by
  have hNodup : ((a.members (D := D)).map Prod.fst).Nodup := by simp [ActorInfo.members]
  simp only [ActorInfo.fromJson, ActorInfo.toJson, unsignedValue, Json.value_written_ofPairs hNodup]
  simp [ActorInfo.members, List.lookup_cons, unsigned]
  rfl

theorem SystemResources.fromJson_written (r : SystemResources F) :
    SystemResources.fromJson floats (Json.written floats.finite (r.toJson floats))
      = if ∀ x ∈ r.measurements, floats.finite (floats.widen x) then some (r.mapFields narrowed (rounded floats))
        else none := by
  have hNodup : ((r.members floats).map Prod.fst).Nodup := by simp [SystemResources.members]
  simp only [SystemResources.fromJson, SystemResources.toJson, unsignedValue, floatValue,
    Json.value_written_ofPairs hNodup]
  simp [SystemResources.members, List.lookup_cons, unsigned, measured, SystemResources.measurements]
  simp only [bind_ite_none, ite_and]
  rfl

theorem PmuData.fromJson_written (p : PmuData F) :
    PmuData.fromJson floats (Json.written floats.finite (p.toJson floats))
      = if ∀ x ∈ p.measurements, floats.finite (floats.widen x) then some (p.mapFields narrowed (rounded floats))
        else none := by
  have hNodup : ((p.members floats).map Prod.fst).Nodup := by simp [PmuData.members]
  simp only [PmuData.fromJson, PmuData.toJson, unsignedValue, floatValue, Json.value_written_ofPairs hNodup]
  simp [PmuData.members, List.lookup_cons, unsigned, measured, PmuData.measurements]
  simp only [bind_ite_none, ite_and]
  rfl

/-- The actors are read back in their order, each as its own members allow. -/
theorem mapM_actors_written (actors : List ActorInfo) :
    (actors.map ActorInfo.toJson).mapM
        (fun item => ActorInfo.fromJson floats (Json.written floats.finite item))
      = some (actors.map (ActorInfo.mapFields narrowed)) := by
  induction actors with
  | nil => rfl
  | cons a actors ih =>
      rw [List.map_cons, List.mapM_cons, ActorInfo.fromJson_written, ih]
      rfl

theorem MonitorSnapshot.fromJson_written (s : MonitorSnapshot F) :
    MonitorSnapshot.fromJson floats (Json.written floats.finite (s.toJson floats))
      = if ∀ x ∈ s.measurements, floats.finite (floats.widen x) then some (s.mapFields narrowed (rounded floats))
        else none := by
  have hNodup : ((s.members floats).map Prod.fst).Nodup := by simp [MonitorSnapshot.members]
  simp only [MonitorSnapshot.fromJson, MonitorSnapshot.toJson, unsignedValue, Json.value_written_ofPairs hNodup,
    Json.memberAt_written_ofPairs hNodup]
  simp [-List.mapM_map, MonitorSnapshot.members, List.lookup_cons, unsigned, mapM_actors_written,
    SystemResources.fromJson_written, PmuData.fromJson_written]
  have hSplit : (∀ x ∈ s.measurements, floats.finite (floats.widen x) = true)
      ↔ (∀ x ∈ s.sysResources.measurements, floats.finite (floats.widen x) = true)
        ∧ ∀ x ∈ s.pmuData.measurements, floats.finite (floats.widen x) = true := by
    rw [MonitorSnapshot.measurements, List.forall_mem_append]
  simp only [bind_ite_none, hSplit, ite_and]
  rfl

end Reading

section Discrete

variable (onUnsigned : UInt64 → UInt64)

theorem SystemResources.mapFields_eq_iff (r : SystemResources F) :
    r.mapFields onUnsigned (fun _ => ()) = r.mapFields (fun x => x) (fun _ => ())
      ↔ ∀ x ∈ r.counters, onUnsigned x = x := by
  simp [SystemResources.mapFields, SystemResources.counters]

theorem PmuData.mapFields_eq_iff (p : PmuData F) :
    p.mapFields onUnsigned (fun _ => ()) = p.mapFields (fun x => x) (fun _ => ())
      ↔ ∀ x ∈ p.counters, onUnsigned x = x := by
  simp [PmuData.mapFields, PmuData.counters]

theorem ActorInfo.mapFields_eq_iff (a : ActorInfo) :
    a.mapFields onUnsigned = a.mapFields (fun x => x) ↔ ∀ x ∈ a.counters, onUnsigned x = x := by
  simp [ActorInfo.mapFields, ActorInfo.counters]

theorem MonitorSnapshot.mapFields_eq_iff (s : MonitorSnapshot F) :
    s.mapFields onUnsigned (fun _ => ()) = s.discrete ↔ ∀ x ∈ s.counters, onUnsigned x = x := by
  rw [MonitorSnapshot.discrete, MonitorSnapshot.mapFields, MonitorSnapshot.mapFields, MonitorSnapshot.mk.injEq,
    List.map_inj_left, SystemResources.mapFields_eq_iff, PmuData.mapFields_eq_iff]
  simp only [ActorInfo.mapFields_eq_iff, MonitorSnapshot.counters, List.cons_append, List.forall_mem_cons,
    List.forall_mem_append, List.forall_mem_flatMap, true_and, and_assoc]

theorem MonitorSnapshot.discrete_mapFields {G : Type} (onFloat : F → G) (s : MonitorSnapshot F) :
    (s.mapFields onUnsigned onFloat).discrete = s.mapFields onUnsigned (fun _ => ()) := by
  simp only [MonitorSnapshot.discrete, MonitorSnapshot.mapFields, List.map_map]
  rfl

end Discrete

section ReadBack

variable (floats : Floats F D) (dump : Json D → Str) (parse : Str → Option (Json D))

/-- The text of a snapshot is parsed and read again. -/
def MonitorSnapshot.readBack (s : MonitorSnapshot F) : Option (MonitorSnapshot F) :=
  parse (dump (s.toJson floats)) >>= MonitorSnapshot.fromJson floats

variable {floats dump parse}

theorem MonitorSnapshot.readBack_eq {s : MonitorSnapshot F}
    (hText : parse (dump (s.toJson floats)) = some (Json.written floats.finite (s.toJson floats))) :
    (s.readBack floats dump parse).map MonitorSnapshot.discrete
      = if ∀ x ∈ s.measurements, floats.finite (floats.widen x) then some (s.mapFields narrowed fun _ => ())
        else none := by
  have hRead : s.readBack floats dump parse
      = MonitorSnapshot.fromJson floats (Json.written floats.finite (s.toJson floats)) := by
    rw [MonitorSnapshot.readBack, hText]
    rfl
  rw [hRead, MonitorSnapshot.fromJson_written]
  split
  · rw [Option.map_some, MonitorSnapshot.discrete_mapFields]
  · rfl

/-- A snapshot comes back with every integer, boolean and string field it was written with if
and only if each 64-bit field survives being an `int`, and each measurement is a number. -/
theorem MonitorSnapshot.readBack_iff (s : MonitorSnapshot F)
    (hText : parse (dump (s.toJson floats)) = some (Json.written floats.finite (s.toJson floats))) :
    (s.readBack floats dump parse).map MonitorSnapshot.discrete = some s.discrete
      ↔ (∀ x ∈ s.counters, FitsInt x) ∧ ∀ x ∈ s.measurements, floats.finite (floats.widen x) = true := by
  rw [MonitorSnapshot.readBack_eq hText]
  have hCounters : s.mapFields narrowed (fun _ => ()) = s.discrete ↔ ∀ x ∈ s.counters, FitsInt x := by
    rw [MonitorSnapshot.mapFields_eq_iff]
    simp only [narrowed_eq_iff]
  by_cases hFinite : ∀ x ∈ s.measurements, floats.finite (floats.widen x) = true
  · rw [if_pos hFinite, Option.some.injEq, hCounters]
    exact ⟨fun h => ⟨h, hFinite⟩, And.left⟩
  · rw [if_neg hFinite]
    exact ⟨fun h => absurd h nofun, fun h => absurd h.2 hFinite⟩

end ReadBack

section Plain

/-- Whole numbers as the floating numbers of a snapshot. -/
def wholeFloats : Floats Int Int where
  widen := id
  narrow := id
  finite := fun _ => true
  ofInt := id
  truncate := Int32.ofInt

mutual

/-- The text of a value in which no string needs an escape. -/
def plainText : Json Int → Str
  | .null => "null".toList
  | .boolean b => (toString b).toList
  | .number n => (toString n).toList
  | .float x => (toString x).toList ++ ".0".toList
  | .string s => '"' :: s.toList ++ ['"']
  | .array items => '[' :: [','].intercalate (plainItems items) ++ [']']
  | .object members => '{' :: [','].intercalate (plainMembers members) ++ ['}']

def plainItems : List (Json Int) → List Str
  | [] => []
  | item :: rest => plainText item :: plainItems rest

def plainMembers : List (String × Json Int) → List Str
  | [] => []
  | (key, item) :: rest => ('"' :: key.toList ++ "\":".toList ++ plainText item) :: plainMembers rest

end

/-- A parser that knows the text of one value. -/
def parseOf (j : Json Int) (text : Str) : Option (Json Int) := if text = plainText j then some j else none

theorem parseOf_plainText (j : Json Int) :
    parseOf j (plainText j) = some (Json.written wholeFloats.finite j) := by
  have hFinite : ∀ x, wholeFloats.finite x = true := fun _ => rfl
  rw [parseOf, if_pos rfl, Json.written_eq_self hFinite]

def busy : MonitorSnapshot Int where
  timestampMs := 86400000
  clientCount := 1
  actors := [⟨"cmd", 7, 2, 1024, 3, true⟩]
  sysResources := ⟨5120, 16384, 12, 60000, 9, 20480, 8192, 0, 1, 0, 0, 948304, 512000⟩
  pmuData := ⟨1500000000, 500000000, 300000000, 948, 76, 0, 47, 1, 2⟩

theorem readBack_busy :
    (busy.readBack wholeFloats plainText (parseOf (busy.toJson wholeFloats))).map MonitorSnapshot.discrete
      = some busy.discrete := by
  apply (busy.readBack_iff (parseOf_plainText _)).mpr
  constructor
  · simp [busy, MonitorSnapshot.counters, ActorInfo.counters, SystemResources.counters, PmuData.counters, FitsInt]
  · intro _ _
    rfl

/-- The time of day in milliseconds, which is what the monitor writes there. -/
def stamped : MonitorSnapshot Int := { busy with timestampMs := 1760000000000 }

theorem not_readBack_stamped :
    (stamped.readBack wholeFloats plainText (parseOf (stamped.toJson wholeFloats))).map MonitorSnapshot.discrete
      ≠ some stamped.discrete := by
  rw [MonitorSnapshot.readBack_eq (parseOf_plainText _), if_pos (by intro _ _; rfl)]
  intro h
  have hAll := (MonitorSnapshot.mapFields_eq_iff narrowed stamped).mp (Option.some.inj h)
  have hStamp := (narrowed_eq_iff _).mp (hAll stamped.timestampMs List.mem_cons_self)
  revert hStamp
  decide

end Plain

end Service
