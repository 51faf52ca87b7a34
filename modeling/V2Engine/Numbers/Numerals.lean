import Mathlib.Data.Nat.Digits.Defs
import V2Engine.Numbers.FloatFormat
import V2Engine.Text.Split

/-! Numbers at the start of a text, as `strtof` and `strtoull` of the C library read them in its
own locale, and the conversions of the C++ library that throw where these find none. -/
namespace Numbers

open Text

def isspace (c : Char) : Bool := c = ' ' ∨ ('\t' ≤ c ∧ c ≤ '\r')

def isdigit (c : Char) : Bool := '0' ≤ c ∧ c ≤ '9'

/-- The value of a digit, letters following the decimal ones. -/
def digit (base : ℕ) (c : Char) : Option ℕ :=
  let d :=
    if isdigit c then c.toNat - '0'.toNat
    else if 'a' ≤ c.toLower ∧ c.toLower ≤ 'z' then c.toLower.toNat - 'a'.toNat + 10
    else base
  if d < base then some d else none

/-- The digits at the start of a text, and what follows them. -/
def digits (base : ℕ) : Str → List ℕ × Str
  | [] => ([], [])
  | c :: text =>
      match digit base c with
      | none => ([], c :: text)
      | some d => (d :: (digits base text).1, (digits base text).2)

def value (base : ℕ) (ds : List ℕ) : ℕ := Nat.ofDigits base ds.reverse

/-- Whether a minus sign is there, and what follows the sign. -/
def sign : Str → Bool × Str
  | '-' :: text => (true, text)
  | '+' :: text => (false, text)
  | text => (false, text)

def unsigned (text : Str) : Str := (sign (text.dropWhile isspace)).2

/-- Digits with at most one point among them. -/
def mantissa (base : ℕ) (text : Str) : Option (ℚ × Str) :=
  let (whole, rest) := digits base text
  let (fraction, rest) :=
    match rest with
    | '.' :: more => digits base more
    | rest => ([], rest)
  if whole = [] ∧ fraction = [] then none
  else some (value base (whole ++ fraction) / base ^ fraction.length, rest)

/-- A mark without digits after it does not belong to the number. -/
def exponent (mark : Char) : Str → ℤ
  | [] => 0
  | c :: text =>
      if c.toLower = mark then
        let (negative, text) := sign text
        let e : ℤ := value 10 (digits 10 text).1
        if negative then -e else e
      else 0

def decimal (text : Str) : Option ℚ :=
  (mantissa 10 text).map fun (m, rest) => m * 10 ^ exponent 'e' rest

def hexadecimal (text : Str) : Option ℚ :=
  (mantissa 16 text).map fun (m, rest) => m * 2 ^ exponent 'p' rest

/-- What a text without a sign stands for. -/
inductive Number where
  | finite (q : ℚ)
  | infinite
  | nan
deriving DecidableEq

/-- A word at the start of a text, in capital or in small letters. -/
def startsWith (word : String) (text : Str) : Bool := word.toList.isPrefixOf (text.map Char.toLower)

/-- The number at the start of a text, exactly. Where nothing hexadecimal follows `0x` it is the 0. -/
def number (text : Str) : Option Number :=
  if startsWith "inf" text then some .infinite
  else if startsWith "nan" text then some .nan
  else if startsWith "0x" text then some (.finite ((hexadecimal (text.drop 2)).getD 0))
  else (decimal text).map .finite

inductive Single where
  | finite (negative : Bool) (magnitude : ℚ)
  | infinite (negative : Bool)
  | nan
deriving DecidableEq

instance : Zero Single := ⟨.finite false 0⟩

/-- The value, if there is one, and whether `errno` is `ERANGE`. An implementation may set it, or
not, for what lies below the normal values. -/
def strtof (reportsTiny : ℚ → Bool) (text : Str) : Option (Single × Bool) :=
  let negative := (sign (text.dropWhile isspace)).1
  (number (unsigned text)).map fun
    | .finite q =>
        if FloatFormat.single.overflows q then (.infinite negative, true)
        else (.finite negative (FloatFormat.single.round q),
          0 < q ∧ q < FloatFormat.single.minNormal ∧ reportsTiny q)
    | .infinite => (.infinite negative, false)
    | .nan => (.nan, false)

/-- In base 16 the digits may come after `0x`. -/
def withoutPrefix (base : ℕ) (text : Str) : Str :=
  if base = 16 ∧ startsWith "0x" text ∧ (digits 16 (text.drop 2)).1 ≠ [] then text.drop 2 else text

/-- A minus sign is taken modulo `2 ^ 64`. -/
def strtoull (base : ℕ) (text : Str) : Option (UInt64 × Bool) :=
  let negative := (sign (text.dropWhile isspace)).1
  let ds := (digits base (withoutPrefix base (unsigned text))).1
  if ds = [] then none
  else if 2 ^ 64 ≤ value base ds then some (-1, true)
  else some (if negative then -UInt64.ofNat (value base ds) else UInt64.ofNat (value base ds), false)

inductive Thrown where
  | invalidArgument (what : String)
  | outOfRange (what : String)
deriving DecidableEq, Repr

def converted {α : Type} (what : String) : Option (α × Bool) → Except Thrown α
  | none => .error (.invalidArgument what)
  | some (v, range) => if range then .error (.outOfRange what) else .ok v

def stof (reportsTiny : ℚ → Bool) (text : Str) : Except Thrown Single :=
  converted "stof" (strtof reportsTiny text)

def stoull (base : ℕ) (text : Str) : Except Thrown UInt64 := converted "stoull" (strtoull base text)

variable {base : ℕ} {text : Str} {reportsTiny : ℚ → Bool}

/-- A text that `number` finds something in. -/
inductive BeginsNumber : Str → Prop
  | digit {c : Char} {rest : Str} (h : isdigit c) : BeginsNumber (c :: rest)
  | point {c : Char} {rest : Str} (h : isdigit c) : BeginsNumber ('.' :: c :: rest)
  | word {text : Str} (h : startsWith "inf" text ∨ startsWith "nan" text) : BeginsNumber text

/-- After spaces and a sign, a number begins that a `float` can hold. -/
structure FloatText (reportsTiny : ℚ → Bool) (text : Str) : Prop where
  begins : BeginsNumber (unsigned text)
  fits : ∀ q, number (unsigned text) = some (.finite q) → q < 2 ^ 128 - 2 ^ 103
  normal : ∀ q, number (unsigned text) = some (.finite q) → 0 < q → reportsTiny q = true →
    (2 ^ 126)⁻¹ ≤ q

/-- After spaces and a sign, digits begin that 64 bits can hold. -/
structure UnsignedText (base : ℕ) (text : Str) : Prop where
  begins : ∃ c rest, unsigned text = c :: rest ∧ (digit base c).isSome
  fits : value base (digits base (withoutPrefix base (unsigned text))).1 < 2 ^ 64

theorem digits_eq_nil_iff (base : ℕ) (text : Str) :
    (digits base text).1 = [] ↔ ∀ c rest, text = c :: rest → digit base c = none := by
  cases text with
  | nil => exact iff_of_true rfl nofun
  | cons c text =>
      rw [digits]
      cases hDigit : digit base c with
      | none =>
          refine iff_of_true rfl fun first rest h => ?_
          cases h
          exact hDigit
      | some d =>
          refine iff_of_false (List.cons_ne_nil _ _) fun h => ?_
          rw [h c text rfl] at hDigit
          cases hDigit

theorem digits_ne_nil_iff (base : ℕ) (text : Str) :
    (digits base text).1 ≠ [] ↔ ∃ c rest, text = c :: rest ∧ (digit base c).isSome := by
  rw [ne_eq, digits_eq_nil_iff]
  push Not
  simp [Option.isSome_iff_ne_none]

theorem digits_eq_of_nil (h : (digits base text).1 = []) : digits base text = ([], text) := by
  cases text with
  | nil => rfl
  | cons c text =>
      rw [digits, (digits_eq_nil_iff base _).mp h c text rfl]

theorem isSome_digit_ten (c : Char) : (digit 10 c).isSome = isdigit c := by
  rw [digit]
  cases hDigit : isdigit c with
  | true =>
      have hLess : c.toNat - '0'.toNat < 10 := by
        have hLast : c.val.toNat ≤ '9'.val.toNat :=
          UInt32.le_iff_toNat_le.mp (of_decide_eq_true hDigit).2
        show c.val.toNat - 48 < 10
        have hNine : '9'.val.toNat = 57 := rfl
        omega
      rw [if_pos rfl, if_pos hLess]
      rfl
  | false =>
      rw [if_neg Bool.false_ne_true]
      split <;> rw [if_neg (by omega)] <;> rfl

/-- Only letters have another small form. -/
theorem toLower_eq_zero {c : Char} (h : c.toLower = '0') : c = '0' := by
  delta Char.toLower at h
  split at h
  · rename_i hLetter
    have hLast := UInt32.le_iff_toNat_le.mp hLetter.2
    have hZ : 'Z'.val.toNat = 90 := rfl
    have hCode : (c.val + 32).toNat = 48 := congrArg (fun c : Char => c.val.toNat) h
    rw [UInt32.toNat_add, Nat.mod_eq_of_lt (by show c.val.toNat + 32 < 2 ^ 32; omega)] at hCode
    have hSum : c.val.toNat + 32 = 48 := hCode
    have hFirst := UInt32.le_iff_toNat_le.mp hLetter.1
    have hA : 'A'.val.toNat = 65 := rfl
    omega
  · exact h

theorem exists_zero_of_prefix (h : startsWith "0x" text) : ∃ rest, text = '0' :: rest := by
  obtain ⟨more, hMore⟩ := List.isPrefixOf_iff_prefix.mp h
  cases text with
  | nil => cases hMore
  | cons c rest =>
      have hFirst : '0' = c.toLower := (List.cons.inj hMore).1
      exact ⟨rest, by rw [toLower_eq_zero hFirst.symm]⟩

/-- A number written with digits, or with a point before them. -/
theorem isSome_mantissa_iff (text : Str) :
    (mantissa 10 text).isSome ↔ (∃ c rest, text = c :: rest ∧ isdigit c) ∨
      ∃ c rest, text = '.' :: c :: rest ∧ isdigit c := by
  have hDigits := digits_ne_nil_iff 10 text
  simp only [isSome_digit_ten] at hDigits
  by_cases hNone : (digits 10 text).1 = []
  · rw [or_iff_right (hDigits.not.mp (not_not.mpr hNone)), mantissa, digits_eq_of_nil hNone]
    cases text with
    | nil => exact iff_of_false (by simp) nofun
    | cons point more =>
        by_cases hPoint : point = '.'
        · subst hPoint
          have hMore := digits_ne_nil_iff 10 more
          simp only [isSome_digit_ten] at hMore
          simp [hMore]
        · simp [hPoint]
  · refine iff_of_true ?_ (.inl (hDigits.mp hNone))
    rw [mantissa]
    simp [hNone]

theorem isSome_number_iff (text : Str) : (number text).isSome ↔ BeginsNumber text := by
  rw [number]
  split
  · exact iff_of_true rfl (.word (.inl ‹_›))
  split
  · exact iff_of_true rfl (.word (.inr ‹_›))
  split
  · rename_i hPrefix
    obtain ⟨rest, rfl⟩ := exists_zero_of_prefix hPrefix
    exact iff_of_true rfl (.digit rfl)
  rename_i hInf hNan _
  rw [Option.isSome_map, decimal, Option.isSome_map, isSome_mantissa_iff]
  constructor
  · rintro (⟨c, rest, rfl, hDigit⟩ | ⟨c, rest, rfl, hDigit⟩)
    · exact .digit hDigit
    · exact .point hDigit
  · rintro (⟨hDigit⟩ | ⟨hDigit⟩ | ⟨hInf' | hNan'⟩)
    · exact .inl ⟨_, _, rfl, hDigit⟩
    · exact .inr ⟨_, _, rfl, hDigit⟩
    · exact absurd hInf' hInf
    · exact absurd hNan' hNan

theorem exists_converted_iff {α : Type} (what : String) (found : Option (α × Bool)) :
    (∃ v, converted what found = .ok v) ↔ ∃ v, found = some (v, false) := by
  match found with
  | none => exact iff_of_false nofun nofun
  | some (v, true) => exact iff_of_false nofun nofun
  | some (v, false) => exact iff_of_true ⟨v, rfl⟩ ⟨v, rfl⟩

/-- The texts that `stof` does not throw for. -/
theorem exists_stof_iff : (∃ v, stof reportsTiny text = .ok v) ↔ FloatText reportsTiny text := by
  have hLimit : FloatFormat.single.limit = 2 ^ 128 - 2 ^ 103 := by norm_num [FloatFormat.limit, FloatFormat.single]
  have hNormal : FloatFormat.single.minNormal = (2 ^ 126)⁻¹ := by
    norm_num [FloatFormat.minNormal, FloatFormat.single]
  have hBegins := isSome_number_iff (unsigned text)
  rw [stof, exists_converted_iff, strtof]
  cases hNumber : number (unsigned text) with
  | none =>
      rw [hNumber] at hBegins
      exact iff_of_false (by simp) fun h => Bool.false_ne_true (hBegins.mpr h.begins)
  | some n =>
      rw [hNumber] at hBegins
      have hBegun : BeginsNumber (unsigned text) := hBegins.mp rfl
      cases n with
      | infinite => exact iff_of_true ⟨_, rfl⟩ ⟨hBegun, by simp [hNumber], by simp [hNumber]⟩
      | nan => exact iff_of_true ⟨_, rfl⟩ ⟨hBegun, by simp [hNumber], by simp [hNumber]⟩
      | finite q =>
          have hRange := FloatFormat.single.overflows_iff (q := q)
          rw [hLimit] at hRange
          rw [Option.map_some]
          dsimp only
          by_cases hOver : FloatFormat.single.overflows q
          · rw [if_pos hOver]
            exact iff_of_false (by simp) fun h => not_lt.mpr (hRange.mp hOver) (h.fits q hNumber)
          · rw [if_neg hOver, hNormal]
            have hFits : q < 2 ^ 128 - 2 ^ 103 := not_le.mp (hRange.not.mp hOver)
            constructor
            · rintro ⟨v, hValue⟩
              have hTiny := of_decide_eq_false (Prod.mk.inj (Option.some.inj hValue)).2
              refine ⟨hBegun, fun q' h => ?_, fun q' h hPositive hReports => ?_⟩ <;>
                obtain rfl : q = q' := by simpa [hNumber] using h
              · exact hFits
              · exact not_lt.mp fun hLess => hTiny ⟨hPositive, hLess, hReports⟩
            · intro h
              refine ⟨_, congrArg some (Prod.ext rfl (decide_eq_false ?_))⟩
              rintro ⟨hPositive, hLess, hReports⟩
              exact not_le.mpr hLess (h.normal q hNumber hPositive hReports)

theorem digits_withoutPrefix_ne_nil (base : ℕ) (text : Str) :
    (digits base (withoutPrefix base text)).1 ≠ [] ↔
      ∃ c rest, text = c :: rest ∧ (digit base c).isSome := by
  rw [withoutPrefix]
  split
  · rename_i hPrefix
    obtain ⟨rfl, hZero, hDigits⟩ := hPrefix
    obtain ⟨rest, rfl⟩ := exists_zero_of_prefix hZero
    exact iff_of_true hDigits ⟨'0', rest, rfl, rfl⟩
  · exact digits_ne_nil_iff base text

/-- The texts that `stoull` does not throw for. -/
theorem exists_stoull_iff : (∃ v, stoull base text = .ok v) ↔ UnsignedText base text := by
  have hBegins := digits_withoutPrefix_ne_nil base (unsigned text)
  rw [stoull, exists_converted_iff, strtoull]
  by_cases hNone : (digits base (withoutPrefix base (unsigned text))).1 = []
  · rw [if_pos hNone]
    exact iff_of_false nofun fun h => hBegins.mpr h.begins hNone
  rw [if_neg hNone]
  split
  · rename_i hRange
    exact iff_of_false (by simp) fun h => not_lt.mpr hRange h.fits
  · rename_i hFits
    exact iff_of_true ⟨_, rfl⟩ ⟨hBegins.mp hNone, not_le.mp hFits⟩

example : stoull 16 "0x50005".toList = .ok 0x50005 := by decide

end Numbers
