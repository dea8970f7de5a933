import Mathlib.Data.Nat.Digits.Lemmas

/-!
# Decimal numerals

Numbers as text: the decimal digits of a natural number or an integer as bytes, and the
number that such a text denotes.  A text that is read need not be the one that is
written: it may start with zeros, and an integer may have the sign `+`.
-/

namespace Dymint.Decimal

def utf8 (text : String) : List UInt8 := text.toUTF8.data.toList

def digit (value : ℕ) : UInt8 := .ofNat (48 + value)

def digitValue (byte : UInt8) : ℕ := byte.toNat - 48

def IsDigit (byte : UInt8) : Prop := 48 ≤ byte.toNat ∧ byte.toNat ≤ 57

instance (byte : UInt8) : Decidable (IsDigit byte) := inferInstanceAs (Decidable (_ ∧ _))

variable {value : ℕ}

theorem toNat_digit (hvalue : value < 10) : (digit value).toNat = 48 + value := by
  rw [digit, UInt8.toNat_ofNat']
  exact Nat.mod_eq_of_lt (by omega)

theorem isDigit_digit (hvalue : value < 10) : IsDigit (digit value) := by
  rw [IsDigit, toNat_digit hvalue]
  omega

theorem digitValue_digit (hvalue : value < 10) : digitValue (digit value) = value := by
  rw [digitValue, toNat_digit hvalue]
  omega

variable {byte : UInt8}

theorem digitValue_lt (hbyte : IsDigit byte) : digitValue byte < 10 := by
  rw [IsDigit] at hbyte
  rw [digitValue]
  omega

theorem digit_digitValue (hbyte : IsDigit byte) : digit (digitValue byte) = byte := by
  apply UInt8.toNat_inj.1
  rw [toNat_digit (digitValue_lt hbyte), digitValue]
  rw [IsDigit] at hbyte
  omega

/-! ## Natural numbers -/

def natText (n : ℕ) : List UInt8 :=
  if n = 0 then [digit 0] else (Nat.digits 10 n).reverse.map digit

def natValue (text : List UInt8) : ℕ := Nat.ofDigits 10 (text.reverse.map digitValue)

instance decidableAllDigits (text : List UInt8) : Decidable (∀ byte ∈ text, IsDigit byte) :=
  List.decidableBAll IsDigit text

def parseNat (text : List UInt8) : Option ℕ :=
  if text ≠ [] ∧ ∀ byte ∈ text, IsDigit byte then some (natValue text) else none

variable {text : List UInt8} {n : ℕ}

theorem parseNat_eq_some : parseNat text = some n ↔
      (text ≠ [] ∧ ∀ byte ∈ text, IsDigit byte) ∧ natValue text = n := by
  rw [parseNat, Option.ite_none_right_eq_some, Option.some.injEq]

theorem natText_ne_nil (n : ℕ) : natText n ≠ [] := by
  rw [natText]
  split
  case isTrue => simp
  case isFalse hn =>
    have hdigits : Nat.digits 10 n ≠ [] := Nat.digits_ne_nil_iff_ne_zero.2 hn
    simp [hdigits]

theorem isDigit_of_mem_natText (hbyte : byte ∈ natText n) : IsDigit byte := by
  rw [natText] at hbyte
  split at hbyte
  case isTrue =>
    rw [List.mem_singleton.1 hbyte]
    exact isDigit_digit (by omega)
  case isFalse =>
    obtain ⟨value, hvalue, rfl⟩ := List.mem_map.1 hbyte
    exact isDigit_digit (Nat.digits_lt_base (by omega) (List.mem_reverse.1 hvalue))

theorem not_mem_natText (hbyte : ¬ IsDigit byte) (n : ℕ) :
    byte ∉ natText n := fun hmem => hbyte (isDigit_of_mem_natText hmem)

@[simp]
theorem natValue_natText (n : ℕ) : natValue (natText n) = n := by
  rw [natText]
  split
  case isTrue hn =>
    rw [hn]
    rfl
  case isFalse =>
    have hsame : (Nat.digits 10 n).map (digitValue ∘ digit) = Nat.digits 10 n := by
      conv_rhs => rw [← List.map_id (Nat.digits 10 n)]
      apply List.map_congr_left
      intro value hvalue
      exact digitValue_digit (Nat.digits_lt_base (by omega) hvalue)
    rw [natValue, ← List.map_reverse, List.reverse_reverse, List.map_map, hsame,
      Nat.ofDigits_digits]

@[simp]
theorem parseNat_natText (n : ℕ) : parseNat (natText n) = some n := parseNat_eq_some.2
    ⟨⟨natText_ne_nil n, fun _ hbyte => isDigit_of_mem_natText hbyte⟩, natValue_natText n⟩

theorem natText_injective : Function.Injective natText := fun n m heq => by
  rw [← natValue_natText n, heq, natValue_natText]

/-- A numeral without superfluous zeros. -/
def Canonical (text : List UInt8) : Prop := text = [digit 0] ∨ text.head? ≠ some (digit 0)

instance (text : List UInt8) : Decidable (Canonical text) := inferInstanceAs (Decidable (_ ∨ _))

theorem canonical_natText (n : ℕ) : Canonical (natText n) := by
  rw [natText]
  split
  case isTrue => exact .inl rfl
  case isFalse hn =>
    right
    have hlast := Nat.getLast_digit_ne_zero 10 hn
    have hnonempty : Nat.digits 10 n ≠ [] := Nat.digits_ne_nil_iff_ne_zero.2 hn
    rw [List.head?_map, List.head?_reverse, List.getLast?_eq_some_getLast hnonempty,
      Option.map_some]
    intro heq
    have hlt := Nat.digits_lt_base (by omega) (List.getLast_mem hnonempty)
    have hvalue := congrArg digitValue (Option.some.inj heq)
    rw [digitValue_digit hlt, digitValue_digit (by omega)] at hvalue
    exact hlast hvalue

/-- A numeral without superfluous zeros is the one that is written. -/
theorem natText_natValue (hnonempty : text ≠ []) (hdigits : ∀ byte ∈ text, IsDigit byte)
    (hhead : text.head? ≠ some (digit 0)) : natText (natValue text) = text := by
  have hlt : ∀ value ∈ text.reverse.map digitValue, value < 10 := by
    intro value hvalue
    obtain ⟨byte, hbyte, rfl⟩ := List.mem_map.1 hvalue
    exact digitValue_lt (hdigits byte (List.mem_reverse.1 hbyte))
  have hlast (h : text.reverse.map digitValue ≠ []) :
      (text.reverse.map digitValue).getLast h ≠ 0 := by
    intro hzero
    apply hhead
    rw [List.getLast_map, List.getLast_reverse] at hzero
    rw [List.head?_eq_some_head hnonempty, ← hzero]
    rw [digit_digitValue (hdigits _ (List.head_mem hnonempty))]
  have hsame : Nat.digits 10 (natValue text) = text.reverse.map digitValue :=
    Nat.digits_ofDigits 10 (by omega) _ hlt hlast
  have hne : natValue text ≠ 0 := by
    rw [← Nat.digits_ne_nil_iff_ne_zero (b := 10), hsame]
    simp [hnonempty]
  rw [natText, if_neg hne, hsame, ← List.map_reverse, List.reverse_reverse, List.map_map]
  conv_rhs => rw [← List.map_id text]
  apply List.map_congr_left
  intro byte hbyte
  exact digit_digitValue (hdigits byte hbyte)

/-- A text is written as it is read if and only if it has no superfluous zeros. -/
theorem natText_eq_iff_canonical (hparse : parseNat text = some n) :
    natText n = text ↔ Canonical text := by
  constructor
  · rintro rfl
    exact canonical_natText n
  · intro hcanonical
    obtain ⟨⟨hnonempty, hdigits⟩, rfl⟩ := parseNat_eq_some.1 hparse
    rcases hcanonical with rfl | hhead
    · rfl
    · exact natText_natValue hnonempty hdigits hhead

/-! ## Integers -/

def minus : UInt8 := 45

def plus : UInt8 := 43

def intText (z : ℤ) : List UInt8 :=
  if z < 0 then minus :: natText z.natAbs else natText z.natAbs

def parseInt : List UInt8 → Option ℤ
  | [] => none
  | byte :: rest =>
    if byte = minus then (parseNat rest).map fun n : ℕ => -(n : ℤ)
    else if byte = plus then (parseNat rest).map fun n : ℕ => (n : ℤ)
    else (parseNat (byte :: rest)).map fun n : ℕ => (n : ℤ)

/-- Neither a sign nor another byte that is not a digit starts a natural number. -/
theorem parseInt_natText (n : ℕ) : parseInt (natText n) = some (n : ℤ) := by
  cases htext : natText n with
  | nil => exact absurd htext (natText_ne_nil n)
  | cons byte rest =>
    have hbyte : IsDigit byte := isDigit_of_mem_natText (htext ▸ List.mem_cons_self)
    have hminus : byte ≠ minus := by
      rintro rfl
      revert hbyte
      decide
    have hplus : byte ≠ plus := by
      rintro rfl
      revert hbyte
      decide
    rw [parseInt, if_neg hminus, if_neg hplus, ← htext, parseNat_natText, Option.map_some]

@[simp]
theorem parseInt_intText (z : ℤ) : parseInt (intText z) = some z := by
  rw [intText]
  split
  case isTrue hneg =>
    rw [parseInt, if_pos rfl, parseNat_natText, Option.map_some]
    congr 1
    omega
  case isFalse hnonneg =>
    rw [parseInt_natText]
    congr 1
    omega

theorem intText_injective : Function.Injective intText := fun x y heq => by
  have hparse := parseInt_intText x
  rw [heq, parseInt_intText] at hparse
  exact (Option.some.inj hparse).symm

theorem not_mem_intText (hbyte : ¬ IsDigit byte) (hminus : byte ≠ minus) (z : ℤ) :
    byte ∉ intText z := by
  have hnat := not_mem_natText hbyte z.natAbs
  rw [intText]
  split
  · simp [hminus, hnat]
  · exact hnat

/-! ## Machine integers -/

/-- Go's `strconv.ParseUint(text, 10, 64)`. -/
def parseUInt64 (text : List UInt8) : Option UInt64 :=
  (parseNat text).bind fun n => if n < 2 ^ 64 then some (.ofNat n) else none

/-- Go's `strconv.ParseInt(text, 10, 64)`. -/
def parseInt64 (text : List UInt8) : Option Int64 := (parseInt text).bind fun z =>
    if -2 ^ 63 ≤ z ∧ z < 2 ^ 63 then some (.ofInt z) else none

/-- Go's `strconv.FormatUint(n, 10)`. -/
def uint64Text (n : UInt64) : List UInt8 := natText n.toNat

/-- Go's `strconv.FormatInt(z, 10)`. -/
def int64Text (z : Int64) : List UInt8 := intText z.toInt

theorem parseUInt64_eq_some {n : UInt64} :
    parseUInt64 text = some n ↔ parseNat text = some n.toNat := by
  rw [parseUInt64, Option.bind_eq_some_iff]
  constructor
  · rintro ⟨m, hm, hn⟩
    obtain ⟨hlt, heq⟩ := Option.ite_none_right_eq_some.1 hn
    rw [hm, ← Option.some.inj heq, UInt64.toNat_ofNat', Nat.mod_eq_of_lt hlt]
  · intro hparse
    refine ⟨n.toNat, hparse, ?_⟩
    rw [if_pos n.toNat_lt, UInt64.ofNat_toNat]

@[simp]
theorem parseUInt64_uint64Text (n : UInt64) : parseUInt64 (uint64Text n) = some n :=
  parseUInt64_eq_some.2 (parseNat_natText _)

@[simp]
theorem parseInt64_int64Text (z : Int64) : parseInt64 (int64Text z) = some z := by
  have hle := Int64.le_toInt z
  have hlt := Int64.toInt_lt z
  rw [parseInt64, int64Text, parseInt_intText, Option.bind_some, if_pos ⟨hle, hlt⟩,
    Int64.ofInt_toInt]

theorem int64Text_injective : Function.Injective int64Text := fun _ _ heq =>
  Int64.toInt_inj.1 (intText_injective heq)

/-- The text of an unsigned number below `2 ^ 63` is that of a signed one. -/
theorem parseInt64_uint64Text {n : UInt64} (hlt : n.toNat < 2 ^ 63) :
    parseInt64 (uint64Text n) = some n.toInt64 := by
  rw [parseInt64, uint64Text, parseInt_natText, Option.bind_some,
    if_pos ⟨by omega, by exact_mod_cast hlt⟩]
  congr 1
  apply Int64.toBitVec_inj.1
  simp

end Dymint.Decimal
