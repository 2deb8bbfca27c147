import Mathlib.Data.List.Basic
import Mathlib.Data.List.TakeWhile
import Mathlib.Tactic.Common
import Mathlib.Tactic.NormNum

/-!
# Byte strings and the numbers written in them

A `std::string` is a list of bytes. Counters (`std::uint64_t`) are natural numbers; they are stored as
decimal text (`std::to_string`) and read back through `std::stoull` and `std::stoll`, whose handling of
blanks, signs, trailing text and range is modelled as documented. Node ids are `int32_t`: they cross the
wire as `uint64` and are cast back, so the casts are modelled too.
-/

namespace Nukv

abbrev Bytes := List UInt8

/-- The exceptions of the sources, with their texts. -/
inductive Exn where
  | runtimeError (what : String)
  | invalidArgument (what : String)
  | outOfRange (what : String)
  deriving DecidableEq, Repr

/-- The bytes of an ASCII literal. -/
def ascii (s : String) : Bytes := s.toList.map Char.toUInt8

/-- `text.rfind(head, 0) == 0`. -/
def startsWith (head text : Bytes) : Bool := head.isPrefixOf text

/-! ### Decimal text -/

/-- `std::to_string` of a `std::uint64_t`. -/
def decimal (n : Nat) : Bytes := (Nat.toDigits 10 n).map Char.toUInt8

/-- `std::to_string` of a `std::int64_t`. -/
def decimalInt (i : Int) : Bytes :=
  if i < 0 then 45 :: decimal i.natAbs else decimal i.natAbs

def isSpace (b : UInt8) : Bool := b == 32 || (9 ≤ b && b ≤ 13)

def isDigit (b : UInt8) : Bool := 48 ≤ b && b ≤ 57

def digitsValue (ds : Bytes) : Nat := ds.foldl (fun acc d => 10 * acc + (d.toNat - 48)) 0

/-- An optional sign: whether it is a minus, and how many characters it takes. -/
def readSign : Bytes → Bool × Nat
  | 45 :: _ => (true, 1)
  | 43 :: _ => (false, 1)
  | _ => (false, 0)

/-- What `strtoull` and `strtoll` scan: the sign, the digits and the number of characters consumed. -/
def scanInteger (s : Bytes) : Bool × Bytes × Nat :=
  let blanks := (s.takeWhile isSpace).length
  let sign := readSign (s.drop blanks)
  let digits := (s.drop (blanks + sign.2)).takeWhile isDigit
  (sign.1, digits, blanks + sign.2 + digits.length)

/-- `std::stoull(value, &parsed)`: the number and the count of characters parsed. -/
def stoull (value : Bytes) : Except Exn (Nat × Nat) :=
  match scanInteger value with
  | (negative, digits, parsed) =>
    if digits = [] then .error (.invalidArgument "stoull")
    else if 2 ^ 64 ≤ digitsValue digits then .error (.outOfRange "stoull")
    else .ok (if negative then (2 ^ 64 - digitsValue digits) % 2 ^ 64 else digitsValue digits, parsed)

/-- `std::stoll(value, &parsed)`. -/
def stoll (value : Bytes) : Except Exn (Int × Nat) :=
  match scanInteger value with
  | (negative, digits, parsed) =>
    if digits = [] then .error (.invalidArgument "stoll")
    else
      let number : Int := if negative then -digitsValue digits else digitsValue digits
      if number < -2 ^ 63 ∨ 2 ^ 63 ≤ number then .error (.outOfRange "stoll")
      else .ok (number, parsed)

/-! ### Integer casts -/

/-- The conversion of an `int32_t` or `int64_t` to `uint64`. -/
@[irreducible] def toUint64 (i : Int) : Nat := (i % 2 ^ 64).toNat

/-- `static_cast<int32_t>` of a `uint64`. -/
@[irreducible] def toInt32 (n : Nat) : Int := Int.bmod n (2 ^ 32)

/-- `static_cast<std::int64_t>` of a `uint64`. -/
@[irreducible] def toInt64 (n : Nat) : Int := Int.bmod n (2 ^ 64)

theorem toInt32_toUint64 {i : Int} (hlow : 0 ≤ i) (hhigh : i < 2 ^ 31) : toInt32 (toUint64 i) = i := by
  unfold toInt32 toUint64
  rw [Int.toNat_of_nonneg (Int.emod_nonneg _ (by norm_num)), Int.emod_eq_of_lt hlow (by omega)]
  rw [Int.bmod_eq_of_le] <;> omega

theorem toInt64_toUint64 {i : Int} (hlow : 0 ≤ i) (hhigh : i < 2 ^ 31) : toInt64 (toUint64 i) = i := by
  unfold toInt64 toUint64
  rw [Int.toNat_of_nonneg (Int.emod_nonneg _ (by norm_num)), Int.emod_eq_of_lt hlow (by omega)]
  rw [Int.bmod_eq_of_le] <;> omega

theorem toInt64_fits (n : Nat) : -2 ^ 63 ≤ toInt64 n ∧ toInt64 n < 2 ^ 63 := by
  unfold toInt64
  have hlow := Int.le_bmod (x := n) (m := 2 ^ 64) (by decide)
  have hhigh := Int.bmod_lt (x := n) (m := 2 ^ 64) (by decide)
  omega

/-! ### Reading back what was printed -/

theorem digitChar_toUInt8 {c : Char} (h : c.isDigit) : c.toUInt8.toNat = c.toNat := by
  have hle : c.toNat ≤ 57 := by
    simp only [Char.isDigit, Bool.and_eq_true, decide_eq_true_eq] at h
    exact h.2
  show (UInt8.ofNat c.val.toNat).toNat = c.toNat
  have hlt : c.val.toNat < 256 := by
    have : c.val.toNat = c.toNat := rfl
    omega
  rw [UInt8.toNat_ofNat', Nat.mod_eq_of_lt hlt]
  rfl

theorem digitsValue_decimal (n : Nat) : digitsValue (decimal n) = n := by
  have key : ∀ (l : List Char) (init : Nat), (∀ c ∈ l, c.isDigit) →
      (l.map Char.toUInt8).foldl (fun acc d => 10 * acc + (d.toNat - 48)) init =
        Nat.ofDigitChars 10 l init := by
    intro l
    induction l with
    | nil => intro init _; simp
    | cons c l ih =>
      intro init hl
      rw [List.map_cons, List.foldl_cons, ih _ fun d hd => hl d (List.mem_cons_of_mem _ hd),
        Nat.ofDigitChars_cons, digitChar_toUInt8 (hl c (List.mem_cons_self ..))]
      rfl
  unfold digitsValue decimal
  rw [key _ _ fun c hc => Nat.isDigit_of_mem_toDigits (by decide) (by decide) hc,
    Nat.ofDigitChars_ten_toDigits]

theorem decimal_injective {m n : Nat} (h : decimal m = decimal n) : m = n := by
  rw [← digitsValue_decimal m, h, digitsValue_decimal]

theorem decimal_ne_nil (n : Nat) : decimal n ≠ [] := by
  simp [decimal]

theorem isDigit_of_mem_decimal {n : Nat} {b : UInt8} (h : b ∈ decimal n) : isDigit b := by
  obtain ⟨c, hc, rfl⟩ := List.mem_map.mp h
  have hd := Nat.isDigit_of_mem_toDigits (by decide) (by decide) hc
  have hval := digitChar_toUInt8 hd
  simp only [Char.isDigit, Bool.and_eq_true, decide_eq_true_eq] at hd
  have h1 : 48 ≤ c.toNat := hd.1
  have h2 : c.toNat ≤ 57 := hd.2
  simp only [isDigit, Bool.and_eq_true, decide_eq_true_eq, UInt8.le_iff_toNat_le, hval]
  exact ⟨h1, h2⟩

theorem not_isSpace_of_isDigit {b : UInt8} (h : isDigit b) : isSpace b = false := by
  simp only [isDigit, Bool.and_eq_true, decide_eq_true_eq, UInt8.le_iff_toNat_le] at h
  simp only [isSpace, Bool.or_eq_false_iff, Bool.and_eq_false_iff, decide_eq_false_iff_not,
    UInt8.le_iff_toNat_le, beq_eq_false_iff_ne, ne_eq, ← UInt8.toNat_inj]
  have h48 : (48 : UInt8).toNat = 48 := rfl
  have h57 : (57 : UInt8).toNat = 57 := rfl
  have h32 : (32 : UInt8).toNat = 32 := rfl
  have h13 : (13 : UInt8).toNat = 13 := rfl
  omega

theorem readSign_of_isDigit {b : UInt8} {s : Bytes} (h : isDigit b) : readSign (b :: s) = (false, 0) := by
  have h45 : b ≠ 45 := by rintro rfl; exact absurd h (by decide)
  have h43 : b ≠ 43 := by rintro rfl; exact absurd h (by decide)
  unfold readSign
  split
  · next heq => exact absurd (List.cons.inj heq).1 h45
  · next heq => exact absurd (List.cons.inj heq).1 h43
  · rfl

theorem takeWhile_decimal (n : Nat) : (decimal n).takeWhile isDigit = decimal n :=
  List.takeWhile_eq_self_iff.mpr fun b hb => isDigit_of_mem_decimal (n := n) (b := b) hb

/-- A text of digits is scanned to its end. -/
theorem scanInteger_digits {digits : Bytes} (hne : digits ≠ []) (hdigits : ∀ b ∈ digits, isDigit b) :
    scanInteger digits = (false, digits, digits.length) := by
  obtain ⟨b, s, rfl⟩ := List.exists_cons_of_ne_nil hne
  have hb : isDigit b := hdigits b List.mem_cons_self
  have hblank : (b :: s).takeWhile isSpace = [] := by
    rw [List.takeWhile_cons, not_isSpace_of_isDigit hb]; rfl
  have hall : (b :: s).takeWhile isDigit = b :: s := List.takeWhile_eq_self_iff.mpr hdigits
  unfold scanInteger
  simp only [hblank, List.length_nil, List.drop_zero]
  rw [readSign_of_isDigit hb]
  simp only [Nat.add_zero, List.drop_zero, hall, Nat.zero_add]

theorem scanInteger_decimal (n : Nat) :
    scanInteger (decimal n) = (false, decimal n, (decimal n).length) :=
  scanInteger_digits (decimal_ne_nil n) fun _ hb => isDigit_of_mem_decimal hb

theorem stoull_decimal (n : Nat) :
    stoull (decimal n) =
      if 2 ^ 64 ≤ n then .error (.outOfRange "stoull") else .ok (n, (decimal n).length) := by
  unfold stoull
  simp only [scanInteger_decimal, decimal_ne_nil, if_false, digitsValue_decimal, Bool.false_eq_true]

theorem scanInteger_neg_decimal (n : Nat) :
    scanInteger (45 :: decimal n) = (true, decimal n, (decimal n).length + 1) := by
  have hblank : (45 :: decimal n).takeWhile isSpace = [] := rfl
  unfold scanInteger
  simp only [hblank, List.length_nil, List.drop_zero, readSign, Nat.zero_add, List.drop_succ_cons,
    takeWhile_decimal]
  rw [Nat.add_comm]

theorem length_decimalInt_neg {i : Int} (h : i < 0) :
    (decimalInt i).length = (decimal i.natAbs).length + 1 := by
  simp [decimalInt, h]

/-- A stored vote reads back as the vote, unless it does not fit an `int64`. -/
theorem stoll_decimalInt (i : Int) :
    stoll (decimalInt i) =
      if i < -2 ^ 63 ∨ 2 ^ 63 ≤ i then .error (.outOfRange "stoll")
      else .ok (i, (decimalInt i).length) := by
  unfold stoll decimalInt
  split_ifs with hneg hrange hrange
  · simp only [scanInteger_neg_decimal, decimal_ne_nil, if_false, digitsValue_decimal, if_true]
    rw [if_pos (by omega)]
  · simp only [scanInteger_neg_decimal, decimal_ne_nil, if_false, digitsValue_decimal, if_true]
    rw [if_neg (by omega), show (-(i.natAbs : Int)) = i by omega]
    rfl
  · simp only [scanInteger_decimal, decimal_ne_nil, if_false, digitsValue_decimal,
      Bool.false_eq_true]
    rw [if_pos (by omega)]
  · simp only [scanInteger_decimal, decimal_ne_nil, if_false, digitsValue_decimal,
      Bool.false_eq_true]
    rw [if_neg (by omega), show (i.natAbs : Int) = i by omega]

end Nukv
