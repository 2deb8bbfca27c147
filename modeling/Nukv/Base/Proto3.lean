import Mathlib.Algebra.Group.Nat.Defs
import Mathlib.Data.List.Basic
import Mathlib.Tactic.Common

/-!
# The proto3 encoding

A message is a list of fields, each with its number and a value of one of two wire types: a base-128 varint with the low
groups first, or a byte string with its length in front. Scalar fields that have their default value are left out, and
of a scalar field that occurs more than once the last occurrence counts. `decode` reads back what `encode` has written
(`decode_encode`); what a message type has to add is how its members are laid out as fields.

Numbers are not bounded here: a writer of 64-bit numbers passes what fits.
-/

namespace Nukv.Base.Proto3

/-! ### Varints -/

/-- Seven bits a byte, the high bit set on all but the last; `fuel` bounds the number of bytes. -/
def varintFuel : (fuel n : Nat) → List UInt8
  | 0, _ => [0]
  | fuel + 1, n =>
    if n < 128 then [UInt8.ofNat n]
    else UInt8.ofNat (n % 128 + 128) :: varintFuel fuel (n / 128)

def varint (n : Nat) : List UInt8 := varintFuel n n

def readVarint : List UInt8 → Option (Nat × List UInt8)
  | [] => none
  | b :: rest =>
    if b.toNat < 128 then some (b.toNat, rest)
    else
      match readVarint rest with
      | none => none
      | some (high, rest) => some (b.toNat - 128 + 128 * high, rest)

theorem readVarint_varintFuel (fuel n : Nat) (h : n ≤ fuel) (rest : List UInt8) :
    readVarint (varintFuel fuel n ++ rest) = some (n, rest) := by
  induction fuel generalizing n with
  | zero =>
    obtain rfl : n = 0 := by omega
    simp [varintFuel, readVarint]
  | succ fuel ih =>
    unfold varintFuel
    by_cases hn : n < 128
    · have htoNat : (UInt8.ofNat n).toNat = n := by
        rw [UInt8.toNat_ofNat', Nat.mod_eq_of_lt (by omega)]
      simp [hn, readVarint, htoNat]
    · have htoNat : (UInt8.ofNat (n % 128 + 128)).toNat = n % 128 + 128 := by
        rw [UInt8.toNat_ofNat', Nat.mod_eq_of_lt (by omega)]
      rw [if_neg hn, List.cons_append, readVarint, htoNat, if_neg (by omega), ih (n / 128) (by omega)]
      simp only [Option.some.injEq, Prod.mk.injEq, and_true]
      omega

@[simp] theorem readVarint_varint (n : Nat) (rest : List UInt8) :
    readVarint (varint n ++ rest) = some (n, rest) :=
  readVarint_varintFuel n n (Nat.le_refl n) rest

theorem length_varintFuel_le {fuel n k : Nat} (h : n < 128 ^ (k + 1)) : (varintFuel fuel n).length ≤ k + 1 := by
  induction fuel generalizing n k with
  | zero => simp [varintFuel]
  | succ fuel ih =>
    unfold varintFuel
    split
    · simp
    · next hn =>
      cases k with
      | zero => omega
      | succ k =>
        have hdiv : n / 128 < 128 ^ (k + 1) := Nat.div_lt_of_lt_mul (by rwa [← Nat.pow_succ'])
        have := ih hdiv
        rw [List.length_cons]
        omega

/-- A number takes one byte for each seven bits. -/
theorem length_varint_le {n k : Nat} (h : n < 128 ^ (k + 1)) : (varint n).length ≤ k + 1 := length_varintFuel_le h

theorem length_varint_pos (n : Nat) : 0 < (varint n).length := by
  unfold varint
  cases n with
  | zero => simp [varintFuel]
  | succ n =>
    unfold varintFuel
    split <;> simp

/-! ### Fields -/

inductive Value where
  | number (n : Nat)
  | bytes (b : List UInt8)

structure Field where
  number : Nat
  value : Value

def Value.wireType : Value → Nat
  | .number _ => 0
  | .bytes _ => 2

def Value.encode : Value → List UInt8
  | .number n => varint n
  | .bytes b => varint b.length ++ b

def Field.encode (field : Field) : List UInt8 :=
  varint (field.number * 8 + field.value.wireType) ++ field.value.encode

def encode (fields : List Field) : List UInt8 := fields.flatMap Field.encode

def readField (input : List UInt8) : Option (Field × List UInt8) := do
  let (tag, rest) ← readVarint input
  if tag % 8 = 0 then
    let (n, rest) ← readVarint rest
    return (⟨tag / 8, .number n⟩, rest)
  else if tag % 8 = 2 then
    let (length, rest) ← readVarint rest
    if rest.length < length then none
    else return (⟨tag / 8, .bytes (rest.take length)⟩, rest.drop length)
  else none

/-- The fields up to the end of the input; every field takes at least one byte, which bounds the recursion. -/
def decodeFuel : (fuel : Nat) → List UInt8 → Option (List Field)
  | _, [] => some []
  | 0, _ => none
  | fuel + 1, input => do
    let (field, rest) ← readField input
    let fields ← decodeFuel fuel rest
    return field :: fields

def decode (input : List UInt8) : Option (List Field) := decodeFuel input.length input

theorem readField_encode (field : Field) (rest : List UInt8) :
    readField (field.encode ++ rest) = some (field, rest) := by
  obtain ⟨number, value⟩ := field
  cases value with
  | number n =>
    simp [readField, Field.encode, Value.encode, Value.wireType]
  | bytes b =>
    have hmod : (number * 8 + 2) % 8 = 2 := by omega
    have hdiv : (number * 8 + 2) / 8 = number := by omega
    simp [readField, Field.encode, Value.encode, Value.wireType, List.append_assoc, hmod, hdiv]

theorem length_encode_pos (field : Field) : 0 < field.encode.length := by
  have := length_varint_pos (field.number * 8 + field.value.wireType)
  rw [Field.encode, List.length_append]
  omega

theorem decodeFuel_encode (fields : List Field) (fuel : Nat) (h : fields.length ≤ fuel) :
    decodeFuel fuel (encode fields) = some fields := by
  induction fields generalizing fuel with
  | nil => cases fuel <;> rfl
  | cons field fields ih =>
    obtain ⟨fuel, rfl⟩ : ∃ k, fuel = k + 1 := ⟨fuel - 1, by simp at h; omega⟩
    have hrest := ih fuel (by simpa using h)
    obtain ⟨b, bs, hcons⟩ := List.exists_cons_of_length_pos (length_encode_pos field)
    have hread := readField_encode field (encode fields)
    change decodeFuel (fuel + 1) (field.encode ++ encode fields) = _
    rw [hcons, List.cons_append] at hread ⊢
    simp [decodeFuel, hread, hrest]

theorem length_le_encode (fields : List Field) : fields.length ≤ (encode fields).length := by
  induction fields with
  | nil => simp
  | cons field fields ih =>
    have := length_encode_pos field
    change fields.length + 1 ≤ (field.encode ++ encode fields).length
    rw [List.length_append]
    omega

@[simp] theorem decode_encode (fields : List Field) : decode (encode fields) = some fields :=
  decodeFuel_encode fields _ (length_le_encode fields)

theorem encode_append (fields fields' : List Field) : encode (fields ++ fields') = encode fields ++ encode fields' :=
  List.flatMap_append

/-! ### Members of a message -/

/-- A scalar field with a number. -/
def numberField (field n : Nat) : List Field := if n = 0 then [] else [⟨field, .number n⟩]

/-- A scalar field with a byte string. -/
def bytesField (field : Nat) (b : List UInt8) : List Field := if b = [] then [] else [⟨field, .bytes b⟩]

/-- A repeated field with a byte string for each element. -/
def repeatedField (field : Nat) (elements : List (List UInt8)) : List Field :=
  elements.map fun b => ⟨field, .bytes b⟩

/-- What a scalar field with a number is set to by the fields, `n` being what it was before. -/
def readNumber (field n : Nat) (fields : List Field) : Nat :=
  fields.foldl (fun n f => match f.value with
    | .number m => if f.number = field then m else n
    | .bytes _ => n) n

def readBytes (field : Nat) (b : List UInt8) (fields : List Field) : List UInt8 :=
  fields.foldl (fun b f => match f.value with
    | .number _ => b
    | .bytes c => if f.number = field then c else b) b

def readRepeated (field : Nat) (fields : List Field) : List (List UInt8) :=
  fields.filterMap fun f => match f.value with
    | .number _ => none
    | .bytes b => if f.number = field then some b else none

section Members

variable (field other n m : Nat) (b c : List UInt8) (elements : List (List UInt8)) (fields : List Field)

@[simp] theorem readNumber_nil : readNumber field n [] = n := rfl

@[simp] theorem readBytes_nil : readBytes field b [] = b := rfl

@[simp] theorem readNumber_numberField :
    readNumber field 0 (numberField field n ++ fields) = readNumber field n fields := by
  unfold numberField
  split
  · next hzero => rw [hzero, List.nil_append]
  · simp [readNumber]

@[simp] theorem readBytes_bytesField :
    readBytes field [] (bytesField field b ++ fields) = readBytes field b fields := by
  unfold bytesField
  split
  · next hnil => rw [hnil, List.nil_append]
  · simp [readBytes]

@[simp] theorem readNumber_numberField_of_ne (h : other ≠ field) :
    readNumber field n (numberField other m ++ fields) = readNumber field n fields := by
  unfold numberField
  split <;> simp [readNumber, h]

@[simp] theorem readNumber_bytesField :
    readNumber field n (bytesField other b ++ fields) = readNumber field n fields := by
  unfold bytesField
  split <;> simp [readNumber]

@[simp] theorem readBytes_bytesField_of_ne (h : other ≠ field) :
    readBytes field b (bytesField other c ++ fields) = readBytes field b fields := by
  unfold bytesField
  split <;> simp [readBytes, h]

@[simp] theorem readBytes_numberField :
    readBytes field b (numberField other m ++ fields) = readBytes field b fields := by
  unfold numberField
  split <;> simp [readBytes]

@[simp] theorem readNumber_numberField_last : readNumber field 0 (numberField field n) = n := by
  simpa using readNumber_numberField field n []

@[simp] theorem readBytes_bytesField_last : readBytes field [] (bytesField field b) = b := by
  simpa using readBytes_bytesField field b []

@[simp] theorem readNumber_numberField_last_of_ne (h : other ≠ field) :
    readNumber field n (numberField other m) = n := by
  simpa using readNumber_numberField_of_ne field other n m [] h

@[simp] theorem readNumber_bytesField_last : readNumber field n (bytesField other b) = n := by
  simpa using readNumber_bytesField field other n b []

@[simp] theorem readBytes_bytesField_last_of_ne (h : other ≠ field) : readBytes field b (bytesField other c) = b := by
  simpa using readBytes_bytesField_of_ne field other b c [] h

@[simp] theorem readBytes_numberField_last : readBytes field b (numberField other m) = b := by
  simpa using readBytes_numberField field other m b []

theorem readRepeated_append (fields' : List Field) :
    readRepeated field (fields ++ fields') = readRepeated field fields ++ readRepeated field fields' :=
  List.filterMap_append

@[simp] theorem readRepeated_repeatedField : readRepeated field (repeatedField field elements) = elements := by
  simp [readRepeated, repeatedField, List.filterMap_map]

theorem readRepeated_repeatedField_of_ne (h : other ≠ field) :
    readRepeated field (repeatedField other elements) = [] := by
  simp [readRepeated, repeatedField, List.filterMap_map, h]

end Members

/-! ### Sizes -/

/-- A number of 64 bits in a field with a small number takes at most eleven bytes. -/
theorem length_numberField_le {field n : Nat} (hfield : field < 16) (hn : n < 2 ^ 64) :
    (encode (numberField field n)).length ≤ 11 := by
  unfold numberField
  split
  · exact Nat.zero_le _
  · have htag : (varint (field * 8 + 0)).length ≤ 0 + 1 := length_varint_le (by omega)
    have hvalue : (varint n).length ≤ 9 + 1 := length_varint_le (by omega)
    change ((varint (field * 8 + 0) ++ varint n) ++ []).length ≤ 11
    rw [List.append_nil, List.length_append]
    omega

theorem length_bytesField_le {field k : Nat} {b : List UInt8} (hfield : field < 16) (hb : b.length < 128 ^ (k + 1)) :
    (encode (bytesField field b)).length ≤ b.length + k + 2 := by
  unfold bytesField
  split
  · exact Nat.zero_le _
  · have htag : (varint (field * 8 + 2)).length ≤ 0 + 1 := length_varint_le (by omega)
    have hlength : (varint b.length).length ≤ k + 1 := length_varint_le hb
    change ((varint (field * 8 + 2) ++ (varint b.length ++ b)) ++ []).length ≤ b.length + k + 2
    rw [List.append_nil, List.length_append, List.length_append]
    omega

theorem length_le_bytesField (field : Nat) (b : List UInt8) : b.length ≤ (encode (bytesField field b)).length := by
  unfold bytesField
  split
  · next hnil => rw [hnil]; exact Nat.zero_le _
  · change b.length ≤ ((varint (field * 8 + 2) ++ (varint b.length ++ b)) ++ []).length
    rw [List.append_nil, List.length_append, List.length_append]
    omega

end Nukv.Base.Proto3
