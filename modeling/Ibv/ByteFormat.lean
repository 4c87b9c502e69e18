import Mathlib.Algebra.Ring.Nat
import Mathlib.Data.List.Basic

set_option autoImplicit false

namespace ByteFormat

/-- The `width` low bytes of `value`, least significant first. -/
def digits : Nat → Nat → List UInt8
  | 0, _ => []
  | width + 1, value => UInt8.ofNat value :: digits width (value / 256)

/-- The number with the given bytes, least significant first. -/
def number : List UInt8 → Nat
  | [] => 0
  | digit :: rest => digit.toNat + 256 * number rest

@[simp] theorem digits_length (width value : Nat) : (digits width value).length = width := by
  induction width generalizing value with
  | zero => rfl
  | succ width ih => simp only [digits, List.length_cons, ih]

theorem number_digits (width value : Nat) (bounded : value < 256 ^ width) :
    number (digits width value) = value := by
  induction width generalizing value with
  | zero =>
      have zero : value = 0 := by simpa using bounded
      rw [zero]
      rfl
  | succ width ih =>
      rw [Nat.pow_succ] at bounded
      have quotient : value / 256 < 256 ^ width := Nat.div_lt_of_lt_mul (by omega)
      have low : (UInt8.ofNat value).toNat = value % 256 := UInt8.toNat_ofNat'
      simp only [digits, number, ih _ quotient, low]
      omega

theorem number_lt (bytes : List UInt8) : number bytes < 256 ^ bytes.length := by
  induction bytes with
  | nil => exact Nat.one_pos
  | cons digit rest ih =>
      have low := digit.toNat_lt
      rw [number, List.length_cons, Nat.pow_succ]
      omega

theorem digits_number (bytes : List UInt8) : digits bytes.length (number bytes) = bytes := by
  induction bytes with
  | nil => rfl
  | cons digit rest ih =>
      have low : digit.toNat < 256 := digit.toNat_lt
      have head : UInt8.ofNat (digit.toNat + 256 * number rest) = digit := by
        apply UInt8.toNat_inj.mp
        rw [UInt8.toNat_ofNat']
        omega
      have tail : (digit.toNat + 256 * number rest) / 256 = number rest := by omega
      rw [List.length_cons, number, digits, head, tail, ih]

/-- A writer and a reader of values of one width. The reader takes a value from the
front and gives back the bytes behind it. -/
structure Format (Value : Type) where
  width : Nat
  encode : Value → List UInt8
  decode : List UInt8 → Option (Value × List UInt8)
  encode_length : ∀ value, (encode value).length = width
  decode_encode : ∀ value rest, decode (encode value ++ rest) = some (value, rest)
  decode_enough : ∀ bytes, width ≤ bytes.length →
    ∃ value, decode bytes = some (value, bytes.drop width)

namespace Format

variable {Value First Second : Type}

/-- A word of `width` bytes. -/
def word (width : Nat) (toNat : Value → Nat) (ofNat : Nat → Value)
    (bounded : ∀ value, toNat value < 256 ^ width)
    (ofNat_toNat : ∀ value, ofNat (toNat value) = value) : Format Value where
  width := width
  encode value := digits width (toNat value)
  decode bytes :=
    if width ≤ bytes.length then some (ofNat (number (bytes.take width)), bytes.drop width)
    else none
  encode_length value := digits_length width (toNat value)
  decode_encode := by
    intro value rest
    have front := digits_length width (toNat value)
    rw [if_pos (by rw [List.length_append, front]; exact Nat.le_add_right _ _),
      List.take_left' front, List.drop_left' front, number_digits _ _ (bounded value),
      ofNat_toNat]
  decode_enough := by
    intro bytes enough
    exact ⟨_, if_pos enough⟩

/-- An array of `width` bytes, as it stands. -/
def array (width : Nat) : Format { bytes : List UInt8 // bytes.length = width } where
  width := width
  encode value := value.1
  decode bytes :=
    if enough : width ≤ bytes.length then
      some (⟨bytes.take width, List.length_take_of_le enough⟩, bytes.drop width)
    else none
  encode_length value := value.2
  decode_encode := by
    intro value rest
    have enough : width ≤ (value.1 ++ rest).length := by
      rw [List.length_append, value.2]
      exact Nat.le_add_right _ _
    rw [dif_pos enough]
    congr 2
    · exact Subtype.ext (List.take_left' value.2)
    · exact List.drop_left' value.2
  decode_enough := by
    intro bytes enough
    exact ⟨_, dif_pos enough⟩

def pair (first : Format First) (second : Format Second) : Format (First × Second) where
  width := first.width + second.width
  encode value := first.encode value.1 ++ second.encode value.2
  decode bytes :=
    (first.decode bytes).bind fun head =>
      (second.decode head.2).map fun tail => ((head.1, tail.1), tail.2)
  encode_length := by
    intro value
    rw [List.length_append, first.encode_length, second.encode_length]
  decode_encode := by
    intro value rest
    rw [List.append_assoc, first.decode_encode, Option.bind_some, second.decode_encode,
      Option.map_some]
  decode_enough := by
    intro bytes enough
    obtain ⟨head, decoded⟩ := first.decode_enough bytes (by omega)
    have left : second.width ≤ (bytes.drop first.width).length := by
      rw [List.length_drop]
      omega
    obtain ⟨tail, rest⟩ := second.decode_enough _ left
    refine ⟨(head, tail), ?_⟩
    rw [decoded, Option.bind_some, rest, Option.map_some, List.drop_drop]

def record (format : Format First) (pack : First → Second) (fields : Second → First)
    (pack_fields : ∀ value, pack (fields value) = value) : Format Second where
  width := format.width
  encode value := format.encode (fields value)
  decode bytes := (format.decode bytes).map fun read => (pack read.1, read.2)
  encode_length value := format.encode_length (fields value)
  decode_encode := by
    intro value rest
    rw [format.decode_encode, Option.map_some, pack_fields]
  decode_enough := by
    intro bytes enough
    obtain ⟨value, decoded⟩ := format.decode_enough bytes enough
    exact ⟨pack value, by rw [decoded, Option.map_some]⟩

def u16 : Format UInt16 :=
  word 2 UInt16.toNat UInt16.ofNat UInt16.toNat_lt fun _ => UInt16.ofNat_toNat

def u32 : Format UInt32 :=
  word 4 UInt32.toNat UInt32.ofNat UInt32.toNat_lt fun _ => UInt32.ofNat_toNat

def u64 : Format UInt64 :=
  word 8 UInt64.toNat UInt64.ofNat UInt64.toNat_lt fun _ => UInt64.ofNat_toNat

variable (format : Format Value)

/-- What a reader that ignores trailing bytes makes of a buffer. -/
def read (bytes : List UInt8) : Option Value := (format.decode bytes).map Prod.fst

theorem read_encode (value : Value) (rest : List UInt8) :
    format.read (format.encode value ++ rest) = some value := by
  rw [read, format.decode_encode, Option.map_some]

theorem read_enough (bytes : List UInt8) (enough : format.width ≤ bytes.length) :
    ∃ value, format.read bytes = some value := by
  obtain ⟨value, decoded⟩ := format.decode_enough bytes enough
  exact ⟨value, by rw [read, decoded, Option.map_some]⟩

theorem encode_injective : Function.Injective format.encode := by
  intro first second same
  have read := format.read_encode first []
  rw [same, format.read_encode] at read
  exact (Option.some.inj read).symm

/-- No two byte strings of the width are read as the same value: what was read is written
back as it stood. -/
def Canonical : Prop :=
  ∀ bytes value rest, format.decode bytes = some (value, rest) →
    format.encode value ++ rest = bytes

theorem word_canonical (width : Nat) (toNat : Value → Nat) (ofNat : Nat → Value)
    (bounded : ∀ value, toNat value < 256 ^ width)
    (ofNat_toNat : ∀ value, ofNat (toNat value) = value)
    (toNat_ofNat : ∀ number, number < 256 ^ width → toNat (ofNat number) = number) :
    (word width toNat ofNat bounded ofNat_toNat).Canonical := by
  intro bytes value rest decoded
  unfold word at decoded ⊢
  dsimp only at decoded ⊢
  split at decoded
  · rename_i enough
    cases decoded
    have front : (bytes.take width).length = width := List.length_take_of_le enough
    have small := number_lt (bytes.take width)
    rw [front] at small
    have written := digits_number (bytes.take width)
    rw [front] at written
    rw [toNat_ofNat _ small, written, List.take_append_drop]
  · cases decoded

theorem array_canonical (width : Nat) : (array width).Canonical := by
  intro bytes value rest decoded
  unfold array at decoded ⊢
  dsimp only at decoded ⊢
  split at decoded
  · cases decoded
    exact List.take_append_drop width bytes
  · cases decoded

theorem Canonical.pair {first : Format First} {second : Format Second}
    (canonical : first.Canonical) (canonical' : second.Canonical) :
    (first.pair second).Canonical := by
  intro bytes value rest decoded
  obtain ⟨head, front, decoded⟩ := Option.bind_eq_some_iff.mp decoded
  obtain ⟨tail, back, same⟩ := Option.map_eq_some_iff.mp decoded
  cases same
  change (first.encode head.1 ++ second.encode tail.1) ++ tail.2 = bytes
  rw [List.append_assoc, canonical' _ _ _ back, canonical _ _ _ front]

theorem Canonical.record {format : Format First} {pack : First → Second} {fields : Second → First}
    {pack_fields : ∀ value, pack (fields value) = value} (canonical : format.Canonical)
    (fields_pack : ∀ value, fields (pack value) = value) :
    (format.record pack fields pack_fields).Canonical := by
  intro bytes value rest decoded
  obtain ⟨read, front, same⟩ := Option.map_eq_some_iff.mp decoded
  cases same
  change format.encode (fields (pack read.1)) ++ read.2 = bytes
  rw [fields_pack]
  exact canonical _ _ _ front

theorem u16_canonical : u16.Canonical :=
  word_canonical _ _ _ _ _ fun _ small => UInt16.toNat_ofNat_of_lt' small

theorem u32_canonical : u32.Canonical :=
  word_canonical _ _ _ _ _ fun _ small => UInt32.toNat_ofNat_of_lt' small

theorem u64_canonical : u64.Canonical :=
  word_canonical _ _ _ _ _ fun _ small => UInt64.toNat_ofNat_of_lt' small

theorem Canonical.encode_read (canonical : format.Canonical) (bytes : List UInt8)
    (full : bytes.length = format.width) : (format.read bytes).map format.encode = some bytes := by
  obtain ⟨value, decoded⟩ := format.decode_enough bytes (Nat.le_of_eq full.symm)
  have written := canonical bytes value _ decoded
  rw [← full, List.drop_length, List.append_nil] at written
  rw [read, decoded, Option.map_some, Option.map_some, written]

end Format

end ByteFormat
