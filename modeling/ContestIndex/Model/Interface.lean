import Mathlib.Algebra.Ring.Nat
import Mathlib.Data.List.Basic
import Mathlib.Tactic.Common

/-! @src include/contest_interface.h | name:Contest interface | layer:model

    The data types of the API. An attribute is a tag and the memory of a C union: `char_value` is
    its longest member, and the two integers are read from the same bytes (little endian, two's
    complement). A key is an array of attribute pointers, any of which may be NULL. -/

namespace Contest

/-- Raw memory. -/
abbrev Bytes := List UInt8

def MAX_VARCHAR_LENGTH : Nat := 512

/-- Status codes used to indicate the outcome of an API call. -/
inductive ErrorCode where
  | kOk | kTransactionAborted | kErrorOutOfMemory | kErrorDeadlock | kErrorIndexExists
  | kErrorUnknownIndex | kErrorIteratorClosed | kErrorNotFound | kErrorTransactionClosed
  | kErrorIncompatibleKey | kErrorOpenTransactions | kErrorGenericFailure
  deriving DecidableEq, Repr

/-- If set, operations will affect all matching records. -/
def kMatchDuplicates : UInt8 := 1

/-- Only match the key and ignore the payload. -/
def kIgnorePayload : UInt8 := 2

/-- The C test `flags & flag`. -/
def hasFlag (flags flag : UInt8) : Bool := flags &&& flag != 0

inductive AttributeType where
  | kShort | kInt | kVarchar
  deriving DecidableEq, Repr

/-- The number of bytes a column of this type takes inside a stored key. -/
def AttributeType.size : AttributeType → Nat
  | .kShort => 4
  | .kInt => 8
  | .kVarchar => MAX_VARCHAR_LENGTH + 1

theorem AttributeType.size_le (t : AttributeType) : t.size ≤ MAX_VARCHAR_LENGTH + 1 := by
  cases t <;> decide

/-- A tag and the bytes of the union. -/
structure Attribute where
  type : AttributeType
  mem : Bytes
  mem_length : mem.length = MAX_VARCHAR_LENGTH + 1
  deriving DecidableEq

/-- Unsigned little-endian value. -/
def leNat : Bytes → Nat
  | [] => 0
  | b :: bs => b.toNat + 256 * leNat bs

/-- Two's complement little-endian value. -/
def leInt (bs : Bytes) : Int := (leNat bs : Int).bmod (2 ^ (8 * bs.length))

/-- The `n` bytes of a two's complement little-endian integer. -/
def leBytes : Nat → Int → Bytes
  | 0, _ => []
  | n + 1, v => UInt8.ofNat (v % 256).toNat :: leBytes n (v / 256)

@[simp] theorem length_leBytes : ∀ (n : Nat) (v : Int), (leBytes n v).length = n
  | 0, _ => rfl
  | n + 1, v => by simp [leBytes, length_leBytes n]

/-- No integer of `n` bytes is below the smallest one. -/
theorem le_leInt {bs : Bytes} {n : Nat} (h : bs.length = n) :
    -((2 ^ (8 * n) : Nat) / 2 : Int) ≤ leInt bs := by
  subst h
  exact Int.le_bmod (Nat.two_pow_pos _)

/-- No integer of `n` bytes is above the greatest one. -/
theorem leInt_lt {bs : Bytes} {n : Nat} (h : bs.length = n) :
    leInt bs < (((2 ^ (8 * n) : Nat) : Int) + 1) / 2 := by
  subst h
  exact Int.bmod_lt (Nat.two_pow_pos _)

namespace Attribute

/-- The union member `short_value`. -/
def shortValue (a : Attribute) : Int := leInt (a.mem.take 4)

/-- The union member `int_value`. -/
def intValue (a : Attribute) : Int := leInt (a.mem.take 8)

/-- The union member `char_value`. -/
def charValue (a : Attribute) : Bytes := a.mem

/-- A new attribute into whose union `bs` has been copied. Nothing reads the bytes behind them. -/
def ofBytes (t : AttributeType) (bs : Bytes) : Attribute where
  type := t
  mem := (bs ++ List.replicate (MAX_VARCHAR_LENGTH + 1) 0).take (MAX_VARCHAR_LENGTH + 1)
  mem_length := by simp

@[simp] theorem ofBytes_type (t : AttributeType) (bs : Bytes) : (ofBytes t bs).type = t := rfl

theorem ofBytes_mem_take {t : AttributeType} {bs : Bytes} {n : Nat} (hn : n ≤ bs.length)
    (hb : n ≤ MAX_VARCHAR_LENGTH + 1) : (ofBytes t bs).mem.take n = bs.take n := by
  rw [ofBytes, List.take_take, Nat.min_eq_left hb, List.take_append_of_le_length hn]

end Attribute

/-- An array of attribute pointers; `none` is NULL. -/
abbrev Key := List (Option Attribute)

/-- The key whose attributes are all set. -/
def Key.ofAttributes (as : List Attribute) : Key := as.map some

@[simp] theorem Key.getElem?_ofAttributes {as : List Attribute} {i : Nat} {a : Attribute} :
    (Key.ofAttributes as)[i]? = some (some a) ↔ as[i]? = some a := by simp [Key.ofAttributes]

structure Record where
  key : Key
  payload : Bytes
  deriving DecidableEq

/-- The non-NULL attributes have the types of the columns, and there is one for each column. -/
def Key.Typed (types : List AttributeType) (key : Key) : Prop :=
  List.Forall₂ (fun t o => ∀ a ∈ o, a.type = t) types key

/-- All attributes are set, with the types of the columns. -/
def Key.FullySet (types : List AttributeType) (key : Key) : Prop :=
  ∃ as : List Attribute, key = Key.ofAttributes as ∧ as.map (·.type) = types

theorem Key.FullySet.typed : ∀ {types : List AttributeType} {key : Key},
    key.FullySet types → key.Typed types := by
  rintro types key ⟨as, rfl, rfl⟩
  induction as with
  | nil => exact .nil
  | cons a as ih => exact .cons (by simp) ih

end Contest
