import ContestIndex.Model.IndexStructure
import ContestIndex.Schemes.Buffer

/-! @src example/Index.cc | name:Keys in memory | layer:model

    `GetBDBKey` allocates `size_` bytes and writes one attribute after the other at a running offset;
    `GetKey` reads at offsets that it adds up in the same way. `IndexStructure.getBDBKey` and `getKey` are
    the bytes that result and the attributes that are read; here are the single accesses.

        offset   0          4               12                            525
                 ├─ kShort ─┼───── kInt ────┼───────── kVarchar ──────────┤ size_
                                            └ 512 × 127 ┘└ NUL    (two writes for a NULL) -/

namespace Contest
open Schemes

/-- What `GetBDBKey` writes for one attribute at an offset. -/
def fieldWrites (max : Bool) (offset : Nat) (t : AttributeType) :
    Option Attribute → List (Nat × Bytes)
  | some a => [(offset, a.mem.take t.size)]
  | none =>
    match t with
    | .kShort => [(offset, leBytes 4 (if max then INT32_MAX else INT32_MIN))]
    | .kInt => [(offset, leBytes 8 (if max then INT64_MAX else INT64_MIN))]
    | .kVarchar => [(offset, List.replicate MAX_VARCHAR_LENGTH 127), (offset + MAX_VARCHAR_LENGTH, [0])]

/-- The loop of `IndexStructure::GetBDBKey` from an attribute on. -/
def bdbWrites (max : Bool) (offset : Nat) : List AttributeType → Key → List (Nat × Bytes)
  | t :: ts, a :: as => fieldWrites max offset t a ++ bdbWrites max (offset + t.size) ts as
  | _, _ => []

/-- The attribute that `GetKey` reads at an offset. -/
def readField (t : AttributeType) (offset : Nat) (data : Bytes) : Attribute :=
  .ofBytes t ((data.drop offset).take t.size)

/-- The loop of `IndexStructure::GetKey` from an attribute on. -/
def bdbReads (offset : Nat) (data : Bytes) : List AttributeType → List Attribute
  | [] => []
  | t :: ts => readField t offset data :: bdbReads (offset + t.size) data ts

/-- Where the column with an index begins. -/
def columnOffset (types : List AttributeType) (i : Nat) : Nat := ((types.take i).map (·.size)).sum

namespace IndexStructure

/-- The writes of `IndexStructure::GetBDBKey`. -/
def bdbKeyWrites (s : IndexStructure) (key : Key) (max : Bool) : List (Nat × Bytes) :=
  bdbWrites max 0 s.type key

end IndexStructure

/-! ### The bytes that result and the attributes that are read -/

theorem fieldWrites_data (max : Bool) (offset : Nat) (t : AttributeType) (o : Option Attribute) :
    (fieldWrites max offset t o).flatMap (·.2) = bdbField max t o := by
  rcases o with _ | a
  · cases t <;> simp [fieldWrites, bdbField]
  · simp [fieldWrites, bdbField]

theorem bdbWrites_data (max : Bool) : ∀ (offset : Nat) (types : List AttributeType) (key : Key),
    (bdbWrites max offset types key).flatMap (·.2) = bdbFields max types key
  | _, [], _ => by simp [bdbWrites, bdbFields]
  | _, _ :: _, [] => by simp [bdbWrites, bdbFields]
  | offset, t :: ts, o :: key => by
    rw [bdbWrites, List.flatMap_append, fieldWrites_data, bdbWrites_data max (offset + t.size) ts key,
      bdbFields]

/-- The decoder reads what lies behind the attributes before. -/
theorem bdbReads_eq : ∀ (types : List AttributeType) (offset : Nat) (data : Bytes),
    bdbReads offset data types = attributesOf types (data.drop offset)
  | [], _, _ => rfl
  | t :: ts, offset, data => by
    rw [bdbReads, attributesOf, bdbReads_eq ts, List.drop_drop, readField]

/-- The attribute of a column is read at the offset of the column. -/
theorem getElem?_bdbReads (data : Bytes) : ∀ (types : List AttributeType) (offset i : Nat),
    (bdbReads offset data types)[i]? =
      types[i]?.map fun t => readField t (offset + columnOffset types i) data
  | [], _, _ => by simp [bdbReads]
  | t :: ts, offset, 0 => by simp [bdbReads, columnOffset]
  | t :: ts, offset, i + 1 => by
    have hoffset : offset + columnOffset (t :: ts) (i + 1) = offset + t.size + columnOffset ts i := by
      simp [columnOffset, Nat.add_assoc]
    rw [bdbReads, List.getElem?_cons_succ, getElem?_bdbReads data ts, List.getElem?_cons_succ, hoffset]

theorem getElem?_attributesOf (types : List AttributeType) (data : Bytes) (i : Nat) :
    (attributesOf types data)[i]? =
      types[i]?.map fun t => readField t (columnOffset types i) data := by
  have hreads := getElem?_bdbReads data types 0 i
  rwa [bdbReads_eq, List.drop_zero, Nat.zero_add] at hreads

/-- A column ends inside the key. -/
theorem columnOffset_add_size_le {types : List AttributeType} {i : Nat} {t : AttributeType}
    (h : types[i]? = some t) : columnOffset types i + t.size ≤ (types.map (·.size)).sum := by
  have hupTo : columnOffset types i + t.size = ((types.take (i + 1)).map (·.size)).sum := by
    simp [columnOffset, List.take_add_one, h]
  have hall : (types.map (·.size)).sum = ((types.take (i + 1)).map (·.size)).sum +
      ((types.drop (i + 1)).map (·.size)).sum := by
    rw [← List.sum_append, ← List.map_append, List.take_append_drop]
  omega

theorem length_column {s : IndexStructure} {data : Bytes} {i : Nat} {t : AttributeType}
    (hlen : data.length = s.size) (h : s.type[i]? = some t) :
    ((data.drop (columnOffset s.type i)).take t.size).length = t.size := by
  have hle := columnOffset_add_size_le h
  rw [IndexStructure.size] at hlen
  rw [List.length_take, List.length_drop]
  omega

end Contest
