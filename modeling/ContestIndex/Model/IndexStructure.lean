import ContestIndex.Model.Util
import Mathlib.Data.Finset.Card

/-! @src example/Index.cc | name:Index structure | layer:model

    An `IndexStructure` knows the column types of an index, its open handles and the transactions
    that have modified it. It encodes a key as one byte string, column after column, and decodes
    such a string again; Berkeley DB compares two stored keys by decoding both (`keycmp`).

        column     bytes                     NULL in a minimum / maximum key
        kShort     4                         INT32_MIN / INT32_MAX
        kInt       8                         INT64_MIN / INT64_MAX
        kVarchar   MAX_VARCHAR_LENGTH + 1    512 × 127, then NUL, for both -/

namespace Contest

def INT32_MIN : Int := -2147483648
def INT32_MAX : Int := 2147483647
def INT64_MIN : Int := -9223372036854775808
def INT64_MAX : Int := 9223372036854775807

/-- Pointers to transactions (`DbTxn*`, `Transaction*`), handles (`Index*`), structures
    (`IndexStructure*`) and iterators (`Iterator*`). -/
abbrev TxnPtr := Nat
abbrev IndexPtr := Nat
abbrev StructurePtr := Nat
abbrev IteratorPtr := Nat

structure IndexStructure where
  /-- `type_`, whose length is `attribute_count_` -/
  type : List AttributeType
  readOnly : Bool
  handles : Finset IndexPtr
  transactions : Finset TxnPtr
  deriving DecidableEq

/-- What the encoder copies for one attribute: its bytes, or the wildcard of a NULL. -/
def bdbField (max : Bool) (t : AttributeType) : Option Attribute → Bytes
  | some a => a.mem.take t.size
  | none =>
    match t with
    | .kShort => leBytes 4 (if max then INT32_MAX else INT32_MIN)
    | .kInt => leBytes 8 (if max then INT64_MAX else INT64_MIN)
    | .kVarchar => List.replicate MAX_VARCHAR_LENGTH 127 ++ [0]

/-- The loop of `IndexStructure::GetBDBKey`. -/
def bdbFields (max : Bool) : List AttributeType → Key → Bytes
  | t :: ts, a :: as => bdbField max t a ++ bdbFields max ts as
  | _, _ => []

/-- The loop of `IndexStructure::GetKey`. -/
def attributesOf : List AttributeType → Bytes → List Attribute
  | [], _ => []
  | t :: ts, bs => Attribute.ofBytes t (bs.take t.size) :: attributesOf ts (bs.drop t.size)

namespace IndexStructure

/-- `IndexStructure::IndexStructure` -/
def new (type : List AttributeType) : IndexStructure :=
  { type := type, readOnly := false, handles := ∅, transactions := ∅ }

/-- The size of a key of this index in byte (`size_`). -/
def size (s : IndexStructure) : Nat := (s.type.map (·.size)).sum

def attributeCount (s : IndexStructure) : Nat := s.type.length

def getBDBKey (s : IndexStructure) (key : Key) (max : Bool) : Bytes := bdbFields max s.type key

def getKey (s : IndexStructure) (bdbKey : Bytes) : Key :=
  Key.ofAttributes (attributesOf s.type bdbKey)

/-- The compare function registered with Berkeley DB, which never fails an assertion
    (`keycmp_getKey`). -/
def dbKeycmp (s : IndexStructure) (a b : Bytes) : Ordering :=
  (keycmp (s.getKey a) (s.getKey b)).getD .eq

/-- Start a new modifying transaction on this index (false if the index is read-only). -/
def startTransaction (s : IndexStructure) (tx : TxnPtr) : Bool × IndexStructure :=
  if s.readOnly then (false, s) else (true, { s with transactions := insert tx s.transactions })

/-- End a modifying transaction on this index. -/
def endTransaction (s : IndexStructure) (tx : TxnPtr) : IndexStructure :=
  { s with transactions := s.transactions.erase tx }

/-- Try to make this index read-only (false if open transactions have written to it). -/
def makeReadOnly (s : IndexStructure) : Bool × IndexStructure :=
  if s.transactions.card > 0 then (false, s) else (true, { s with readOnly := true })

theorem startTransaction_fst {s : IndexStructure} (h : s.readOnly = false) (tx : TxnPtr) :
    (s.startTransaction tx).1 = true := by simp [startTransaction, h]

theorem startTransaction_snd {s : IndexStructure} (h : s.readOnly = false) (tx : TxnPtr) :
    (s.startTransaction tx).2 = { s with transactions := insert tx s.transactions } := by
  simp [startTransaction, h]

theorem startTransaction_of_readOnly {s : IndexStructure} (h : s.readOnly = true) (tx : TxnPtr) :
    s.startTransaction tx = (false, s) := by simp [startTransaction, h]

theorem startTransaction_snd_readOnly (s : IndexStructure) (tx : TxnPtr) :
    (s.startTransaction tx).2.readOnly = s.readOnly := by
  rw [startTransaction]
  split <;> rfl

theorem startTransaction_snd_handles (s : IndexStructure) (tx : TxnPtr) :
    (s.startTransaction tx).2.handles = s.handles := by
  rw [startTransaction]
  split <;> rfl

/-- Registering removes nobody. -/
theorem subset_startTransaction (s : IndexStructure) (tx : TxnPtr) :
    s.transactions ⊆ (s.startTransaction tx).2.transactions := by
  rw [startTransaction]
  split
  · exact Finset.Subset.refl _
  · exact Finset.subset_insert tx s.transactions

@[simp] theorem startTransaction_fst_eq_true {s : IndexStructure} {tx : TxnPtr} :
    (s.startTransaction tx).1 = true ↔ s.readOnly = false := by
  cases h : s.readOnly <;> simp [startTransaction, h]

@[simp] theorem makeReadOnly_fst_eq_true {s : IndexStructure} :
    s.makeReadOnly.1 = true ↔ s.transactions = ∅ := by
  simp only [makeReadOnly, gt_iff_lt, Finset.card_pos]
  split
  next h => simp [Finset.nonempty_iff_ne_empty.mp h]
  next h => simpa using h

@[simp] theorem makeReadOnly_snd_handles (s : IndexStructure) :
    s.makeReadOnly.2.handles = s.handles := by
  rw [makeReadOnly]
  split <;> rfl

/-- A structure becomes read-only if no transaction is registered. -/
theorem makeReadOnly_snd_readOnly (s : IndexStructure) :
    s.makeReadOnly.2.readOnly = true ↔ s.transactions = ∅ ∨ s.readOnly = true := by
  rw [makeReadOnly]
  split
  next h => simp [(Finset.card_pos.mp h).ne_empty]
  next h => simp [Finset.card_eq_zero.mp (Nat.eq_zero_of_not_pos h)]

@[simp] theorem makeReadOnly_snd_transactions (s : IndexStructure) :
    s.makeReadOnly.2.transactions = s.transactions := by
  rw [makeReadOnly]
  split <;> rfl

end IndexStructure

/-! ### Decoding what was encoded -/

theorem length_bdbField (max : Bool) (t : AttributeType) (o : Option Attribute) :
    (bdbField max t o).length = t.size := by
  cases o with
  | some a => rw [bdbField, List.length_take, a.mem_length, Nat.min_eq_left t.size_le]
  | none => cases t <;> simp [bdbField, AttributeType.size]

theorem map_type_attributesOf : ∀ (types : List AttributeType) (bs : Bytes),
    (attributesOf types bs).map (·.type) = types
  | [], _ => rfl
  | t :: ts, bs => by
    rw [attributesOf, List.map_cons, map_type_attributesOf ts, Attribute.ofBytes_type]

theorem length_attributesOf (types : List AttributeType) (bs : Bytes) :
    (attributesOf types bs).length = types.length := by
  simpa using congrArg List.length (map_type_attributesOf types bs)

theorem attributesOf_append (t : AttributeType) (ts : List AttributeType) {field : Bytes}
    (h : field.length = t.size) (bs : Bytes) :
    attributesOf (t :: ts) (field ++ bs) = Attribute.ofBytes t field :: attributesOf ts bs := by
  rw [attributesOf, ← h, List.take_left, List.drop_left]

/-- An encoded attribute keeps its value. -/
theorem value_ofBytes_take (a : Attribute) :
    (Attribute.ofBytes a.type (a.mem.take a.type.size)).value = a.value := by
  have hlen : (a.mem.take a.type.size).length = a.type.size := length_bdbField false a.type (some a)
  have hread : ∀ n, n ≤ a.type.size →
      (Attribute.ofBytes a.type (a.mem.take a.type.size)).mem.take n = a.mem.take n := by
    intro n hn
    rw [Attribute.ofBytes_mem_take (hn.trans hlen.ge) (hn.trans a.type.size_le), List.take_take,
      Nat.min_eq_left hn]
  unfold Attribute.value
  cases ht : a.type with
  | kShort =>
    simp only [Attribute.ofBytes_type, Attribute.shortValue]
    rw [← ht, hread 4 (by rw [ht]; decide)]
  | kInt =>
    simp only [Attribute.ofBytes_type, Attribute.intValue]
    rw [← ht, hread 8 (by rw [ht]; decide)]
  | kVarchar =>
    simp only [Attribute.ofBytes_type, Attribute.charValue]
    have hall := hread (MAX_VARCHAR_LENGTH + 1) (by rw [ht]; decide)
    rw [ht] at hall
    rw [List.take_of_length_le (Attribute.mem_length _).le,
      List.take_of_length_le a.mem_length.le] at hall
    rw [hall]

/-- What an attribute is worth once it has been encoded and decoded. -/
def encodedValue (max : Bool) (t : AttributeType) (o : Option Attribute) : AttrValue :=
  (Attribute.ofBytes t (bdbField max t o)).value

theorem encodedValue_some (max : Bool) {t : AttributeType} {a : Attribute} (h : a.type = t) :
    encodedValue max t (some a) = a.value := by
  subst h
  exact value_ofBytes_take a

/-- The values of an encoded key, column by column. -/
theorem values_bdbFields (max : Bool) {types : List AttributeType} {key : Key}
    (h : key.Typed types) : values (attributesOf types (bdbFields max types key)) =
      List.zipWith (encodedValue max) types key := by
  induction h with
  | nil => rfl
  | @cons t o ts os _ _ ih =>
    simp only [values] at ih
    rw [bdbFields, attributesOf_append _ _ (length_bdbField max t o), values, List.map_cons, ih,
      List.zipWith_cons_cons]
    rfl

/-- Encoding a fully set key and decoding it keeps the values. -/
theorem values_attributesOf (max : Bool) (as : List Attribute) :
    values (attributesOf (as.map (·.type)) (bdbFields max (as.map (·.type)) (Key.ofAttributes as)))
      = values as := by
  rw [values_bdbFields max (Key.FullySet.typed ⟨as, rfl, rfl⟩)]
  simp [Key.ofAttributes, values, encodedValue_some]

namespace IndexStructure
variable (s : IndexStructure)

/-- What a stored key is worth. -/
def keyValues (bdbKey : Bytes) : List AttrValue := values (attributesOf s.type bdbKey)

/-- No assertion fails when Berkeley DB compares two stored keys. -/
theorem keycmp_getKey (a b : Bytes) : keycmp (s.getKey a) (s.getKey b) = some (s.dbKeycmp a b) := by
  have h : (attributesOf s.type a).map (·.type) = (attributesOf s.type b).map (·.type) := by
    rw [map_type_attributesOf, map_type_attributesOf]
  rw [dbKeycmp, getKey, getKey, keycmp_ofAttributes h, Option.getD_some]

theorem dbKeycmp_eq (a b : Bytes) : s.dbKeycmp a b = compare (s.keyValues a) (s.keyValues b) := by
  have h : (attributesOf s.type a).map (·.type) = (attributesOf s.type b).map (·.type) := by
    rw [map_type_attributesOf, map_type_attributesOf]
  rw [dbKeycmp, getKey, getKey, keycmp_ofAttributes h, Option.getD_some]; rfl

instance : Std.TransCmp s.dbKeycmp where
  eq_swap {a b} := by rw [dbKeycmp_eq, dbKeycmp_eq]; exact Std.OrientedCmp.eq_swap
  isLE_trans {a b c} hab hbc := by
    rw [dbKeycmp_eq] at hab hbc ⊢
    exact Std.TransCmp.isLE_trans hab hbc

theorem dbKeycmp_eq_eq {a b : Bytes} : s.dbKeycmp a b = .eq ↔ s.keyValues a = s.keyValues b := by
  rw [dbKeycmp_eq, Std.LawfulEqCmp.compare_eq_iff_eq]

/-- The stored form of a fully set key is worth the values of its attributes. -/
theorem keyValues_getBDBKey {as : List Attribute} (h : as.map (·.type) = s.type) (max : Bool) :
    s.keyValues (s.getBDBKey (Key.ofAttributes as) max) = values as := by
  rw [keyValues, getBDBKey, ← h, values_attributesOf]

/-- Comparing a stored key with a fully set key, as the range search re-check does. -/
theorem keycmp_getKey_ofAttributes {as : List Attribute} (h : as.map (·.type) = s.type)
    (bdbKey : Bytes) :
    keycmp (s.getKey bdbKey) (Key.ofAttributes as) = some (compare (s.keyValues bdbKey) (values as)) := by
  rw [getKey, keycmp_ofAttributes (by rw [map_type_attributesOf, h])]; rfl

end IndexStructure

end Contest
