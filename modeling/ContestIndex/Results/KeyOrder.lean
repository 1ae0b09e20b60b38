import ContestIndex.Model.KeyBuffer

/-! @src example/Util.cc | name:The order of the B-tree | layer:results

    Berkeley DB orders stored keys by `keycmp`, which decodes both of them and compares attribute by
    attribute. On the bytes this is a lexicographic comparison of columns:

        column      read from the bytes of the column       order
        kShort      signed, 4 bytes                         by value
        kInt        signed, 8 bytes                         by value
        kVarchar    up to the first NUL                     bytewise, unsigned -/

namespace Contest

/-- The bytes of the column with an index. -/
def IndexStructure.column (s : IndexStructure) (data : Bytes) (i : Nat) (t : AttributeType) : Bytes :=
  (data.drop (columnOffset s.type i)).take t.size

/-- Two columns of a type hold equal integers or equal C strings. -/
def SameColumn (t : AttributeType) (x y : Bytes) : Prop :=
  match t with
  | .kShort | .kInt => leInt x = leInt y
  | .kVarchar => cstr x = cstr y

/-- What the bytes of a column are worth. -/
def columnValue (t : AttributeType) (bs : Bytes) : AttrValue :=
  match t with
  | .kShort => .short (leInt bs)
  | .kInt => .int (leInt bs)
  | .kVarchar => .varchar (cstr bs)

theorem columnValue_eq_iff {t : AttributeType} {x y : Bytes} :
    columnValue t x = columnValue t y ↔ SameColumn t x y := by
  cases t <;> simp [columnValue, SameColumn]

/-- A decoded attribute is worth what its column is. -/
theorem value_ofBytes {t : AttributeType} {bs : Bytes} (hlen : bs.length = t.size) :
    (Attribute.ofBytes t bs).value = columnValue t bs := by
  have hread : (Attribute.ofBytes t bs).mem.take t.size = bs := by
    rw [Attribute.ofBytes_mem_take hlen.ge t.size_le, List.take_of_length_le hlen.le]
  cases t with
  | kShort => exact congrArg (fun x => AttrValue.short (leInt x)) hread
  | kInt => exact congrArg (fun x => AttrValue.int (leInt x)) hread
  | kVarchar =>
    have hall := List.take_of_length_le (Attribute.mem_length (Attribute.ofBytes .kVarchar bs)).le
    have hmem : (Attribute.ofBytes .kVarchar bs).mem = bs := hall.symm.trans hread
    exact congrArg (fun x => AttrValue.varchar (cstr x)) hmem

/-- The values of a stored key, column by column. -/
theorem getElem?_keyValues {s : IndexStructure} {data : Bytes} (hlen : data.length = s.size) (i : Nat) :
    (s.keyValues data)[i]? = s.type[i]?.map fun t => columnValue t (s.column data i t) := by
  rw [IndexStructure.keyValues, values, List.getElem?_map, getElem?_attributesOf, Option.map_map]
  rcases ht : s.type[i]? with _ | t
  · rfl
  · exact congrArg some (value_ofBytes (length_column hlen ht))

/-- What Berkeley DB requires of the compare function of an index, and what it means. -/
structure Orders (s : IndexStructure) : Prop where
  returns : ∀ a b, keycmp (s.getKey a) (s.getKey b) = some (s.dbKeycmp a b)
  opposite : ∀ a b, s.dbKeycmp b a = (s.dbKeycmp a b).swap
  transitive : ∀ a b c, (s.dbKeycmp a b).isLE → (s.dbKeycmp b c).isLE → (s.dbKeycmp a c).isLE
  zero : ∀ a b, a.length = s.size → b.length = s.size → (s.dbKeycmp a b = .eq ↔
    ∀ i t, s.type[i]? = some t → SameColumn t (s.column a i t) (s.column b i t))
  encoded : ∀ as bs : List Attribute, as.map (·.type) = s.type → bs.map (·.type) = s.type →
    ∀ max max', s.dbKeycmp (s.getBDBKey (Key.ofAttributes as) max)
      (s.getBDBKey (Key.ofAttributes bs) max') = compare (values as) (values bs)

/-- CORRECT (`keycmp` as a compare function): a total preorder on byte strings, and on encoded keys the
    lexicographic order of their values. -/
theorem keycmp_orders (s : IndexStructure) : Orders s where
  returns := s.keycmp_getKey
  opposite := fun _ _ => Std.OrientedCmp.eq_swap
  transitive := fun _ _ _ => Std.TransCmp.isLE_trans
  zero := by
    intro a b ha hb
    rw [s.dbKeycmp_eq_eq, List.ext_getElem?_iff]
    refine forall_congr' fun i => ?_
    rw [getElem?_keyValues ha, getElem?_keyValues hb]
    rcases s.type[i]? with _ | t
    · simp
    · simp [columnValue_eq_iff]
  encoded := by
    intro as bs has hbs max max'
    rw [s.dbKeycmp_eq, s.keyValues_getBDBKey has, s.keyValues_getBDBKey hbs]

/-- The extremes of an integer column, and a string with a prefix of it. -/
example : (IndexStructure.new [.kInt]).dbKeycmp (leBytes 8 INT64_MIN) (leBytes 8 INT64_MAX) = .lt ∧
    strcmp [97, 98, 0] [97, 98, 200, 0] = .lt := by decide +kernel

end Contest
