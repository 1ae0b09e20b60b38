import ContestIndex.Model.Interface

/-! @src example/Util.cc | name:Comparators | layer:model

    `attcmp` compares two attributes by the type of the first one, `keycmp` compares two keys
    attribute by attribute, `checkBounds` looks for the first attribute above its bound. The C
    functions return an int of which only the sign matters: it is an `Ordering` here. A failing
    assertion ends the process; it is `none`.

    The order they compute is the lexicographic order of the attribute values (`AttrValue`): a
    varchar is worth its bytes up to the terminating NUL. -/

namespace Contest

/-- C library `strcmp`: bytewise unsigned comparison up to the first NUL. Running out of a buffer
    counts as finding its NUL. -/
def strcmp : Bytes → Bytes → Ordering
  | a :: as, b :: bs =>
    if a = b then (if a = 0 then .eq else strcmp as bs) else compare a b
  | [], [] => .eq
  | [], b :: _ => if b = 0 then .eq else .lt
  | a :: _, [] => if a = 0 then .eq else .gt

/-- The C string in a buffer. -/
def cstr (bs : Bytes) : Bytes := bs.takeWhile (· ≠ 0)

/-- Compares two attributes. -/
def attcmp (a b : Attribute) : Ordering :=
  match a.type with
  | .kShort => compare a.shortValue b.shortValue
  | .kInt => compare a.intValue b.intValue
  | .kVarchar => strcmp a.charValue b.charValue

/-- The loop of `keycmp`, with its two assertions that no attribute is NULL. -/
def keycmpLoop : Key → Key → Option Ordering
  | some a :: as, some b :: bs =>
    match attcmp a b with
    | .eq => keycmpLoop as bs
    | res => some res
  | [], _ => some .eq
  | _, _ => none

/-- Compares two keys. Asserts that they have the same number of attributes. -/
def keycmp (a b : Key) : Option Ordering :=
  if a.length = b.length then keycmpLoop a b else none

/-- What `CheckBounds` reports: false together with the index of the offending attribute. -/
inductive Bounds where
  | within
  | exceeded (index : Nat)
  deriving DecidableEq, Repr

/-- The loop of `CheckBounds`, at attribute `i`. -/
def checkBoundsLoop (i : Nat) : Key → Key → Bounds
  | some a :: as, some b :: bs =>
    if attcmp a b = .gt then .exceeded i else checkBoundsLoop (i + 1) as bs
  | _ :: as, _ :: bs => checkBoundsLoop (i + 1) as bs
  | _, _ => .within

/-- Checks whether every attribute of key `a` is smaller than or equal to key `b`. -/
def checkBounds (a b : Key) : Option Bounds :=
  if a.length = b.length then some (checkBoundsLoop 0 a b) else none

/-! ### The order of attribute values -/

/-- What an attribute is worth. -/
inductive AttrValue where
  | short (v : Int)
  | int (v : Int)
  | varchar (s : Bytes)
  deriving DecidableEq

namespace AttrValue

/-- Integers by value, strings bytewise; values of different types by their type. -/
def cmp : AttrValue → AttrValue → Ordering
  | .short a, .short b => compare a b
  | .int a, .int b => compare a b
  | .varchar a, .varchar b => compare a b
  | .short _, _ => .lt
  | _, .short _ => .gt
  | .int _, _ => .lt
  | _, .int _ => .gt

instance : Ord AttrValue := ⟨cmp⟩

theorem compare_def (a b : AttrValue) : compare a b = cmp a b := rfl

instance : Std.TransOrd AttrValue where
  eq_swap {a b} := by
    cases a <;> cases b <;> simp only [compare_def, cmp, Ordering.swap_lt, Ordering.swap_gt]
    all_goals exact Std.OrientedCmp.eq_swap
  isLE_trans {a b c} hab hbc := by
    cases a <;> cases b <;> cases c <;> simp only [compare_def, cmp] at *
    all_goals first | exact Std.TransCmp.isLE_trans hab hbc | contradiction | rfl

instance : Std.LawfulEqOrd AttrValue where
  eq_of_compare {a b} h := by
    cases a <;> cases b <;> simp only [compare_def, cmp, reduceCtorEq] at h
    all_goals rw [Std.LawfulEqCmp.eq_of_compare h]

end AttrValue

/-- The value of an attribute. -/
def Attribute.value (a : Attribute) : AttrValue :=
  match a.type with
  | .kShort => .short a.shortValue
  | .kInt => .int a.intValue
  | .kVarchar => .varchar (cstr a.charValue)

/-- The values of a key's attributes. -/
def values (as : List Attribute) : List AttrValue := as.map (·.value)

theorem strcmp_eq_compare : ∀ a b : Bytes, strcmp a b = compare (cstr a) (cstr b)
  | [], [] => rfl
  | [], b :: bs => by
    by_cases hb : b = 0
    · simp [strcmp, cstr, hb]
    · simp [strcmp, cstr, hb, List.compare_nil_cons]
  | a :: as, [] => by
    by_cases ha : a = 0
    · simp [strcmp, cstr, ha]
    · simp [strcmp, cstr, ha, List.compare_cons_nil]
  | a :: as, b :: bs => by
    by_cases hab : a = b
    · subst hab
      by_cases ha : a = 0
      · simp [strcmp, cstr, ha]
      · have ih := strcmp_eq_compare as bs
        simp only [cstr] at ih
        simp [strcmp, cstr, ha, List.compare_cons_cons, ih]
    · have hne : compare a b ≠ .eq := fun hc => hab (Std.LawfulEqCmp.eq_of_compare hc)
      simp only [strcmp, if_neg hab, cstr]
      by_cases ha : a = 0
      · subst ha
        have hb : b ≠ 0 := Ne.symm hab
        have hlt : compare 0 b = .lt := Std.compare_eq_lt.mpr (UInt8.pos_iff_ne_zero.mpr hb)
        simp [hb, List.compare_nil_cons, hlt]
      · by_cases hb : b = 0
        · subst hb
          have hgt : compare a 0 = .gt := Std.compare_eq_gt.mpr (UInt8.pos_iff_ne_zero.mpr ha)
          simp [ha, List.compare_cons_nil, hgt]
        · simp only [ha, hb, ne_eq, not_false_eq_true, decide_true, List.takeWhile_cons_of_pos,
            List.compare_cons_cons]
          cases hc : compare a b with
          | eq => exact absurd hc hne
          | lt => rfl
          | gt => rfl

/-- Attributes of one type are ordered by their values. -/
theorem attcmp_eq_compare {a b : Attribute} (h : a.type = b.type) :
    attcmp a b = compare a.value b.value := by
  unfold attcmp Attribute.value
  rw [← h]
  cases a.type with
  | kShort => rfl
  | kInt => rfl
  | kVarchar => exact strcmp_eq_compare _ _

/-- CORRECT (`keycmp`): on fully set keys of one type no assertion fails, and the result is the
    lexicographic order of the values. -/
theorem keycmp_ofAttributes : ∀ {as bs : List Attribute}, as.map (·.type) = bs.map (·.type) →
    keycmp (Key.ofAttributes as) (Key.ofAttributes bs) = some (compare (values as) (values bs))
  | [], [], _ => rfl
  | [], _ :: _, h => by simp at h
  | _ :: _, [], h => by simp at h
  | a :: as, b :: bs, h => by
    obtain ⟨hab, hrest⟩ : a.type = b.type ∧ as.map (·.type) = bs.map (·.type) := by simpa using h
    have hlen : as.length = bs.length := by simpa using congrArg List.length hrest
    have ih := keycmp_ofAttributes hrest
    simp only [keycmp, Key.ofAttributes, List.length_map, List.map_cons, List.length_cons, hlen,
      if_true, keycmpLoop] at ih ⊢
    simp only [values, List.map_cons, List.compare_cons_cons, attcmp_eq_compare hab]
    cases compare a.value b.value with
    | lt => rfl
    | gt => rfl
    | eq => exact ih

end Contest
