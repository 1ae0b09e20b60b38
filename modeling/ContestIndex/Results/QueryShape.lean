import Mathlib.Data.List.TakeWhile
import ContestIndex.Schemes.PrefixRule
import ContestIndex.Results.MaximumKey

/-! @src example/Iterator.cc | name:The shape of a query | layer:results

    Whether a query can go wrong does not depend on what is stored: it can be read off the column types
    and the two keys. `overruns` and `misses` compute it from the left to the right, as long as the
    encoded minimum is within the maximum.

        overruns     a column with room above the encoded minimum, and a later lower bound
        misses       a NULL varchar in the minimum, and no empty range behind it

        (1, 5) – (2, 9)      overruns: the record (2, 3) is returned
        (1, 5) – (1, 9)      does not: the first column has no room
        (-) of kVarchar      misses "a" -/

namespace Contest
open Schemes World

/-! ### The least and the greatest attribute of a type -/

def least : AttributeType → Attribute
  | .kShort => .ofBytes .kShort (leBytes 4 INT32_MIN)
  | .kInt => .ofBytes .kInt (leBytes 8 INT64_MIN)
  | .kVarchar => .ofBytes .kVarchar []

@[simp] theorem least_type (t : AttributeType) : (least t).type = t := by cases t <;> rfl

theorem least_varchar_value : (least .kVarchar).value = .varchar [] := rfl

/-- A string that ends within MAX_VARCHAR_LENGTH bytes, or an integer. -/
def AttrValue.Ends : AttrValue → Prop
  | .varchar c => c.length ≤ MAX_VARCHAR_LENGTH
  | _ => True

theorem zero_mem_iff (bs : Bytes) : 0 ∈ bs ↔ (cstr bs).length < bs.length := by
  have hstart : cstr bs <+: bs := List.takeWhile_prefix _
  constructor
  · intro hmem
    refine lt_of_le_of_ne hstart.length_le fun hlen => ?_
    have hall := List.takeWhile_eq_self_iff.mp (hstart.eq_of_length hlen)
    exact absurd (hall 0 hmem) (by simp)
  · intro hlt
    by_contra hmem
    have hself : cstr bs = bs := List.takeWhile_eq_self_iff.mpr fun b hb => by
      have hne : b ≠ 0 := fun h => hmem (h ▸ hb)
      simp [hne]
    exact absurd (congrArg List.length hself) hlt.ne

theorem value_ends_iff (a : Attribute) : a.value.Ends ↔ (a.type = .kVarchar → 0 ∈ a.charValue) := by
  unfold Attribute.value
  cases ht : a.type with
  | kShort => simp [AttrValue.Ends]
  | kInt => simp [AttrValue.Ends]
  | kVarchar =>
    simp only [AttrValue.Ends, forall_const, zero_mem_iff, Attribute.charValue, a.mem_length]
    exact Nat.lt_succ_iff.symm

theorem terminated_iff (as : List Attribute) :
    (Key.ofAttributes as).Terminated ↔ ∀ v ∈ values as, v.Ends := by
  simp only [Key.Terminated, Key.ofAttributes, values, List.mem_map, Option.some.injEq,
    exists_eq_right, forall_exists_index, and_imp, forall_apply_eq_imp_iff₂, value_ends_iff]

theorem least_ends (t : AttributeType) : (least t).value.Ends := by
  cases t with
  | kShort => trivial
  | kInt => trivial
  | kVarchar =>
    rw [least_varchar_value]
    exact Nat.zero_le _

theorem greatest_ends (t : AttributeType) : (greatest t).value.Ends := by
  rw [value_ends_iff, greatest_type]
  rintro rfl
  rw [Attribute.charValue, greatest_varchar_mem]
  exact List.mem_append_right _ (List.mem_singleton_self 0)

/-- Nothing is below the least attribute of its type. -/
theorem least_le (a : Attribute) : compare (least a.type).value a.value ≠ .gt := by
  intro hgt
  have hlt : compare a.value (least a.type).value = .lt := Std.OrientedCmp.lt_of_gt hgt
  cases ht : a.type with
  | kShort =>
    have hleast : (least .kShort).value = startValue .kShort none := by decide
    rw [ht, hleast] at hlt
    obtain ⟨c, -, hvarchar, -⟩ := startValue_le (ht ▸ hlt)
    exact absurd (ht.symm.trans hvarchar) (by decide)
  | kInt =>
    have hleast : (least .kInt).value = startValue .kInt none := by decide
    rw [ht, hleast] at hlt
    obtain ⟨c, -, hvarchar, -⟩ := startValue_le (ht ▸ hlt)
    exact absurd (ht.symm.trans hvarchar) (by decide)
  | kVarchar =>
    rw [ht, least_varchar_value, Attribute.value, ht] at hlt
    cases hc : cstr a.charValue with
    | nil => simp [hc] at hlt
    | cons b bs => simp [hc, AttrValue.compare_def, AttrValue.cmp] at hlt

/-- No string of at most `n` bytes is above `n` greatest bytes. -/
theorem compare_replicate_ne_gt : ∀ {n : Nat} {bs : Bytes}, bs.length ≤ n →
    compare bs (List.replicate n 255) ≠ .gt
  | 0, bs, h => by
    rw [List.length_eq_zero_iff.mp (Nat.le_zero.mp h)]
    simp
  | n + 1, [], _ => by simp [List.replicate_succ]
  | n + 1, b :: bs, h => by
    have hrest := compare_replicate_ne_gt (Nat.le_of_succ_le_succ h)
    rw [List.replicate_succ, List.compare_cons_cons]
    cases hcmp : compare b 255 with
    | lt => simp
    | eq => simpa using hrest
    | gt =>
      have hgt : (255 : UInt8) < b := Std.compare_eq_gt.mp hcmp
      rw [UInt8.lt_iff_toNat_lt] at hgt
      exact absurd b.toNat_lt (Nat.not_lt.mpr hgt)

theorem AttrValue.Ends.le_greatest {a : Attribute} (h : a.value.Ends) :
    compare a.value (greatest a.type).value ≠ .gt := by
  by_cases ht : a.type = .kVarchar
  · have hvalue : (greatest .kVarchar).value = .varchar (List.replicate MAX_VARCHAR_LENGTH 255) := by
      simp only [Attribute.value, greatest_type, Attribute.charValue, greatest_varchar_mem,
        cstr_replicate (show (255 : UInt8) ≠ 0 by decide)]
    have hvarchar : a.value = .varchar (cstr a.charValue) := by simp only [Attribute.value, ht]
    rw [hvarchar] at h
    rw [ht, hvalue, hvarchar]
    exact compare_replicate_ne_gt h
  · rw [wildcard_eq_greatest.mpr ⟨rfl, ht⟩]
    exact value_not_gt_wildcard ht

/-! ### The columns of a query -/

/-- What a query says about a column of this type. -/
def column (t : AttributeType) (minAtt maxAtt : Option Attribute) : Column AttrValue where
  values v := v.Ends ∧ ∃ a : Attribute, a.type = t ∧ a.value = v
  start := encodedValue false t minAtt
  lower := minAtt.map Attribute.value
  upper := maxAtt.map Attribute.value

def columns : List AttributeType → Key → Key → List (Column AttrValue)
  | t :: ts, a :: minKeys, b :: maxKeys => column t a b :: columns ts minKeys maxKeys
  | _, _, _ => []

/-- The encoded minimum is not above the maximum. -/
def within (t : AttributeType) (minAtt maxAtt : Option Attribute) : Bool :=
  maxAtt.all fun u => compare (encodedValue false t minAtt) u.value != .gt

/-- Something between the encoded minimum and the maximum is above the former. -/
def rises (t : AttributeType) (minAtt maxAtt : Option Attribute) : Bool :=
  compare (encodedValue false t minAtt) (maxAtt.getD (greatest t)).value == .lt

/-- The minimum excludes something. -/
def cuts (minAtt : Option Attribute) : Bool :=
  minAtt.any fun a => compare (least a.type).value a.value == .lt

/-- The encoded minimum is above the least value, although the minimum excludes nothing. -/
def hides (t : AttributeType) (minAtt : Option Attribute) : Bool :=
  t == .kVarchar && minAtt.isNone

/-- The minimum is not above the maximum. -/
def meets (minAtt maxAtt : Option Attribute) : Bool :=
  minAtt.all fun a => maxAtt.all fun u => compare a.value u.value != .gt

/-- Whether the query can return a record that is below its minimum. -/
def overruns : List AttributeType → Key → Key → Bool
  | t :: ts, a :: minKeys, b :: maxKeys =>
    rises t a b && minKeys.any cuts || within t a b && overruns ts minKeys maxKeys
  | _, _, _ => false

/-- Whether the query can miss a record that is in its range. -/
def misses : List AttributeType → Key → Key → Bool
  | t :: ts, a :: minKeys, b :: maxKeys =>
    hides t a && (minKeys.zip maxKeys).all (fun p => meets p.1 p.2) ||
      within t a b && misses ts minKeys maxKeys
  | _, _, _ => false

section Column
variable {t : AttributeType} {minAtt maxAtt : Option Attribute}

theorem encodedValue_ends (ht : ∀ a ∈ minAtt, a.type = t ∧ a.value.Ends) :
    (encodedValue false t minAtt).Ends := by
  cases minAtt with
  | some a =>
    obtain ⟨hat, hends⟩ := ht a rfl
    rwa [encodedValue_some false hat]
  | none =>
    rw [encodedValue_none]
    cases t with
    | kShort => trivial
    | kInt => trivial
    | kVarchar => exact (List.length_replicate ..).le

theorem column_fits (hmin : ∀ a ∈ minAtt, a.type = t ∧ a.value.Ends)
    (hmax : ∀ u ∈ maxAtt, u.type = t ∧ u.value.Ends) : (column t minAtt maxAtt).Fits where
  start_value := ⟨encodedValue_ends hmin, _, Attribute.ofBytes_type .., rfl⟩
  upper_value := by
    intro v hv
    obtain ⟨u, hu, rfl⟩ := Option.mem_map.mp hv
    exact ⟨(hmax u hu).2, u, (hmax u hu).1, rfl⟩
  lower_start := by
    intro v hv
    obtain ⟨a, ha, rfl⟩ := Option.mem_map.mp hv
    obtain rfl : minAtt = some a := ha
    exact encodedValue_some false (hmin a rfl).1

theorem under_iff {v : AttrValue} :
    (column t minAtt maxAtt).Under v ↔ ∀ u ∈ maxAtt, compare v u.value ≠ .gt := by
  simp [Column.Under, column]

theorem over_iff {v : AttrValue} :
    (column t minAtt maxAtt).Over v ↔ ∀ a ∈ minAtt, compare v a.value ≠ .lt := by
  simp [Column.Over, column]

theorem least_value : (column t minAtt maxAtt).values (least t).value :=
  ⟨least_ends t, least t, least_type t, rfl⟩

theorem least_under (hmax : ∀ u ∈ maxAtt, u.type = t) :
    (column t minAtt maxAtt).Under (least t).value := by
  rw [under_iff]
  intro u hu
  rw [← hmax u hu]
  exact least_le u

theorem within_iff : within t minAtt maxAtt = true ↔
    (column t minAtt maxAtt).Under (column t minAtt maxAtt).start := by
  rw [under_iff]
  simp [within, column, Option.all_eq_true]

theorem room_iff (hmax : ∀ u ∈ maxAtt, u.type = t ∧ u.value.Ends) :
    rises t minAtt maxAtt = true ↔ (column t minAtt maxAtt).Room := by
  rw [rises, beq_iff_eq]
  constructor
  · intro hlt
    refine ⟨(maxAtt.getD (greatest t)).value, ?_, ?_, Std.OrientedCmp.gt_of_lt hlt⟩
    · cases maxAtt with
      | none => exact ⟨greatest_ends t, _, greatest_type t, rfl⟩
      | some u => exact ⟨(hmax u rfl).2, u, (hmax u rfl).1, rfl⟩
    · rw [under_iff]
      rintro u rfl
      simp
  · rintro ⟨v, ⟨hends, b, rfl, rfl⟩, hunder, hgt⟩
    have hle : compare b.value (maxAtt.getD (greatest b.type)).value ≠ .gt := by
      cases maxAtt with
      | none => exact hends.le_greatest
      | some u => exact under_iff.mp hunder u rfl
    exact Std.TransCmp.lt_of_lt_of_isLE (Std.OrientedCmp.lt_of_gt hgt)
      (Ordering.isLE_iff_ne_gt.mpr hle)

theorem cuts_iff (hmin : ∀ a ∈ minAtt, a.type = t) (hmax : ∀ u ∈ maxAtt, u.type = t) :
    cuts minAtt = true ↔ (column t minAtt maxAtt).Cuts := by
  simp only [cuts, Option.any_eq_true, beq_iff_eq]
  constructor
  · rintro ⟨a, ha, hlt⟩
    rw [hmin a ha] at hlt
    exact ⟨_, least_value, least_under hmax, fun hover => over_iff.mp hover a ha hlt⟩
  · rintro ⟨v, ⟨-, b, rfl, rfl⟩, -, hover⟩
    simp only [over_iff, not_forall, not_not] at hover
    obtain ⟨a, ha, hlt⟩ := hover
    refine ⟨a, ha, ?_⟩
    rw [hmin a ha]
    exact Std.TransCmp.lt_of_isLE_of_lt (Ordering.isLE_iff_ne_gt.mpr (least_le b)) hlt

theorem hides_iff (hmin : ∀ a ∈ minAtt, a.type = t) (hmax : ∀ u ∈ maxAtt, u.type = t) :
    hides t minAtt = true ↔ (column t minAtt maxAtt).Hides := by
  simp only [hides, Bool.and_eq_true, beq_iff_eq, Option.isNone_iff_eq_none]
  constructor
  · rintro ⟨rfl, rfl⟩
    refine ⟨_, least_value, least_under hmax, over_iff.mpr (by simp), ?_⟩
    have hfill : compare (least .kVarchar).value (wildcard false .kVarchar) = .lt := rfl
    rwa [← encodedValue_none] at hfill
  · rintro ⟨v, ⟨-, b, rfl, rfl⟩, -, hover, hlt⟩
    cases minAtt with
    | some a =>
      have hstart : (column b.type (some a) maxAtt).start = a.value :=
        encodedValue_some false (hmin a rfl)
      rw [hstart] at hlt
      exact absurd hlt (over_iff.mp hover a rfl)
    | none =>
      obtain ⟨c, -, ht, -⟩ := startValue_le hlt
      exact ⟨ht, rfl⟩

theorem meets_iff (hmin : ∀ a ∈ minAtt, a.type = t ∧ a.value.Ends)
    (hmax : ∀ u ∈ maxAtt, u.type = t) :
    meets minAtt maxAtt = true ↔ (column t minAtt maxAtt).Meets := by
  simp only [meets, Option.all_eq_true, bne_iff_ne]
  constructor
  · intro h
    cases minAtt with
    | none => exact ⟨_, least_value, least_under hmax, over_iff.mpr (by simp)⟩
    | some a =>
      refine ⟨a.value, ⟨(hmin a rfl).2, a, (hmin a rfl).1, rfl⟩, under_iff.mpr (h a rfl), ?_⟩
      simp [over_iff]
  · rintro ⟨v, -, hunder, hover⟩ a ha u hu hgt
    have hle : (compare a.value v).isLE := Ordering.isLE_iff_ne_gt.mpr fun h =>
      over_iff.mp hover a ha (Std.OrientedCmp.lt_of_gt h)
    have hle' : (compare v u.value).isLE := Ordering.isLE_iff_ne_gt.mpr (under_iff.mp hunder u hu)
    exact Ordering.isLE_iff_ne_gt.mp (Std.TransCmp.isLE_trans hle hle') hgt

end Column

/-! ### The columns together -/

/-- The attributes that are set have the types of the columns, and their strings end. -/
def Key.Proper (types : List AttributeType) (key : Key) : Prop :=
  List.Forall₂ (fun t o => ∀ a ∈ o, a.type = t ∧ a.value.Ends) types key

theorem Key.Typed.proper {types : List AttributeType} {key : Key} (h : key.Typed types)
    (hterm : key.Terminated) : key.Proper types := by
  induction h with
  | nil => exact .nil
  | @cons t o ts os ho _ ih =>
    have hrest : Key.Terminated os := fun a ha => hterm a (List.mem_cons_of_mem o ha)
    refine .cons (fun a ha => ⟨ho a ha, (value_ends_iff a).mpr (hterm a ?_)⟩) (ih hrest)
    rw [Option.mem_def.mp ha]
    exact List.mem_cons_self

section Columns
variable {types : List AttributeType} {minKeys maxKeys : Key}

theorem columns_fit (hmin : minKeys.Proper types) (hmax : maxKeys.Proper types) :
    ∀ c ∈ columns types minKeys maxKeys, c.Fits := by
  induction hmin generalizing maxKeys with
  | nil => simp [columns]
  | cons ha _ ih =>
    cases hmax with
    | cons hb hbs => exact List.forall_mem_cons.mpr ⟨column_fits ha hb, ih hbs⟩

theorem columns_start (hmin : minKeys.Proper types) (hmax : maxKeys.Proper types) :
    (columns types minKeys maxKeys).map (·.start) =
      List.zipWith (encodedValue false) types minKeys := by
  induction hmin generalizing maxKeys with
  | nil => rfl
  | cons _ _ ih =>
    cases hmax with
    | cons _ hbs => rw [columns, List.map_cons, ih hbs, List.zipWith_cons_cons]; rfl

theorem any_cuts_iff (hmin : minKeys.Proper types) (hmax : maxKeys.Proper types) :
    minKeys.any cuts = true ↔ ∃ c ∈ columns types minKeys maxKeys, c.Cuts := by
  induction hmin generalizing maxKeys with
  | nil => simp [columns]
  | cons ha _ ih =>
    cases hmax with
    | cons hb hbs =>
      rw [List.any_cons, Bool.or_eq_true, columns, List.exists_mem_cons_iff, ih hbs,
        cuts_iff (fun a h => (ha a h).1) fun u h => (hb u h).1]

theorem all_meets_iff (hmin : minKeys.Proper types) (hmax : maxKeys.Proper types) :
    (minKeys.zip maxKeys).all (fun p => meets p.1 p.2) = true ↔
      ∀ c ∈ columns types minKeys maxKeys, c.Meets := by
  induction hmin generalizing maxKeys with
  | nil => simp [columns]
  | cons ha _ ih =>
    cases hmax with
    | cons hb hbs =>
      rw [List.zip_cons_cons, List.all_cons, Bool.and_eq_true, columns, List.forall_mem_cons, ih hbs,
        meets_iff ha fun u h => (hb u h).1]

theorem overruns_iff (hmin : minKeys.Proper types) (hmax : maxKeys.Proper types) :
    overruns types minKeys maxKeys = true ↔ Overruns (columns types minKeys maxKeys) := by
  induction hmin generalizing maxKeys with
  | nil => simp [overruns, columns, Overruns]
  | cons _ has ih =>
    cases hmax with
    | cons hb hbs =>
      simp only [overruns, columns, Overruns, Bool.or_eq_true, Bool.and_eq_true, room_iff hb,
        any_cuts_iff has hbs, within_iff, ih hbs]

theorem misses_iff (hmin : minKeys.Proper types) (hmax : maxKeys.Proper types) :
    misses types minKeys maxKeys = true ↔ Misses (columns types minKeys maxKeys) := by
  induction hmin generalizing maxKeys with
  | nil => simp [misses, columns, Misses]
  | cons ha has ih =>
    cases hmax with
    | cons hb hbs =>
      simp only [misses, columns, Misses, Bool.or_eq_true, Bool.and_eq_true,
        hides_iff (fun a h => (ha a h).1) fun u h => (hb u h).1, all_meets_iff has hbs, within_iff,
        ih hbs]

/-! ### Stored keys are rows -/

theorem under_attribute {a : Attribute} (minAtt : Option Attribute) {maxAtt : Option Attribute}
    (hmax : ∀ u ∈ maxAtt, u.type = a.type) : (column a.type minAtt maxAtt).Under a.value ↔
      ∀ x y, some a = some x → maxAtt = some y → attcmp x y ≠ .gt := by
  rw [under_iff]
  constructor
  · rintro h x u ⟨⟩ hu
    rw [attcmp_eq_compare (hmax u hu).symm]
    exact h u hu
  · intro h u hu
    rw [← attcmp_eq_compare (hmax u hu).symm]
    exact h a u rfl hu

theorem over_attribute {a : Attribute} {minAtt : Option Attribute} (maxAtt : Option Attribute)
    (hmin : ∀ u ∈ minAtt, u.type = a.type) : (column a.type minAtt maxAtt).Over a.value ↔
      ∀ x y, minAtt = some x → some a = some y → attcmp x y ≠ .gt := by
  rw [over_iff]
  constructor
  · rintro h u y hu ⟨⟩
    rw [attcmp_eq_compare (hmin u hu)]
    exact fun hgt => h u hu (Std.OrientedCmp.lt_of_gt hgt)
  · intro h u hu hlt
    have hnot := h u a hu rfl
    rw [attcmp_eq_compare (hmin u hu)] at hnot
    exact hnot (Std.OrientedCmp.gt_of_lt hlt)

/-- The rows that the walk keeps are the keys within the maximum, and the rows that are meant those in
    range. -/
theorem rows_iff (hmin : minKeys.Proper types) (hmax : maxKeys.Proper types) {as : List Attribute}
    (has : as.map (·.type) = types) (hends : ∀ v ∈ values as, v.Ends) :
    (Kept (columns types minKeys maxKeys) (values as) ↔ (Key.ofAttributes as).Below maxKeys) ∧
      (Meant (columns types minKeys maxKeys) (values as) ↔
        Key.InRange minKeys maxKeys (Key.ofAttributes as)) := by
  subst has
  induction as generalizing minKeys maxKeys with
  | nil =>
    cases hmin
    cases hmax
    exact ⟨iff_of_true .nil (Key.below_nil []),
      iff_of_true .nil ⟨Key.below_nil [], Key.below_nil []⟩⟩
  | cons a as ih =>
    cases hmin with
    | @cons _ x _ minKeys hx hmins =>
      cases hmax with
      | @cons _ y _ maxKeys hy hmaxs =>
        obtain ⟨hend, hends⟩ := List.forall_mem_cons.mp hends
        obtain ⟨hkept, hmeant⟩ := ih hends hmins hmaxs
        have hvalue : (column a.type x y).values a.value := ⟨hend, a, rfl, rfl⟩
        have hunder := under_attribute x fun u h => (hy u h).1
        have hover := over_attribute y fun u h => (hx u h).1
        simp only [columns, List.map_cons, values, Key.ofAttributes] at hkept hmeant ⊢
        constructor
        · rw [Kept, List.forall₂_cons, and_iff_right hvalue, hunder, Key.below_cons, ← hkept, Kept]
        · rw [Meant, List.forall₂_cons, and_iff_right hvalue, hunder, hover, Key.InRange,
            Key.below_cons, Key.below_cons, ← Meant, hmeant, Key.InRange]
          tauto

/-- Every row of the columns can be stored. -/
theorem exists_pair (hmin : minKeys.Proper types) (hmax : maxKeys.Proper types)
    {row : List AttrValue}
    (hrow : List.Forall₂ (fun c v => c.values v) (columns types minKeys maxKeys) row) :
    ∃ p : Pair, (IndexStructure.new types).keyValues p.1 = row ∧
      ((IndexStructure.new types).getKey p.1).Terminated := by
  have hattributes : ∃ as : List Attribute, as.map (·.type) = types ∧ values as = row ∧
      ∀ v ∈ row, v.Ends := by
    induction hmin generalizing maxKeys row with
    | nil =>
      cases hrow
      exact ⟨[], rfl, rfl, by simp⟩
    | cons _ _ ih =>
      cases hmax with
      | cons _ hmaxs =>
        cases hrow with
        | cons hv hvs =>
          obtain ⟨hends, a, rfl, rfl⟩ := hv
          obtain ⟨as, rfl, rfl, hall⟩ := ih hmaxs hvs
          exact ⟨a :: as, rfl, rfl, List.forall_mem_cons.mpr ⟨hends, hall⟩⟩
  obtain ⟨as, has, rfl, hends⟩ := hattributes
  have hvalues := (IndexStructure.new types).keyValues_getBDBKey has false
  refine ⟨((IndexStructure.new types).getBDBKey (Key.ofAttributes as) false, []), hvalues, ?_⟩
  rw [IndexStructure.getKey, terminated_iff]
  intro v hv
  have hrow : v ∈ values as := hvalues ▸ hv
  exact hends v hrow

end Columns

section Pairs
variable {s : IndexStructure} {minKeys maxKeys : Key} {p : Pair}

theorem started_columns (hmin : minKeys.Typed s.type) (hpmin : minKeys.Proper s.type)
    (hpmax : maxKeys.Proper s.type) : started s minKeys p = true ↔
      Started (columns s.type minKeys maxKeys) (s.keyValues p.1) := by
  have hstart : s.keyValues (s.getBDBKey minKeys false) =
      List.zipWith (encodedValue false) s.type minKeys := values_bdbFields false hmin
  rw [started_iff, IndexStructure.dbKeycmp_eq, hstart, ← columns_start hpmin hpmax, Started]

theorem pair_rows (hpmin : minKeys.Proper s.type) (hpmax : maxKeys.Proper s.type)
    (hp : (s.getKey p.1).Terminated) :
    (Kept (columns s.type minKeys maxKeys) (s.keyValues p.1) ↔ (s.getKey p.1).Below maxKeys) ∧
      (Meant (columns s.type minKeys maxKeys) (s.keyValues p.1) ↔
        Key.InRange minKeys maxKeys (s.getKey p.1)) :=
  rows_iff hpmin hpmax (map_type_attributesOf ..) ((terminated_iff _).mp hp)

end Pairs

/-! ### The queries -/

namespace World

/-- The index is open, has these columns, and the strings in it end. -/
structure Holds (w : World) (h : IndexPtr) (o : Opened) (types : List AttributeType) : Prop where
  opened : w.Open h o
  columns : o.s.type = types
  ends : ∀ p ∈ o.pairs, (o.s.getKey p.1).Terminated

end World

section Query
variable {w : World} {h : IndexPtr} {o : Opened} {minKeys maxKeys : Key} {types : List AttributeType}

theorem holds_single {p : Pair} (hp : ((IndexStructure.new types).getKey p.1).Terminated) :
    (single types [p]).Holds 1 (singleOpened types [p]) types where
  opened := single_open (List.pairwise_singleton ..)
  columns := rfl
  ends := by
    intro q hq
    rw [List.mem_singleton.mp hq]
    exact hp

/-- A query is sound if what is kept behind its start is in range. -/
theorem sound_iff_pairs (B : BerkeleyDB) (ho : w.Open h o) (tx : Option TxnPtr)
    (hmin : minKeys.Typed o.s.type) (hmax : maxKeys.Typed o.s.type) :
    (∀ n, ∀ r ∈ (w.query B tx h minKeys maxKeys n).1, Key.InRange minKeys maxKeys r.key) ↔
      ∀ p ∈ o.pairs, started o.s minKeys p = true → (o.s.getKey p.1).Below maxKeys →
        Key.InRange minKeys maxKeys (o.s.getKey p.1) := by
  have hlen : maxKeys.length = o.s.type.length := hmax.length_eq.symm
  simp only [query_eq B ho tx hmin hmax]
  constructor
  · intro hsound p hp hstarted hbelow
    have hmem : recordOf o.s p ∈ (matching o.s minKeys maxKeys o.pairs).map (recordOf o.s) :=
      List.mem_map_of_mem ((mem_matching hlen).mpr ⟨hp, hstarted, hbelow⟩)
    exact hsound _ (recordOf o.s p) (by rwa [upTo_length])
  · intro hpairs n r hr
    obtain ⟨p, hp, rfl⟩ := List.mem_map.mp (mem_upTo hr)
    obtain ⟨hmem, hstarted, hbelow⟩ := (mem_matching hlen).mp hp
    exact hpairs p hmem hstarted hbelow

/-- A query is complete if what is in range is behind its start. -/
theorem complete_iff_pairs (B : BerkeleyDB) (ho : w.Open h o) (tx : Option TxnPtr)
    (hmin : minKeys.Typed o.s.type) (hmax : maxKeys.Typed o.s.type) :
    Complete B w tx h o minKeys maxKeys ↔
      ∀ p ∈ o.pairs, Key.InRange minKeys maxKeys (o.s.getKey p.1) → started o.s minKeys p = true := by
  have hlen : maxKeys.length = o.s.type.length := hmax.length_eq.symm
  simp only [Complete, query_eq B ho tx hmin hmax]
  constructor
  · rintro ⟨n, hend, hcount⟩ p hp hrange
    rw [upTo_of_end hend] at hcount
    by_contra hstarted
    have hlost := count_filter_lt (recordOf o.s)
      (fun p => started o.s minKeys p && keeps o.s maxKeys p) hp (by simp [hstarted])
    exact hlost.ne (hcount (recordOf o.s p) hrange)
  · intro hpairs
    refine ⟨_, congrArg Prod.snd (upTo_beyond (Nat.lt_succ_self _)), fun r hr => ?_⟩
    rw [upTo_beyond (Nat.lt_succ_self _), List.count_eq_countP, List.count_eq_countP,
      List.countP_map, List.countP_map, matching, List.countP_filter]
    refine List.countP_congr fun p hp => ?_
    simp only [Function.comp_apply, beq_iff_eq, Bool.and_eq_true, and_iff_left_iff_imp]
    rintro rfl
    exact ⟨hpairs p hp hr, (keeps_iff hlen).mpr hr.2⟩

/-- CORRECT (shape, sound): on every index with these columns everything that the query returns is in
    range, if and only if its keys do not overrun. -/
theorem query_sound_iff_shape (B : BerkeleyDB) (hmin : minKeys.Typed types)
    (hmax : maxKeys.Typed types) (hminEnds : minKeys.Terminated) (hmaxEnds : maxKeys.Terminated) :
    (∀ (w : World) h o, w.Holds h o types → ∀ tx n, ∀ r ∈ (w.query B tx h minKeys maxKeys n).1,
      Key.InRange minKeys maxKeys r.key) ↔ overruns types minKeys maxKeys = false := by
  have hpmin := hmin.proper hminEnds
  have hpmax := hmax.proper hmaxEnds
  rw [← Bool.not_eq_true, overruns_iff hpmin hpmax, ← kept_meant_iff (columns_fit hpmin hpmax)]
  constructor
  · intro hsound row hkept hstarted
    obtain ⟨p, rfl, hends⟩ := exists_pair hpmin hpmax (hkept.imp fun _ _ hv => hv.1)
    have hrows := pair_rows (s := (singleOpened types [p]).s) hpmin hpmax hends
    have hholds := holds_single hends
    have hpairs := (sound_iff_pairs B hholds.opened none hmin hmax).mp (hsound _ _ _ hholds none)
    exact hrows.2.mpr (hpairs p (List.mem_singleton_self p)
      ((started_columns hmin hpmin hpmax).mpr hstarted) (hrows.1.mp hkept))
  · rintro hrows w h o ⟨ho, rfl, hends⟩ tx
    refine (sound_iff_pairs B ho tx hmin hmax).mpr fun p hp hstarted hbelow => ?_
    obtain ⟨hkept, hmeant⟩ := pair_rows hpmin hpmax (hends p hp)
    exact hmeant.mp (hrows _ (hkept.mpr hbelow) ((started_columns hmin hpmin hpmax).mp hstarted))

/-- A key of two columns of type kShort. -/
def shortsKey (v v' : Int) : Key := shortKey v ++ shortKey v'

theorem shortsKey_typed (v v' : Int) : (shortsKey v v').Typed [.kShort, .kShort] :=
  Key.FullySet.typed ⟨[.ofBytes .kShort (leBytes 4 v), .ofBytes .kShort (leBytes 4 v')], rfl, rfl⟩

theorem shortsKey_terminated (v v' : Int) : (shortsKey v v').Terminated := by
  intro a ha htype
  rcases List.mem_cons.mp ha with h | h
  · obtain rfl := Option.some.inj h
    cases htype
  · obtain rfl := Option.some.inj (List.mem_singleton.mp h)
    cases htype

/-- The bounds (1, 5) and (1, 9) leave no room in the first column, the bounds (1, 5) and (2, 9) do. -/
theorem query_sound_of_shape_at :
    (∀ (w : World) h o, w.Holds h o [.kShort, .kShort] → ∀ tx n,
      ∀ r ∈ (w.query .plain tx h (shortsKey 1 5) (shortsKey 1 9) n).1,
        Key.InRange (shortsKey 1 5) (shortsKey 1 9) r.key) ∧
    ¬ ∀ (w : World) h o, w.Holds h o [.kShort, .kShort] → ∀ tx n,
      ∀ r ∈ (w.query .plain tx h (shortsKey 1 5) (shortsKey 2 9) n).1,
        Key.InRange (shortsKey 1 5) (shortsKey 2 9) r.key := by
  have hshape (v v' : Int) := query_sound_iff_shape .plain (shortsKey_typed 1 5) (shortsKey_typed v v')
    (shortsKey_terminated 1 5) (shortsKey_terminated v v')
  refine ⟨(hshape 1 9).mpr (by decide), fun hsound => ?_⟩
  have hoverruns : overruns [.kShort, .kShort] (shortsKey 1 5) (shortsKey 2 9) = true := rfl
  simp [(hshape 2 9).mp hsound] at hoverruns

/-- CORRECT (shape, complete): on every index with these columns the query returns everything that is in
    range, if and only if its keys miss nothing. -/
theorem query_complete_iff_shape (B : BerkeleyDB) (hmin : minKeys.Typed types)
    (hmax : maxKeys.Typed types) (hminEnds : minKeys.Terminated) (hmaxEnds : maxKeys.Terminated) :
    (∀ (w : World) h o, w.Holds h o types → ∀ tx, Complete B w tx h o minKeys maxKeys) ↔
      misses types minKeys maxKeys = false := by
  have hpmin := hmin.proper hminEnds
  have hpmax := hmax.proper hmaxEnds
  rw [← Bool.not_eq_true, misses_iff hpmin hpmax, ← meant_started_iff (columns_fit hpmin hpmax)]
  constructor
  · intro hcomplete row hmeant
    obtain ⟨p, rfl, hends⟩ := exists_pair hpmin hpmax (hmeant.imp fun _ _ hv => hv.1)
    have hrows := pair_rows (s := (singleOpened types [p]).s) hpmin hpmax hends
    have hholds := holds_single hends
    have hpairs := (complete_iff_pairs B hholds.opened none hmin hmax).mp (hcomplete _ _ _ hholds none)
    exact (started_columns hmin hpmin hpmax).mp
      (hpairs p (List.mem_singleton_self p) (hrows.2.mp hmeant))
  · rintro hrows w h o ⟨ho, rfl, hends⟩ tx
    refine (complete_iff_pairs B ho tx hmin hmax).mpr fun p hp hrange => ?_
    obtain ⟨-, hmeant⟩ := pair_rows hpmin hpmax (hends p hp)
    exact (started_columns hmin hpmin hpmax).mpr (hrows _ (hmeant.mpr hrange))

theorem free_typed (type : AttributeType) : Key.Typed [type] [none] :=
  .cons (by simp) .nil

theorem free_terminated : Key.Terminated [none] := by
  intro a ha _
  simp at ha

/-- A range of integers loses nothing; with no bound on a column of type kVarchar something is lost. -/
theorem query_complete_of_shape_at :
    (∀ (w : World) h o, w.Holds h o [.kShort, .kShort] →
      ∀ tx, Complete .plain w tx h o (shortsKey 1 5) (shortsKey 2 9)) ∧
    ¬ ∀ (w : World) h o, w.Holds h o [.kVarchar] → ∀ tx, Complete .plain w tx h o [none] [none] := by
  refine ⟨(query_complete_iff_shape .plain (shortsKey_typed 1 5) (shortsKey_typed 2 9)
    (shortsKey_terminated 1 5) (shortsKey_terminated 2 9)).mpr (by decide), fun hcomplete => ?_⟩
  have hmisses : misses [.kVarchar] [none] [none] = true := by decide
  simp [(query_complete_iff_shape .plain (free_typed .kVarchar) (free_typed .kVarchar)
    free_terminated free_terminated).mp hcomplete] at hmisses

end Query

end Contest
