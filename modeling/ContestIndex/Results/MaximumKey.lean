import ContestIndex.Results.RangeQuery

/-! @src example/Index.cc | name:The encoded maximum key | layer:results

    Two functions of the name `GetBDBKey` take the flag that makes a key a maximum. The one of the
    structure looks at it, the one of the handle drops it, so that a NULL always stands for the smallest
    integer. A NULL varchar is the same string in both, which is not the greatest one.

        NULL in column     structure, max      handle, max         greatest value
        kShort             INT32_MAX           INT32_MIN           INT32_MAX
        kInt               INT64_MAX           INT64_MIN           INT64_MAX
        kVarchar           512 × 127           512 × 127           512 × 255

    A key that is nowhere above the set attributes of the maximum is above the encoded maximum if and
    only if it passes a wildcard (`Passes`). -/

namespace Contest
open Schemes

/-! ### Wildcards -/

/-- What stands for a NULL. -/
def wildcard (max : Bool) : AttributeType → AttrValue
  | .kShort => .short (if max then INT32_MAX else INT32_MIN)
  | .kInt => .int (if max then INT64_MAX else INT64_MIN)
  | .kVarchar => .varchar varcharFill

theorem encodedValue_none (max : Bool) (t : AttributeType) :
    encodedValue max t none = wildcard max t := by
  cases t with
  | kShort => cases max <;> decide
  | kInt => cases max <;> decide
  | kVarchar => exact startValue_varchar

/-- A greatest attribute of each type. -/
def greatest : AttributeType → Attribute
  | .kShort => .ofBytes .kShort (leBytes 4 INT32_MAX)
  | .kInt => .ofBytes .kInt (leBytes 8 INT64_MAX)
  | .kVarchar => .ofBytes .kVarchar (List.replicate MAX_VARCHAR_LENGTH 255)

@[simp] theorem greatest_type (t : AttributeType) : (greatest t).type = t := by cases t <;> rfl

theorem greatest_varchar_mem :
    (greatest .kVarchar).mem = List.replicate MAX_VARCHAR_LENGTH 255 ++ [0] := by decide +kernel

/-- A wildcard that is greatest belongs to a maximum key and to a column of integers. -/
theorem wildcard_eq_greatest {max : Bool} {t : AttributeType} :
    (greatest t).value = wildcard max t ↔ max = true ∧ t ≠ .kVarchar := by
  cases t with
  | kShort => cases max <;> decide
  | kInt => cases max <;> decide
  | kVarchar =>
    have hne : (greatest .kVarchar).value ≠ wildcard max .kVarchar := by cases max <;> decide +kernel
    simp [hne]

/-- No wildcard is above the greatest attribute. -/
theorem greatest_not_lt (max : Bool) (t : AttributeType) :
    compare (greatest t).value (wildcard max t) ≠ .lt := by
  cases t <;> cases max <;> decide +kernel

/-- No integer is above the wildcard of a maximum key. -/
theorem value_not_gt_wildcard {b : Attribute} (h : b.type ≠ .kVarchar) :
    compare b.value (wildcard true b.type) ≠ .gt := by
  unfold Attribute.value
  cases ht : b.type with
  | kShort =>
    have hlt := leInt_lt (show (b.mem.take 4).length = 4 by rw [List.length_take, b.mem_length]; rfl)
    simp only [wildcard, AttrValue.compare_def, AttrValue.cmp, Attribute.shortValue, if_true, ne_eq,
      Std.compare_eq_gt, INT32_MAX]
    omega
  | kInt =>
    have hlt := leInt_lt (show (b.mem.take 8).length = 8 by rw [List.length_take, b.mem_length]; rfl)
    simp only [wildcard, AttrValue.compare_def, AttrValue.cmp, Attribute.intValue, if_true, ne_eq,
      Std.compare_eq_gt, INT64_MAX]
    omega
  | kVarchar => exact absurd ht h

/-! ### The keys that a maximum admits -/

/-- Every string of the key ends within MAX_VARCHAR_LENGTH bytes. -/
def Key.Terminated (key : Key) : Prop :=
  ∀ a : Attribute, some a ∈ key → a.type = .kVarchar → 0 ∈ a.charValue

/-- A fully set key that is nowhere above the set attributes of the maximum. -/
structure Admits (s : IndexStructure) (maxKeys k : Key) : Prop where
  fullySet : k.FullySet s.type
  terminated : k.Terminated
  below : k.Below maxKeys

/-- `keycmp` of the key against the decoded bytes is at most 0. -/
def AtMost (s : IndexStructure) (k : Key) (bdbKey : Bytes) : Prop :=
  ∃ r, keycmp k (s.getKey bdbKey) = some r ∧ r.isLE = true

/-- The bound of a column: the attribute of the maximum, or the wildcard. -/
def boundValue (max : Bool) (t : AttributeType) : Option Attribute → AttrValue
  | some a => a.value
  | none => wildcard max t

/-- In a column where the maximum is NULL the key is above the wildcard, and in every column before it
    the key is at the bound. -/
def Passes (max : Bool) (maxKeys k : Key) : Prop :=
  ∃ (j : Nat) (b : Attribute), maxKeys[j]? = some none ∧ k[j]? = some (some b) ∧
    compare b.value (wildcard max b.type) = .gt ∧
    ∀ (i : Nat) (c : Attribute) (o : Option Attribute), i < j → k[i]? = some (some c) →
      maxKeys[i]? = some o → c.value = boundValue max c.type o

/-! ### Comparing with the encoded maximum -/

section Compare
variable {s : IndexStructure} {maxKeys : Key} {max : Bool} {as : List Attribute}

theorem boundValues (hmax : maxKeys.Typed s.type) {i : Nat} {t : AttributeType}
    {o : Option Attribute} (ht : s.type[i]? = some t) (ho : maxKeys[i]? = some o) :
    (s.keyValues (s.getBDBKey maxKeys max))[i]? = some (boundValue max t o) := by
  rw [getElem?_keyValues_getBDBKey max hmax ht ho]
  cases o with
  | none => exact congrArg some (encodedValue_none max t)
  | some a =>
    have hat : a.type = t := Option.some.inj ((hmax.type_eq ho).symm.trans ht)
    exact congrArg some (encodedValue_some max hat)

theorem atMost_iff (has : as.map (·.type) = s.type) {bdbKey : Bytes} :
    AtMost s (Key.ofAttributes as) bdbKey ↔ compare (values as) (s.keyValues bdbKey) ≠ .gt := by
  have hcmp : keycmp (Key.ofAttributes as) (s.getKey bdbKey) =
      some (compare (values as) (s.keyValues bdbKey)) :=
    keycmp_ofAttributes (by rw [has, map_type_attributesOf])
  rw [AtMost, hcmp]
  simp [Ordering.isLE_iff_ne_gt]

/-- The first column in which an admitted key differs from the encoded maximum decides. -/
theorem compare_eq_gt_iff (hmax : maxKeys.Typed s.type) (has : as.map (·.type) = s.type)
    (hbelow : (Key.ofAttributes as).Below maxKeys) :
    compare (values as) (s.keyValues (s.getBDBKey maxKeys max)) = .gt ↔
      Passes max maxKeys (Key.ofAttributes as) := by
  have hlen : as.length = s.type.length := by rw [← has, List.length_map]
  have htype : ∀ {i : Nat} {c : Attribute}, as[i]? = some c → s.type[i]? = some c.type := fun hc =>
    (Key.FullySet.typed ⟨as, rfl, has⟩).type_eq (Key.getElem?_ofAttributes.mpr hc)
  have hset : ∀ {i : Nat} {c : Attribute}, as[i]? = some c → ∃ o, maxKeys[i]? = some o := by
    intro i c hc
    have hlt : i < maxKeys.length := by
      rw [← hmax.length_eq, ← hlen]
      exact (List.getElem?_eq_some_iff.mp hc).1
    exact ⟨maxKeys[i], List.getElem?_eq_getElem hlt⟩
  rw [compare_eq_iff_differAt (by decide) (by rw [values, List.length_map, length_keyValues, hlen])]
  simp only [differAt_iff, values, List.getElem?_map, Passes, Key.getElem?_ofAttributes,
    Option.map_eq_some_iff]
  constructor
  · rintro ⟨j, x, y, ⟨hbefore, ⟨b, hb, rfl⟩, hy⟩, hgt⟩
    obtain ⟨o, ho⟩ := hset hb
    rw [boundValues hmax (htype hb) ho, Option.some.injEq] at hy
    subst hy
    cases o with
    | some a =>
      have hnot := hbelow j b a (Key.getElem?_ofAttributes.mpr hb) ho
      have hat : b.type = a.type := Option.some.inj ((htype hb).symm.trans (hmax.type_eq ho))
      rw [attcmp_eq_compare hat] at hnot
      exact absurd hgt hnot
    | none =>
      refine ⟨j, b, ho, hb, hgt, ?_⟩
      intro i c o hi hc ho'
      have heq := hbefore i hi
      rw [hc, boundValues hmax (htype hc) ho'] at heq
      exact Option.some.inj heq
  · rintro ⟨j, b, ho, hb, hgt, hbefore⟩
    refine ⟨j, b.value, _, ⟨?_, ⟨b, hb, rfl⟩, boundValues hmax (htype hb) ho⟩, hgt⟩
    intro i hi
    have hlt : i < as.length := hi.trans (List.getElem?_eq_some_iff.mp hb).1
    have hc := List.getElem?_eq_getElem hlt
    obtain ⟨o, ho'⟩ := hset hc
    rw [hc, boundValues hmax (htype hc) ho', Option.map_some, hbefore i _ o hi hc ho']

/-- A key that the maximum admits is within the encoded maximum unless it passes a wildcard. -/
theorem Admits.atMost_iff {k : Key} (hmax : maxKeys.Typed s.type) (h : Admits s maxKeys k) :
    AtMost s k (s.getBDBKey maxKeys max) ↔ ¬Passes max maxKeys k := by
  obtain ⟨⟨as, rfl, has⟩, -, hbelow⟩ := h
  rw [Contest.atMost_iff has, ne_eq, compare_eq_gt_iff hmax has hbelow]

/-! ### The greatest key that a maximum admits -/

/-- The set attributes of the maximum, and the greatest ones where it is NULL. -/
def filled (types : List AttributeType) (maxKeys : Key) : List Attribute :=
  List.zipWith (fun t o => o.getD (greatest t)) types maxKeys

theorem map_type_filled {types : List AttributeType} (h : maxKeys.Typed types) :
    (filled types maxKeys).map (·.type) = types := by
  induction h with
  | nil => rfl
  | @cons t o ts os ho _ ih =>
    have hhead : (o.getD (greatest t)).type = t := by
      cases o with
      | none => exact greatest_type t
      | some a => exact ho a rfl
    rw [filled, List.zipWith_cons_cons, List.map_cons, hhead]
    exact congrArg _ ih

theorem getElem?_filled {i : Nat} {t : AttributeType} {o : Option Attribute}
    (ht : s.type[i]? = some t) (ho : maxKeys[i]? = some o) :
    (filled s.type maxKeys)[i]? = some (o.getD (greatest t)) := by
  rw [filled, List.getElem?_zipWith, ht, ho]

theorem of_filled {i : Nat} {c : Attribute} (h : (filled s.type maxKeys)[i]? = some c) :
    ∃ t o, s.type[i]? = some t ∧ maxKeys[i]? = some o ∧ c = o.getD (greatest t) := by
  rw [filled, List.getElem?_zipWith] at h
  rcases ht : s.type[i]? with _ | t <;> rcases ho : maxKeys[i]? with _ | o <;> rw [ht, ho] at h
  · cases h
  · cases h
  · cases h
  · exact ⟨t, o, rfl, rfl, (Option.some.inj h).symm⟩

theorem filled_admitted (hmax : maxKeys.Typed s.type) (hterm : maxKeys.Terminated) :
    Admits s maxKeys (Key.ofAttributes (filled s.type maxKeys)) where
  fullySet := ⟨_, rfl, map_type_filled hmax⟩
  terminated := by
    intro c hc htype
    obtain ⟨b, hb, hbc⟩ := List.mem_map.mp hc
    obtain rfl : b = c := Option.some.inj hbc
    obtain ⟨i, hi⟩ := List.mem_iff_getElem?.mp hb
    obtain ⟨t, o, -, ho, rfl⟩ := of_filled hi
    cases o with
    | some a => exact hterm a (List.mem_of_getElem? ho) htype
    | none =>
      rw [Option.getD_none, greatest_type] at htype
      subst htype
      rw [Option.getD_none, Attribute.charValue, greatest_varchar_mem]
      exact List.mem_append_right _ (List.mem_singleton_self 0)
  below := by
    intro i c a hc ha
    rw [Key.getElem?_ofAttributes] at hc
    obtain ⟨t, o, -, ho, rfl⟩ := of_filled hc
    obtain rfl : o = some a := Option.some.inj (ho.symm.trans ha)
    rw [Option.getD_some, attcmp_eq_compare rfl]
    simp

/-- CORRECT (`IndexStructure::GetBDBKey`): an encoded maximum bounds all keys that it admits if and only
    if each of its NULL attributes is an integer and the flag is set. -/
theorem bounds_iff (hmax : maxKeys.Typed s.type) (hterm : maxKeys.Terminated) :
    (∀ k, Admits s maxKeys k → AtMost s k (s.getBDBKey maxKeys max)) ↔
      ∀ (i : Nat) t, s.type[i]? = some t → maxKeys[i]? = some none → max = true ∧ t ≠ .kVarchar := by
  constructor
  · intro hall i t ht hnone
    have has := map_type_filled hmax
    have hle := (atMost_iff has).mp (hall _ (filled_admitted hmax hterm))
    have hlen : (values (filled s.type maxKeys)).length =
        (s.keyValues (s.getBDBKey maxKeys max)).length := by
      rw [values, List.length_map, length_keyValues, ← congrArg List.length has, List.length_map]
    -- the filled key is nowhere below the encoded maximum, so if it is within it they are equal
    have hge := compare_ne_lt hlen (by
      intro j x y hx hy
      rw [values, List.getElem?_map, Option.map_eq_some_iff] at hx
      obtain ⟨c, hc, rfl⟩ := hx
      obtain ⟨t, o, ht, ho, rfl⟩ := of_filled hc
      rw [boundValues hmax ht ho, Option.some.injEq] at hy
      subst hy
      cases o with
      | none => exact greatest_not_lt max t
      | some a => simp [boundValue])
    have heq : values (filled s.type maxKeys) = s.keyValues (s.getBDBKey maxKeys max) := by
      cases hc : compare (values (filled s.type maxKeys)) (s.keyValues (s.getBDBKey maxKeys max)) with
      | eq => exact Std.LawfulEqCmp.eq_of_compare hc
      | lt => exact absurd hc hge
      | gt => exact absurd hc hle
    have hi := congrArg (fun l : List AttrValue => l[i]?) heq
    simp only [boundValues hmax ht hnone, values, List.getElem?_map, getElem?_filled ht hnone,
      Option.map_some, Option.some.injEq, Option.getD_none] at hi
    exact wildcard_eq_greatest.mp hi
  · intro hcond k hk
    rw [hk.atMost_iff hmax]
    rintro ⟨j, b, hnone, hb, hgt, -⟩
    have ht : s.type[j]? = some b.type := hk.fullySet.typed.type_eq hb
    obtain ⟨rfl, hne⟩ := hcond j b.type ht hnone
    exact value_not_gt_wildcard hne hgt

end Compare

/-! ### The maximum of a handle -/

/-- DIVERGES (`Index::GetBDBKey`): the flag is dropped. An encoded maximum bounds all keys that it admits
    if and only if none of its attributes is NULL, and a single key unless that key is above the
    wildcard of a minimum in a column where the maximum is NULL. -/
theorem maximum_key_bounds_iff (s : IndexStructure) {maxKeys : Key} (hmax : maxKeys.Typed s.type)
    (hterm : maxKeys.Terminated) :
    ((∀ k, Admits s maxKeys k → AtMost s k (Index.getBDBKey s maxKeys true)) ↔ none ∉ maxKeys) ∧
      ∀ k, Admits s maxKeys k →
        (AtMost s k (Index.getBDBKey s maxKeys true) ↔ ¬Passes false maxKeys k) := by
  refine ⟨?_, fun k hk => hk.atMost_iff hmax⟩
  have hflag : ∀ k, Index.getBDBKey s k true = s.getBDBKey k false := fun _ => rfl
  rw [hflag, bounds_iff hmax hterm]
  constructor
  · intro hall hmem
    obtain ⟨i, hi⟩ := List.mem_iff_getElem?.mp hmem
    have hlt : i < s.type.length := by
      rw [hmax.length_eq]
      exact (List.getElem?_eq_some_iff.mp hi).1
    exact absurd (hall i _ (List.getElem?_eq_getElem hlt) hi).1 Bool.false_ne_true
  · intro hnone i t _ hi
    exact absurd (List.mem_of_getElem? hi) hnone

/-- The key (1) is above the encoded maximum (-). -/
theorem maximum_wildcard_below_key :
    ¬∀ k, Admits (IndexStructure.new [.kInt]) [none] k →
      AtMost (IndexStructure.new [.kInt]) k
        (Index.getBDBKey (IndexStructure.new [.kInt]) [none] true) := by
  intro hall
  have hadmits : Admits (IndexStructure.new [.kInt]) [none] [some (.ofBytes .kInt (leBytes 8 1))] := by
    refine ⟨⟨[.ofBytes .kInt (leBytes 8 1)], rfl, rfl⟩, ?_, ?_⟩
    · intro a ha htype
      obtain rfl : a = .ofBytes .kInt (leBytes 8 1) := by simpa using ha
      cases htype
    · rw [Key.below_cons]
      exact ⟨fun _ _ _ h => (by cases h), Key.below_nil []⟩
  obtain ⟨r, hr, hle⟩ := hall _ hadmits
  have hgt : keycmp [some (.ofBytes .kInt (leBytes 8 1))] ((IndexStructure.new [.kInt]).getKey
      (Index.getBDBKey (IndexStructure.new [.kInt]) [none] true)) = some .gt := by decide +kernel
  obtain rfl : Ordering.gt = r := Option.some.inj (hgt.symm.trans hr)
  cases hle

/-- The key (5, "b") is within the maxima (7, "c") and (7, -): it ends below them in the first column. -/
theorem maximum_key_bounds_at :
    let number : Int → Option Attribute := fun v => some (.ofBytes .kInt (leBytes 8 v))
    let word : UInt8 → Option Attribute := fun c => some (.ofBytes .kVarchar [c])
    let s := IndexStructure.new [.kInt, .kVarchar]
    AtMost s [number 5, word 98] (Index.getBDBKey s [number 7, word 99] true) ∧
      AtMost s [number 5, word 98] (Index.getBDBKey s [number 7, none] true) := by
  intro number word s
  have hset : ∀ v c, Key.FullySet s.type [number v, word c] := fun v c =>
    ⟨[.ofBytes .kInt (leBytes 8 v), .ofBytes .kVarchar [c]], rfl, rfl⟩
  have hstring : ∀ o ∈ [word 98, word 99, none], ∀ a ∈ o, 0 ∈ a.charValue := by decide
  have hterm : ∀ v, ∀ o ∈ [word 98, word 99, none], Key.Terminated [number v, o] := by
    intro v o ho a ha htype
    rcases List.mem_pair.mp ha with hnumber | ha
    · obtain rfl := Option.some.inj hnumber
      contradiction
    · exact hstring o ho a ha.symm
  have hbelow : ∀ o, (∀ c ∈ o, attcmp (.ofBytes .kVarchar [98]) c ≠ .gt) →
      Key.Below [number 5, word 98] [number 7, o] := by
    intro o ho
    rw [Key.below_cons, Key.below_cons]
    refine ⟨?_, ?_, Key.below_nil []⟩
    · rintro _ _ ⟨⟩ ⟨⟩
      decide
    · rintro _ c ⟨⟩ hc
      exact ho c hc
  constructor
  · have hnull : none ∉ [number 7, word 99] := by simp [number, word]
    refine (maximum_key_bounds_iff s (hset 7 99).typed (hterm 7 _ (by simp))).1.mpr hnull _
      ⟨hset 5 98, hterm 5 _ (by simp), hbelow _ ?_⟩
    rintro _ ⟨⟩
    decide
  · have htyped : Key.Typed s.type [number 7, none] := .cons (by simp [number]) (.cons (by simp) .nil)
    refine ((maximum_key_bounds_iff s htyped (hterm 7 _ (by simp))).2 _
      ⟨hset 5 98, hterm 5 _ (by simp), hbelow none (by simp)⟩).mpr ?_
    rintro ⟨j, b, hnone, -, -, hsame⟩
    -- only the second column is NULL, and the first one differs
    rcases j with _ | _ | j
    · cases hnone
    · exact absurd (hsame 0 _ _ Nat.zero_lt_one rfl rfl) (by decide)
    · cases hnone

end Contest
