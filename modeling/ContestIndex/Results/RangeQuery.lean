import ContestIndex.Results.RangeScan
import ContestIndex.Schemes.Lexicographic

/-! @src example/Iterator.cc | name:Range queries | layer:results

    The maximum key is checked attribute by attribute, the minimum key only through the place where
    the cursor starts: at the first pair that is lexicographically not below the encoded minimum key.
    The theorems say what goes wrong by that, and what by the encoding of NULL attributes.

        minimum (-, 5)   encoded (INT32_MIN, 5)
        (1, 3)           above it in attribute 0: returned, although 3 < 5
        "a"              minimum (-), encoded as 512 × 127: below it, never visited -/

namespace Contest
open Schemes World

/-! ### The encoded minimum key -/

/-- What an attribute is worth in an encoded minimum key. -/
def startValue (t : AttributeType) (o : Option Attribute) : AttrValue :=
  (Attribute.ofBytes t (bdbField false t o)).value

/-- What the bytes of a NULL varchar are worth. -/
def varcharFill : Bytes := List.replicate MAX_VARCHAR_LENGTH 127

theorem cstr_replicate {c : UInt8} (hc : c ≠ 0) (n : Nat) (rest : Bytes) :
    cstr (List.replicate n c ++ 0 :: rest) = List.replicate n c := by
  simp [cstr, hc]

theorem startValue_short : startValue .kShort none = .short INT32_MIN := by decide

theorem startValue_int : startValue .kInt none = .int INT64_MIN := by decide

theorem startValue_varchar : startValue .kVarchar none = .varchar varcharFill := by
  have hmem : (Attribute.ofBytes .kVarchar (bdbField false .kVarchar none)).mem =
      List.replicate MAX_VARCHAR_LENGTH 127 ++ 0 :: [] := by
    have hlen : (bdbField false .kVarchar none).length = MAX_VARCHAR_LENGTH + 1 :=
      length_bdbField false .kVarchar none
    exact List.take_left' hlen
  have hne : (127 : UInt8) ≠ 0 := by decide
  simp only [startValue, Attribute.value, Attribute.ofBytes_type, Attribute.charValue, hmem,
    cstr_replicate hne, varcharFill]

section Keys
variable {s : IndexStructure} {minKeys maxKeys : Key} {p : Pair} {i : Nat}

/-- The values of the encoded minimum key. -/
def startValues (s : IndexStructure) (minKeys : Key) : List AttrValue :=
  s.keyValues (s.getBDBKey minKeys false)

theorem length_keyValues (bdbKey : Bytes) : (s.keyValues bdbKey).length = s.type.length := by
  simp [IndexStructure.keyValues, values, length_attributesOf]

theorem Key.Typed.type_eq : ∀ {types : List AttributeType} {key : Key}, key.Typed types →
    ∀ {i : Nat} {a : Attribute}, key[i]? = some (some a) → types[i]? = some a.type
  | _, _, .nil, i, a, h => by simp at h
  | t :: ts, o :: os, .cons ho hos, 0, a, h => by
    have ha : o = some a := by simpa using h
    rw [List.getElem?_cons_zero, ho a ha]
  | t :: ts, o :: os, .cons ho hos, i + 1, a, h => by
    have hi : os[i]? = some (some a) := by simpa using h
    rw [List.getElem?_cons_succ]
    exact Key.Typed.type_eq hos hi

/-- The value of an encoded key in one column. -/
theorem getElem?_keyValues_getBDBKey (max : Bool) {key : Key} (hkey : key.Typed s.type)
    {t : AttributeType} {o : Option Attribute} (ht : s.type[i]? = some t) (ho : key[i]? = some o) :
    (s.keyValues (s.getBDBKey key max))[i]? = some (encodedValue max t o) := by
  rw [IndexStructure.keyValues, IndexStructure.getBDBKey, values_bdbFields max hkey,
    List.getElem?_zipWith, ht, ho]

/-- At a set attribute the encoded minimum key is worth the minimum. -/
theorem startValues_some (hmin : minKeys.Typed s.type) {a : Attribute}
    (h : minKeys[i]? = some (some a)) : (startValues s minKeys)[i]? = some a.value := by
  rw [startValues, getElem?_keyValues_getBDBKey false hmin (hmin.type_eq h) h,
    encodedValue_some false rfl]

theorem startValues_none (hmin : minKeys.Typed s.type) {t : AttributeType}
    (h : minKeys[i]? = some none) (ht : s.type[i]? = some t) :
    (startValues s minKeys)[i]? = some (startValue t none) :=
  getElem?_keyValues_getBDBKey false hmin ht h

/-- The values of a stored key are those of its attributes, which have the types of the columns. -/
theorem keyValues_eq_some {bdbKey : Bytes} {x : AttrValue} :
    (s.keyValues bdbKey)[i]? = some x ↔
      ∃ b : Attribute, (s.getKey bdbKey)[i]? = some (some b) ∧ x = b.value := by
  simp only [IndexStructure.keyValues, values, IndexStructure.getKey, Key.getElem?_ofAttributes,
    List.getElem?_map, Option.map_eq_some_iff]
  exact exists_congr fun b => and_congr_right fun _ => eq_comm

theorem getKey_type {bdbKey : Bytes} {b : Attribute} (h : (s.getKey bdbKey)[i]? = some (some b)) :
    s.type[i]? = some b.type := by
  rw [IndexStructure.getKey, Key.getElem?_ofAttributes] at h
  rw [← map_type_attributesOf s.type bdbKey, List.getElem?_map, h]
  rfl

/-- The lower bound, by values. -/
theorem below_getKey_iff (hmin : minKeys.Typed s.type) {bdbKey : Bytes} :
    minKeys.Below (s.getKey bdbKey) ↔ ∀ (i : Nat) a x, minKeys[i]? = some (some a) →
      (s.keyValues bdbKey)[i]? = some x → compare a.value x ≠ .gt := by
  have hcmp : ∀ {i : Nat} {a b : Attribute}, minKeys[i]? = some (some a) →
      (s.getKey bdbKey)[i]? = some (some b) → attcmp a b = compare a.value b.value := by
    intro i a b ha hb
    exact attcmp_eq_compare (Option.some.inj ((hmin.type_eq ha).symm.trans (getKey_type hb)))
  constructor
  · intro h i a x ha hx
    obtain ⟨b, hb, rfl⟩ := keyValues_eq_some.mp hx
    rw [← hcmp ha hb]
    exact h i a b ha hb
  · intro h i a b ha hb
    rw [hcmp ha hb]
    exact h i a b.value ha (keyValues_eq_some.mpr ⟨b, hb, rfl⟩)

theorem compare_start_iff {o : Ordering} (ho : o ≠ .eq) :
    s.dbKeycmp p.1 (s.getBDBKey minKeys false) = o ↔
      ∃ j x y, DifferAt (s.keyValues p.1) (startValues s minKeys) j x y ∧ compare x y = o := by
  rw [IndexStructure.dbKeycmp_eq]
  exact compare_eq_iff_differAt ho ((length_keyValues p.1).trans (length_keyValues _).symm)

theorem started_iff : started s minKeys p = true ↔
    s.dbKeycmp p.1 (s.getBDBKey minKeys false) ≠ .lt := by simp [started]

/-! ### Pairs that are returned although they are below the minimum -/

/-- The pair is above the encoded minimum key at its first difference, and below the minimum in a
    later attribute. -/
def Overtakes (s : IndexStructure) (minKeys : Key) (p : Pair) : Prop :=
  ∃ (j i : Nat) (x y z : AttrValue) (a : Attribute), j < i ∧
    DifferAt (s.keyValues p.1) (startValues s minKeys) j x y ∧ compare x y = .gt ∧
    (s.keyValues p.1)[i]? = some z ∧ minKeys[i]? = some (some a) ∧ compare z a.value = .lt

theorem overtakes_iff (hmin : minKeys.Typed s.type) :
    Overtakes s minKeys p ↔
      started s minKeys p = true ∧ ¬minKeys.Below (s.getKey p.1) := by
  rw [started_iff, below_getKey_iff hmin]
  constructor
  · rintro ⟨j, i, x, y, z, a, -, hd, hgt, hz, ha, hlt⟩
    have hcmp := (compare_start_iff (by decide)).mpr ⟨j, x, y, hd, hgt⟩
    refine ⟨by rw [hcmp]; decide, fun h => ?_⟩
    exact h i a z ha hz (Std.OrientedCmp.gt_of_lt hlt)
  · rintro ⟨hstarted, hbelow⟩
    simp only [ne_eq, not_forall, not_not, exists_prop] at hbelow
    obtain ⟨i, a, z, ha, hz, hgt⟩ := hbelow
    have hi := startValues_some hmin ha
    have hlt : compare z a.value = .lt := Std.OrientedCmp.lt_of_gt hgt
    -- the keys differ at i, so the pair is above the start, and not first at i
    have habove : s.dbKeycmp p.1 (s.getBDBKey minKeys false) = .gt := by
      cases hc : s.dbKeycmp p.1 (s.getBDBKey minKeys false) with
      | lt => exact absurd hc hstarted
      | gt => rfl
      | eq =>
        have hsame := s.dbKeycmp_eq_eq.mp hc
        rw [hsame] at hz
        obtain rfl : z = a.value := Option.some.inj (hz.symm.trans hi)
        simp at hlt
    obtain ⟨j, x, y, hd, hxy⟩ := (compare_start_iff (by decide)).mp habove
    refine ⟨j, i, x, y, z, a, ?_, hd, hxy, hz, ha, hlt⟩
    obtain ⟨htake, hx, hy⟩ := hd
    rcases Nat.lt_trichotomy j i with hji | rfl | hij
    · exact hji
    · obtain rfl : x = z := Option.some.inj (hx.symm.trans hz)
      obtain rfl : y = a.value := Option.some.inj (hy.symm.trans hi)
      rw [hlt] at hxy
      contradiction
    · have hz' : ((s.keyValues p.1).take j)[i]? = some z := by rw [List.getElem?_take_of_lt hij, hz]
      rw [htake, List.getElem?_take_of_lt hij, hi] at hz'
      obtain rfl : a.value = z := Option.some.inj hz'
      simp at hlt

/-! ### Pairs that are never visited although they are in range -/

/-- In a NULL column of varchars, with the encoded minimum key before it, the pair has a string below
    the one that stands for NULL. -/
def Hidden (s : IndexStructure) (minKeys : Key) (p : Pair) : Prop :=
  ∃ (j : Nat) (c : Bytes), s.type[j]? = some .kVarchar ∧ minKeys[j]? = some none ∧
    (s.keyValues p.1).take j = (startValues s minKeys).take j ∧
    (s.keyValues p.1)[j]? = some (.varchar c) ∧ compare c varcharFill = .lt

/-- No integer is below the one that stands for NULL. -/
theorem startValue_le {b : Attribute} (h : compare b.value (startValue b.type none) = .lt) :
    ∃ c, b.value = .varchar c ∧ b.type = .kVarchar ∧ compare c varcharFill = .lt := by
  unfold Attribute.value at h ⊢
  cases ht : b.type with
  | kShort =>
    have hle := le_leInt (show (b.mem.take 4).length = 4 by rw [List.length_take, b.mem_length]; rfl)
    simp only [ht, startValue_short, AttrValue.compare_def, AttrValue.cmp, Attribute.shortValue] at h
    rw [Std.compare_eq_lt] at h
    simp only [INT32_MIN] at h
    omega
  | kInt =>
    have hle := le_leInt (show (b.mem.take 8).length = 8 by rw [List.length_take, b.mem_length]; rfl)
    simp only [ht, startValue_int, AttrValue.compare_def, AttrValue.cmp, Attribute.intValue] at h
    rw [Std.compare_eq_lt] at h
    simp only [INT64_MIN] at h
    omega
  | kVarchar =>
    simp only [ht, startValue_varchar, AttrValue.compare_def, AttrValue.cmp] at h
    exact ⟨_, rfl, rfl, h⟩

theorem hidden_iff (hmin : minKeys.Typed s.type) (hbelow : minKeys.Below (s.getKey p.1)) :
    Hidden s minKeys p ↔ started s minKeys p = false := by
  rw [← Bool.not_eq_true, started_iff, not_not, compare_start_iff (by decide)]
  constructor
  · rintro ⟨j, c, ht, hnone, htake, hc, hlt⟩
    have hstart := startValues_none hmin hnone ht
    rw [startValue_varchar] at hstart
    exact ⟨j, .varchar c, .varchar varcharFill, ⟨htake, hc, hstart⟩, hlt⟩
  · rintro ⟨j, x, y, ⟨htake, hx, hy⟩, hlt⟩
    obtain ⟨b, hb, rfl⟩ := keyValues_eq_some.mp hx
    have ht := getKey_type hb
    have hj : j < minKeys.length := by
      have hlt := (List.getElem?_eq_some_iff.mp ht).1
      rwa [hmin.length_eq] at hlt
    cases hm : minKeys[j]? with
    | none => exact absurd (List.getElem?_eq_none_iff.mp hm) (by omega)
    | some o =>
      cases o with
      | some a =>
        obtain rfl : a.value = y := Option.some.inj ((startValues_some hmin hm).symm.trans hy)
        exact absurd (Std.OrientedCmp.gt_of_lt hlt) ((below_getKey_iff hmin).mp hbelow j a _ hm hx)
      | none =>
        obtain rfl : startValue b.type none = y :=
          Option.some.inj ((startValues_none hmin hm ht).symm.trans hy)
        obtain ⟨c, hvalue, htype, hfill⟩ := startValue_le hlt
        exact ⟨j, c, htype ▸ ht, hm, htake, hvalue ▸ hx, hfill⟩

end Keys

/-! ### The queries -/

section Query
variable {w : World} {h : IndexPtr} {o : Opened} {minKeys maxKeys : Key}

/-- The key is between the bounds in every attribute that they set. -/
def Key.InRange (minKeys maxKeys key : Key) : Prop := minKeys.Below key ∧ key.Below maxKeys

theorem mem_matching {s : IndexStructure} {pairs : List Pair} {p : Pair}
    (hlen : maxKeys.length = s.type.length) : p ∈ matching s minKeys maxKeys pairs ↔
      p ∈ pairs ∧ started s minKeys p = true ∧ (s.getKey p.1).Below maxKeys := by
  rw [matching, List.mem_filter, Bool.and_eq_true, keeps_iff hlen]

/-! ### The walk and the filter -/

/-- The pairs at or after DB_SET_RANGE(GetBDBKey(min)). -/
def atOrAfter (B : BerkeleyDB) (o : Opened) (minKeys : Key) : List Pair :=
  match B.setRange o.cmp o.pairs (o.s.getBDBKey minKeys false) with
  | some c => c.cur :: c.after
  | none => []

theorem atOrAfter_eq (B : BerkeleyDB) (ho : w.Open h o) :
    atOrAfter B o minKeys = o.pairs.filter (started o.s minKeys) := by
  have hrange := B.setRange_first (o.s.getBDBKey minKeys false) ho.sorted
  rw [atOrAfter, ho.cmp, hrange]
  cases hc : Cursor.first (started o.s minKeys) o.pairs with
  | none =>
    have hnone : Cursor.first (fun p : Pair =>
        o.s.dbKeycmp p.1 (o.s.getBDBKey minKeys false) != .lt) o.pairs = none := hc
    rw [hnone, eq_comm, List.filter_eq_nil_iff]
    simpa using Cursor.first_eq_none.mp hc
  | some c =>
    have hsome : Cursor.first (fun p : Pair =>
        o.s.dbKeycmp p.1 (o.s.getBDBKey minKeys false) != .lt) o.pairs = some c := hc
    rw [hsome, (rising_started ho.sorted).filter_of_first hc]

/-- The records of pairs in order are in the order of `keycmp`. -/
theorem records_ascending {s : IndexStructure} {pairs : List Pair} (hs : SortedBy s.dbKeycmp pairs) :
    (pairs.map (recordOf s)).Pairwise fun a b =>
      ∃ ord, keycmp a.key b.key = some ord ∧ ord.isLE = true := by
  rw [List.pairwise_map]
  exact hs.imp fun {p q} hpq => ⟨s.dbKeycmp p.1 q.1, s.keycmp_getKey p.1 q.1, hpq⟩

/-- CORRECT (`Iterator::Next`): the answers of a query are the records at or after the start that
    `CheckBounds` accepts, in ascending order. The early stop drops none of them, and a single call
    comes back after at most one move of the cursor more than there are pairs. -/
theorem range_walk_filters (B : BerkeleyDB) (ho : w.Open h o) (tx : Option TxnPtr)
    (hmin : minKeys.Typed o.s.type) (hmax : maxKeys.Typed o.s.type) :
    let found := (atOrAfter B o minKeys).filter (keeps o.s maxKeys)
    (∀ n, w.query B tx h minKeys maxKeys n = upTo n (found.map (recordOf o.s))) ∧
      ((found.map (recordOf o.s)).Pairwise fun a b =>
        ∃ ord, keycmp a.key b.key = some ord ∧ ord.isLE = true) ∧
      (∀ front p back, atOrAfter B o minKeys = front ++ p :: back →
        stops o.s maxKeys p = true → ∀ q ∈ p :: back, keeps o.s maxKeys q = false) ∧
      ∀ (F : Faults) (it : Iterator), F.OnlyGetsAfter o.pairs.length →
        it.next B F o.s o.cmp o.pairs = it.next B noFaults o.s o.cmp o.pairs := by
  intro found
  have hstart := @atOrAfter_eq w h o minKeys B ho
  have hsorted : SortedBy o.s.dbKeycmp (atOrAfter B o minKeys) := by
    rw [hstart]
    exact List.Pairwise.sublist List.filter_sublist ho.sorted
  refine ⟨fun n => ?_, ?_, ?_, ?_⟩
  · have hfound : found = matching o.s minKeys maxKeys o.pairs := by
      simp only [found, hstart, matching, List.filter_filter]
      congr 1
      funext p
      exact Bool.and_comm _ _
    rw [hfound]
    exact query_eq B ho tx hmin hmax n
  · exact records_ascending (List.Pairwise.sublist List.filter_sublist hsorted)
  · -- behind a pair above the maximum in attribute 0 every pair is above it in attribute 0
    intro front p back hsplit hstop q hq
    have hrising := rising_stops hmax hsorted
    rw [hsplit] at hrising
    have hbehind := (List.pairwise_cons.mp (List.pairwise_append.mp hrising).2.1).1
    rcases List.mem_cons.mp hq with rfl | hq
    · exact keeps_of_stops _ hstop
    · exact keeps_of_stops q (hbehind q hq hstop)
  · intro F it hF
    rw [ho.cmp]
    exact Iterator.next_congr B ho.sorted hF it

/-- Of three records the first is before the start and the last is above the maximum. -/
theorem range_walk_filters_at :
    (single [.kShort] [shortPair 1 [7], shortPair 2 [8], shortPair 4 [9]]).query .plain none 1
        (shortKey 2) (shortKey 3) 2 =
      ([recordOf (IndexStructure.new [.kShort]) (shortPair 2 [8])], some .kErrorNotFound) := by
  have ho : (single [.kShort] [shortPair 1 [7], shortPair 2 [8], shortPair 4 [9]]).Open 1
      (singleOpened [.kShort] [shortPair 1 [7], shortPair 2 [8], shortPair 4 [9]]) :=
    single_open (by decide)
  have hwalk := (range_walk_filters .plain ho none (shortKey_fullySet 2).typed
    (shortKey_fullySet 3).typed).1 2
  rw [hwalk]
  decide +kernel

/-! ### When it is what the documentation of partial matches promises -/

/-- DIVERGES: everything a query returns is in range if and only if no stored record that is within the
    maximum overtakes the minimum. -/
theorem range_sound_iff (B : BerkeleyDB) (ho : w.Open h o) (tx : Option TxnPtr)
    (hmin : minKeys.Typed o.s.type) (hmax : maxKeys.Typed o.s.type) :
    (∀ n, ∀ r ∈ (w.query B tx h minKeys maxKeys n).1, Key.InRange minKeys maxKeys r.key) ↔
      ∀ p ∈ o.pairs, (o.s.getKey p.1).Below maxKeys → ¬Overtakes o.s minKeys p := by
  have hlen : maxKeys.length = o.s.type.length := hmax.length_eq.symm
  constructor
  · intro hsound p hp hbelow hover
    obtain ⟨hstarted, hnot⟩ := (overtakes_iff hmin).mp hover
    have hmem : recordOf o.s p ∈ (matching o.s minKeys maxKeys o.pairs).map (recordOf o.s) :=
      List.mem_map_of_mem ((mem_matching hlen).mpr ⟨hp, hstarted, hbelow⟩)
    let n := ((matching o.s minKeys maxKeys o.pairs).map (recordOf o.s)).length
    refine hnot (hsound n (recordOf o.s p) ?_).1
    rw [query_eq B ho tx hmin hmax, upTo_length]
    exact hmem
  · intro hcond n r hr
    rw [query_eq B ho tx hmin hmax] at hr
    obtain ⟨p, hp, rfl⟩ := List.mem_map.mp (mem_upTo hr)
    obtain ⟨hmem, hstarted, hbelow⟩ := (mem_matching hlen).mp hp
    refine ⟨?_, hbelow⟩
    by_contra hnot
    exact hcond p hmem hbelow ((overtakes_iff hmin).mpr ⟨hstarted, hnot⟩)

/-- Everything in range is returned as often as it is stored, before the first kErrorNotFound. -/
def Complete (B : BerkeleyDB) (w : World) (tx : Option TxnPtr) (h : IndexPtr) (o : Opened)
    (minKeys maxKeys : Key) : Prop :=
  ∃ n, (w.query B tx h minKeys maxKeys n).2 = some .kErrorNotFound ∧
    ∀ r : Record, Key.InRange minKeys maxKeys r.key →
      (w.query B tx h minKeys maxKeys n).1.count r = (o.pairs.map (recordOf o.s)).count r

/-- A filter loses copies of `f p` if it drops `p`. -/
theorem count_filter_lt {α β : Type} [DecidableEq β] (f : α → β) (q : α → Bool) {l : List α} {x : α}
    (hx : x ∈ l) (hq : q x = false) : ((l.filter q).map f).count (f x) < (l.map f).count (f x) := by
  obtain ⟨front, back, rfl⟩ := List.append_of_mem hx
  have hle : ∀ l : List α, ((l.filter q).map f).count (f x) ≤ (l.map f).count (f x) := fun l =>
    (List.filter_sublist.map f).count_le (f x)
  have hfront := hle front
  have hback := hle back
  rw [List.filter_append, List.filter_cons_of_neg (by simp [hq])]
  simp only [List.map_append, List.map_cons, List.count_append, List.count_cons_self]
  omega

/-- DIVERGES: a query returns everything that is in range if and only if no stored record in range is
    hidden by a NULL varchar of the minimum. -/
theorem range_complete_iff (B : BerkeleyDB) (ho : w.Open h o) (tx : Option TxnPtr)
    (hmin : minKeys.Typed o.s.type) (hmax : maxKeys.Typed o.s.type) :
    Complete B w tx h o minKeys maxKeys ↔
      ∀ p ∈ o.pairs, Key.InRange minKeys maxKeys (o.s.getKey p.1) → ¬Hidden o.s minKeys p := by
  have hlen : maxKeys.length = o.s.type.length := hmax.length_eq.symm
  have hselect : ∀ p : Pair, Key.InRange minKeys maxKeys (o.s.getKey p.1) →
      ((started o.s minKeys p && keeps o.s maxKeys p) = false ↔ Hidden o.s minKeys p) := by
    intro p hp
    rw [hidden_iff hmin hp.1, (keeps_iff hlen).mpr hp.2, Bool.and_true]
  constructor
  · rintro ⟨n, hend, hcount⟩ p hp hrange hhidden
    rw [query_eq B ho tx hmin hmax] at hend hcount
    rw [upTo_of_end hend] at hcount
    have hlost := count_filter_lt (recordOf o.s)
      (fun p => started o.s minKeys p && keeps o.s maxKeys p) hp ((hselect p hrange).mpr hhidden)
    exact hlost.ne (hcount (recordOf o.s p) hrange)
  · intro hcond
    let n := ((matching o.s minKeys maxKeys o.pairs).map (recordOf o.s)).length
    have hquery := query_eq B ho tx hmin hmax (n + 1)
    rw [upTo_beyond (Nat.lt_succ_self n)] at hquery
    refine ⟨n + 1, by rw [hquery], fun r hr => ?_⟩
    rw [hquery, List.count_eq_countP, List.count_eq_countP, List.countP_map, List.countP_map,
      matching, List.countP_filter]
    refine List.countP_congr fun p hp => ?_
    simp only [Function.comp_apply, beq_iff_eq, Bool.and_eq_true, and_iff_left_iff_imp]
    rintro rfl
    have hselected := (not_congr (hselect p hr)).mpr (hcond p hp hr)
    rw [Bool.not_eq_false, Bool.and_eq_true] at hselected
    exact hselected

/-- The partial match (-, 5) returns the record (1, 3). -/
theorem partial_match_returns_other :
    ¬∀ n, ∀ r ∈ ((single [.kShort, .kShort] [(leBytes 4 1 ++ leBytes 4 3, [7])]).query .plain none 1
      (none :: shortKey 5) (none :: shortKey 5) n).1,
      Key.InRange (none :: shortKey 5) (none :: shortKey 5) r.key := by
  intro hall
  have hreturned : recordOf (singleOpened [.kShort, .kShort] []).s (leBytes 4 1 ++ leBytes 4 3, [7]) ∈
      ((single [.kShort, .kShort] [(leBytes 4 1 ++ leBytes 4 3, [7])]).query .plain none 1
        (none :: shortKey 5) (none :: shortKey 5) 1).1 := by
    decide +kernel
  have hrange := hall 1 _ hreturned
  exact hrange.1 1 _ _ rfl rfl (by decide)

/-- Bounds are compared attribute by attribute. -/
instance Key.decidableBelow : (a b : Key) → Decidable (a.Below b)
  | [], b => isTrue (Key.below_nil b)
  | _ :: _, [] => isTrue (by simp [Key.Below])
  | x :: a, y :: b =>
    have := Key.decidableBelow a b
    decidable_of_iff ((∀ u ∈ x, ∀ v ∈ y, attcmp u v ≠ .gt) ∧ Key.Below a b) <| by
      rw [Key.below_cons]
      simp only [Option.mem_def]
      exact and_congr_left' ⟨fun h u v hu hv => h u hu v hv, fun h u hu v hv => h u v hu hv⟩

/-- The records (1, 7), (2, 12) and (3, 5). -/
def threeRows : List Pair :=
  [(leBytes 4 1 ++ leBytes 4 7, [7]), (leBytes 4 2 ++ leBytes 4 12, [8]),
    (leBytes 4 3 ++ leBytes 4 5, [9])]

/-- With a wildcard in the first column every record is visited, and none of those within the maximum
    is below 5 in the second. -/
theorem range_sound_at :
    ((single [.kShort, .kShort] threeRows).query .plain none 1 (none :: shortKey 5)
        (none :: shortKey 9) 2).1.length = 2 ∧
      ∀ n, ∀ r ∈ ((single [.kShort, .kShort] threeRows).query .plain none 1 (none :: shortKey 5)
        (none :: shortKey 9) n).1, Key.InRange (none :: shortKey 5) (none :: shortKey 9) r.key := by
  have ho : (single [.kShort, .kShort] threeRows).Open 1
      (singleOpened [.kShort, .kShort] threeRows) := single_open (by decide)
  have htyped : ∀ v, Key.Typed [.kShort, .kShort] (none :: shortKey v) := fun v =>
    .cons (by simp) (shortKey_fullySet v).typed
  have hnot : ∀ p ∈ threeRows,
      ((singleOpened [.kShort, .kShort] threeRows).s.getKey p.1).Below (none :: shortKey 9) →
      Key.Below (none :: shortKey 5)
        ((singleOpened [.kShort, .kShort] threeRows).s.getKey p.1) := by decide
  refine ⟨by decide, (range_sound_iff .plain ho none (htyped 5) (htyped 9)).mpr ?_⟩
  exact fun p hp hbelow hover => ((overtakes_iff (htyped 5)).mp hover).2 (hnot p hp hbelow)

/-- A stored pair whose only column is the string "a". -/
def lowPair : Pair := (97 :: List.replicate MAX_VARCHAR_LENGTH 0, [7])

/-- The record "a" is not found by the query (-), although everything is in its range. -/
theorem wildcard_loses_record :
    ¬Complete .plain (single [.kVarchar] [lowPair]) none 1 (singleOpened [.kVarchar] [lowPair])
      [none] [none] := by
  rintro ⟨n, hend, hcount⟩
  have ho : (single [.kVarchar] [lowPair]).Open 1 (singleOpened [.kVarchar] [lowPair]) :=
    single_open (List.pairwise_singleton ..)
  have hwild : Key.Typed [.kVarchar] [none] := .cons (by simp) .nil
  have hnone : ∀ (i : Nat) (a : Attribute), ([none] : Key)[i]? ≠ some (some a) := by
    intro i a hi
    cases i with
    | zero => cases hi
    | succ i => cases hi
  have hempty : matching (singleOpened [.kVarchar] [lowPair]).s [none] [none]
      (singleOpened [.kVarchar] [lowPair]).pairs = [] := by decide +kernel
  have hlost := hcount (recordOf (singleOpened [.kVarchar] [lowPair]).s lowPair)
    ⟨fun i _ _ hi _ => absurd hi (hnone i _), fun i _ _ _ hi => absurd hi (hnone i _)⟩
  rw [query_eq .plain ho none hwild hwild] at hend hlost
  have hfound : ((singleOpened [.kVarchar] [lowPair]).pairs.map
      (recordOf (singleOpened [.kVarchar] [lowPair]).s)).count
        (recordOf (singleOpened [.kVarchar] [lowPair]).s lowPair) = 1 := List.count_singleton_self
  rw [upTo_of_end hend, hempty, List.map_nil, List.count_nil, hfound] at hlost
  contradiction

/-- The record (2, "a"). -/
def behindLow : Pair := (leBytes 4 2 ++ lowPair.1, [7])

/-- The string of the record (2, "a") is below the one for NULL, but the range (1, -) to (3, -) starts
    before it. -/
theorem range_complete_at :
    Complete .plain (single [.kShort, .kVarchar] [behindLow]) none 1
      (singleOpened [.kShort, .kVarchar] [behindLow]) (shortKey 1 ++ [none]) (shortKey 3 ++ [none]) := by
  have ho : (single [.kShort, .kVarchar] [behindLow]).Open 1
      (singleOpened [.kShort, .kVarchar] [behindLow]) := single_open (List.pairwise_singleton ..)
  have htyped : ∀ v, Key.Typed [.kShort, .kVarchar] (shortKey v ++ [none]) := fun v =>
    .cons (by simp [Attribute.ofBytes]) (.cons (by simp) .nil)
  refine (range_complete_iff .plain ho none (htyped 1) (htyped 3)).mpr ?_
  rintro p hp - ⟨j, c, htype, -, hsame, -⟩
  obtain rfl := List.mem_singleton.mp hp
  -- only the second column has strings, and the first one differs from the start
  rcases j with _ | _ | j
  · cases htype
  · exact absurd hsame (by decide)
  · cases htype

end Query

end Contest
