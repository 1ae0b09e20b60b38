import ContestIndex.Model.Session
import ContestIndex.Results.Calls

/-! @src example/Iterator.cc | name:What a range query returns | layer:specification

    `GetRecords` and the `GetNext` calls on its iterator, up to the first kErrorNotFound, walk the pairs
    from the first one that is not below the encoded minimum key. They skip what exceeds the maximum
    key in some attribute and stop at the first pair that exceeds it in attribute 0. Because the
    pairs are in order, the walk finds what a filter finds (`query_eq`).

        pairs  ── below start ──┬── kept, skipped, kept, … ──┬── attribute 0 above max ──
                                ^ DB_SET_RANGE               ^ end_ -/

namespace Contest
open Schemes World

/-! ### Bounds -/

/-- Wherever both keys have an attribute, that of the first is not above that of the second. -/
def Key.Below (a b : Key) : Prop :=
  ∀ (i : Nat) (x y : Attribute), a[i]? = some (some x) → b[i]? = some (some y) → attcmp x y ≠ .gt

theorem Key.below_nil (b : Key) : Key.Below [] b := by simp [Key.Below]

theorem Key.below_cons {a b : Key} {x y : Option Attribute} :
    Key.Below (x :: a) (y :: b) ↔
      (∀ u v, x = some u → y = some v → attcmp u v ≠ .gt) ∧ Key.Below a b := by
  constructor
  · intro h
    exact ⟨fun u v hx hy => h 0 u v (by simp [hx]) (by simp [hy]),
      fun i u v hu hv => h (i + 1) u v (by simpa using hu) (by simpa using hv)⟩
  · rintro ⟨hhead, htail⟩ i u v hu hv
    cases i with
    | zero => exact hhead u v (by simpa using hu) (by simpa using hv)
    | succ i => exact htail i u v (by simpa using hu) (by simpa using hv)

/-- One round of the loop of `CheckBounds`. -/
theorem checkBoundsLoop_cons (i : Nat) (x y : Option Attribute) (a b : Key) :
    ((∃ u v, x = some u ∧ y = some v ∧ attcmp u v = .gt) ∧
        checkBoundsLoop i (x :: a) (y :: b) = .exceeded i) ∨
      ((∀ u v, x = some u → y = some v → attcmp u v ≠ .gt) ∧
        checkBoundsLoop i (x :: a) (y :: b) = checkBoundsLoop (i + 1) a b) := by
  cases x with
  | none => exact Or.inr ⟨by simp, by simp [checkBoundsLoop]⟩
  | some u =>
    cases y with
    | none => exact Or.inr ⟨by simp, by simp [checkBoundsLoop]⟩
    | some v =>
      by_cases hgt : attcmp u v = .gt
      · exact Or.inl ⟨⟨u, v, rfl, rfl, hgt⟩, by simp [checkBoundsLoop, hgt]⟩
      · refine Or.inr ⟨?_, by simp [checkBoundsLoop, hgt]⟩
        rintro u' v' ⟨⟩ ⟨⟩
        exact hgt

theorem le_of_checkBoundsLoop : ∀ {i k : Nat} {a b : Key},
    checkBoundsLoop i a b = .exceeded k → i ≤ k
  | _, _, [], _, h => by simp [checkBoundsLoop] at h
  | _, _, _ :: _, [], h => by simp [checkBoundsLoop] at h
  | i, k, x :: a, y :: b, h => by
    rcases checkBoundsLoop_cons i x y a b with ⟨-, heq⟩ | ⟨-, heq⟩
    · rw [heq, Bounds.exceeded.injEq] at h
      exact h.le
    · rw [heq] at h
      exact (Nat.le_succ i).trans (le_of_checkBoundsLoop h)

/-- CORRECT (`CheckBounds`): a key is within its bound if no attribute is above it. -/
theorem checkBoundsLoop_within : ∀ {i : Nat} {a b : Key},
    checkBoundsLoop i a b = .within ↔ Key.Below a b
  | _, [], b => iff_of_true (by simp [checkBoundsLoop]) (Key.below_nil b)
  | _, _ :: _, [] => by simp [checkBoundsLoop, Key.Below]
  | i, x :: a, y :: b => by
    rw [Key.below_cons]
    rcases checkBoundsLoop_cons i x y a b with ⟨⟨u, v, hx, hy, hgt⟩, heq⟩ | ⟨hle, heq⟩
    · simp only [heq, reduceCtorEq, false_iff, not_and]
      exact fun h => absurd hgt (h u v hx hy)
    · rw [heq, checkBoundsLoop_within, and_iff_right hle]

/-- It is reported to exceed it at attribute 0 if that attribute is above it. -/
theorem checkBoundsLoop_exceeded_zero {a b : Key} :
    checkBoundsLoop 0 a b = .exceeded 0 ↔
      ∃ u v, a.head? = some (some u) ∧ b.head? = some (some v) ∧ attcmp u v = .gt := by
  cases a with
  | nil => simp [checkBoundsLoop]
  | cons x a =>
    cases b with
    | nil => simp [checkBoundsLoop]
    | cons y b =>
      rcases checkBoundsLoop_cons 0 x y a b with ⟨hgt, heq⟩ | ⟨hle, heq⟩
      · exact iff_of_true heq (by simpa using hgt)
      · refine iff_of_false (fun hc => ?_) ?_
        · rw [heq] at hc
          exact absurd (le_of_checkBoundsLoop hc) (by omega)
        · rintro ⟨u, v, hx, hy, hgt⟩
          exact hle u v (by simpa using hx) (by simpa using hy) hgt

section Bounds
variable {s : IndexStructure} {minKeys maxKeys : Key} {pairs : List Pair}

/-- The pair is returned if the walk reaches it. -/
def keeps (s : IndexStructure) (maxKeys : Key) (p : Pair) : Bool :=
  checkBounds (s.getKey p.1) maxKeys == some .within

/-- The walk stops at the pair. -/
def stops (s : IndexStructure) (maxKeys : Key) (p : Pair) : Bool :=
  checkBounds (s.getKey p.1) maxKeys == some (.exceeded 0)

/-- The pair is not below the encoded minimum key. -/
def started (s : IndexStructure) (minKeys : Key) (p : Pair) : Bool :=
  s.dbKeycmp p.1 (s.getBDBKey minKeys false) != .lt

theorem length_getKey (bdbKey : Bytes) : (s.getKey bdbKey).length = s.type.length := by
  simp [IndexStructure.getKey, Key.ofAttributes, length_attributesOf]

theorem checkBounds_getKey (hlen : maxKeys.length = s.type.length) (bdbKey : Bytes) :
    checkBounds (s.getKey bdbKey) maxKeys = some (checkBoundsLoop 0 (s.getKey bdbKey) maxKeys) := by
  rw [checkBounds, length_getKey, hlen, if_pos rfl]

theorem keeps_iff (hlen : maxKeys.length = s.type.length) {p : Pair} :
    keeps s maxKeys p = true ↔ (s.getKey p.1).Below maxKeys := by
  rw [keeps, checkBounds_getKey hlen, ← @checkBoundsLoop_within 0]
  simp

/-- A kept pair is not one to stop at. -/
theorem keeps_of_stops (p : Pair) (h : stops s maxKeys p = true) : keeps s maxKeys p = false := by
  simp only [stops, beq_iff_eq] at h
  simp [keeps, h]

/-- A stored key in attribute 0, compared by values. -/
theorem stops_iff (hmax : maxKeys.Typed s.type) {p : Pair} :
    stops s maxKeys p = true ↔ ∃ x v, (s.keyValues p.1).head? = some x ∧
      maxKeys.head? = some (some v) ∧ compare x v.value = .gt := by
  have hlen : maxKeys.length = s.type.length := hmax.length_eq.symm
  rw [stops, checkBounds_getKey hlen, beq_iff_eq, Option.some.injEq, checkBoundsLoop_exceeded_zero]
  simp only [IndexStructure.getKey, IndexStructure.keyValues]
  unfold Key.Typed at hmax
  generalize s.type = types at hmax ⊢
  cases hmax with
  | nil => simp [Key.ofAttributes, attributesOf]
  | cons hhead htail =>
    next t o ts os =>
    simp only [attributesOf, Key.ofAttributes, values, List.map_cons, List.head?_cons,
      Option.some.injEq, exists_and_left, exists_eq_left']
    have hcmp : ∀ v ∈ o, attcmp (Attribute.ofBytes t (p.1.take t.size)) v =
        compare (Attribute.ofBytes t (p.1.take t.size)).value v.value := fun v hv =>
      attcmp_eq_compare (by rw [Attribute.ofBytes_type, hhead v hv])
    constructor
    · rintro ⟨v, hv, hgt⟩
      exact ⟨v, hv, by rw [← hcmp v hv]; exact hgt⟩
    · rintro ⟨v, hv, hgt⟩
      exact ⟨v, hv, by rw [hcmp v hv]; exact hgt⟩

/-- In order, attribute 0 never falls. -/
theorem head_le {l m : List AttrValue} {x y : AttrValue} (h : (compare l m).isLE)
    (hx : l.head? = some x) (hy : m.head? = some y) : (compare x y).isLE := by
  cases l with
  | nil => simp at hx
  | cons a l =>
    cases m with
    | nil => simp at hy
    | cons b m =>
      obtain rfl : a = x := by simpa using hx
      obtain rfl : b = y := by simpa using hy
      rw [List.compare_cons_cons] at h
      cases hab : compare a b with
      | gt => simp [hab] at h
      | lt => rfl
      | eq => rfl

theorem rising_stops (hmax : maxKeys.Typed s.type) (hs : SortedBy s.dbKeycmp pairs) :
    Rising (stops s maxKeys) pairs := by
  refine List.Pairwise.imp (fun {p q} hpq hp => ?_) hs
  rw [IndexStructure.dbKeycmp_eq] at hpq
  obtain ⟨x, v, hx, hv, hgt⟩ := (stops_iff hmax).mp hp
  have hlen : (s.keyValues p.1).length = (s.keyValues q.1).length := by
    simp [IndexStructure.keyValues, values, length_attributesOf]
  obtain ⟨y, hy⟩ : ∃ y, (s.keyValues q.1).head? = some y := by
    cases hq : s.keyValues q.1 with
    | nil =>
      rw [hq] at hlen
      rw [List.eq_nil_of_length_eq_zero hlen] at hx
      contradiction
    | cons y l => exact ⟨y, rfl⟩
  have hxy := head_le hpq hx hy
  have hlt : compare v.value y = .lt :=
    Std.TransCmp.lt_of_lt_of_isLE (Std.OrientedCmp.lt_of_gt hgt) hxy
  exact (stops_iff hmax).mpr ⟨y, v, hy, hv, Std.OrientedCmp.gt_of_lt hlt⟩

theorem rising_started (hs : SortedBy s.dbKeycmp pairs) : Rising (started s minKeys) pairs := by
  refine List.Pairwise.imp (fun {p q} hpq hp => ?_) hs
  simp only [started, bne_iff_ne, ne_eq] at hp ⊢
  intro hlt
  exact hp (Std.TransCmp.lt_of_isLE_of_lt hpq hlt)

/-- The pairs that the query returns. -/
def matching (s : IndexStructure) (minKeys maxKeys : Key) (pairs : List Pair) : List Pair :=
  pairs.filter fun p => started s minKeys p && keeps s maxKeys p

/-- From the first pair that is not below the minimum key on, the walk finds all of them. -/
theorem scan_started (hmax : maxKeys.Typed s.type) (hs : SortedBy s.dbKeycmp pairs) :
    scan (keeps s maxKeys) (stops s maxKeys) (pairs.filter (started s minKeys)) =
      matching s minKeys maxKeys pairs := by
  have hrising : Rising (stops s maxKeys) (pairs.filter (started s minKeys)) :=
    List.Pairwise.sublist List.filter_sublist (rising_stops hmax hs)
  rw [scan_eq_filter keeps_of_stops hrising, List.filter_filter, matching]
  congr 1
  funext p
  exact Bool.and_comm _ _

end Bounds

/-! ### The iterator -/

/-- Nothing fails but moves of the cursor behind the first `n + 1`. -/
def Faults.OnlyGetsAfter (F : Faults) (n : Nat) : Prop :=
  ∀ site, (∀ m, site = .get m → m ≤ n) → F site = none

theorem Faults.OnlyGetsAfter.get {F : Faults} {n m : Nat} (hF : F.OnlyGetsAfter n)
    (hm : m ≤ n) :
    F (.get m) = none := hF (.get m) (by rintro l ⟨⟩; exact hm)

theorem Faults.OnlyGetsAfter.close {F : Faults} {n : Nat} (hF : F.OnlyGetsAfter n) :
    F.thrown .cursorClose = none := by
  have hsite : F .cursorClose = none := hF .cursorClose (by simp)
  simp [Faults.thrown, hsite]

namespace Iterator
variable {s : IndexStructure} {maxKeys : Key} {pairs : List Pair}

/-- The iterator has ended and its cursor is closed. -/
def endedAt (it : Iterator) (i : Nat) (p : Pair) : Iterator :=
  { it.moveTo i p with ended := true, cursor := none }

/-- What the loop does with the pair `p`. -/
theorem onPair_moveTo (hlen : maxKeys.length = s.type.length) {it : Iterator}
    (hmax : it.maxKey = maxKeys) (i n : Nat) (p : Pair) (more : Outcome Bool × Iterator) :
    (it.moveTo i p).onPair noFaults s n more =
      if stops s maxKeys p then (.ret true, it.endedAt i p)
      else if keeps s maxKeys p then (.ret true, it.moveTo i p)
      else more := by
  have hbounds : checkBounds (s.getKey (it.moveTo i p).key) (it.moveTo i p).maxKey =
      some (checkBoundsLoop 0 (s.getKey p.1) maxKeys) := by
    rw [← hmax] at hlen ⊢
    exact checkBounds_getKey hlen p.1
  simp only [onPair, hbounds, stops, keeps, checkBounds_getKey hlen]
  cases checkBoundsLoop 0 (s.getKey p.1) maxKeys with
  | within => rfl
  | exceeded index =>
    cases index with
    | zero => rfl
    | succ index => simp [noFaults]

/-- The loop of `Next`, standing on `p`, finds the next kept pair or ends. -/
theorem nextLoop_scanNext (hlen : maxKeys.length = s.type.length) :
    ∀ {rest : List Pair} {n i : Nat} {p : Pair} {it : Iterator}, it.maxKey = maxKeys →
      pairs.drop (i + 1) = rest →
      match scanNext (keeps s maxKeys) (stops s maxKeys) (p :: rest) with
      | none => ∃ it', nextLoop noFaults s n i (it.moveTo i p) rest = (.ret true, it') ∧
          it'.ended = true
      | some (q, back) => ∃ j, nextLoop noFaults s n i (it.moveTo i p) rest =
          (.ret true, it.moveTo j q) ∧ pairs.drop (j + 1) = back
  | rest, n, i, p, it, hmax, hdrop => by
    rw [scanNext]
    by_cases hstop : stops s maxKeys p = true
    · cases rest <;> simp [nextLoop, onPair_moveTo hlen hmax, hstop, endedAt]
    · by_cases hkeep : keeps s maxKeys p = true
      · simp only [hstop, hkeep, Bool.false_eq_true, if_false, if_true]
        refine ⟨i, ?_, hdrop⟩
        cases rest <;> simp [nextLoop, onPair_moveTo hlen hmax, hstop, hkeep]
      · simp only [hstop, hkeep, Bool.false_eq_true, if_false]
        cases rest with
        | nil =>
          simp only [nextLoop, onPair_moveTo hlen hmax, hstop, hkeep, Bool.false_eq_true, if_false]
          exact ⟨_, rfl, rfl⟩
        | cons q rest =>
          -- the loop goes on as if it had stood on the next pair from the start
          simp only [nextLoop, onPair_moveTo hlen hmax, hstop, hkeep, Bool.false_eq_true, if_false]
          have hdrop' : pairs.drop (i + 1 + 1) = rest := by
            rw [← List.drop_drop, hdrop, List.drop_one, List.tail_cons]
          exact nextLoop_scanNext hlen hmax hdrop'

/-- The iterator is open and the pairs that it has not visited are `rest`. -/
structure Stands (o : Opened) (minKeys maxKeys : Key) (it : Iterator) (rest : List Pair) : Prop where
  closed : it.closed = false
  ended : it.ended = false
  maxKey : it.maxKey = maxKeys
  position :
    (it.initialized = false ∧ it.cursor = some none ∧ it.key = o.s.getBDBKey minKeys false ∧
        rest = o.pairs.filter (started o.s minKeys)) ∨
      ∃ i, it.initialized = true ∧ it.cursor = some (some i) ∧ rest = o.pairs.drop i

variable {o : Opened} {minKeys : Key} {it : Iterator} {rest : List Pair}

theorem moveTo_stands (hit : Stands o minKeys maxKeys it rest) (j : Nat) (q : Pair) :
    Stands o minKeys maxKeys ({ it with initialized := true }.moveTo j q) (o.pairs.drop (j + 1)) :=
  ⟨hit.closed, hit.ended, hit.maxKey, Or.inr ⟨j + 1, rfl, rfl, rfl⟩⟩

/-- What a call of `Next` may do when the pairs that it has not visited are `rest`. -/
def Steps (o : Opened) (minKeys maxKeys : Key) (it : Iterator) (rest : List Pair)
    (result : Outcome Bool × Iterator) : Prop :=
  match scanNext (keeps o.s maxKeys) (stops o.s maxKeys) rest with
  | none => ∃ it', result = (.ret true, it') ∧ it'.ended = true
  | some (q, back) => ∃ it', result = (.ret true, it') ∧ it'.key = q.1 ∧ it'.value = q.2 ∧
      it'.index = it.index ∧ Stands o minKeys maxKeys it' back

theorem nextLoop_steps (hlen : maxKeys.length = o.s.type.length)
    (hit : Stands o minKeys maxKeys it rest) {n i : Nat} {p : Pair} {back : List Pair}
    (hdrop : o.pairs.drop (i + 1) = back) :
    Steps o minKeys maxKeys it (p :: back)
      (nextLoop noFaults o.s n i ({ it with initialized := true }.moveTo i p) back) := by
  have hloop := @nextLoop_scanNext o.s maxKeys o.pairs hlen back n i p { it with initialized := true }
    hit.maxKey hdrop
  unfold Steps
  cases hscan : scanNext (keeps o.s maxKeys) (stops o.s maxKeys) (p :: back) with
  | none =>
    rw [hscan] at hloop
    exact hloop
  | some found =>
    rw [hscan] at hloop
    obtain ⟨j, hresult, hback⟩ := hloop
    exact ⟨_, hresult, rfl, rfl, rfl, hback ▸ moveTo_stands hit j found.1⟩

/-- STEP (`Iterator::Next`): the next kept pair, or the end. -/
theorem next_steps (B : BerkeleyDB) (hlen : maxKeys.length = o.s.type.length)
    (hs : SortedBy o.s.dbKeycmp o.pairs) (hit : Stands o minKeys maxKeys it rest) :
    Steps o minKeys maxKeys it rest (it.next B noFaults o.s o.s.dbKeycmp o.pairs) := by
  rcases hit.position with ⟨hinit, hcursor, hkey, hrest⟩ | ⟨i, hinit, hcursor, hrest⟩
  · have hrange := B.setRange_first it.key hs
    simp only [next, hcursor, noFaults, hinit, Bool.false_eq_true, if_false, hrange]
    have hstarted : (fun p : Pair => o.s.dbKeycmp p.1 it.key != .lt) = started o.s minKeys := by
      rw [hkey]; rfl
    rw [hstarted]
    cases hc : Cursor.first (started o.s minKeys) o.pairs with
    | none =>
      have hnil : rest = [] := by
        rw [hrest, List.filter_eq_nil_iff]
        simpa using Cursor.first_eq_none.mp hc
      subst hnil
      simp only [Steps, scanNext, fetchFailed, setEnded, closeCursor, noFaults_thrown, if_true]
      exact ⟨_, rfl, rfl⟩
    | some c =>
      obtain ⟨-, hsplit, -, -⟩ := Cursor.first_eq_some hc
      rw [(rising_started hs).filter_of_first hc] at hrest
      subst hrest
      have hdrop : o.pairs.drop (c.before.length + 1) = c.after := by
        rw [hsplit, ← List.drop_drop, List.drop_left, List.drop_one, List.tail_cons]
      exact nextLoop_steps hlen hit hdrop
  · have hsame : { it with initialized := true } = it := by rw [← hinit]
    simp only [next, hcursor, noFaults, hinit, if_true, ← hrest]
    cases rest with
    | nil =>
      simp only [Steps, scanNext, fetchFailed, setEnded, closeCursor, hcursor, noFaults_thrown, if_true]
      exact ⟨_, rfl, rfl⟩
    | cons p back =>
      have hdrop : o.pairs.drop (i + 1) = back := by
        rw [← List.drop_drop, ← hrest, List.drop_one, List.tail_cons]
      have hsteps := @nextLoop_steps maxKeys o minKeys it _ hlen hit 1 i p back hdrop
      rw [hsame] at hsteps
      exact hsteps

/-! ### How often a call of `Next` moves the cursor -/

section Gets
variable {F : Faults} {k : Nat}

theorem closeCursor_congr (hF : F.thrown .cursorClose = none) (it : Iterator) :
    it.closeCursor F = it.closeCursor noFaults := by
  unfold closeCursor
  rw [hF, noFaults_thrown]

theorem fetchFailed_congr (hF : F.thrown .cursorClose = none) (err : DbError) (it : Iterator) :
    it.fetchFailed F err = it.fetchFailed noFaults err := by
  simp only [fetchFailed, setEnded, close, closeCursor_congr hF]

/-- The loop, entered with the `n`-th move, makes at most one move for each pair and one more. -/
theorem nextLoop_congr (hF : F.OnlyGetsAfter k) (rest : List Pair) :
    ∀ {n i : Nat} {it : Iterator}, n + rest.length ≤ k →
      nextLoop F s n i it rest = nextLoop noFaults s n i it rest := by
  have hpair : ∀ {m : Nat} (it : Iterator) (more : Outcome Bool × Iterator), m ≤ k →
      it.onPair F s m more = it.onPair noFaults s m more := by
    intro m it more hm
    simp only [onPair, setEnded, closeCursor_congr hF.close, hF.get hm]
    rfl
  induction rest with
  | nil =>
    intro n i it hle
    rw [nextLoop, nextLoop, fetchFailed_congr hF.close]
    exact hpair it _ hle
  | cons p rest ih =>
    intro n i it hle
    rw [List.length_cons] at hle
    rw [nextLoop, nextLoop, ih (by omega)]
    exact hpair it _ (by omega)

/-- STEP (`Iterator::Next` terminates): it moves the cursor at most once more than there are pairs. -/
theorem next_congr (B : BerkeleyDB) (hs : SortedBy s.dbKeycmp pairs)
    (hF : F.OnlyGetsAfter pairs.length) (it : Iterator) :
    it.next B F s s.dbKeycmp pairs = it.next B noFaults s s.dbKeycmp pairs := by
  unfold next
  rcases it.cursor with _ | position
  · rfl
  · simp only [hF.get (Nat.zero_le _), fetchFailed_congr hF.close, B.setRange_first it.key hs]
    have hdrop : ∀ {i : Nat} {p : Pair} {rest : List Pair}, pairs.drop i = p :: rest →
        1 + rest.length ≤ pairs.length := by
      intro i p rest hi
      have hlen := congrArg List.length hi
      rw [List.length_drop, List.length_cons] at hlen
      omega
    split
    · split
      · rfl
      · next hi => exact nextLoop_congr hF _ (hdrop hi)
    · split
      · rfl
      · next c hc =>
        obtain ⟨-, hsplit, -, -⟩ := Cursor.first_eq_some hc
        refine nextLoop_congr hF _ ?_
        rw [hsplit, List.length_append, List.length_cons]
        omega

end Gets

end Iterator

/-! ### The calls -/

namespace World
variable {w : World} {h : IndexPtr} {o : Opened} {minKeys maxKeys : Key}

/-- The records that at most `n` calls of `GetNext` return, up to the first one that does not answer
    kOk, and the last answer. -/
def drain (B : BerkeleyDB) (i : IteratorPtr) : Nat → World → List Record × Answer
  | 0, _ => ([], some .kOk)
  | n + 1, w =>
    match w.getNext B noFaults (some i) with
    | (some .kOk, some (some record), w) =>
      (record :: (drain B i n w).1, (drain B i n w).2)
    | (answer, _, _) => ([], answer)

/-- `GetRecords` and at most `n` calls of `GetNext`. -/
def query (B : BerkeleyDB) (w : World) (tx : Option TxnPtr) (h : IndexPtr) (minKeys maxKeys : Key)
    (n : Nat) : List Record × Answer :=
  match w.getRecords noFaults tx (some h) minKeys maxKeys (some none) with
  | (some .kOk, some (some i), w) => drain B i n w
  | (answer, _, _) => ([], answer)

/-- The record that a pair stands for. -/
def recordOf (s : IndexStructure) (p : Pair) : Record := { key := s.getKey p.1, payload := p.2 }

/-- A call of `GetNext` on an iterator that stands somewhere. -/
theorem getNext_steps (B : BerkeleyDB) {i : IteratorPtr} {it : Iterator} {rest : List Pair}
    (ho : w.Open it.index o) (hlen : maxKeys.length = o.s.type.length)
    (hi : w.iterators i = some it) (hit : it.Stands o minKeys maxKeys rest) :
    match scanNext (keeps o.s maxKeys) (stops o.s maxKeys) rest with
    | none => ∃ it', w.getNext B noFaults (some i) = (some .kErrorNotFound, some none,
        w.setIterator i it')
    | some (q, back) => ∃ it', w.getNext B noFaults (some i) =
          (some .kOk, some (some (recordOf o.s q)), w.setIterator i it') ∧
        it'.index = it.index ∧ it'.Stands o minKeys maxKeys back := by
  have hsteps := Iterator.next_steps B hlen ho.sorted hit
  unfold Iterator.Steps at hsteps
  cases hscan : scanNext (keeps o.s maxKeys) (stops o.s maxKeys) rest with
  | none =>
    rw [hscan] at hsteps
    obtain ⟨it', hnext, hended⟩ := hsteps
    exact ⟨it', by simp [getNext, hi, hit.closed, ho.opened, ho.cmp, hnext, hended]⟩
  | some found =>
    rw [hscan] at hsteps
    obtain ⟨it', hnext, hkey, hvalue, hindex, hstands⟩ := hsteps
    refine ⟨it', ?_, hindex, hstands⟩
    simp [getNext, hi, hit.closed, ho.opened, ho.cmp, hnext, hstands.ended, Iterator.record, hkey,
      hvalue, recordOf]

/-- The first `n` of the records, and whether there are fewer. -/
def upTo (n : Nat) (records : List Record) : List Record × Answer :=
  if n ≤ records.length then (records.take n, some .kOk) else (records, some .kErrorNotFound)

theorem upTo_succ_cons (n : Nat) (r : Record) (records : List Record) :
    upTo (n + 1) (r :: records) = (r :: (upTo n records).1, (upTo n records).2) := by
  simp only [upTo, List.length_cons, Nat.succ_le_succ_iff]
  split <;> rfl

theorem upTo_length (records : List Record) : upTo records.length records = (records, some .kOk) := by
  rw [upTo, if_pos (le_refl _), List.take_length]

theorem upTo_beyond {n : Nat} {records : List Record} (h : records.length < n) :
    upTo n records = (records, some .kErrorNotFound) := by
  rw [upTo, if_neg (Nat.not_le.mpr h)]

theorem upTo_of_end {n : Nat} {records : List Record}
    (h : (upTo n records).2 = some .kErrorNotFound) : (upTo n records).1 = records := by
  rcases Nat.lt_or_ge records.length n with hn | hn
  · rw [upTo_beyond hn]
  · rw [upTo, if_pos hn] at h
    simp at h

theorem mem_upTo {n : Nat} {r : Record} {records : List Record} (hr : r ∈ (upTo n records).1) :
    r ∈ records := by
  unfold upTo at hr
  split at hr
  · exact List.mem_of_mem_take hr
  · exact hr

/-- RUN: draining returns what the walk finds. -/
theorem drain_eq (B : BerkeleyDB) (hlen : maxKeys.length = o.s.type.length) {i : IteratorPtr} :
    ∀ {n : Nat} {w : World} {it : Iterator} {rest : List Pair}, w.Open it.index o →
      w.iterators i = some it → it.Stands o minKeys maxKeys rest →
      drain B i n w =
        upTo n ((scan (keeps o.s maxKeys) (stops o.s maxKeys) rest).map (recordOf o.s))
  | 0, _, _, _, _, _, _ => by simp [drain, upTo]
  | n + 1, w, it, rest, ho, hi, hit => by
    have hcall := getNext_steps B ho hlen hi hit
    rw [scan_eq_scanNext, drain]
    cases hscan : scanNext (keeps o.s maxKeys) (stops o.s maxKeys) rest with
    | none =>
      rw [hscan] at hcall
      obtain ⟨it', hnext⟩ := hcall
      rw [hnext]
      simp [upTo]
    | some found =>
      rw [hscan] at hcall
      obtain ⟨it', hnext, hindex, hstands⟩ := hcall
      have ho' : (w.setIterator i it').Open it'.index o := by
        rw [hindex]
        exact ⟨ho.handle, ho.notClosed, ho.db, ho.structure_, ho.found, ho.live, ho.writable, ho.cmp,
          ho.pairs, ho.sorted⟩
      have hrest := @drain_eq B hlen i n (w.setIterator i it') it' found.2 ho'
        (Function.update_self ..) hstands
      rw [hnext, List.map_cons, upTo_succ_cons, ← hrest]

/-- CORRECT (`GetRecords`, `GetNext` when no Berkeley DB call fails): the answers to a query are the
    records of the matching pairs, in stored order, and then kErrorNotFound. -/
theorem query_eq (B : BerkeleyDB) (ho : w.Open h o) (tx : Option TxnPtr)
    (hmin : minKeys.Typed o.s.type) (hmax : maxKeys.Typed o.s.type) (n : Nat) :
    w.query B tx h minKeys maxKeys n =
      upTo n ((matching o.s minKeys maxKeys o.pairs).map (recordOf o.s)) := by
  have hlen : maxKeys.length = o.s.type.length := hmax.length_eq.symm
  have hlen' : minKeys.length = o.s.type.length := hmin.length_eq.symm
  let made := w.newIterator tx h o.s minKeys maxKeys
  have hcall : w.getRecords noFaults tx (some h) minKeys maxKeys (some none) =
      (some .kOk, some (some made.1), made.2) := by
    simp only [getRecords, ho.handle, ho.notClosed, ho.compatible, hlen, hlen', decide_true,
      ho.opened, noFaults_thrown, Bool.false_eq_true, if_false]
    rfl
  have ho' : made.2.Open h o :=
    ⟨ho.handle, ho.notClosed, ho.db, ho.structure_, ho.found, ho.live, ho.writable, ho.cmp,
      ho.pairs, ho.sorted⟩
  have hstands : Iterator.Stands o minKeys maxKeys
      { index := h, txn := tx, closed := false, ended := false, initialized := false,
        minKey := minKeys, maxKey := maxKeys, key := o.s.getBDBKey minKeys false, value := [],
        cursor := some none } (o.pairs.filter (started o.s minKeys)) :=
    ⟨rfl, rfl, rfl, Or.inl ⟨rfl, rfl, rfl, rfl⟩⟩
  have hdrain := @drain_eq o minKeys maxKeys B hlen made.1 n made.2 _ _ ho' (Function.update_self ..)
    hstands
  rw [scan_started hmax ho.sorted] at hdrain
  simp only [query, hcall]
  exact hdrain

/-! ### What is still to come behind a modification -/

/-- CORRECT (a cursor while a pair is put in): it has still before it what it had before it, and the new
    pair unless this was put in on the other side. -/
theorem place_insert (B : BerkeleyDB) (o : Opened) (r : Record) (it : Iterator) {n : Nat}
    (hn : n ≤ o.pairs.length) :
    let pair := (o.s.getBDBKey r.key false, r.payload)
    let k := B.putAt o.cmp o.pairs pair
    let pairs' := B.put o.cmp o.pairs pair
    pairs'.drop (Modification.place B o pairs' it n (.insert r)) =
      if k < n ∨ k = n ∧ o.cmp pair.1 it.key = .lt then o.pairs.drop n
      else (o.pairs.take k).drop n ++ pair :: o.pairs.drop k := by
  intro pair k pairs'
  have hfront : (o.pairs.take k).length = min k o.pairs.length := List.length_take
  have hlength : ¬pairs'.length ≤ o.pairs.length := by
    simp only [pairs', BerkeleyDB.put, List.length_append, List.length_cons, List.length_take,
      List.length_drop]
    omega
  have hplace : Modification.place B o pairs' it n (.insert r) =
      if k < n ∨ k = n ∧ o.cmp pair.1 it.key = .lt then n + 1 else n := if_neg hlength
  have hcut : ∀ m, pairs'.drop m = (o.pairs.take k).drop m ++
      (pair :: o.pairs.drop k).drop (m - (o.pairs.take k).length) := fun _ => List.drop_append
  rw [hplace]
  split
  · next hbefore =>
    have hk : k ≤ n := hbefore.elim Nat.le_of_lt fun h => h.1.le
    have hrest : n + 1 - min k o.pairs.length = n - k + 1 := by omega
    rw [hcut, hfront, hrest, List.drop_of_length_le (by omega), List.nil_append,
      List.drop_succ_cons, List.drop_drop, Nat.add_sub_cancel' hk]
  · next hbehind =>
    have hk : n ≤ k := Nat.le_of_not_lt fun h => hbehind (Or.inl h)
    rw [hcut, hfront, Nat.sub_eq_zero_of_le (by omega), List.drop_zero]

/-- CORRECT (a cursor while pairs are deleted): it has still before it what it had before it, without the
    deleted pairs. -/
theorem place_delete (B : BerkeleyDB) (o : Opened) (r : Record) (flags : UInt8) (it : Iterator)
    (n : Nat) {c : Cursor Pair} {gone rest : List Pair}
    (hfound : firstGet B noFaults o.s o.cmp r (hasFlag flags kIgnorePayload) o.pairs = .ret (.ok c))
    (hpairs : o.pairs = c.before ++ gone ++ rest) :
    (c.before ++ rest).drop (Modification.place B o (c.before ++ rest) it n (.delete r flags)) =
      c.before.drop n ++ rest.drop (n - (c.before ++ gone).length) := by
  have hcount : o.pairs.length - (c.before ++ rest).length = gone.length := by
    simp only [hpairs, List.length_append]
    omega
  have hplace : Modification.place B o (c.before ++ rest) it n (.delete r flags) =
      if n ≤ c.before.length then n else max c.before.length (n - gone.length) := by
    simp only [Modification.place, hfound, hcount]
  rw [hplace, List.length_append]
  split
  · next hle =>
    rw [List.drop_append, Nat.sub_eq_zero_of_le hle, Nat.sub_eq_zero_of_le (by omega)]
  · next hgt =>
    rw [List.drop_append, List.drop_of_length_le (by omega : c.before.length ≤ max _ _),
      List.drop_of_length_le (by omega : c.before.length ≤ n)]
    congr 2
    omega

/-- Behind 5 the iterator goes on with 6, although 4 is inserted and 5 deleted. -/
example :
    let record (x : Nat) : Record := ⟨shortKey x, [x.toUInt8]⟩
    let calls : List Call := [.createIndex "x" (some [.kShort]), .openIndex "x", .beginTransaction,
      .modify (some 1) 1 (.insert (record 5)), .modify (some 1) 1 (.insert (record 6)),
      .getRecords (some 1) (some 1) [none] [none] (some none), .getNext (some 2),
      .modify (some 1) 1 (.insert (record 4)), .modify (some 1) 1 (.delete (record 5) 0)]
    let w := (run (perform .plain noFaults) initial calls).2
    (w.getNext .plain noFaults (some 2)).2.1.join.map (·.payload) = some [6] := by rfl

end World

end Contest
