import ContestIndex.Model.Session

/-! @src example/Util.cc | name:Keys that differ behind a terminator | layer:specification

    The encoder copies all 513 bytes of a varchar, so two keys with the same C strings are stored as
    different bytes. Nothing that compares keys sees the difference: two lists of pairs whose keys
    are worth the same, pair by pair, are searched, walked and written in step.

        "ab\0xx…"  ──getBDBKey──▶  61 62 00 78 78 …     keyValues   [.., varchar "ab", ..]
        "ab\0yy…"  ──getBDBKey──▶  61 62 00 79 79 …     keyValues   [.., varchar "ab", ..]     -/

namespace Contest
open Schemes

/-! ### Attributes, keys and records -/

/-- The same type and the same value: integers are equal, strings up to their first NUL. -/
def Attribute.Same (a b : Attribute) : Prop := a.type = b.type ∧ a.value = b.value

/-- The same attributes are NULL, and the others are the same. -/
def Key.Same (key key' : Key) : Prop := List.Forall₂ (Option.Rel Attribute.Same) key key'

/-- The same key and the same payload. -/
def Record.Same (r r' : Record) : Prop := r.key.Same r'.key ∧ r.payload = r'.payload

theorem Attribute.Same.refl (a : Attribute) : a.Same a := ⟨rfl, rfl⟩

/-- Varchars with the same string in front of their first NUL. -/
theorem Attribute.same_of_nul {a b : Attribute} (str x y : Bytes) (ha : a.type = .kVarchar)
    (hb : b.type = .kVarchar) (hstr : ∀ c ∈ str, c ≠ 0) (hx : a.mem = str ++ 0 :: x)
    (hy : b.mem = str ++ 0 :: y) : a.Same b := by
  have hcut : ∀ bytes : Bytes, cstr (str ++ 0 :: bytes) = str := by
    intro bytes
    rw [cstr, List.takeWhile_append_of_pos (by simpa using hstr)]
    simp
  refine ⟨ha.trans hb.symm, ?_⟩
  simp only [Attribute.value, ha, hb, Attribute.charValue, hx, hy, hcut]

theorem Key.Same.refl : ∀ key : Key, key.Same key
  | [] => .nil
  | some a :: key => .cons (.some (.refl a)) (Key.Same.refl key)
  | none :: key => .cons .none (Key.Same.refl key)

theorem Key.Same.length_eq {key key' : Key} (h : key.Same key') : key.length = key'.length :=
  List.Forall₂.length_eq h

/-- A key that is the same as a fully set one is fully set, with the same values. -/
theorem Key.Same.ofAttributes : ∀ {as : List Attribute} {key : Key},
    (Key.ofAttributes as).Same key →
      ∃ bs, key = Key.ofAttributes bs ∧ as.map (·.type) = bs.map (·.type) ∧ values as = values bs
  | [], _, .nil => ⟨[], rfl, rfl, rfl⟩
  | a :: as, _, .cons hab hrest => by
    obtain ⟨bs, rfl, htypes, hvalues⟩ := Key.Same.ofAttributes hrest
    cases hab with
    | @some _ b hab =>
      refine ⟨b :: bs, rfl, ?_, ?_⟩
      · simp only [List.map_cons, hab.1, htypes]
      · simp only [values, List.map_cons, hab.2] at hvalues ⊢
        rw [hvalues]

theorem Key.ofAttributes_same {as bs : List Attribute} (htypes : as.map (·.type) = bs.map (·.type))
    (hvalues : values as = values bs) : (Key.ofAttributes as).Same (Key.ofAttributes bs) := by
  induction as generalizing bs with
  | nil =>
    obtain rfl : bs = [] := by simpa using htypes.symm
    exact .nil
  | cons a as ih =>
    rcases bs with _ | ⟨b, bs⟩
    · simp at htypes
    · simp only [values, List.map_cons, List.cons.injEq] at htypes hvalues ih
      exact .cons (.some ⟨htypes.1, hvalues.1⟩) (ih htypes.2 hvalues.2)

/-! ### What Berkeley DB can see of a pair -/

/-- Neither the compare function nor the bytes of the data tell the pairs apart. -/
def Indistinct (cmp : Bytes → Bytes → Ordering) (p p' : Pair) : Prop :=
  cmp p.1 p'.1 = .eq ∧ p.2 = p'.2

/-- Keys are looked at by the compare function only, data byte by byte. -/
structure BerkeleyDB.ComparesKeys (B : BerkeleyDB) : Prop where
  putAt : ∀ {cmp} [Std.TransCmp cmp] {pairs pairs' p p'},
    List.Forall₂ (Indistinct cmp) pairs pairs' → Indistinct cmp p p' →
      B.putAt cmp pairs p = B.putAt cmp pairs' p'
  setRange : ∀ {cmp} [Std.TransCmp cmp] {pairs pairs' key key'},
    List.Forall₂ (Indistinct cmp) pairs pairs' → cmp key key' = .eq →
      Option.Rel (Cursor.Related (Indistinct cmp)) (B.setRange cmp pairs key)
        (B.setRange cmp pairs' key')
  getBoth : ∀ {cmp} [Std.TransCmp cmp] {pairs pairs' key key'} (data),
    List.Forall₂ (Indistinct cmp) pairs pairs' → cmp key key' = .eq →
      Option.Rel (Cursor.Related (Indistinct cmp)) (B.getBoth cmp pairs key data)
        (B.getBoth cmp pairs' key' data)

section Compare
variable {cmp : Bytes → Bytes → Ordering} [Std.TransCmp cmp] {a a' b b' : Bytes}

theorem cmp_congr (ha : cmp a a' = .eq) (hb : cmp b b' = .eq) : cmp a b = cmp a' b' := by
  rw [Std.TransCmp.congr_left ha, Std.TransCmp.congr_right hb]

theorem lastPlace_indistinct {p p' : Pair} (hp : Indistinct cmp p p') {pairs pairs' : List Pair}
    (h : List.Forall₂ (Indistinct cmp) pairs pairs') :
    lastPlace cmp pairs p = lastPlace cmp pairs' p' := by
  induction h with
  | nil => rfl
  | cons hq _ ih => rw [lastPlace, lastPlace, cmp_congr hq.1 hp.1, ih]

/-- Pairs that look the same are put into the same place. -/
theorem BerkeleyDB.ComparesKeys.put {B : BerkeleyDB} (hB : B.ComparesKeys) {p p' : Pair}
    {pairs pairs' : List Pair} (h : List.Forall₂ (Indistinct cmp) pairs pairs')
    (hp : Indistinct cmp p p') :
    List.Forall₂ (Indistinct cmp) (B.put cmp pairs p) (B.put cmp pairs' p') := by
  rw [BerkeleyDB.put, BerkeleyDB.put, hB.putAt h hp]
  exact List.rel_append (List.forall₂_take _ h) (.cons hp (List.forall₂_drop _ h))

end Compare

/-- `ComparesKeys` can be satisfied. -/
theorem plain_comparesKeys : BerkeleyDB.plain.ComparesKeys where
  putAt := fun hpairs hp => lastPlace_indistinct hp hpairs
  setRange := fun hpairs hkey =>
    Cursor.first_related (fun p q hpq => by rw [cmp_congr hpq.1 hkey]) hpairs
  getBoth := fun data hpairs hkey =>
    Cursor.first_related (fun p q hpq => by rw [cmp_congr hpq.1 hkey, hpq.2]) hpairs

/-- Moving a cursor leads to the same place. -/
theorem moveCursor_related {cmp : Bytes → Bytes → Ordering} [Std.TransCmp cmp] (move : Move)
    {c d : Cursor Pair} (h : Cursor.Related (Indistinct cmp) c d) :
    Option.Rel (Cursor.Related (Indistinct cmp)) (moveCursor cmp move c)
      (moveCursor cmp move d) := by
  cases move with
  | DB_NEXT => exact h.next
  | DB_NEXT_DUP =>
    exact h.nextIf (fun p q => cmp p.1 q.1 == .eq) fun x y hxy => by rw [cmp_congr h.cur.1 hxy.1]

theorem CursorWrite.apply_related {cmp : Bytes → Bytes → Ordering} (w : CursorWrite)
    {c d : Cursor Pair} (h : Cursor.Related (Indistinct cmp) c d) :
    Cursor.Related (Indistinct cmp) (w.apply c) (w.apply d) := by
  cases w with
  | putCurrent data => exact h.set (fun p => (p.1, data)) fun x y hxy => ⟨hxy.1, rfl⟩
  | del => exact h.erase

/-! ### Update and delete -/

/-- The loops end in the same way, with the cursors at the same place. -/
def LoopAlike (cmp : Bytes → Bytes → Ordering)
    (ended ended' : Outcome (Option DbError) × Cursor Pair) : Prop :=
  ended.1 = ended'.1 ∧ Cursor.Related (Indistinct cmp) ended.2 ended'.2

/-- STEP: the loops over the duplicates make the same turns. -/
theorem dupLoop_related {cmp : Bytes → Bytes → Ordering} [Std.TransCmp cmp] (F : Faults)
    (move : Move) (check : Option Ordering) (w : CursorWrite) (n : Nat) {c d : Cursor Pair}
    (h : Cursor.Related (Indistinct cmp) c d) :
    LoopAlike cmp (dupLoop F cmp move check w n c) (dupLoop F cmp move check w n d) := by
  -- by the number of pairs behind the cursor
  induction hlen : c.after.length using Nat.strong_induction_on generalizing n c d with
  | _ len ih =>
    rw [dupLoop, dupLoop]
    rcases F (.get n) with _ | ⟨_ | _⟩
    · have hmove := moveCursor_related move h
      rcases hc : moveCursor cmp move c with _ | c' <;>
        rcases hd : moveCursor cmp move d with _ | d' <;> rw [hc, hd] at hmove
      · exact ⟨rfl, h⟩
      · cases hmove
      · cases hmove
      · obtain ⟨h'⟩ := hmove
        have hshorter := moveCursor_after_lt hc
        simp only
        rcases check with _ | _ | _ | _
        · exact ⟨rfl, h'⟩
        · exact ⟨rfl, h'⟩
        · rcases F (.write n) with _ | ⟨_ | _⟩
          · exact ih _ (by simpa [← hlen] using hshorter) (n + 1) (w.apply_related h') rfl
          · exact ⟨rfl, h'⟩
          · exact ⟨rfl, h'⟩
        · exact ⟨rfl, h'⟩
    · exact ⟨rfl, h⟩
    · exact ⟨rfl, h⟩

/-- How two first `get`s end alike. -/
inductive FoundAlike (R : Pair → Pair → Prop) :
    Outcome (Except DbError (Cursor Pair)) → Outcome (Except DbError (Cursor Pair)) → Prop
  | found {c d : Cursor Pair} (h : Cursor.Related R c d) :
      FoundAlike R (.ret (.ok c)) (.ret (.ok d))
  | failed (err : DbError) : FoundAlike R (.ret (.error err)) (.ret (.error err))
  | throws (e : DbException) : FoundAlike R (.throws e) (.throws e)
  | stuck : FoundAlike R .stuck .stuck

/-- The same outcome, with pairs that are related one by one. -/
structure Body.Related (R : Pair → Pair → Prop) (body body' : Body) : Prop where
  outcome : body.outcome = body'.outcome
  pairs : List.Forall₂ R body.pairs body'.pairs
  wrote : body.wrote = body'.wrote

section Structure
variable {B : BerkeleyDB} {s : IndexStructure} {key key' : Key} {pairs pairs' : List Pair}
  {r r' : Record}

/-- A NULL is encoded as the same wildcard, an attribute keeps its value. -/
theorem values_bdbFields_same (max : Bool) {types : List AttributeType} (h : key.Same key')
    (hkey : key.Typed types) : values (attributesOf types (bdbFields max types key)) =
      values (attributesOf types (bdbFields max types key')) := by
  induction h generalizing types with
  | nil => cases hkey; rfl
  | @cons o o' key key' hab _ ih =>
    rcases hkey with _ | @⟨t, _, ts, _, htype, htypes⟩
    have ih := ih htypes
    have hhead : encodedValue max t o = encodedValue max t o' := by
      cases hab with
      | none => rfl
      | @some a b hab =>
        have ha : a.type = t := htype a rfl
        rw [encodedValue_some max ha, encodedValue_some max (hab.1.symm.trans ha), hab.2]
    simp only [encodedValue] at hhead
    simp only [bdbFields, values] at ih ⊢
    rw [attributesOf_append _ _ (length_bdbField max t o),
      attributesOf_append _ _ (length_bdbField max t o'), List.map_cons, List.map_cons, ih, hhead]

theorem getBDBKey_same (h : key.Same key') (hkey : key.Typed s.type) (max : Bool) :
    s.dbKeycmp (s.getBDBKey key max) (s.getBDBKey key' max) = .eq :=
  s.dbKeycmp_eq_eq.mpr (values_bdbFields_same max h hkey)

/-- Decoding gives the same key. -/
theorem getKey_same {b b' : Bytes} (h : s.dbKeycmp b b' = .eq) : (s.getKey b).Same (s.getKey b') :=
  Key.ofAttributes_same (by rw [map_type_attributesOf, map_type_attributesOf])
    (s.dbKeycmp_eq_eq.mp h)

/-- The check of a stored key against a record's has the same result. -/
theorem keycmp_same (h : key.Same key') (hkey : key.FullySet s.type) {b b' : Bytes}
    (hb : s.dbKeycmp b b' = .eq) : keycmp (s.getKey b) key = keycmp (s.getKey b') key' := by
  obtain ⟨as, rfl, has⟩ := hkey
  obtain ⟨bs, rfl, htypes, hvalues⟩ := h.ofAttributes
  rw [s.keycmp_getKey_ofAttributes has, s.keycmp_getKey_ofAttributes (htypes.symm.trans has),
    s.dbKeycmp_eq_eq.mp hb, hvalues]

/-- The search for the first record ends alike. -/
theorem firstGet_related (hB : B.ComparesKeys) (F : Faults) (hr : r.Same r')
    (hkey : r.key.FullySet s.type) (ignorePayload : Bool)
    (h : List.Forall₂ (Indistinct s.dbKeycmp) pairs pairs') :
    FoundAlike (Indistinct s.dbKeycmp) (firstGet B F s s.dbKeycmp r ignorePayload pairs)
      (firstGet B F s s.dbKeycmp r' ignorePayload pairs') := by
  have hstored := getBDBKey_same hr.1 hkey.typed false
  have hcheck : ∀ {b b' : Bytes}, s.dbKeycmp b b' = .eq →
      keycmp (s.getKey b) r.key = keycmp (s.getKey b') r'.key := keycmp_same hr.1 hkey
  unfold firstGet
  rcases F (.get 0) with _ | ⟨e | err⟩
  · cases ignorePayload with
    | true =>
      have hrange := hB.setRange h hstored
      simp only [if_true]
      generalize B.setRange s.dbKeycmp pairs _ = found, B.setRange s.dbKeycmp pairs' _ = found'
        at hrange
      cases hrange with
      | none =>
        rw [hcheck hstored]
        rcases keycmp (s.getKey (s.getBDBKey r'.key false)) r'.key with _ | _ | _ | _
        · exact .stuck
        · exact .failed _
        · exact .failed _
        · exact .failed _
      | @some c d hcd =>
        simp only [hcheck hcd.cur.1]
        rcases keycmp (s.getKey d.cur.1) r'.key with _ | _ | _ | _
        · exact .stuck
        · exact .failed _
        · exact .found hcd
        · exact .failed _
    | false =>
      have hboth := hB.getBoth r.payload h hstored
      simp only [Bool.false_eq_true, if_false, ← hr.2]
      generalize B.getBoth s.dbKeycmp pairs _ _ = found, B.getBoth s.dbKeycmp pairs' _ _ = found'
        at hboth
      cases hboth with
      | none => exact .failed _
      | some hcd => exact .found hcd
  · exact .throws e
  · -- the error of the `get`, unless the check of the unchanged key replaces it
    simp only [hcheck hstored]
    cases ignorePayload with
    | true =>
      rcases keycmp (s.getKey (s.getBDBKey r'.key false)) r'.key with _ | _ | _ | _
      · exact .stuck
      · exact .failed _
      · exact .failed _
      · exact .failed _
    | false => exact .failed _

/-- CORRECT (`Index::Update`, `Index::Delete`): the same result, and pairs that stay alike. -/
theorem modifyBody_related (hB : B.ComparesKeys) (F : Faults) (w : CursorWrite)
    (loopError : ErrorCode) (hr : r.Same r') (hkey : r.key.FullySet s.type) (flags : UInt8)
    (h : List.Forall₂ (Indistinct s.dbKeycmp) pairs pairs') :
    Body.Related (Indistinct s.dbKeycmp)
      (modifyBody B F s s.dbKeycmp w loopError r flags pairs)
      (modifyBody B F s s.dbKeycmp w loopError r' flags pairs') := by
  have hget := firstGet_related hB F hr hkey (hasFlag flags kIgnorePayload) h
  unfold modifyBody
  cases F.thrown .cursor with
  | some e => exact ⟨rfl, h, rfl⟩
  | none =>
    simp only
    generalize firstGet B F s s.dbKeycmp r (hasFlag flags kIgnorePayload) pairs = found,
      firstGet B F s s.dbKeycmp r' (hasFlag flags kIgnorePayload) pairs' = found' at hget
    cases hget with
    | failed err => exact ⟨rfl, h, rfl⟩
    | throws e => exact ⟨rfl, h, rfl⟩
    | stuck => exact ⟨rfl, h, rfl⟩
    | @found c d hcd =>
      have hwritten := w.apply_related hcd
      have hcheck : keycmp (s.getKey (w.apply c).cur.1) r.key =
          keycmp (s.getKey (w.apply d).cur.1) r'.key := keycmp_same hr.1 hkey hwritten.cur.1
      rcases F (.write 0) with _ | ⟨e | err⟩
      · simp only [hcheck]
        split
        · have hended : ∀ check, LoopAlike s.dbKeycmp
              (if hasFlag flags kIgnorePayload then
                dupLoop F s.dbKeycmp .DB_NEXT check w 1 (w.apply c)
              else dupLoop F s.dbKeycmp .DB_NEXT_DUP (some .eq) w 1 (w.apply c))
              (if hasFlag flags kIgnorePayload then
                dupLoop F s.dbKeycmp .DB_NEXT check w 1 (w.apply d)
              else dupLoop F s.dbKeycmp .DB_NEXT_DUP (some .eq) w 1 (w.apply d)) := by
            intro check
            split <;> exact dupLoop_related F _ _ w 1 hwritten
          have hends := hended (keycmp (s.getKey (w.apply d).cur.1) r'.key)
          revert hends
          generalize (if hasFlag flags kIgnorePayload then _ else _) = ended
          generalize (if hasFlag flags kIgnorePayload then _ else _) = ended'
          rintro ⟨houtcome, hcursor⟩
          obtain ⟨outcome, c'⟩ := ended
          obtain ⟨outcome', d'⟩ := ended'
          obtain rfl : outcome = outcome' := houtcome
          cases outcome <;> exact ⟨rfl, hcursor.contents, rfl⟩
        · exact ⟨rfl, hwritten.contents, rfl⟩
      · exact ⟨rfl, h, rfl⟩
      · exact ⟨rfl, h, rfl⟩

/-! ### Iterators -/

/-- Attributes of one type, compared with attributes of that type. -/
theorem attcmp_same {a a' b b' : Attribute} (ha : a.Same a') (hb : b.Same b')
    (h : a.type = b.type) : attcmp a b = attcmp a' b' := by
  rw [attcmp_eq_compare h, attcmp_eq_compare (ha.1.symm.trans (h.trans hb.1)), ha.2, hb.2]

theorem checkBoundsLoop_same : ∀ {types : List AttributeType} {key key' bound bound' : Key}
    (i : Nat), key.Same key' → bound.Same bound' → key.Typed types → bound.Typed types →
      checkBoundsLoop i key bound = checkBoundsLoop i key' bound'
  | [], _, _, _, _, _, .nil, .nil, _, _ => rfl
  | t :: ts, _, _, _, _, i, .cons ha has, .cons hb hbs, .cons hat hats, .cons hbt hbts => by
    have ih := checkBoundsLoop_same (i + 1) has hbs hats hbts
    cases ha with
    | none => simpa [checkBoundsLoop] using ih
    | some ha =>
      cases hb with
      | none => simpa [checkBoundsLoop] using ih
      | some hb =>
        simp only [checkBoundsLoop, ih, attcmp_same ha hb ((hat _ rfl).trans (hbt _ rfl).symm)]

theorem checkBounds_same {b b' : Bytes} (hb : s.dbKeycmp b b' = .eq) (h : key.Same key')
    (hkey : key.Typed s.type) : checkBounds (s.getKey b) key = checkBounds (s.getKey b') key' := by
  have hdecoded := getKey_same hb
  have htyped : (s.getKey b).Typed s.type :=
    Key.FullySet.typed ⟨_, rfl, map_type_attributesOf s.type b⟩
  rw [checkBounds, checkBounds, hdecoded.length_eq, h.length_eq,
    checkBoundsLoop_same 0 hdecoded h htyped hkey]

/-- The iterators of two runs differ in the bytes of their keys, and these are worth the same. -/
structure Iterator.Alike (s : IndexStructure) (it it' : Iterator) : Prop where
  index : it.index = it'.index
  txn : it.txn = it'.txn
  closed : it.closed = it'.closed
  ended : it.ended = it'.ended
  initialized : it.initialized = it'.initialized
  value : it.value = it'.value
  cursor : it.cursor = it'.cursor
  key : s.dbKeycmp it.key it'.key = .eq
  maxKey : it.maxKey.Same it'.maxKey
  typed : it.maxKey.Typed s.type

/-- The same outcome, and iterators that stay alike. -/
inductive IterationAlike {α : Type} (s : IndexStructure) :
    Outcome α × Iterator → Outcome α × Iterator → Prop
  | ended (outcome : Outcome α) {it it' : Iterator} (h : it.Alike s it') :
      IterationAlike s (outcome, it) (outcome, it')

namespace Iterator.Alike
variable {it it' : Iterator}

theorem closeCursor (h : it.Alike s it') (F : Faults) :
    IterationAlike s (it.closeCursor F) (it'.closeCursor F) := by
  unfold Iterator.closeCursor
  rw [← h.cursor]
  cases it.cursor with
  | none => exact .ended _ h
  | some position =>
    cases F.thrown .cursorClose with
    | some e => exact .ended _ h
    | none => exact .ended _ { h with cursor := rfl }

theorem setEnded (h : it.Alike s it') (F : Faults) :
    IterationAlike s (it.setEnded F) (it'.setEnded F) := by
  have hended : { it with ended := true }.Alike s { it' with ended := true } :=
    { h with ended := rfl }
  exact hended.closeCursor F

theorem close (h : it.Alike s it') (F : Faults) : IterationAlike s (it.close F) (it'.close F) := by
  have hclosed : { it with closed := true }.Alike s { it' with closed := true } :=
    { h with closed := rfl }
  unfold Iterator.close
  rw [← h.closed]
  split
  · exact .ended _ h
  · exact hclosed.closeCursor F

theorem fetchFailed (h : it.Alike s it') (F : Faults) (err : DbError) :
    IterationAlike s (it.fetchFailed F err) (it'.fetchFailed F err) := by
  have hended := h.setEnded F
  unfold Iterator.fetchFailed
  generalize it.setEnded F = ended, it'.setEnded F = ended' at hended
  obtain @⟨outcome, u, u', hu⟩ := hended
  cases outcome with
  | throws e => exact .ended _ hu
  | stuck => exact .ended _ hu
  | ret a =>
    simp only
    split
    · exact .ended _ hu
    · have hclosed := hu.close F
      generalize u.close F = closed, u'.close F = closed' at hclosed
      obtain ⟨outcome, hv⟩ := hclosed
      cases outcome <;> exact .ended _ hv

theorem moveTo (h : it.Alike s it') (i : Nat) {p p' : Pair} (hp : Indistinct s.dbKeycmp p p') :
    (it.moveTo i p).Alike s (it'.moveTo i p') :=
  { h with value := hp.2, cursor := rfl, key := hp.1 }

theorem onPair (h : it.Alike s it') (F : Faults) (n : Nat) {more more' : Outcome Bool × Iterator}
    (hmore : IterationAlike s more more') :
    IterationAlike s (it.onPair F s n more) (it'.onPair F s n more') := by
  unfold Iterator.onPair
  rw [checkBounds_same h.key h.maxKey h.typed]
  rcases checkBounds (s.getKey it'.key) it'.maxKey with _ | _ | index
  · exact .ended _ h
  · exact .ended _ h
  · simp only
    split
    · have hended := h.setEnded F
      generalize it.setEnded F = ended, it'.setEnded F = ended' at hended
      obtain ⟨outcome, hu⟩ := hended
      cases outcome <;> exact .ended _ hu
    · rcases F (.get n) with _ | ⟨e | err⟩
      · exact hmore
      · exact .ended _ h
      · exact h.fetchFailed F err

/-- STEP: the loops of `Next` pass the same pairs. -/
theorem nextLoop (h : it.Alike s it') (F : Faults) (n i : Nat) {rest rest' : List Pair}
    (hrest : List.Forall₂ (Indistinct s.dbKeycmp) rest rest') :
    IterationAlike s (Iterator.nextLoop F s n i it rest) (Iterator.nextLoop F s n i it' rest') := by
  induction hrest generalizing it it' n i with
  | nil => exact h.onPair F n (h.fetchFailed F .DB_NOTFOUND)
  | cons hp _ ih => exact h.onPair F n (ih (h.moveTo (i + 1) hp) (n + 1) (i + 1))

/-- CORRECT (`Iterator::Next`): the same outcome, and iterators that stay alike. -/
theorem next (h : it.Alike s it') {B : BerkeleyDB} (hB : B.ComparesKeys) (F : Faults)
    (hpairs : List.Forall₂ (Indistinct s.dbKeycmp) pairs pairs') :
    IterationAlike s (it.next B F s s.dbKeycmp pairs) (it'.next B F s s.dbKeycmp pairs') := by
  unfold Iterator.next
  rw [← h.cursor, ← h.initialized]
  cases it.cursor with
  | none => exact .ended _ h
  | some position =>
    have hinitialized : { it with initialized := true, cursor := some position }.Alike s
        { it' with initialized := true, cursor := some position } :=
      { h with initialized := rfl, cursor := rfl }
    rcases F (.get 0) with _ | ⟨e | err⟩
    · cases it.initialized with
      | true =>
        simp only [if_true]
        cases position with
        | none =>
          cases hpairs with
          | nil => exact h.fetchFailed F _
          | cons hp hrest => exact (h.moveTo 0 hp).nextLoop F 1 0 hrest
        | some j =>
          have hrest := List.forall₂_drop j hpairs
          simp only
          generalize pairs.drop j = rest, pairs'.drop j = rest' at hrest
          cases hrest with
          | nil => exact h.fetchFailed F _
          | cons hp hrest => exact (h.moveTo j hp).nextLoop F 1 j hrest
      | false =>
        have hrange := hB.setRange hpairs h.key
        simp only [Bool.false_eq_true, if_false]
        generalize B.setRange s.dbKeycmp pairs it.key = found,
          B.setRange s.dbKeycmp pairs' it'.key = found' at hrange
        cases hrange with
        | none => exact hinitialized.fetchFailed F _
        | @some c d hcd =>
          have hmoved := hinitialized.moveTo c.before.length hcd.cur
          simp only [← hcd.before.length_eq]
          exact hmoved.nextLoop F 1 _ hcd.after
    · exact .ended _ h
    · exact hinitialized.fetchFailed F err

end Iterator.Alike

/-- Both return the same record, or none. -/
theorem Iterator.Alike.record {it it' : Iterator} (h : it.Alike s it') :
    Option.Rel Record.Same (it.record s) (it'.record s) := by
  rw [Iterator.record, Iterator.record, ← h.ended]
  split
  · exact .none
  · exact .some ⟨getKey_same h.key, h.value⟩

end Structure

end Contest
