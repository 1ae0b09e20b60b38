import ContestIndex.Model.World

/-! @src example/Index.cc | name:What Update and Delete select | layer:specification

    What the body of `Index::Update` and `Index::Delete` does, without its cursor: the first `get`
    finds the first pair that the record selects, and the loop behind it works on the pairs that its
    move reaches, whatever their data.

        pairs = before ++ hit :: reached ++ beyond -/

namespace Contest
open Schemes

/-- The pair has the record's key (`keycmp` returns 0). -/
def Record.sameKey (s : IndexStructure) (r : Record) (p : Pair) : Bool :=
  keycmp (s.getKey p.1) r.key == some .eq

/-- The pair's key is above the record's. -/
def Record.greaterKey (s : IndexStructure) (r : Record) (p : Pair) : Bool :=
  keycmp (s.getKey p.1) r.key == some .gt

/-- The pair matches the record: equal key and, unless the payload is ignored, equal payload. -/
def Record.selects (s : IndexStructure) (r : Record) (flags : UInt8) (p : Pair) : Bool :=
  r.sameKey s p && (hasFlag flags kIgnorePayload || p.2 == r.payload)

/-! ### The loops over duplicates -/

/-- The pairs that repeated moves reach. -/
def reached (cmp : Bytes → Bytes → Ordering) : Move → Bytes → List Pair → List Pair
  | .DB_NEXT, _, after => after
  | .DB_NEXT_DUP, key, after => after.takeWhile fun q => cmp key q.1 == .eq

/-- The pairs behind them. -/
def beyond (cmp : Bytes → Bytes → Ordering) : Move → Bytes → List Pair → List Pair
  | .DB_NEXT, _, _ => []
  | .DB_NEXT_DUP, key, after => after.dropWhile fun q => cmp key q.1 == .eq

/-- The loop over the duplicates as a function of the pairs it reaches. -/
def dupList (F : Faults) (w : CursorWrite) (n : Nat) :
    List Pair → Outcome (Option DbError) × List Pair
  | [] =>
    match F (.get n) with
    | some (.throws e) => (.throws e, [])
    | some (.returns err) => (.ret (some err), [])
    | none => (.ret (some .DB_NOTFOUND), [])
  | q :: qs =>
    match F (.get n) with
    | some (.throws e) => (.throws e, q :: qs)
    | some (.returns err) => (.ret (some err), q :: qs)
    | none =>
      match F (.write n) with
      | some (.throws e) => (.throws e, q :: qs)
      | some (.returns err) => (.ret (some err), q :: qs)
      | none => ((dupList F w (n + 1) qs).1, (w.pair q).toList ++ (dupList F w (n + 1) qs).2)

@[simp] theorem dupList_noFaults (w : CursorWrite) : ∀ (n : Nat) (qs : List Pair),
    dupList noFaults w n qs = (.ret (some .DB_NOTFOUND), qs.filterMap w.pair)
  | _, [] => rfl
  | n, q :: qs => by
    have ih := dupList_noFaults w (n + 1) qs
    simp only [dupList, noFaults] at ih ⊢
    rw [ih]
    cases hq : w.pair q <;> simp [hq]

theorem dupList_get_throws {F : Faults} {w : CursorWrite} {n : Nat} {e : DbException}
    (h : F (.get n) = some (.throws e)) (qs : List Pair) : dupList F w n qs = (.throws e, qs) := by
  cases qs <;> rw [dupList, h]

theorem dupList_get_returns {F : Faults} {w : CursorWrite} {n : Nat} {err : DbError}
    (h : F (.get n) = some (.returns err)) (qs : List Pair) :
    dupList F w n qs = (.ret (some err), qs) := by
  cases qs <;> rw [dupList, h]

section Loop
variable {cmp : Bytes → Bytes → Ordering}

theorem reached_append_beyond (move : Move) (key : Bytes) (after : List Pair) :
    reached cmp move key after ++ beyond cmp move key after = after := by
  cases move with
  | DB_NEXT => exact List.append_nil after
  | DB_NEXT_DUP => exact List.takeWhile_append_dropWhile

/-- A failing move reaches nothing. -/
theorem moveCursor_eq_none {move : Move} {c : Cursor Pair} (h : moveCursor cmp move c = none) :
    reached cmp move c.cur.1 c.after = [] := by
  cases ha : c.after with
  | nil => cases move <;> rfl
  | cons x xs =>
    cases move with
    | DB_NEXT => simp [moveCursor, Cursor.next, ha] at h
    | DB_NEXT_DUP =>
      have hx : (cmp c.cur.1 x.1 == .eq) = false := by
        simpa [moveCursor, Cursor.nextIf, ha] using h
      rw [reached, List.takeWhile_cons_of_neg (by simp [hx])]

/-- A move goes to the first pair that is reached; the rest is reached from there. -/
theorem moveCursor_eq_some [Std.TransCmp cmp] {move : Move} {c d : Cursor Pair}
    (h : moveCursor cmp move c = some d) :
    d.erased = false ∧ d.before = c.before ++ c.here ∧
      reached cmp move c.cur.1 c.after = d.cur :: reached cmp move d.cur.1 d.after ∧
      beyond cmp move c.cur.1 c.after = beyond cmp move d.cur.1 d.after := by
  cases move with
  | DB_NEXT =>
    obtain ⟨x, xs, ha, rfl⟩ := Cursor.next_eq_some h
    exact ⟨rfl, rfl, ha, rfl⟩
  | DB_NEXT_DUP =>
    simp only [moveCursor] at h
    obtain ⟨x, xs, ha, rfl, hx⟩ := Cursor.nextIf_eq_some h
    have heq : cmp c.cur.1 x.1 = .eq := by simpa using hx
    have hkey : (fun q : Pair => cmp c.cur.1 q.1 == .eq) = fun q => cmp x.1 q.1 == .eq := by
      funext q; rw [Std.TransCmp.congr_left heq]
    refine ⟨rfl, rfl, ?_, ?_⟩
    · simp only [reached, ha, hkey]
      exact List.takeWhile_cons_of_pos (by simpa using Std.ReflCmp.compare_self)
    · simp only [beyond, ha, hkey]
      exact List.dropWhile_cons_of_pos (by simpa using Std.ReflCmp.compare_self)

/-- The loop does to the pairs it reaches what `dupList` does, and leaves the others alone. -/
theorem dupLoop_eq [Std.TransCmp cmp] (F : Faults) (move : Move) (w : CursorWrite) (n : Nat)
    (c : Cursor Pair) :
    (dupLoop F cmp move (some .eq) w n c).1 = (dupList F w n (reached cmp move c.cur.1 c.after)).1 ∧
    (dupLoop F cmp move (some .eq) w n c).2.contents =
      c.before ++ c.here ++ (dupList F w n (reached cmp move c.cur.1 c.after)).2 ++
        beyond cmp move c.cur.1 c.after := by
  have hstay : ∀ c : Cursor Pair, c.contents = c.before ++ c.here ++
      reached cmp move c.cur.1 c.after ++ beyond cmp move c.cur.1 c.after := fun c => by
    rw [List.append_assoc, reached_append_beyond]; rfl
  fun_induction dupLoop F cmp move (some .eq) w n c with
  | case1 n c e hget => rw [dupList_get_throws hget]; exact ⟨rfl, hstay c⟩
  | case2 n c err hget => rw [dupList_get_returns hget]; exact ⟨rfl, hstay c⟩
  | case3 n c hget hmove =>
    rw [moveCursor_eq_none hmove, dupList, hget]
    refine ⟨rfl, ?_⟩
    rw [hstay c, moveCursor_eq_none hmove]
  | case4 => contradiction
  | case5 n c hget d hmove _ e hwrite =>
    obtain ⟨he, hb, hr, hy⟩ := moveCursor_eq_some hmove
    rw [hr, hy, dupList, hget, hwrite]
    refine ⟨rfl, ?_⟩
    rw [hstay d, hb, Cursor.here_eq he]
    simp
  | case6 n c hget d hmove _ err hwrite =>
    obtain ⟨he, hb, hr, hy⟩ := moveCursor_eq_some hmove
    rw [hr, hy, dupList, hget, hwrite]
    refine ⟨rfl, ?_⟩
    rw [hstay d, hb, Cursor.here_eq he]
    simp
  | case7 n c hget d hmove _ hwrite ih =>
    obtain ⟨he, hb, hr, hy⟩ := moveCursor_eq_some hmove
    simp only [CursorWrite.apply_key, CursorWrite.apply_after, CursorWrite.apply_before,
      CursorWrite.apply_here w he] at ih
    rw [hr, hy, dupList, hget, hwrite]
    refine ⟨ih.1, ?_⟩
    rw [ih.2, hb]
    simp
  | case8 n c _ d _ res hres hcheck => exact absurd (Option.some.inj hcheck).symm hres

end Loop

/-! ### The body, for any record -/

/-- The move of the loop over the duplicates. -/
def dupMove (flags : UInt8) : Move :=
  if hasFlag flags kIgnorePayload then .DB_NEXT else .DB_NEXT_DUP

/-- What the first `get` finds if it does not fail. An assertion of `keycmp` may fail (outer `none`)
    when an attribute of the record is NULL. -/
def search (s : IndexStructure) (r : Record) (flags : UInt8) (pairs : List Pair) :
    Option (Option (Cursor Pair)) :=
  let key := s.getBDBKey r.key false
  if hasFlag flags kIgnorePayload then
    match Cursor.first (fun p => s.dbKeycmp p.1 key != .lt) pairs with
    | some c => (keycmp (s.getKey c.cur.1) r.key).map fun ord => if ord = .eq then some c else none
    | none => (keycmp (s.getKey key) r.key).map fun _ => none
  else some (Cursor.first (fun p => s.dbKeycmp p.1 key == .eq && p.2 == r.payload) pairs)

/-- How the body ends if the first `get` returns an error: the key has not been replaced. -/
def searchFailed (s : IndexStructure) (r : Record) (flags : UInt8) (err : DbError) :
    Outcome ErrorCode :=
  if hasFlag flags kIgnorePayload then
    match keycmp (s.getKey (s.getBDBKey r.key false)) r.key with
    | none => .stuck
    | some .eq => .ret err.code
    | some _ => .ret .kErrorNotFound
  else .ret err.code

/-- The result when the loop ends with `err`. -/
def loopResult (loopError : ErrorCode) : Outcome (Option DbError) → Outcome ErrorCode
  | .throws e => .throws e
  | .stuck => .stuck
  | .ret err => .ret (if err = some .DB_NOTFOUND then .kOk else loopError)

/-- What happens once the cursor stands on the pair that was found. -/
def writeFrom (F : Faults) (s : IndexStructure) (w : CursorWrite) (loopError : ErrorCode)
    (flags : UInt8) (c : Cursor Pair) : Body :=
  match F (.write 0) with
  | some (.throws e) => ⟨.throws e, c.before ++ c.cur :: c.after, false⟩
  | some (.returns err) => ⟨.ret err.code, c.before ++ c.cur :: c.after, false⟩
  | none =>
    if hasFlag flags kMatchDuplicates then
      let ended := dupList F w 1 (reached s.dbKeycmp (dupMove flags) c.cur.1 c.after)
      ⟨loopResult loopError ended.1,
        c.before ++ (w.pair c.cur).toList ++ ended.2 ++
          beyond s.dbKeycmp (dupMove flags) c.cur.1 c.after, true⟩
    else ⟨.ret .kOk, c.before ++ (w.pair c.cur).toList ++ c.after, true⟩

section Body
variable {s : IndexStructure} {r : Record} {pairs : List Pair} {flags : UInt8}

/-- The pair that was found is in the database, and a range search has compared its key. -/
theorem search_found {c : Cursor Pair} (h : search s r flags pairs = some (some c)) :
    c.erased = false ∧ pairs = c.before ++ c.cur :: c.after ∧
      (hasFlag flags kIgnorePayload = true → keycmp (s.getKey c.cur.1) r.key = some .eq) := by
  rw [search] at h
  by_cases hip : hasFlag flags kIgnorePayload = true
  · simp only [hip, if_true] at h
    cases hd : Cursor.first (fun p => s.dbKeycmp p.1 (s.getBDBKey r.key false) != .lt) pairs with
    | none => simp [hd] at h
    | some d =>
      simp only [hd, Option.map_eq_some_iff] at h
      obtain ⟨ord, hord, hfound⟩ := h
      by_cases heq : ord = .eq
      · rw [if_pos heq, Option.some.injEq] at hfound
        subst hfound heq
        obtain ⟨herased, hsplit, -, -⟩ := Cursor.first_eq_some hd
        exact ⟨herased, hsplit, fun _ => hord⟩
      · rw [if_neg heq] at hfound; contradiction
  · rw [if_neg hip, Option.some.injEq] at h
    obtain ⟨herased, hsplit, -, -⟩ := Cursor.first_eq_some h
    exact ⟨herased, hsplit, fun hc => absurd hc hip⟩

/-- The part behind the first `get`. -/
theorem write_and_loop (F : Faults) (w : CursorWrite) (loopError : ErrorCode) {c : Cursor Pair}
    (herased : c.erased = false)
    (hkey : hasFlag flags kIgnorePayload = true → keycmp (s.getKey c.cur.1) r.key = some .eq) :
    (match F (.write 0) with
      | some (.throws e) => ⟨.throws e, c.before ++ c.cur :: c.after, false⟩
      | some (.returns err) => ⟨.ret err.code, c.before ++ c.cur :: c.after, false⟩
      | none =>
        if hasFlag flags kMatchDuplicates then
          let cmpkey := s.getKey (w.apply c).cur.1
          let ended :=
            if hasFlag flags kIgnorePayload then
              dupLoop F s.dbKeycmp .DB_NEXT (keycmp cmpkey r.key) w 1 (w.apply c)
            else dupLoop F s.dbKeycmp .DB_NEXT_DUP (some .eq) w 1 (w.apply c)
          match ended with
          | (.throws e, d) => ⟨.throws e, d.contents, true⟩
          | (.stuck, d) => ⟨.stuck, d.contents, true⟩
          | (.ret err, d) =>
            ⟨.ret (if err = some .DB_NOTFOUND then .kOk else loopError), d.contents, true⟩
        else ⟨.ret .kOk, (w.apply c).contents, true⟩ : Body) =
      writeFrom F s w loopError flags c := by
  have hcontents : (w.apply c).contents = c.before ++ (w.pair c.cur).toList ++ c.after := by
    rw [Cursor.contents, CursorWrite.apply_here w herased]; simp
  have hend : (if hasFlag flags kIgnorePayload then
      dupLoop F s.dbKeycmp .DB_NEXT (keycmp (s.getKey c.cur.1) r.key) w 1 (w.apply c)
      else dupLoop F s.dbKeycmp .DB_NEXT_DUP (some .eq) w 1 (w.apply c)) =
      dupLoop F s.dbKeycmp (dupMove flags) (some .eq) w 1 (w.apply c) := by
    by_cases hip : hasFlag flags kIgnorePayload = true
    · rw [if_pos hip, hkey hip, dupMove, if_pos hip]
    · rw [if_neg hip, dupMove, if_neg hip]
  obtain ⟨hout, hpairs⟩ := @dupLoop_eq s.dbKeycmp _ F (dupMove flags) w 1 (w.apply c)
  simp only [CursorWrite.apply_key, CursorWrite.apply_after, CursorWrite.apply_before,
    CursorWrite.apply_here w herased] at hout hpairs
  simp only [writeFrom, CursorWrite.apply_key, hend, hcontents, ← hpairs, ← hout]
  cases F (.write 0) with
  | some failure => cases failure <;> rfl
  | none =>
    by_cases hdup : hasFlag flags kMatchDuplicates = true
    · simp only [if_pos hdup]
      rcases dupLoop F s.dbKeycmp (dupMove flags) (some .eq) w 1 (w.apply c) with ⟨out, d⟩
      cases out <;> rfl
    · simp only [if_neg hdup]

/-- The first `get`, whatever fails and for any record. -/
theorem firstGet_eq (B : BerkeleyDB) (F : Faults) (hs : SortedBy s.dbKeycmp pairs) :
    firstGet B F s s.dbKeycmp r (hasFlag flags kIgnorePayload) pairs =
      match F (.get 0) with
      | some (.throws e) => .throws e
      | some (.returns err) =>
        if hasFlag flags kIgnorePayload then
          match keycmp (s.getKey (s.getBDBKey r.key false)) r.key with
          | none => .stuck
          | some .eq => .ret (.error err)
          | some _ => .ret (.error .DB_NOTFOUND)
        else .ret (.error err)
      | none =>
        match search s r flags pairs with
        | none => .stuck
        | some none => .ret (.error .DB_NOTFOUND)
        | some (some c) => .ret (.ok c) := by
  unfold firstGet search
  cases F (.get 0) with
  | some failure =>
    cases failure with
    | throws e => rfl
    | returns err =>
      cases hasFlag flags kIgnorePayload with
      | true =>
        cases hcmp : keycmp (s.getKey (s.getBDBKey r.key false)) r.key with
        | none => simp [hcmp]
        | some ord => cases ord <;> simp [hcmp]
      | false => rfl
  | none =>
    by_cases hip : hasFlag flags kIgnorePayload = true
    · simp only [if_pos hip, B.setRange_first _ hs]
      cases Cursor.first (fun p => s.dbKeycmp p.1 (s.getBDBKey r.key false) != .lt) pairs with
      | none =>
        cases keycmp (s.getKey (s.getBDBKey r.key false)) r.key with
        | none => rfl
        | some ord => cases ord <;> rfl
      | some c =>
        cases hcmp : keycmp (s.getKey c.cur.1) r.key with
        | none => simp [hcmp]
        | some ord => cases ord <;> simp [hcmp]
    · simp only [if_neg hip, B.getBoth_first _ _ hs]
      cases Cursor.first (fun p => s.dbKeycmp p.1 (s.getBDBKey r.key false) == .eq &&
        p.2 == r.payload) pairs <;> rfl

/-- CORRECT (the body of `Index::Update` and `Index::Delete`), whatever fails and for any record. -/
theorem modifyBody_eq (B : BerkeleyDB) (F : Faults) (hs : SortedBy s.dbKeycmp pairs)
    (w : CursorWrite) (loopError : ErrorCode) :
    modifyBody B F s s.dbKeycmp w loopError r flags pairs =
      match F.thrown .cursor with
      | some e => ⟨.throws e, pairs, false⟩
      | none =>
        match F (.get 0) with
        | some (.throws e) => ⟨.throws e, pairs, false⟩
        | some (.returns err) => ⟨searchFailed s r flags err, pairs, false⟩
        | none =>
          match search s r flags pairs with
          | none => ⟨.stuck, pairs, false⟩
          | some none => ⟨.ret .kErrorNotFound, pairs, false⟩
          | some (some c) => writeFrom F s w loopError flags c := by
  simp only [modifyBody, firstGet_eq B F hs]
  cases F.thrown .cursor with
  | some e => rfl
  | none =>
    cases F (.get 0) with
    | some failure =>
      cases failure with
      | throws e => rfl
      | returns err =>
        simp only [searchFailed]
        by_cases hip : hasFlag flags kIgnorePayload = true
        · simp only [if_pos hip]
          cases keycmp (s.getKey (s.getBDBKey r.key false)) r.key with
          | none => rfl
          | some ord => cases ord <;> rfl
        · simp only [if_neg hip]
    | none =>
      cases hfound : search s r flags pairs with
      | none => rfl
      | some found =>
        cases found with
        | none => rfl
        | some c =>
          obtain ⟨herased, hsplit, hkey⟩ := search_found hfound
          have hwrites := write_and_loop F w loopError herased hkey
          rw [← hsplit] at hwrites
          exact hwrites

end Body

/-! ### The first `get` -/

section FirstGet
variable {s : IndexStructure} {r : Record} {pairs : List Pair}

/-- With a fully set key, `keycmp` compares as Berkeley DB compares with the encoded key. -/
theorem keycmp_record (hr : r.key.FullySet s.type) (bdbKey : Bytes) :
    keycmp (s.getKey bdbKey) r.key = some (s.dbKeycmp bdbKey (s.getBDBKey r.key false)) := by
  obtain ⟨as, hkey, htypes⟩ := hr
  rw [hkey, s.keycmp_getKey_ofAttributes htypes, s.dbKeycmp_eq, s.keyValues_getBDBKey htypes]

theorem sameKey_eq (hr : r.key.FullySet s.type) (p : Pair) :
    r.sameKey s p = (s.dbKeycmp p.1 (s.getBDBKey r.key false) == .eq) := by
  rw [Record.sameKey, keycmp_record hr]; rfl

theorem greaterKey_eq (hr : r.key.FullySet s.type) (p : Pair) :
    r.greaterKey s p = (s.dbKeycmp p.1 (s.getBDBKey r.key false) == .gt) := by
  rw [Record.greaterKey, keycmp_record hr]; rfl

/-- Behind a pair above the record's key no pair has that key. -/
theorem sameKey_behind_greater (hr : r.key.FullySet s.type) (hs : SortedBy s.dbKeycmp pairs)
    {c : Cursor Pair} (hsplit : pairs = c.before ++ c.cur :: c.after)
    (hc : r.greaterKey s c.cur = true) : ∀ q ∈ c.after, r.greaterKey s q = true := by
  intro q hq
  rw [greaterKey_eq hr, beq_iff_eq] at hc ⊢
  rw [hsplit] at hs
  have hle := (List.pairwise_cons.mp (List.pairwise_append.mp hs).2.1).1 q hq
  exact Std.TransCmp.gt_of_isGE_of_gt (Std.OrientedCmp.isGE_iff_isLE.mpr hle) hc

theorem selects_ignoring {flags : UInt8} (h : hasFlag flags kIgnorePayload = true) :
    r.selects s flags = r.sameKey s := by
  funext p; simp [Record.selects, h]

theorem selects_matching {flags : UInt8} (h : hasFlag flags kIgnorePayload = false) :
    r.selects s flags = fun p => r.sameKey s p && p.2 == r.payload := by
  funext p; simp [Record.selects, h]

/-- A range search that stops above the key, or nowhere, shows that the key is not there. -/
theorem first_sameKey_of_range (hr : r.key.FullySet s.type) (hs : SortedBy s.dbKeycmp pairs) :
    Cursor.first (r.sameKey s) pairs =
      match Cursor.first (fun p => s.dbKeycmp p.1 (s.getBDBKey r.key false) != .lt) pairs with
      | some c => if r.sameKey s c.cur then some c else none
      | none => none := by
  have hweak : ∀ p, r.sameKey s p = true →
      (s.dbKeycmp p.1 (s.getBDBKey r.key false) != .lt) = true := by
    intro p hp
    rw [sameKey_eq hr, beq_iff_eq] at hp
    rw [hp]; rfl
  cases hc : Cursor.first (fun p => s.dbKeycmp p.1 (s.getBDBKey r.key false) != .lt) pairs with
  | none =>
    refine Cursor.first_eq_none.mpr fun p hp => ?_
    have hlt := Cursor.first_eq_none.mp hc p hp
    exact Bool.eq_false_iff.mpr fun hsame => by simp [hweak p hsame] at hlt
  | some c =>
    by_cases hsame : r.sameKey s c.cur = true
    · simp only [hsame, if_true]
      exact Cursor.first_narrow hweak hc hsame
    · obtain ⟨-, hsplit, hcur, hbefore⟩ := Cursor.first_eq_some hc
      have hgt : r.greaterKey s c.cur = true := by
        rw [sameKey_eq hr] at hsame
        rw [greaterKey_eq hr]
        cases hcmp : s.dbKeycmp c.cur.1 (s.getBDBKey r.key false) <;> simp_all
      simp only [hsame, Bool.false_eq_true, if_false]
      refine Cursor.first_eq_none.mpr fun p hp => Bool.eq_false_iff.mpr fun hp' => ?_
      have hpeq : s.dbKeycmp p.1 (s.getBDBKey r.key false) = .eq := by
        rwa [sameKey_eq hr, beq_iff_eq] at hp'
      rw [hsplit] at hp
      rcases List.mem_append.mp hp with hp | hp
      · simpa [hpeq] using hbefore p hp
      · rcases List.mem_cons.mp hp with rfl | hp
        · exact hsame hp'
        · have := sameKey_behind_greater hr hs hsplit hgt p hp
          rw [greaterKey_eq hr, hpeq] at this
          contradiction

/-- For a fully set key the range search with its re-check finds what the exact search finds: the
    first pair that the record selects. -/
theorem search_fullySet (hr : r.key.FullySet s.type) (hs : SortedBy s.dbKeycmp pairs)
    (flags : UInt8) : search s r flags pairs = some (Cursor.first (r.selects s flags) pairs) := by
  have hself : keycmp (s.getKey (s.getBDBKey r.key false)) r.key = some .eq := by
    rw [keycmp_record hr]
    exact congrArg some Std.ReflCmp.compare_self
  by_cases hip : hasFlag flags kIgnorePayload = true
  · rw [search, if_pos hip, selects_ignoring hip, first_sameKey_of_range hr hs]
    cases Cursor.first (fun p => s.dbKeycmp p.1 (s.getBDBKey r.key false) != .lt) pairs with
    | none => simp [hself]
    | some c => simp [keycmp_record hr, sameKey_eq hr]
  · have hexact : r.selects s flags = fun p =>
        s.dbKeycmp p.1 (s.getBDBKey r.key false) == .eq && p.2 == r.payload := by
      rw [selects_matching (by simpa using hip)]
      funext p; rw [sameKey_eq hr]
    rw [search, if_neg hip, hexact]

/-- What the loop leaves behind the pair that was found. -/
def afterHit (s : IndexStructure) (w : CursorWrite) (flags : UInt8) (key : Bytes)
    (after : List Pair) : List Pair :=
  if hasFlag flags kMatchDuplicates then
    (reached s.dbKeycmp (dupMove flags) key after).filterMap w.pair ++
      beyond s.dbKeycmp (dupMove flags) key after
  else after

/-- CORRECT (the body when no call fails): kOk if and only if some pair is selected. -/
theorem modifyBody_noFaults (B : BerkeleyDB) (hr : r.key.FullySet s.type)
    (hs : SortedBy s.dbKeycmp pairs) (w : CursorWrite) (loopError : ErrorCode) (flags : UInt8) :
    modifyBody B noFaults s s.dbKeycmp w loopError r flags pairs =
      match Cursor.first (r.selects s flags) pairs with
      | none => ⟨.ret .kErrorNotFound, pairs, false⟩
      | some c =>
        ⟨.ret .kOk, c.before ++ (w.pair c.cur).toList ++ afterHit s w flags c.cur.1 c.after, true⟩ := by
  rw [modifyBody_eq B noFaults hs, search_fullySet hr hs]
  cases Cursor.first (r.selects s flags) pairs with
  | none => rfl
  | some c =>
    by_cases hdup : hasFlag flags kMatchDuplicates = true
    · simp [writeFrom, noFaults, afterHit, hdup, loopResult]
    · simp [writeFrom, noFaults, afterHit, hdup]

/-- Rewriting leaves the keys where they are, whatever the loop reaches. -/
theorem keys_afterHit_putCurrent (payload : Bytes) (flags : UInt8) (key : Bytes) (after : List Pair) :
    (afterHit s (.putCurrent payload) flags key after).map (·.1) = after.map (·.1) := by
  unfold afterHit
  split
  · conv_rhs => rw [← @reached_append_beyond s.dbKeycmp (dupMove flags) key after]
    simp only [CursorWrite.filterMap_putCurrent, List.map_append, List.map_map]
    rfl
  · rfl

theorem afterHit_del_sublist (flags : UInt8) (key : Bytes) (after : List Pair) :
    (afterHit s .del flags key after).Sublist after := by
  unfold afterHit
  split
  · conv_rhs => rw [← @reached_append_beyond s.dbKeycmp (dupMove flags) key after]
    rw [CursorWrite.filterMap_del, List.nil_append]
    exact List.sublist_append_right _ _
  · exact List.Sublist.refl _

/-- Either write keeps the pairs in order. -/
theorem writes_sorted (hs : SortedBy s.dbKeycmp pairs) (w : CursorWrite) (flags : UInt8)
    {c : Cursor Pair} (hsplit : pairs = c.before ++ c.cur :: c.after) :
    SortedBy s.dbKeycmp
      (c.before ++ (w.pair c.cur).toList ++ afterHit s w flags c.cur.1 c.after) := by
  cases w with
  | putCurrent payload =>
    have hkeys : (c.before ++ ((CursorWrite.putCurrent payload).pair c.cur).toList ++
        afterHit s (.putCurrent payload) flags c.cur.1 c.after).map (·.1) = pairs.map (·.1) := by
      rw [hsplit]
      simp only [List.map_append, keys_afterHit_putCurrent, CursorWrite.pair, Option.toList_some,
        List.map_cons, List.append_assoc, List.singleton_append]
    rw [sortedBy_iff_keys, hkeys]
    exact sortedBy_iff_keys.mp hs
  | del =>
    refine List.Pairwise.sublist ?_ hs
    rw [hsplit]
    simp only [CursorWrite.pair, Option.toList_none, List.append_nil]
    exact (List.Sublist.refl _).append ((afterHit_del_sublist ..).trans (List.sublist_cons_self _ _))

/-! ### With kMatchDuplicates: all pairs that are reached, selected or not -/

/-- Behind a pair with the record's key lie pairs with that key and pairs above it. -/
theorem same_or_greater_behind (hr : r.key.FullySet s.type) (hs : SortedBy s.dbKeycmp pairs)
    {c : Cursor Pair} (hsplit : pairs = c.before ++ c.cur :: c.after)
    (hcur : r.sameKey s c.cur = true) {q : Pair} (hq : q ∈ c.after) :
    r.sameKey s q = true ∨ r.greaterKey s q = true := by
  rw [hsplit] at hs
  have hle := (List.pairwise_cons.mp (List.pairwise_append.mp hs).2.1).1 q hq
  rw [sameKey_eq hr, beq_iff_eq] at hcur
  rw [Std.TransCmp.congr_left hcur, ← Std.OrientedCmp.isGE_iff_isLE] at hle
  rw [sameKey_eq hr, greaterKey_eq hr]
  cases hcmp : s.dbKeycmp q.1 (s.getBDBKey r.key false) with
  | lt => simp [hcmp] at hle
  | eq => exact Or.inl rfl
  | gt => exact Or.inr rfl

/-- The pairs that are not reached have other keys. -/
theorem not_sameKey_beyond (hr : r.key.FullySet s.type) (hs : SortedBy s.dbKeycmp pairs)
    {c : Cursor Pair} (hsplit : pairs = c.before ++ c.cur :: c.after)
    (hcur : r.sameKey s c.cur = true) (move : Move) :
    ∀ q ∈ beyond s.dbKeycmp move c.cur.1 c.after, r.sameKey s q = false := by
  rw [sameKey_eq hr, beq_iff_eq] at hcur
  rw [hsplit] at hs
  obtain ⟨hcle, hafter⟩ := List.pairwise_cons.mp (List.pairwise_append.mp hs).2.1
  cases move with
  | DB_NEXT => simp [beyond]
  | DB_NEXT_DUP =>
    -- pairs with the key under the cursor are a prefix of what lies behind it
    have hfall : Falling (fun q : Pair => s.dbKeycmp c.cur.1 q.1 == .eq) c.after := by
      refine hafter.imp_of_mem fun {a b} ha _ hab hb => ?_
      rw [beq_iff_eq] at hb ⊢
      have hba : (s.dbKeycmp a.1 c.cur.1).isLE := by
        rw [Std.TransCmp.congr_right hb]; exact hab
      exact Std.OrientedCmp.isLE_antisymm (hcle a ha) hba
    intro q hq
    have hne := Falling.dropWhile_eq hfall q hq
    refine Bool.eq_false_iff.mpr fun hsame => ?_
    rw [sameKey_eq hr, beq_iff_eq] at hsame
    have hcq := Std.TransCmp.eq_trans hcur (Std.OrientedCmp.eq_symm hsame)
    simp [hcq] at hne

theorem selects_sameKey {flags : UInt8} {p : Pair} (h : r.selects s flags p = true) :
    r.sameKey s p = true := (Bool.and_eq_true_iff.mp h).1

/-- The pairs that are not reached are not selected. -/
theorem not_selects_beyond (hr : r.key.FullySet s.type) (hs : SortedBy s.dbKeycmp pairs)
    {flags : UInt8} {c : Cursor Pair} (hc : Cursor.first (r.selects s flags) pairs = some c) :
    ∀ q ∈ beyond s.dbKeycmp (dupMove flags) c.cur.1 c.after, r.selects s flags q = false := by
  obtain ⟨-, hsplit, hsel, -⟩ := Cursor.first_eq_some hc
  intro q hq
  have hne := not_sameKey_beyond hr hs hsplit (selects_sameKey hsel) (dupMove flags) q hq
  exact Bool.eq_false_iff.mpr fun hsel' => by rw [selects_sameKey hsel'] at hne; contradiction

/-- The found pair, what lies before it, and the pairs that are reached and not reached behind it. -/
theorem split_of_first {flags : UInt8} {c : Cursor Pair}
    (hc : Cursor.first (r.selects s flags) pairs = some c) :
    pairs = c.before ++ c.cur :: (reached s.dbKeycmp (dupMove flags) c.cur.1 c.after ++
      beyond s.dbKeycmp (dupMove flags) c.cur.1 c.after) := by
  rw [reached_append_beyond]
  exact (Cursor.first_eq_some hc).2.1

/-- An update is exact if and only if the loop reaches selected pairs only; rewriting a pair that
    has the new payload already does no harm. -/
theorem update_exact_iff (hr : r.key.FullySet s.type) (hs : SortedBy s.dbKeycmp pairs)
    {flags : UInt8} (hdup : hasFlag flags kMatchDuplicates = true) {c : Cursor Pair}
    (hc : Cursor.first (r.selects s flags) pairs = some c) (payload : Bytes) :
    c.before ++ ((CursorWrite.putCurrent payload).pair c.cur).toList ++
        afterHit s (.putCurrent payload) flags c.cur.1 c.after =
      pairs.map (fun q => if r.selects s flags q then (q.1, payload) else q) ↔
    ∀ q ∈ reached s.dbKeycmp (dupMove flags) c.cur.1 c.after,
      r.selects s flags q = true ∨ q.2 = payload := by
  obtain ⟨-, -, hsel, hbefore⟩ := Cursor.first_eq_some hc
  have hkeep : ∀ l : List Pair, (∀ q ∈ l, r.selects s flags q = false) →
      l.map (fun q => if r.selects s flags q then (q.1, payload) else q) = l := by
    intro l hl
    exact (List.map_congr_left fun q hq => by rw [hl q hq]; rfl).trans (List.map_id l)
  conv_lhs => rhs; rw [split_of_first hc]
  rw [List.map_append, List.map_cons, List.map_append, hkeep _ hbefore,
    hkeep _ (not_selects_beyond hr hs hc), afterHit, if_pos hdup, if_pos hsel]
  simp only [CursorWrite.filterMap_putCurrent, List.append_assoc, List.append_cancel_left_eq]
  simp only [CursorWrite.pair, Option.toList_some, List.singleton_append, List.cons.injEq, true_and,
    List.append_cancel_right_eq, List.map_inj_left]
  refine forall₂_congr fun q _ => ?_
  by_cases hq : r.selects s flags q = true
  · simp [hq]
  · simp [hq, Prod.ext_iff, eq_comm]

/-- A deletion is exact if and only if the loop reaches selected pairs only. -/
theorem delete_exact_iff (hr : r.key.FullySet s.type) (hs : SortedBy s.dbKeycmp pairs)
    {flags : UInt8} (hdup : hasFlag flags kMatchDuplicates = true) {c : Cursor Pair}
    (hc : Cursor.first (r.selects s flags) pairs = some c) :
    c.before ++ (CursorWrite.del.pair c.cur).toList ++ afterHit s .del flags c.cur.1 c.after =
      pairs.filter (fun q => !r.selects s flags q) ↔
    ∀ q ∈ reached s.dbKeycmp (dupMove flags) c.cur.1 c.after, r.selects s flags q = true := by
  obtain ⟨-, -, hsel, hbefore⟩ := Cursor.first_eq_some hc
  have hkeep : ∀ l : List Pair, (∀ q ∈ l, r.selects s flags q = false) →
      l.filter (fun q => !r.selects s flags q) = l := by
    intro l hl
    exact List.filter_eq_self.mpr fun q hq => by rw [hl q hq]; rfl
  conv_lhs => rhs; rw [split_of_first hc]
  rw [List.filter_append, List.filter_cons_of_neg (by simp [hsel]), List.filter_append,
    hkeep _ hbefore, hkeep _ (not_selects_beyond hr hs hc), afterHit, if_pos hdup]
  simp only [CursorWrite.filterMap_del, List.append_assoc, List.append_cancel_left_eq]
  simp only [CursorWrite.pair, Option.toList_none, List.nil_append]
  rw [eq_comm, List.append_left_eq_self, List.filter_eq_nil_iff]
  simp

end FirstGet

end Contest
