import ContestIndex.Results.Atomicity
import ContestIndex.Results.HandleSets
import ContestIndex.Results.LifeCycle
import ContestIndex.Results.TidyCalls

/-! @src example/Util.cc | name:The assertions of the comparators | layer:results

    `keycmp` asserts that two keys have as many attributes and that none of them is NULL; `CheckBounds`
    asserts the former. Keys are compared in three places:

        B-tree                decoded keys on both sides                   no NULL
        GetNext               decoded key, maximum key of the iterator     as many as `Compatible` saw
        UpdateRecord,         decoded key, key of the record               may be NULL
        DeleteRecord

    `keycmp` stops at the first attribute that differs. It reaches a NULL of the record if the key with
    which it is compared agrees with the record on all attributes before. -/

namespace Contest
open Schemes

/-! ### When `keycmp` fails -/

/-- The key has a NULL attribute, and the stored attributes agree with it on all attributes before the
    first one. -/
def AgreesToNull (stored : List Attribute) (key : Key) : Prop :=
  ∃ front back, key = front.map some ++ none :: back ∧
    List.Forall₂ (fun a b => attcmp a b = .eq) (stored.take front.length) front

theorem agreesToNull_none (a : Attribute) (as : List Attribute) (key : Key) :
    AgreesToNull (a :: as) (none :: key) := ⟨[], key, rfl, .nil⟩

theorem agreesToNull_cons {a b : Attribute} {as : List Attribute} {key : Key} :
    AgreesToNull (a :: as) (some b :: key) ↔ attcmp a b = .eq ∧ AgreesToNull as key := by
  constructor
  · rintro ⟨front, back, hkey, hagree⟩
    rcases front with _ | ⟨c, front⟩
    · cases hkey
    · rw [List.map_cons, List.cons_append, List.cons.injEq, Option.some.injEq] at hkey
      obtain ⟨rfl, hkey⟩ := hkey
      rw [List.length_cons, List.take_succ_cons, List.forall₂_cons] at hagree
      exact ⟨hagree.1, front, back, hkey, hagree.2⟩
  · rintro ⟨heq, front, back, hkey, hagree⟩
    refine ⟨b :: front, back, by rw [hkey]; rfl, ?_⟩
    rw [List.length_cons, List.take_succ_cons]
    exact .cons heq hagree

theorem keycmpLoop_eq_none : ∀ {as : List Attribute} {key : Key}, as.length = key.length →
    (keycmpLoop (as.map some) key = none ↔ AgreesToNull as key)
  | [], [], _ => by simp [keycmpLoop, AgreesToNull]
  | a :: as, none :: key, _ => by simp [keycmpLoop, agreesToNull_none]
  | a :: as, some b :: key, hlen => by
    have ih := @keycmpLoop_eq_none as key (Nat.succ.inj hlen)
    rw [agreesToNull_cons, List.map_cons, keycmpLoop]
    cases attcmp a b with
    | eq => simpa using ih
    | lt => simp
    | gt => simp

/-- `keycmp` on a decoded key and a key of the same length. -/
theorem keycmp_eq_none_iff {s : IndexStructure} {bdbKey : Bytes} {key : Key}
    (hlen : key.length = s.attributeCount) :
    keycmp (s.getKey bdbKey) key = none ↔ AgreesToNull (attributesOf s.type bdbKey) key := by
  have hsame : (attributesOf s.type bdbKey).length = key.length := by
    rw [length_attributesOf, hlen]
    rfl
  rw [← keycmpLoop_eq_none hsame, keycmp, IndexStructure.getKey, Key.ofAttributes,
    if_pos (by rw [List.length_map, hsame])]

/-! ### Update and delete -/

section Body
variable {B : BerkeleyDB} {F : Faults} {s : IndexStructure} {cmp : Bytes → Bytes → Ordering}
  {r : Record} {pairs : List Pair} {flags : UInt8}

/-- The key that the range search of an update or a delete compares with the record's: the one that
    DB_SET_RANGE has found, or the encoded key of the record if the `get` has found nothing or returned
    an error. -/
def landing (B : BerkeleyDB) (F : Faults) (s : IndexStructure) (cmp : Bytes → Bytes → Ordering)
    (r : Record) (pairs : List Pair) : Option Bytes :=
  let key := s.getBDBKey r.key false
  match F (.get 0) with
  | some (.throws _) => none
  | some (.returns _) => some key
  | none =>
    match B.setRange cmp pairs key with
    | some c => some c.cur.1
    | none => some key

/-- The loop over the duplicates comes back if its check does. -/
theorem dupLoop_comesBack {move : Move} {check : Option Ordering} (hcheck : check ≠ none)
    (cw : CursorWrite) (n : Nat) (c : Cursor Pair) :
    (dupLoop F cmp move check cw n c).1 ≠ .stuck := by
  fun_induction dupLoop F cmp move check cw n c with
  | case1 => simp
  | case2 => simp
  | case3 => simp
  | case4 => contradiction
  | case5 => simp
  | case6 => simp
  | case7 n c _ d _ heq _ ih =>
    rw [heq] at ih
    exact ih
  | case8 => simp

/-- The `get` and the comparison behind it. -/
theorem firstGet_stuck_iff :
    firstGet B F s cmp r (hasFlag flags kIgnorePayload) pairs = .stuck ↔
      hasFlag flags kIgnorePayload = true ∧
        ∃ k, landing B F s cmp r pairs = some k ∧ keycmp (s.getKey k) r.key = none := by
  rcases hget : F (.get 0) with _ | ⟨e⟩ | ⟨err⟩
  · rcases hip : hasFlag flags kIgnorePayload with _ | _
    · simp [firstGet, hget]
    · rcases hset : B.setRange cmp pairs (s.getBDBKey r.key false) with _ | c
      · rcases hcmp : keycmp (s.getKey (s.getBDBKey r.key false)) r.key with _ | _ | _ | _ <;>
          simp [firstGet, landing, hget, hset, hcmp]
      · rcases hcmp : keycmp (s.getKey c.cur.1) r.key with _ | _ | _ | _ <;>
          simp [firstGet, landing, hget, hset, hcmp]
  · simp [firstGet, landing, hget]
  · rcases hip : hasFlag flags kIgnorePayload with _ | _
    · simp [firstGet, hget]
    · rcases hcmp : keycmp (s.getKey (s.getBDBKey r.key false)) r.key with _ | _ | _ | _ <;>
        simp [firstGet, landing, hget, hcmp]

/-- What is found with kIgnorePayload has been compared. -/
theorem firstGet_found {c : Cursor Pair} (hip : hasFlag flags kIgnorePayload = true)
    (hfound : firstGet B F s cmp r (hasFlag flags kIgnorePayload) pairs = .ret (.ok c)) :
    keycmp (s.getKey c.cur.1) r.key = some .eq := by
  rcases hget : F (.get 0) with _ | ⟨e⟩ | ⟨err⟩
  · rcases hset : B.setRange cmp pairs (s.getBDBKey r.key false) with _ | d
    · rcases hcmp : keycmp (s.getKey (s.getBDBKey r.key false)) r.key with _ | _ | _ | _ <;>
        simp [firstGet, hip, hget, hset, hcmp] at hfound
    · rcases hcmp : keycmp (s.getKey d.cur.1) r.key with _ | _ | _ | _ <;>
        simp [firstGet, hip, hget, hset, hcmp] at hfound
      rw [← hfound, hcmp]
  · simp [firstGet, hget] at hfound
  · rcases hcmp : keycmp (s.getKey (s.getBDBKey r.key false)) r.key with _ | _ | _ | _ <;>
      simp [firstGet, hip, hget, hcmp] at hfound

/-- The body of `Index::Update` and `Index::Delete` stops at an assertion in the first comparison or
    nowhere. -/
theorem modifyBody_stuck_iff (cw : CursorWrite) (loopError : ErrorCode) :
    (modifyBody B F s cmp cw loopError r flags pairs).outcome = .stuck ↔
      F.thrown .cursor = none ∧ hasFlag flags kIgnorePayload = true ∧
        ∃ k, landing B F s cmp r pairs = some k ∧ keycmp (s.getKey k) r.key = none := by
  rw [← @firstGet_stuck_iff B F s cmp r pairs flags, modifyBody]
  rcases F.thrown .cursor with _ | e
  · rcases hfirst : firstGet B F s cmp r (hasFlag flags kIgnorePayload) pairs with
      (err | c) | e | _
    · simp
    · have hcheck : (if hasFlag flags kIgnorePayload then
          dupLoop F cmp .DB_NEXT (keycmp (s.getKey (cw.apply c).cur.1) r.key) cw 1 (cw.apply c)
          else dupLoop F cmp .DB_NEXT_DUP (some .eq) cw 1 (cw.apply c)).1 ≠ .stuck := by
        split
        · next hip =>
          -- the writes keep the key, so the check of the loop has succeeded before
          rw [CursorWrite.apply_key, firstGet_found hip hfirst]
          exact dupLoop_comesBack (by simp) cw 1 _
        · exact dupLoop_comesBack (by simp) cw 1 _
      simp only [true_and, reduceCtorEq, iff_false]
      split
      · simp
      · simp
      · split
        · split
          · simp
          · next heq => exact absurd (congrArg Prod.fst heq) hcheck
          · simp
        · simp
    · simp
    · simp
  · simp

end Body

/-! ### What the calls reach -/

/-- The record and the flags with which a modification searches. -/
def Modification.searches : Modification → Option (Record × UInt8)
  | insert _ => none
  | update r _ flags => some (r, flags)
  | delete r flags => some (r, flags)

namespace World
variable {B : BerkeleyDB} {w w' : World} {F : Faults} {h : IndexPtr} {o : Opened} {name : String}

/-- The call fails an assertion: that of the B-tree comparator on some keys, or, when the objects that
    it works with are all there, one that keeps it from coming back. -/
def AssertFails (B : BerkeleyDB) (w : World) (c : Faults × Call) : Prop :=
  (∃ name t a b, w.known name = some t ∧ keycmp (t.getKey a) (t.getKey b) = none) ∨
    match c.2 with
    | .modify tx h m => (∃ o, w.opened h = some o) ∧ (w.modify B c.1 tx h m).1 = none
    | .getNext (some i) => (∃ it o, w.iterators i = some it ∧ it.cursor ≠ none ∧
        w.opened it.index = some o) ∧ (w.getNext B c.1 (some i)).1 = none
    | _ => False

/-- An update or a delete with kIgnorePayload passes the checks and finds a key that agrees with the
    record up to an attribute that is NULL in the record. -/
def Trips (B : BerkeleyDB) (w : World) (c : Faults × Call) : Prop :=
  match c.2 with
  | .modify _ h m => ∃ o r flags k, w.opened h = some o ∧ o.index.closed = false ∧
      m.searches = some (r, flags) ∧ r.key.length = o.s.attributeCount ∧
      c.1.thrown .txnBegin = none ∧ c.1.thrown .cursor = none ∧
      hasFlag flags kIgnorePayload = true ∧ landing B c.1 o.s o.cmp r o.pairs = some k ∧
      AgreesToNull (attributesOf o.s.type k) r.key
  | _ => False

theorem tree_never_fails (t : IndexStructure) (a b : Bytes) :
    keycmp (t.getKey a) (t.getKey b) ≠ none := by
  rw [t.keycmp_getKey]
  simp

theorem caught_eq_none {handler : DbException → ErrorCode} {ended : Outcome ErrorCode × World} :
    (caught handler ended).1 = none ↔ ended.1 = .stuck := by
  obtain ⟨_ | _ | _, v⟩ := ended <;> simp [caught]

/-- The checks of a modification through a handle that works. -/
theorem guarded_opened (ho : w.opened h = some o) (r : Record)
    (work : IndexPtr → Record → Answer × World) :
    (w.guarded (some h) (some r) work).1 = none ↔
      o.index.closed = false ∧ r.key.length = o.s.attributeCount ∧ (work h r).1 = none := by
  obtain ⟨hhandle, hstructure, hlive, -⟩ := opened_eq_some ho
  rcases hclosed : o.index.closed with _ | _
  · by_cases hlen : r.key.length = o.s.attributeCount <;>
      simp [guarded, refusal, hhandle, hclosed, compatible, hstructure, hlive, hlen]
  · simp [guarded, refusal, hhandle, hclosed]

theorem indexInsert_comesBack (B : BerkeleyDB) (F : Faults) (ho : w.opened h = some o)
    (hwritable : o.s.readOnly = false) (tx : Option TxnPtr) (r : Record) :
    (w.indexInsert B F tx h r).1 ≠ .stuck := by
  rw [indexInsert_opened B F ho hwritable]
  rcases F .put with _ | ⟨_ | _⟩ <;> simp

theorem indexModify_stuck_iff (B : BerkeleyDB) (F : Faults) (ho : w.opened h = some o)
    (hwritable : o.s.readOnly = false) (cw : CursorWrite) (loopError : ErrorCode)
    (tx : Option TxnPtr) (r : Record) (flags : UInt8) :
    (w.indexModify B F cw loopError tx h r flags).1 = .stuck ↔
      F.thrown .txnBegin = none ∧ F.thrown .cursor = none ∧ hasFlag flags kIgnorePayload = true ∧
        ∃ k, landing B F o.s o.cmp r o.pairs = some k ∧ keycmp (o.s.getKey k) r.key = none := by
  rw [← modifyBody_stuck_iff cw loopError, indexModify_opened B F cw loopError ho hwritable]
  rcases F.thrown .txnBegin with _ | e
  · simp only [true_and]
    rcases (modifyBody B F o.s o.cmp cw loopError r flags o.pairs).outcome with code | e | _
    · rcases F.thrown .txnCommit with _ | e <;> simp
    · simp
    · simp
  · simp

theorem modify_comesBack_iff (B : BerkeleyDB) (F : Faults) (ho : w.opened h = some o)
    (hwritable : o.s.readOnly = false) (tx : Option TxnPtr) (m : Modification) :
    (w.modify B F tx h m).1 = none ↔ Trips B w (F, .modify tx h m) := by
  have htrips : ∀ {r : Record} {flags : UInt8}, m.searches = some (r, flags) →
      (Trips B w (F, .modify tx h m) ↔ o.index.closed = false ∧ r.key.length = o.s.attributeCount ∧
        F.thrown .txnBegin = none ∧ F.thrown .cursor = none ∧
        hasFlag flags kIgnorePayload = true ∧
        ∃ k, landing B F o.s o.cmp r o.pairs = some k ∧ keycmp (o.s.getKey k) r.key = none) := by
    intro r flags hm
    constructor
    · rintro ⟨o', r', flags', k, ho', hclosed, hm', hlen, hbegin, hcursor, hip, hk, hagree⟩
      obtain rfl : o = o' := Option.some.inj (ho.symm.trans ho')
      obtain ⟨rfl, rfl⟩ := Prod.mk.inj (Option.some.inj (hm.symm.trans hm'))
      exact ⟨hclosed, hlen, hbegin, hcursor, hip, k, hk, (keycmp_eq_none_iff hlen).mpr hagree⟩
    · rintro ⟨hclosed, hlen, hbegin, hcursor, hip, k, hk, hcmp⟩
      exact ⟨o, r, flags, k, ho, hclosed, hm, hlen, hbegin, hcursor, hip, hk,
        (keycmp_eq_none_iff hlen).mp hcmp⟩
  cases m with
  | insert r =>
    constructor
    · intro hnone
      obtain ⟨-, -, hstuck⟩ := (guarded_opened ho r _).mp hnone
      exact absurd (caught_eq_none.mp hstuck) (indexInsert_comesBack B F ho hwritable tx r)
    · rintro ⟨o', r', flags', k, -, -, hm, -⟩
      cases hm
  | update r payload flags =>
    rw [htrips rfl, ← indexModify_stuck_iff B F ho hwritable (.putCurrent payload) .kErrorNotFound tx]
    refine (guarded_opened ho r _).trans ?_
    rw [caught_eq_none]
    rfl
  | delete r flags =>
    rw [htrips rfl, ← indexModify_stuck_iff B F ho hwritable .del .kErrorGenericFailure tx]
    refine (guarded_opened ho r _).trans ?_
    rw [caught_eq_none]
    rfl

/-! ### The bounds of an iterator -/

/-- Every iterator has a maximum key with as many attributes as the index of its handle. -/
def BoundsFit (w : World) : Prop :=
  ∀ i it idx p s, w.iterators i = some it → w.handles it.index = some idx →
    idx.structure_ = some p → w.structures p = some s → it.maxKey.length = s.attributeCount

/-- From `w` to `w'` old handles stay with their structures, and old structures keep their columns. -/
structure Typed (w w' : World) : Prop where
  handles : ∀ h idx', h < w.free → w'.handles h = some idx' →
    ∃ idx, w.handles h = some idx ∧ idx'.structure_ = idx.structure_
  structures : ∀ p s', p < w.free → w'.structures p = some s' →
    ∃ s, w.structures p = some s ∧ s'.type = s.type

namespace Typed

theorem refl (w : World) : Typed w w :=
  ⟨fun _ idx _ hidx => ⟨idx, hidx, rfl⟩, fun _ s _ hs => ⟨s, hs, rfl⟩⟩

theorem of_same (hk : SameObjects w w') : Typed w w' where
  handles := by
    intro h idx _ hidx
    rw [hk.handles] at hidx
    exact ⟨idx, hidx, rfl⟩
  structures := by
    intro p s' _ hs'
    obtain ⟨s, hs, -, htype⟩ := hk.structures p s' hs'
    exact ⟨s, hs, htype⟩

theorem of_only (hk : OnlyHandles w w') : Typed w w' where
  handles := by
    intro h idx' _ hidx'
    obtain ⟨idx, hidx, -, hsame⟩ := hk.handles h idx' hidx'
    exact ⟨idx, hidx, hsame⟩
  structures := by
    intro p s' _ hs'
    have hcore := hk.structures p
    rw [hs', Option.map_some, eq_comm, Option.map_eq_some_iff] at hcore
    obtain ⟨s, hs, hsame⟩ := hcore
    exact ⟨s, hs, (congrArg Prod.fst hsame).symm⟩

/-- Structures may be destroyed. -/
theorem destroy (hk : Typed w w') {v : World} (hv : v.handles = w'.handles) {p : StructurePtr}
    (hs : v.structures = Function.update w'.structures p none) : Typed w v where
  handles := by rw [hv]; exact hk.handles
  structures := by
    intro q t hq ht
    rw [hs] at ht
    rcases eq_or_ne q p with rfl | hne
    · simp at ht
    · rw [Function.update_of_ne hne] at ht
      exact hk.structures q t hq ht

end Typed

/-- An old iterator keeps its bounds, as long as what it depends on is typed as before. -/
theorem BoundsFit.kept (hw : w.BoundsFit) (htidy : w.Tidy) (hk : Typed w w') {i : IteratorPtr}
    {it it' : Iterator} (hit : w.iterators i = some it) (hindex : it'.index = it.index)
    (hmax : it'.maxKey = it.maxKey) : ∀ idx p s, w'.handles it'.index = some idx →
      idx.structure_ = some p → w'.structures p = some s → it'.maxKey.length = s.attributeCount := by
  intro idx' p s' hidx' hp hs'
  rw [hindex] at hidx'
  obtain ⟨idx, hidx, hsame⟩ := hk.handles _ _ (htidy.iterated i it hit) hidx'
  rw [hsame] at hp
  obtain ⟨s, hs, htype⟩ := hk.structures p s' (htidy.referred _ _ _ hidx hp) hs'
  rw [hmax, IndexStructure.attributeCount, htype]
  exact hw i it idx p s hit hidx hp hs

/-- A call that leaves the iterators alone. -/
theorem BoundsFit.typed (hw : w.BoundsFit) (htidy : w.Tidy) (hk : Typed w w')
    (hiterators : w'.iterators = w.iterators) : w'.BoundsFit := by
  intro i it idx p s hit
  rw [hiterators] at hit
  exact hw.kept htidy hk hit rfl rfl idx p s

/-- A call that changes one iterator, which keeps its handle and its bounds. -/
theorem BoundsFit.setIterator (hw : w.BoundsFit) (htidy : w.Tidy) {i : IteratorPtr}
    {it it' : Iterator} (hit : w.iterators i = some it) (hindex : it'.index = it.index)
    (hmax : it'.maxKey = it.maxKey) : (w.setIterator i it').BoundsFit := by
  intro j u idx p s hj
  rcases eq_or_ne j i with rfl | hne
  · obtain rfl : it' = u := by simpa [World.setIterator] using hj
    exact hw.kept htidy (.refl w) hit hindex hmax idx p s
  · exact hw j u idx p s (by simpa [World.setIterator, hne] using hj)

/-- The bounds do not move with the cursors. -/
theorem BoundsFit.follow {w' : World} (hw' : w'.BoundsFit) (B : BerkeleyDB) (w : World) (h : IndexPtr)
    (m : Modification) : (w.follow B h m w').BoundsFit := by
  obtain ⟨g, hfollow⟩ := follow_shifted B w h m w'
  rw [hfollow]
  intro i it' idx p s hit'
  obtain ⟨it, hit, rfl⟩ := shifted_iterators.mp hit'
  exact hw' i it idx p s hit

theorem BoundsFit.dropIterator (hw : w.BoundsFit) (i : IteratorPtr) :
    { w with iterators := Function.update w.iterators i none }.BoundsFit := by
  intro j it idx p s hj
  rcases eq_or_ne j i with rfl | hne
  · simp at hj
  · exact hw j it idx p s (by simpa [hne] using hj)

theorem opened_attributeCount (hw : w.BoundsFit) {i : IteratorPtr} {it : Iterator}
    (hit : w.iterators i = some it) (ho : w.opened it.index = some o) :
    it.maxKey.length = o.s.type.length := by
  obtain ⟨hhandle, hstructure, hlive, -⟩ := opened_eq_some ho
  exact hw i it o.index o.ptr o.s hit hhandle hstructure hlive

theorem close_bounds (F : Faults) (it : Iterator) :
    (it.close F).2.index = it.index ∧ (it.close F).2.maxKey = it.maxKey := by
  rw [Iterator.close]
  split
  · exact ⟨rfl, rfl⟩
  · rcases Iterator.closeCursor_cases F { it with closed := true } with ⟨e, hcursor, -⟩ | hcursor
    · rw [hcursor]
      exact ⟨rfl, rfl⟩
    · rw [hcursor]
      exact ⟨rfl, rfl⟩

/-- A new handle, which may be registered. -/
theorem openHandle_typed (F : Faults) (w : World) (name : String) :
    (w.openHandle F name).2.1 = w.free ∧
      (∀ h, h ≠ w.free → (w.openHandle F name).2.2.handles h = w.handles h) ∧
      (∀ p s', (w.openHandle F name).2.2.structures p = some s' →
        ∃ s, w.structures p = some s ∧ s'.type = s.type) ∧
      (w.openHandle F name).2.2.iterators = w.iterators := by
  have hsame : ∀ p s', w.structures p = some s' → ∃ s, w.structures p = some s ∧ s'.type = s.type :=
    fun _ s' hs' => ⟨s', hs', rfl⟩
  simp only [openHandle]
  split
  · exact ⟨rfl, fun h hne => Function.update_of_ne hne .., hsame, rfl⟩
  · next p _ =>
    split
    · exact ⟨rfl, fun h hne => Function.update_of_ne hne .., hsame, rfl⟩
    · next s hs =>
      have hregistered : ∀ q s', Function.update w.structures p
          (some { s with handles := Insert.insert w.free s.handles }) q = some s' →
            ∃ s, w.structures q = some s ∧ s'.type = s.type := by
        intro q s' hs'
        rcases eq_or_ne q p with rfl | hne
        · obtain rfl : { s with handles := Insert.insert w.free s.handles } = s' := by simpa using hs'
          exact ⟨s, hs, rfl⟩
        · exact hsame q s' (by simpa [hne] using hs')
      split
      · exact ⟨rfl, fun h hne => Function.update_of_ne hne .., hregistered, rfl⟩
      · split
        · exact ⟨rfl, fun h hne => Function.update_of_ne hne .., hregistered, rfl⟩
        · refine ⟨rfl, fun h hne => ?_, hregistered, rfl⟩
          simp [setHandle, setStructure, hne]

theorem openIndex_typed (F : Faults) (w : World) (name : String) :
    Typed w (w.openIndex F name).2.2 ∧ (w.openIndex F name).2.2.iterators = w.iterators := by
  obtain ⟨hfresh, hhandles, hstructures, hiterators⟩ := openHandle_typed F w name
  have hopened : Typed w (w.openHandle F name).2.2 :=
    ⟨fun h idx hlt hidx => ⟨idx, (hhandles h hlt.ne).symm.trans hidx, rfl⟩,
      fun p s' _ => hstructures p s'⟩
  rcases openIndex_cases F w name with hsame | hended | hdeleted
  · rw [hsame]
    exact ⟨.refl w, rfl⟩
  · rw [hended]
    exact ⟨hopened, hiterators⟩
  · rw [hdeleted]
    refine ⟨⟨fun h idx hlt hidx => hopened.handles h idx hlt ?_, hopened.structures⟩, hiterators⟩
    have hne : h ≠ (w.openHandle F name).2.1 := hlt.ne.trans_eq hfresh.symm
    simpa [hne] using hidx

theorem createIndex_typed (F : Faults) (w : World) (name : String)
    (types : Option (List AttributeType)) :
    Typed w (w.createIndex F name types).2 ∧
      (w.createIndex F name types).2.iterators = w.iterators := by
  rcases createIndex_cases F w name types with ⟨code, -, hsame⟩ | ⟨ts, -, -, -, -, hcreated⟩
  · rw [hsame]
    exact ⟨.refl w, rfl⟩
  · rw [hcreated]
    exact ⟨⟨fun _ idx _ hidx => ⟨idx, hidx, rfl⟩, fun p s hp hs =>
      ⟨s, (created_structures ts hp.ne).symm.trans hs, rfl⟩⟩, rfl⟩

theorem deleteIndex_typed (F : Faults) (w : World) (name : String) :
    Typed w (w.deleteIndex F name).2 ∧ (w.deleteIndex F name).2.iterators = w.iterators := by
  have hremove : Typed w (w.remove F name).2 ∧ (w.remove F name).2.iterators = w.iterators := by
    rcases remove_cases F w name with
      ⟨-, hsame⟩ | ⟨p, s, v, -, -, -, hclosed, ⟨-, hdestroyed⟩ | ⟨-, herased⟩⟩
    · rw [hsame]
      exact ⟨.refl w, rfl⟩
    · rw [hdestroyed]
      exact ⟨(Typed.of_only hclosed).destroy rfl rfl, hclosed.iterators⟩
    · rw [herased]
      exact ⟨(Typed.of_only hclosed).destroy rfl rfl, hclosed.iterators⟩
  rcases deleteIndex_cases F w name with hsame | hended | ⟨v, hv, hdeleted⟩
  · rw [hsame]
    exact ⟨.refl w, rfl⟩
  · rwa [hended]
  · rw [hv] at hremove
    rw [hdeleted]
    exact ⟨⟨hremove.1.handles, hremove.1.structures⟩, hremove.2⟩

theorem getRecords_boundsFit (hw : w.BoundsFit) (htidy : w.Tidy) (F : Faults) (tx : Option TxnPtr)
    (idx : Option IndexPtr) (minKeys maxKeys : Key) (var : Option (Option IteratorPtr)) :
    (w.getRecords F tx idx minKeys maxKeys var).2.2.BoundsFit := by
  have hclose : ∀ {i : IteratorPtr} {old : Iterator}, w.iterators i = some old →
      (w.setIterator i (old.close F).2).BoundsFit := fun {i old} hold =>
    hw.setIterator htidy hold (close_bounds F old).1 (close_bounds F old).2
  -- the new iterator has bounds that the API has checked
  have hmade : ∀ {h : IndexPtr}, w.compatible h maxKeys = .ret true → ∀ s,
      (w.newIterator tx h s minKeys maxKeys).2.BoundsFit := by
    intro h hmax s i it idx p t hit hidx hp ht
    rcases eq_or_ne i w.free with rfl | hne
    · simp only [newIterator, setIterator, Function.update_self, Option.some.injEq] at hit
      subst hit
      have hidx' : w.handles h = some idx := hidx
      have ht' : w.structures p = some t := ht
      rcases hclosed : idx.closed with _ | _
      · simpa [compatible, hidx', hclosed, hp, ht'] using hmax
      · simp [compatible, hidx', hclosed] at hmax
    · have hold : w.iterators i = some it := (Function.update_of_ne hne ..).symm.trans hit
      exact hw i it idx p t hold hidx hp ht
  unfold getRecords
  simp only
  repeat' split
  all_goals first
    | exact hw
    | exact hmade ‹_› _
    | (rename_i heq; have hset := hclose ‹_›; rw [heq] at hset; exact hset)

theorem getNext_boundsFit (hw : w.BoundsFit) (htidy : w.Tidy) (B : BerkeleyDB) (F : Faults)
    (var : Option IteratorPtr) : (w.getNext B F var).2.2.BoundsFit := by
  rcases var with _ | i
  · exact hw
  rcases hit : w.iterators i with _ | it
  · simp only [getNext, hit]
    exact hw
  rcases hclosed : it.closed with _ | _
  · rcases ho : w.opened it.index with _ | o
    · simp only [getNext, hit, hclosed, ho, Bool.false_eq_true, if_false]
      exact hw
    · have hkept : (it.next B F o.s o.cmp o.pairs).2.index = it.index ∧
          (it.next B F o.s o.cmp o.pairs).2.maxKey = it.maxKey := by
        rcases hcursor : it.cursor with _ | position
        · simp [Iterator.next, hcursor]
        · have hleaves := Iterator.next_leaves B F o.cmp o.pairs (opened_attributeCount hw hit ho) hclosed
            (by simp [hcursor])
          exact ⟨hleaves.index, hleaves.maxKey⟩
      have hset := hw.setIterator htidy hit hkept.1 hkept.2
      simp only [getNext, hit, hclosed, ho, Bool.false_eq_true, if_false]
      split
      all_goals
        rename_i heq
        rw [heq] at hset
      · split <;> exact hset
      · exact hset
      · exact hset
      · exact hset
  · simp only [getNext, hit, hclosed, if_true]
    exact hw

theorem closeIterator_boundsFit (hw : w.BoundsFit) (htidy : w.Tidy) (F : Faults)
    (var : Option IteratorPtr) : (w.closeIterator F var).2.2.BoundsFit := by
  rcases var with _ | i
  · exact hw
  rcases hit : w.iterators i with _ | it
  · simp only [closeIterator, hit]
    exact hw
  obtain ⟨hindex, hmax⟩ := close_bounds F it
  have hset := hw.setIterator htidy hit hindex hmax
  simp only [closeIterator, hit]
  split
  · exact hw.dropIterator i
  · split
    · exact hw.dropIterator i
    · next heq =>
      rw [heq] at hset
      exact hset

/-- STEP: every call keeps the bounds of all iterators fitting, whatever fails in it. -/
theorem perform_boundsFit (B : BerkeleyDB) (hw : w.BoundsFit) (htidy : w.Tidy) (c : Faults × Call) :
    (faultyCall B w c).2.BoundsFit := by
  obtain ⟨F, call⟩ := c
  have hsame : ∀ {v : World}, SameObjects w v → v.BoundsFit := fun hk =>
    hw.typed htidy (.of_same hk) hk.iterators
  cases call with
  | beginTransaction => exact hsame (beginTransaction_same B F w)
  | abortTransaction tx => exact hsame (abortTransaction_same F w tx)
  | commitTransaction tx => exact hsame (commitTransaction_same F w tx)
  | modify tx idx m => exact (hsame (modify_same B F w tx idx m)).follow B w idx m
  | createIndex name types =>
    obtain ⟨htyped, hiterators⟩ := createIndex_typed F w name types
    exact hw.typed htidy htyped hiterators
  | openIndex name =>
    obtain ⟨htyped, hiterators⟩ := openIndex_typed F w name
    exact hw.typed htidy htyped hiterators
  | closeIndex idx =>
    have hclosed := closeIndex_only F w idx
    exact hw.typed htidy (.of_only hclosed) hclosed.iterators
  | deleteIndex name =>
    obtain ⟨htyped, hiterators⟩ := deleteIndex_typed F w name
    exact hw.typed htidy htyped hiterators
  | getRecords tx idx minKeys maxKeys var =>
    exact getRecords_boundsFit hw htidy F tx idx minKeys maxKeys var
  | getNext var => exact getNext_boundsFit hw htidy B F var
  | closeIterator var => exact closeIterator_boundsFit hw htidy F var

/-- RUN: in every state that clients can reach the bounds fit. -/
theorem Reachable.boundsFit (hw : Reachable B w) : w.BoundsFit := by
  obtain ⟨calls, hlive, rfl⟩ := hw
  have hstep : ∀ v (c : Faults × Call), (v.Tidy ∧ v.Consistent) ∧ v.BoundsFit → c.2.Live v →
      ((faultyCall B v c).2.Tidy ∧ (faultyCall B v c).2.Consistent) ∧
        (faultyCall B v c).2.BoundsFit := fun v c hv hc =>
    ⟨⟨perform_tidy B c.1 hv.1.1 hv.1.2 hc, perform_consistent B c.1 hv.1.2 hc⟩,
      perform_boundsFit B hv.2 hv.1.1 c⟩
  have hinitial : (initial.Tidy ∧ initial.Consistent) ∧ initial.BoundsFit :=
    ⟨⟨initial_tidy, initial_consistent⟩, by simp [BoundsFit, initial]⟩
  exact (run_keeps hstep hinitial hlive).2

/-- `GetNext` on an iterator with a cursor comes back. -/
theorem getNext_comesBack (hw : w.BoundsFit) (B : BerkeleyDB) (F : Faults) {i : IteratorPtr}
    {it : Iterator} (hit : w.iterators i = some it) (hcursor : it.cursor ≠ none)
    (ho : w.opened it.index = some o) : (w.getNext B F (some i)).1 ≠ none := by
  rcases hclosed : it.closed with _ | _
  · have hback := (Iterator.next_leaves B F o.cmp o.pairs (opened_attributeCount hw hit ho) hclosed
      hcursor).comesBack
    rcases hnext : it.next B F o.s o.cmp o.pairs with ⟨found | e | _, it'⟩
    · rcases found with _ | _
      · simp [getNext, hit, hclosed, ho, hnext]
      · by_cases hended : it'.ended = true <;> simp [getNext, hit, hclosed, ho, hnext, hended]
    · simp [getNext, hit, hclosed, ho, hnext]
    · rw [hnext] at hback
      exact absurd rfl hback
  · simp [getNext, hit, hclosed]

/-- DIVERGES: in a reachable state a call fails an assertion exactly if it is an update or a delete with
    kIgnorePayload whose search lands on a key that agrees with the record up to a NULL. The states are
    those of runs in which `DeleteIndex` closes the handles by `closeHandles`. -/
theorem assertions_hold_iff (hw : Reachable B w) (c : Faults × Call) :
    ¬AssertFails B w c ↔ ¬Trips B w c := by
  refine not_congr ?_
  have htree : ¬∃ name t a b, w.known name = some t ∧ keycmp (t.getKey a) (t.getKey b) = none := by
    rintro ⟨name, t, a, b, -, hnone⟩
    exact tree_never_fails t a b hnone
  rw [AssertFails, or_iff_right htree]
  obtain ⟨F, call⟩ := c
  cases call with
  | modify tx h m =>
    constructor
    · rintro ⟨⟨o, ho⟩, hnone⟩
      have hwritable := hw.consistent.writable o.ptr o.s (opened_eq_some ho).2.2.1
      exact (modify_comesBack_iff B F ho hwritable tx m).mp hnone
    · rintro ⟨o, r, flags, k, ho, htrips⟩
      have hwritable := hw.consistent.writable o.ptr o.s (opened_eq_some ho).2.2.1
      exact ⟨⟨o, ho⟩, (modify_comesBack_iff B F ho hwritable tx m).mpr ⟨o, r, flags, k, ho, htrips⟩⟩
  | getNext var =>
    rcases var with _ | i
    · exact Iff.rfl
    · constructor
      · rintro ⟨⟨it, o, hit, hcursor, ho⟩, hnone⟩
        exact absurd hnone (getNext_comesBack hw.boundsFit B F hit hcursor ho)
      · exact False.elim
  | _ => exact Iff.rfl

/-- Updating a record with a NULL attribute ends the process, even if the index is empty. -/
theorem null_record_trips_assertion :
    Reachable .plain (single [.kShort] []) ∧ AssertFails .plain (single [.kShort] [])
      (noFaults, .modify none 1 (.update ⟨[none], []⟩ [] kIgnorePayload)) := by
  have hopened := (@single_open [.kShort] [] List.Pairwise.nil).opened
  exact ⟨single_reachable .plain (by decide), Or.inr ⟨⟨_, hopened⟩, by decide +kernel⟩⟩

/-- The stored record (3, 2). -/
def threeTwo : Pair := (leBytes 4 3 ++ leBytes 8 2, [7])

/-- The search for (2, -) finds a key that differs in front of the NULL, the one for (3, -) a key that
    agrees. -/
theorem assertions_hold_iff_at :
    let w := (faultyCall .plain (single [.kShort, .kInt] []) (noFaults, .modify none 1
      (.insert ⟨shortKey 3 ++ [some (.ofBytes .kInt (leBytes 8 2))], [7]⟩))).2
    let update := fun v => (noFaults, Call.modify none 1 (.update ⟨shortKey v ++ [none], []⟩ []
      kIgnorePayload))
    ¬AssertFails .plain w (update 2) ∧ AssertFails .plain w (update 3) := by
  intro w update
  have hreached : Reachable .plain w :=
    (single_reachable .plain (by decide)).call ⟨fun _ h => (by cases h), rfl⟩
  have ho : w.opened 1 = some (singleOpened [.kShort, .kInt] [threeTwo]) := rfl
  have hlands : ∀ v ∈ [2, 3], landing .plain noFaults (singleOpened [.kShort, .kInt] [threeTwo]).s
      (singleOpened [.kShort, .kInt] [threeTwo]).cmp ⟨shortKey v ++ [none], []⟩ [threeTwo] =
        some threeTwo.1 := by decide
  constructor
  · refine (assertions_hold_iff hreached _).mpr ?_
    rintro ⟨o, r, flags, k, hopened, -, hm, -, -, -, -, hlanding, hagree⟩
    obtain ⟨rfl, rfl⟩ := Prod.mk.inj (Option.some.inj hm)
    obtain rfl := Option.some.inj (ho.symm.trans hopened)
    obtain rfl := Option.some.inj ((hlands 2 (by simp)).symm.trans hlanding)
    exact absurd (agreesToNull_cons.mp hagree).1 (by decide)
  · refine not_not.mp (mt (assertions_hold_iff hreached _).mp (not_not.mpr ?_))
    refine ⟨_, _, _, _, ho, rfl, rfl, rfl, rfl, rfl, rfl, hlands 3 (by simp), ?_⟩
    exact agreesToNull_cons.mpr ⟨by decide, agreesToNull_none ..⟩

end World

end Contest
