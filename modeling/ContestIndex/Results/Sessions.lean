import ContestIndex.Results.Representation

/-! @src example/BDBImpl.cc | name:The API is a transactional database | layer:results

    The calls on records and on iterators against the specification, and then every session. The content
    of an index follows its pairs (`content`); an iterator, its key and its position follow the records
    that are still to come. What the walk of `Iterator::Next` returns is the range that the encoded
    minimum key and `CheckBounds` describe, column by column (`inScan_iff`).

        permitted calls  c₀ c₁ c₂ …     replies of the program are replies of the specification -/

namespace Contest
open Schemes

namespace World
variable {w w' : World} {d : Database} {modifiers : String → Finset TxnPtr}
  {T : String → Table (Option (List Pair))} {U : String → Finset TxnPtr} {name : String} {h : IndexPtr}
  {o : Opened} {tx : Option TxnPtr} {m : Modification}

/-! ### Modifications -/

theorem Open.typesOf (ho : w.Open h o) : w.typesOf o.index.name = some o.s.type := by
  rw [World.typesOf, ho.found, Option.bind_some, ho.live, Option.map_some]

theorem after_typesOf (ho : w.Open h o) (env : DbEnv) (txns : Finset TxnPtr) (n : String) :
    (w.after o env txns).typesOf n = w.typesOf n := by
  refine typesOf_congr rfl fun q _ => ?_
  rw [after_structures]
  exact @map_type_update w o.ptr o.s { o.s with transactions := txns } ho.live rfl q

/-- A write of the client, under a transaction or for good. -/
theorem write_tables (ht : w.env.dbs.Tables T) (hfree : (T name).FreeFor tx) (pairs : List Pair) :
    (w.env.write tx name pairs).dbs.Tables
      (Function.update T name ((T name).write tx (some pairs))) := by
  cases tx with
  | none => exact ht.put hfree _
  | some t => exact ht.write hfree _

/-- The content of an index in the specification. -/
theorem RepresentsBy.content_eq (hr : w.RepresentsBy modifiers T U d) (ho : w.Open h o) :
    ((T o.index.name).map (contentAt o.s.type)).content = content o.s o.pairs := by
  have hcontent : (T o.index.name).content = some o.pairs := by
    rw [← hr.tables.content]
    exact ho.pairs
  rw [Table.map_content, hcontent]
  rfl

/-- Without a change in the number of pairs every cursor stays at its place. -/
theorem place_same (B : BerkeleyDB) {pairs' : List Pair} (hlen : pairs'.length = o.pairs.length)
    (it : Iterator) (n : Nat) (m : Modification) : m.place B o pairs' it n = n := by
  cases m with
  | insert record => simp [Modification.place, hlen]
  | update record payload flags => rfl
  | delete record flags =>
    rw [Modification.place]
    split
    · simp only [hlen, Nat.sub_self, Nat.sub_zero]
      split
      · rfl
      · next hlt => exact Nat.max_eq_right (Nat.le_of_lt (Nat.lt_of_not_le hlt))
    · rfl

/-- A call that has left the pairs as they were moves no cursor. -/
theorem follow_same (B : BerkeleyDB) (m : Modification) (hhandles : w'.handles = w.handles)
    (hpairs : ∀ n, w'.env.pairs n = w.env.pairs n) : w.follow B h m w' = w' := by
  unfold follow
  split
  · next o o' ho ho' =>
    obtain ⟨hidx, -, -, hold, -⟩ := opened_eq_some ho
    obtain ⟨hidx', -, -, hnew, -⟩ := opened_eq_some ho'
    rw [hhandles, hidx, Option.some.injEq] at hidx'
    rw [hpairs, ← hidx', hold, Option.some.injEq] at hnew
    have hstay : ∀ it, w'.moved B o o'.pairs m it = id := by
      intro it
      funext n
      rw [← hnew, moved]
      split
      · rw [place_same B rfl, ite_self]
        rfl
      · rfl
    simp [shifted, hstay, Iterator.shift]
  · rfl

theorem follow_self (B : BerkeleyDB) (w : World) (h : IndexPtr) (m : Modification) :
    w.follow B h m w = w := follow_same B m rfl fun _ => rfl

/-- An iterator on another database does not move, and of one on this nothing is known. -/
theorem Follows.shifted (B : BerkeleyDB) {it : Iterator} {c : AbstractCursor}
    (hf : w'.Follows it c) (m : Modification)
    (hlost : w'.OpenOn c.handle o.index.name → ∀ rest, c.coming ≠ .records rest) (pairs' : List Pair) :
    (w'.shifted (w'.moved B o pairs' m)).Follows (it.shift (w'.moved B o pairs' m it)) c where
  closed := hf.closed
  index := hf.index
  txn := hf.txn
  cursor := Option.map_eq_none_iff.trans hf.cursor
  rest := fun rest hrest => by
    obtain ⟨name, types, pairs, hopen, htypes, hpairs, hremaining⟩ := hf.rest rest hrest
    have hstay : w'.moved B o pairs' m it = id := by
      funext n
      rw [moved]
      split
      · next user huser =>
        obtain ⟨hidx, -⟩ := opened_eq_some huser
        obtain ⟨idx, hidx', hclosed, rfl⟩ := hopen
        rw [hf.index, hidx', Option.some.injEq] at hidx
        subst hidx
        rw [if_neg]
        · rfl
        · intro hname
          exact hlost ⟨_, hidx', hclosed, hname⟩ rest hrest
      · rfl
    have hsame : it.shift (w'.moved B o pairs' m it) = it := by simp [hstay, Iterator.shift]
    rw [hsame]
    exact ⟨name, types, pairs, hopen, htypes, hpairs, hremaining⟩

/-- STEP: the cursors have followed, and the specification knows nothing of those that have moved. -/
theorem RepresentsBy.follow (B : BerkeleyDB) (hr : w'.RepresentsBy modifiers T U d)
    (ho : w.opened h = some o) (hlost : ∀ i c, d.cursors i = some c → d.On o.index.name c.handle →
      ∀ rest, c.coming ≠ .records rest) (m : Modification) :
    (w.follow B h m w').RepresentsBy modifiers T U d := by
  unfold World.follow
  rw [ho]
  split
  · next v v' hv hv' =>
    obtain rfl : o = v := Option.some.inj hv
    exact {
      sound := hr.sound.iterators ⟨_, w'.free, le_rfl, rfl⟩
      tables := hr.tables
      owners := hr.owners
      busy := hr.busy
      unknown := hr.unknown
      indexes := hr.indexes
      transactions := hr.transactions
      handles := hr.handles
      cursors := fun i => by
        change Option.Rel _ ((w'.iterators i).map fun it => it.shift (w'.moved B o v'.pairs m it)) _
        cases hc : d.cursors i with
        | none =>
          rw [hr.cursor_none.mp hc]
          exact .none
        | some c =>
          obtain ⟨it, hi, hf⟩ := hr.cursor_some hc
          rw [hi]
          exact .some (hf.shifted B m (fun hopen => hlost i c hc (hr.handle_open.mpr hopen)) _)
      allocated := fun i hi => hr.allocated i fun hnone => hi (by simp [shifted, hnone]) }
  · exact hr

/-- STEP: a modification that found nothing has left everything as it was, but its transaction has
    come to work on the index. -/
theorem RepresentsBy.unmodified (hr : w.RepresentsBy modifiers T U d) (ho : w.Open h o) {env : DbEnv}
    (henv : env.dbs = w.env.dbs) (hsound : (w.after o env o.s.transactions).Sound modifiers)
    (tx : Option TxnPtr) :
    (w.after o env o.s.transactions).Represents (d.setIndex o.index.name
      (some ⟨o.s.type, (T o.index.name).map (contentAt o.s.type),
        tx.toFinset ∪ U o.index.name⟩)) := by
  have hpairs : ∀ n, env.pairs n = w.env.pairs n := fun n => congrFun (congrArg UndoLog.store henv) n
  refine ⟨modifiers, T, Function.update U o.index.name (tx.toFinset ∪ U o.index.name), ?_⟩
  exact {
    sound := hsound
    tables := by
      rw [after_env, henv]
      exact hr.tables
    owners := hr.owners
    busy := fun n t ht => by
      rcases eq_or_ne n o.index.name with rfl | hn
      · rw [Function.update_self]
        exact Finset.mem_union_right _ (hr.busy _ t ht)
      · rw [Function.update_of_ne hn]
        exact hr.busy n t ht
    unknown := fun n hn => (hpairs n).trans (hr.unknown n hn)
    indexes := fun n => by
      rw [after_typesOf ho]
      rcases eq_or_ne n o.index.name with rfl | hn
      · rw [Database.setIndex_same, Function.update_self, ho.typesOf, Option.map_some]
      · rw [Database.setIndex_other _ hn, Function.update_of_ne hn]
        exact hr.indexes n
    transactions := by
      rw [after_env, henv]
      exact hr.transactions
    handles := hr.handles
    cursors := hr.cursors_same rfl fun g n hg => ⟨hg, after_typesOf ho env _ n, hpairs n⟩
    allocated := hr.allocated }

/-- STEP: a modification has written. -/
theorem RepresentsBy.modified (hr : w.RepresentsBy modifiers T U d) (ho : w.Open h o)
    (hfree : (T o.index.name).FreeFor tx) {env : DbEnv} {pairs : List Pair}
    (henv : env.dbs = (w.env.write tx o.index.name pairs).dbs)
    (hsound : (w.after o env (joining o.s.transactions tx)).Sound
      (Function.update modifiers o.index.name (joining (modifiers o.index.name) tx))) :
    (w.after o env (joining o.s.transactions tx)).Represents
      ((d.expire (d.On o.index.name)).setIndex o.index.name
        (some ⟨o.s.type, ((T o.index.name).map (contentAt o.s.type)).write tx (content o.s pairs),
          tx.toFinset ∪ U o.index.name⟩)) := by
  have hstore : env.dbs.store = Function.update w.env.dbs.store o.index.name (some pairs) := by
    rw [henv]
    cases tx <;> rfl
  have hlive : env.dbs.live = w.env.dbs.live := by
    rw [henv]
    cases tx <;> rfl
  have hpairs : ∀ n, n ≠ o.index.name → env.pairs n = w.env.pairs n := fun n hn => by
    rw [DbEnv.pairs, hstore, Function.update_of_ne hn]
    rfl
  have hknown : ∀ n, w.find n = none → n ≠ o.index.name := by
    rintro n hn rfl
    rw [ho.found] at hn
    contradiction
  refine ⟨Function.update modifiers o.index.name (joining (modifiers o.index.name) tx),
    Function.update T o.index.name ((T o.index.name).write tx (some pairs)),
    Function.update U o.index.name (tx.toFinset ∪ U o.index.name), ?_⟩
  exact {
    sound := hsound
    tables := by
      rw [after_env, henv]
      exact write_tables hr.tables hfree pairs
    owners := fun n t => by
      rcases eq_or_ne n o.index.name with rfl | hn
      · rw [Function.update_self, Function.update_self, mem_joining, Table.write_ownedBy, hr.owners]
        exact ⟨fun ht => ht.elim id hfree.eq_of_owned, Or.inl⟩
      · rw [Function.update_of_ne hn, Function.update_of_ne hn, hr.owners]
    busy := fun n t ht => by
      rcases eq_or_ne n o.index.name with rfl | hn
      · rw [Function.update_self] at ht ⊢
        exact Finset.mem_union_left _ (Option.mem_toFinset.mpr (Table.write_ownedBy.mp ht))
      · rw [Function.update_of_ne hn] at ht ⊢
        exact hr.busy n t ht
    unknown := fun n hn => (hpairs n (hknown n hn)).trans (hr.unknown n hn)
    indexes := fun n => by
      rw [after_typesOf ho]
      rcases eq_or_ne n o.index.name with rfl | hn
      · rw [Database.setIndex_same, Function.update_self, Function.update_self, ho.typesOf,
          Option.map_some, Table.map_write]
        rfl
      · rw [Database.setIndex_other _ hn, Function.update_of_ne hn, Function.update_of_ne hn]
        exact hr.indexes n
    transactions := fun t => by
      rw [after_env, UndoLog.ids, hlive]
      exact hr.transactions t
    handles := hr.handles
    cursors := hr.cursors_expire (d.On o.index.name) rfl fun g n hnot hg => by
      have hn : n ≠ o.index.name := by
        rintro rfl
        exact hnot (hr.handle_open.mpr hg)
      exact ⟨hg, after_typesOf ho env _ n, hpairs n hn⟩
    allocated := hr.allocated }

/-- A record with another number of attributes is refused. -/
theorem modify_incompatible (B : BerkeleyDB) (ho : w.Open h o)
    (hlen : m.record.key.length ≠ o.s.type.length) :
    w.modify B noFaults tx h m = (some .kErrorIncompatibleKey, w) := by
  cases m <;> exact (ho.guarded_iff _ _).trans (if_neg hlen)

/-- STEP (`InsertRecord`, `UpdateRecord`, `DeleteRecord`). -/
theorem RepresentsBy.modify (B : BerkeleyDB) (hr : w.RepresentsBy modifiers T U d)
    (hp : Permitted d (.modify tx h m)) :
    ∃ d', Does d (.modify tx h m) (w.serve B (.modify tx h m)).1 d' ∧
      (w.serve B (.modify tx h m)).2.Represents d' := by
  have hsame : w.Represents d := ⟨modifiers, T, U, hr⟩
  obtain ⟨hpasses, hsome, hcontract⟩ := hp
  rcases hr.handle_cases hsome with hclosed | ⟨name, X, hopen⟩
  · obtain ⟨idx, hidx, hc⟩ := hr.handle_closed.mp hclosed
    have hcall := modify_closed B hidx hc tx m
    simp only [serve, hcall, follow_self]
    exact ⟨d, .modifyClosed hclosed, hsame⟩
  · have hrules := hcontract name X hopen
    obtain ⟨o, ho, rfl, he, rfl⟩ := hr.open_index hopen
    by_cases hlen : m.record.key.length = o.s.type.length
    · obtain ⟨hkey, hsingle, hworkers, -⟩ := hrules hlen
      have hfree : (T o.index.name).FreeFor tx := fun e he =>
        hworkers e.1 (hr.busy _ _ (Table.ownedBy_iff.mpr ⟨e.2, he⟩))
      have htx := hr.mem_ids hpasses
      have htxns : ∀ t ∈ o.s.transactions, t ∈ w.env.dbs.ids := fun t ht =>
        hr.sound.unresolved _ t (he.exact ▸ ht)
      obtain ⟨env, hcall, hdbs⟩ := modify_settles B ho hr.sound.wf htx htxns hkey
      have hsound := hr.sound.settled ho htx (m.effect_sorted B ho.sorted) hdbs
      have href := effect_reference B ho.sorted hkey hsingle
      rw [← hr.content_eq ho] at href
      simp only [serve, hcall]
      by_cases hcode : (m.effect B o.s o.pairs).1 = .kOk
      · simp only [hcode, settledModifiers, settledDbs, settledTxns, if_true] at hdbs hsound href ⊢
        obtain ⟨_, _, _, hwritten⟩ := hr.modified ho hfree hdbs hsound
        exact ⟨_, .modify hopen hlen href, _, _, _, hwritten.follow B ho.opened
          (fun i c hc hon rest => Database.expire_lost hc hon rest) m⟩
      · -- the only other answer is that nothing matches
        have hnothing : (m.effect B o.s o.pairs).1 = .kErrorNotFound ∧
            Reference ((T o.index.name).map (contentAt o.s.type)).content m .kErrorNotFound
              ((T o.index.name).map (contentAt o.s.type)).content := by
          revert href hcode
          generalize (m.effect B o.s o.pairs).1 = code
          generalize content o.s (m.effect B o.s o.pairs).2 = M
          intro href hcode
          cases href with
          | insert => exact absurd rfl hcode
          | update => exact absurd rfl hcode
          | delete => exact absurd rfl hcode
          | updateNone hnone => exact ⟨rfl, .updateNone hnone⟩
          | deleteNone hnone => exact ⟨rfl, .deleteNone hnone⟩
        obtain ⟨hcode', hnothing⟩ := hnothing
        simp only [settledModifiers, settledDbs, settledTxns, if_neg hcode, Function.update_eq_self]
          at hdbs hsound ⊢
        have hstay : w.follow B h m (w.after o env o.s.transactions) = _ :=
          follow_same B m rfl fun n => congrFun (congrArg UndoLog.store hdbs) n
        rw [hcode', hstay]
        exact ⟨_, .modifyNothing hopen hlen hnothing, hr.unmodified ho hdbs hsound tx⟩
    · have hcall := @modify_incompatible w h o tx m B ho hlen
      simp only [serve, hcall, follow_self]
      exact ⟨d, .modifyIncompatible hopen hlen, hsame⟩

/-! ### Range queries -/

/-- STEP: one iterator has been made, has moved, or is gone. -/
theorem RepresentsBy.withIterator (hr : w.RepresentsBy modifiers T U d) {i : IteratorPtr}
    {value : Option Iterator} {c : Option AbstractCursor} {free : Nat} (hfree : w.free ≤ free)
    (hi : value ≠ none → i < free) (hvalue : Option.Rel w.Follows value c) :
    Represents { w with iterators := Function.update w.iterators i value, free := free }
      (d.setCursor i c) := by
  have hfollows : ∀ {it c}, w.Follows it c →
      Follows { w with iterators := Function.update w.iterators i value, free := free } it c :=
    fun hf => hf.transfer fun name ho => ⟨ho, rfl, rfl⟩
  refine ⟨modifiers, T, U, ?_⟩
  exact {
    sound := hr.sound.iterators ⟨_, free, hfree, rfl⟩
    tables := hr.tables
    owners := hr.owners
    busy := hr.busy
    unknown := hr.unknown
    indexes := hr.indexes
    transactions := hr.transactions
    handles := hr.handles
    cursors := fun j => by
      rcases eq_or_ne j i with rfl | hj
      · rw [Database.setCursor_same]
        change Option.Rel _ (Function.update w.iterators j value j) c
        rw [Function.update_self]
        cases hvalue with
        | none => exact .none
        | some hf => exact .some (hfollows hf)
      · rw [Database.setCursor_other _ hj]
        change Option.Rel _ (Function.update w.iterators i value j) _
        rw [Function.update_of_ne hj]
        cases hc : d.cursors j with
        | none =>
          rw [hr.cursor_none.mp hc]
          exact .none
        | some c' =>
          obtain ⟨it, hit, hf⟩ := hr.cursor_some hc
          rw [hit]
          exact .some (hfollows hf)
    allocated := fun j hj => by
      rcases eq_or_ne j i with rfl | hne
      · refine hi fun hc => hj ?_
        exact (Function.update_self ..).trans hc
      · refine (hr.allocated j fun hc => hj ?_).trans_le hfree
        exact (Function.update_of_ne hne ..).trans hc }

/-- A query goes by the column types and the pairs only. -/
theorem scan_congr {s t : IndexStructure} (h : s.type = t.type) :
    started s = started t ∧ keeps s = keeps t ∧ stops s = stops t ∧
      abstractRecord s = abstractRecord t ∧ s.getBDBKey = t.getBDBKey := by
  obtain ⟨type, readOnly, handles, transactions⟩ := s
  obtain ⟨type', readOnly', handles', transactions'⟩ := t
  obtain rfl : type = type' := h
  exact ⟨rfl, rfl, rfl, rfl, rfl⟩

/-- The start of a range, column by column. -/
theorem startValues_eq {s : IndexStructure} {minKeys : Key} (hmin : minKeys.Typed s.type) :
    startValues s minKeys = lowerBound s.type minKeys := by
  rw [startValues, IndexStructure.keyValues, IndexStructure.getBDBKey, values_bdbFields false hmin,
    lowerBound]
  unfold Key.Typed at hmin
  generalize s.type = types at hmin
  induction hmin with
  | nil => rfl
  | @cons t o ts os ho _ ih =>
    rw [List.zipWith_cons_cons, List.zipWith_cons_cons, ih]
    cases o with
    | none => rw [encodedValue_none, Option.elim_none]
    | some a => rw [encodedValue_some false (ho a rfl), Option.elim_some]

/-- What the walk returns is what the specification has in range. -/
theorem inScan_iff {s : IndexStructure} {minKeys maxKeys : Key} (hmin : minKeys.Typed s.type)
    (hmax : maxKeys.Typed s.type) (p : Pair) :
    InScan s.type minKeys maxKeys (abstractRecord s p) ↔
      (started s minKeys p && keeps s maxKeys p) = true := by
  have hlen : maxKeys.length = s.type.length := hmax.length_eq.symm
  rw [Bool.and_eq_true, started_iff, keeps_iff hlen, s.dbKeycmp_eq, InScan, ← startValues_eq hmin]
  refine and_congr_right fun _ => ?_
  constructor
  · intro h i x y hx hy
    have htype : x.type = y.type := Option.some.inj ((getKey_type hx).symm.trans (hmax.type_eq hy))
    rw [attcmp_eq_compare htype]
    exact h i x.value y (keyValues_eq_some.mpr ⟨x, hx, rfl⟩) hy
  · intro h i v a hv ha
    obtain ⟨x, hx, rfl⟩ := keyValues_eq_some.mp hv
    have htype : x.type = a.type := Option.some.inj ((getKey_type hx).symm.trans (hmax.type_eq ha))
    rw [← attcmp_eq_compare htype]
    exact h i x a hx ha

/-- The pairs that a query matches list its range. -/
theorem matching_lists (ho : w.Open h o) {minKeys maxKeys : Key} (hmin : minKeys.Typed o.s.type)
    (hmax : maxKeys.Typed o.s.type) :
    Lists o.s.type minKeys maxKeys (content o.s o.pairs)
      ((matching o.s minKeys maxKeys o.pairs).map (abstractRecord o.s)) where
  exact := by
    refine ⟨↑((o.pairs.filter fun p => !(started o.s minKeys p && keeps o.s maxKeys p)).map
      (abstractRecord o.s)), ?_, fun x hx => ?_⟩
    · rw [content, Multiset.coe_add, ← List.map_append, matching, Multiset.coe_eq_coe]
      exact (List.filter_append_perm _ _).symm.map _
    · obtain ⟨p, hp, rfl⟩ := List.mem_map.mp (Multiset.mem_coe.mp hx)
      rw [inScan_iff hmin hmax, Bool.not_eq_true]
      exact (Bool.not_eq_true' _).mp (List.mem_filter.mp hp).2
  inside := fun x hx => by
    obtain ⟨p, hp, rfl⟩ := List.mem_map.mp hx
    exact (inScan_iff hmin hmax p).mpr (List.mem_filter.mp hp).2
  sorted := by
    rw [List.pairwise_map]
    refine (List.Pairwise.sublist List.filter_sublist ho.sorted).imp fun {p q} hpq => ?_
    rwa [o.s.dbKeycmp_eq] at hpq

/-- STEP (`GetRecords`). -/
theorem RepresentsBy.getRecords (B : BerkeleyDB) (hr : w.RepresentsBy modifiers T U d)
    {idx : Option IndexPtr} {minKeys maxKeys : Key} {it : Option (Option IteratorPtr)}
    (hp : Permitted d (.getRecords tx idx minKeys maxKeys it)) :
    ∃ d', Does d (.getRecords tx idx minKeys maxKeys it)
        (w.serve B (.getRecords tx idx minKeys maxKeys it)).1 d' ∧
      (w.serve B (.getRecords tx idx minKeys maxKeys it)).2.Represents d' := by
  have hsame : w.Represents d := ⟨modifiers, T, U, hr⟩
  obtain ⟨-, hsome, hcontract⟩ := hp
  cases idx with
  | none => exact ⟨d, .scanNull, hsame⟩
  | some h =>
    rcases hr.handle_cases (hsome h rfl) with hclosed | ⟨name, X, hopen⟩
    · obtain ⟨idx, hidx, hc⟩ := hr.handle_closed.mp hclosed
      have hcall : w.getRecords noFaults tx (some h) minKeys maxKeys it =
          (some .kErrorUnknownIndex, it, w) := by
        simp only [World.getRecords, hidx, hc, if_true]
      simp only [serve, hcall]
      exact ⟨d, .scanClosed hclosed, hsame⟩
    · have htyped := hcontract h rfl name X hopen
      obtain ⟨o, ho, rfl, he, rfl⟩ := hr.open_index hopen
      have hnotClosed : o.index.closed = false := ho.notClosed
      by_cases hlen : minKeys.length = o.s.type.length ∧ maxKeys.length = o.s.type.length
      · obtain ⟨hmin, hmax⟩ := htyped hlen.1 hlen.2
        cases it with
        | none =>
          have hcall : w.getRecords noFaults tx (some h) minKeys maxKeys none =
              (some .kErrorGenericFailure, none, w) := by
            simp [World.getRecords, ho.handle, hnotClosed, ho.compatible, hlen]
          simp only [serve, hcall]
          exact ⟨d, .scanRefused hopen hlen.1 hlen.2, hsame⟩
        | some var =>
          let made : Iterator :=
            { index := h, txn := tx, closed := false, ended := false, initialized := false
              minKey := minKeys, maxKey := maxKeys, key := o.s.getBDBKey minKeys false, value := []
              cursor := some none }
          have hcall : w.getRecords noFaults tx (some h) minKeys maxKeys (some var) =
              (some .kOk, some (some w.free),
                { w with iterators := Function.update w.iterators w.free (some made)
                         free := w.free + 1 }) := by
            simp only [World.getRecords, ho.handle, hnotClosed, ho.compatible, hlen, decide_true,
              ho.opened, noFaults_thrown, Bool.false_eq_true, if_false]
            rfl
          have hfresh : d.cursors w.free = none := by
            rw [hr.cursor_none]
            by_contra hc
            exact absurd (hr.allocated w.free hc) (lt_irrefl _)
          have hstands : made.Stands o minKeys maxKeys (o.pairs.filter (started o.s minKeys)) :=
            ⟨rfl, rfl, rfl, Or.inl ⟨rfl, rfl, rfl, rfl⟩⟩
          have hfollows : w.Follows made ⟨h, tx,
              .records ((matching o.s minKeys maxKeys o.pairs).map (abstractRecord o.s))⟩ := by
            refine ⟨rfl, rfl, rfl, by simp [made], ?_⟩
            rintro rest ⟨⟩
            exact ⟨o.index.name, o.s.type, o.pairs, hr.handle_open.mp hopen.1, ho.typesOf, ho.pairs, o,
              minKeys, maxKeys, _, rfl, rfl, hlen.2, hstands, by rw [scan_started hmax ho.sorted]⟩
          have hlists := matching_lists ho hmin hmax
          rw [← hr.content_eq ho] at hlists
          simp only [serve, hcall]
          exact ⟨_, .scan hopen hlen.1 hlen.2 hfresh hlists,
            hr.withIterator (Nat.le_succ _) (fun _ => Nat.lt_succ_self _) (.some hfollows)⟩
      · have hcall : w.getRecords noFaults tx (some h) minKeys maxKeys it =
            (some .kErrorIncompatibleKey, it, w) := by
          simp only [World.getRecords, ho.handle, hnotClosed, ho.compatible, Bool.false_eq_true, if_false]
          rcases not_and_or.mp hlen with hmin | hmax
          · simp [hmin]
          · simp [hmax]
        simp only [serve, hcall]
        exact ⟨d, .scanIncompatible hopen hlen, hsame⟩

/-- What a call of `Next` keeps: the iterator is not closed and not given to another handle or
    transaction, and it does not come to its end with an open cursor. -/
structure GoesOn (it it' : Iterator) : Prop where
  closed : it'.closed = it.closed
  index : it'.index = it.index
  txn : it'.txn = it.txn
  cursor : it'.ended = true → it.ended = true ∨ it'.cursor = none

/-- Where the cursor stood before does not matter. -/
theorem GoesOn.moved {a b it : Iterator} (h : GoesOn a b) (hclosed : a.closed = it.closed)
    (hindex : a.index = it.index) (htxn : a.txn = it.txn) (hended : a.ended = it.ended) :
    GoesOn it b :=
  ⟨h.closed.trans hclosed, h.index.trans hindex, h.txn.trans htxn, hended ▸ h.cursor⟩

theorem setEnded_goesOn (it : Iterator) : GoesOn it (it.setEnded noFaults).2 := by
  rcases hcursor : it.cursor with _ | position <;>
    exact ⟨by simp [Iterator.setEnded, Iterator.closeCursor, hcursor],
      by simp [Iterator.setEnded, Iterator.closeCursor, hcursor],
      by simp [Iterator.setEnded, Iterator.closeCursor, hcursor],
      fun _ => .inr (by simp [Iterator.setEnded, Iterator.closeCursor, hcursor])⟩

theorem setEnded_returns (it : Iterator) :
    it.setEnded noFaults = (.ret (), (it.setEnded noFaults).2) := by
  rcases hcursor : it.cursor with _ | position <;>
    simp [Iterator.setEnded, Iterator.closeCursor, hcursor]

theorem fetchFailed_goesOn (it : Iterator) : GoesOn it (it.fetchFailed noFaults .DB_NOTFOUND).2 := by
  rw [Iterator.fetchFailed, setEnded_returns]
  exact setEnded_goesOn it

/-- No move of the cursor does more. -/
theorem nextLoop_goesOn (s : IndexStructure) : ∀ (rest : List Pair) (n i : Nat) (it : Iterator),
    GoesOn it (it.nextLoop noFaults s n i rest).2 := by
  have hpair : ∀ (n : Nat) (it : Iterator) (more : Outcome Bool × Iterator),
      GoesOn it more.2 → GoesOn it (it.onPair noFaults s n more).2 := by
    intro n it more hmore
    have hself : GoesOn it it := ⟨rfl, rfl, rfl, .inl⟩
    rw [Iterator.onPair, setEnded_returns]
    split
    · exact hself
    · exact hself
    · split
      · exact setEnded_goesOn it
      · exact hmore
  intro rest
  induction rest with
  | nil => exact fun n i it => hpair n it _ (fetchFailed_goesOn it)
  | cons p rest ih =>
    intro n i it
    exact hpair n it _ ((ih (n + 1) (i + 1) (it.moveTo (i + 1) p)).moved rfl rfl rfl rfl)

theorem next_goesOn (B : BerkeleyDB) (s : IndexStructure) (cmp : Bytes → Bytes → Ordering)
    (pairs : List Pair) (it : Iterator) : GoesOn it (it.next B noFaults s cmp pairs).2 := by
  rw [Iterator.next]
  split
  · exact ⟨rfl, rfl, rfl, .inl⟩
  · simp only [noFaults]
    split
    · split
      · exact fetchFailed_goesOn it
      · exact (nextLoop_goesOn ..).moved rfl rfl rfl rfl
    · split
      · exact (fetchFailed_goesOn _).moved rfl rfl rfl rfl
      · exact (nextLoop_goesOn ..).moved rfl rfl rfl rfl

/-- The iterator stands on what the handle leads to now. -/
theorem stands_now {o o' : Opened} {minKeys maxKeys : Key} {it : Iterator} {unvisited : List Pair}
    (htype : o'.s.type = o.s.type) (hpairs : o'.pairs = o.pairs)
    (hit : it.Stands o' minKeys maxKeys unvisited) : it.Stands o minKeys maxKeys unvisited := by
  obtain ⟨hstarted, -, -, -, hkey⟩ := scan_congr htype
  exact ⟨hit.closed, hit.ended, hit.maxKey, by rw [← hpairs, ← hstarted, ← hkey]; exact hit.position⟩

/-- STEP (`GetNext`). -/
theorem RepresentsBy.getNext (B : BerkeleyDB) (hr : w.RepresentsBy modifiers T U d)
    {it : Option IteratorPtr} (hp : Permitted d (.getNext it)) :
    ∃ d', Does d (.getNext it) (w.serve B (.getNext it)).1 d' ∧
      (w.serve B (.getNext it)).2.Represents d' := by
  cases it with
  | none => exact ⟨d, .nextNull d, modifiers, T, U, hr⟩
  | some i =>
    obtain ⟨⟨h, tx, _⟩, rest, hcursor, rfl, -⟩ := hp i rfl
    obtain ⟨it, hi, hfollows⟩ := hr.cursor_some hcursor
    obtain ⟨name, types, pairs, ⟨idx, hidx, hopen, rfl⟩, htypes, hpairs, o', minKeys, maxKeys,
      unvisited, rfl, rfl, hlen, hstands, rfl⟩ := hfollows.rest rest rfl
    obtain rfl : it.index = h := hfollows.index
    obtain rfl : it.txn = tx := hfollows.txn
    obtain ⟨o, ho, rfl, he⟩ := hr.sound.open_ hidx hopen
    have hpairs' : o'.pairs = o.pairs := Option.some.inj (hpairs.symm.trans ho.pairs)
    have htype : o'.s.type = o.s.type := by
      rw [typesOf, ho.found, Option.bind_some, ho.live, Option.map_some, Option.some.injEq] at htypes
      exact htypes.symm
    obtain ⟨-, hkeeps, hstops, habstract, -⟩ := scan_congr htype
    rw [hkeeps, hstops, habstract, scan_eq_scanNext] at hcursor
    have hlt : i < w.free := hr.allocated i (by rw [hi]; exact Option.some_ne_none _)
    have hsteps := Iterator.next_steps B (htype ▸ hlen) ho.sorted (stands_now htype hpairs' hstands)
    have hgoes := next_goesOn B o.s o.s.dbKeycmp o.pairs it
    unfold Iterator.Steps at hsteps
    cases hscan : scanNext (keeps o.s maxKeys) (stops o.s maxKeys) unvisited with
    | none =>
      rw [hscan] at hsteps hcursor
      obtain ⟨it', hnext, hended⟩ := hsteps
      rw [hnext] at hgoes
      have hcall : w.getNext B noFaults (some i) = (some .kErrorNotFound, some none,
          { w with iterators := Function.update w.iterators i (some it'), free := w.free }) := by
        simp [World.getNext, hi, hfollows.closed, ho.opened, ho.cmp, hnext, hended, setIterator]
      have hnull : it'.cursor = none :=
        (hgoes.cursor hended).resolve_left (by simp [hstands.ended])
      have hf : w.Follows it' ⟨it.index, it.txn, .ended⟩ :=
        ⟨hgoes.closed.trans hfollows.closed, hgoes.index, hgoes.txn, by simp [hnull], by simp⟩
      simp only [serve, hcall]
      exact ⟨_, .nextEnd hcursor, hr.withIterator le_rfl (fun _ => hlt) (.some hf)⟩
    | some found =>
      obtain ⟨q, back⟩ := found
      rw [hscan] at hsteps hcursor
      obtain ⟨it', hnext, hkey, hvalue, hindex, hstands'⟩ := hsteps
      rw [hnext] at hgoes
      have hcursor' : it'.cursor ≠ none := by
        rcases hstands'.position with ⟨-, hc, -⟩ | ⟨_, -, hc, -⟩ <;> simp [hc]
      have hcall : w.getNext B noFaults (some i) = (some .kOk, some (some (recordOf o.s q)),
          { w with iterators := Function.update w.iterators i (some it'), free := w.free }) := by
        simp [World.getNext, hi, hfollows.closed, ho.opened, ho.cmp, hnext, hstands'.ended,
          Iterator.record, hkey, hvalue, recordOf, setIterator]
      have hrecord : (recordOf o.s q).abstract = abstractRecord o.s q := by
        rw [Record.abstract, recordOf, IndexStructure.getKey, Key.values_ofAttributes]
        rfl
      have hf : w.Follows it' ⟨it.index, it.txn, .records
          ((scan (keeps o.s maxKeys) (stops o.s maxKeys) back).map (abstractRecord o.s))⟩ := by
        refine ⟨hstands'.closed, hindex, hgoes.txn, iff_of_false hcursor' (by simp), ?_⟩
        rintro rest ⟨⟩
        exact ⟨o.index.name, o.s.type, o.pairs, ⟨_, hidx, hopen, rfl⟩, htype ▸ htypes, ho.pairs, o,
          minKeys, maxKeys, back, rfl, rfl, htype ▸ hlen, hstands', rfl⟩
      simp only [serve, hcall, Option.join_some, Option.map_some, hrecord]
      exact ⟨_, .next hcursor, hr.withIterator le_rfl (fun _ => hlt) (.some hf)⟩

/-- STEP (`CloseIterator`). -/
theorem RepresentsBy.closeIterator (B : BerkeleyDB) (hr : w.RepresentsBy modifiers T U d)
    {it : Option IteratorPtr} (hp : Permitted d (.closeIterator it)) :
    ∃ d', Does d (.closeIterator it) (w.serve B (.closeIterator it)).1 d' ∧
      (w.serve B (.closeIterator it)).2.Represents d' := by
  cases it with
  | none => exact ⟨d, .closeIteratorNull d, modifiers, T, U, hr⟩
  | some i =>
    have hsome := hp i rfl
    obtain ⟨c, hcursor⟩ := Option.isSome_iff_exists.mp hsome
    obtain ⟨it, hi, hfollows⟩ := hr.cursor_some hcursor
    obtain ⟨it', hclose⟩ : ∃ it', it.close noFaults = (.ret (), it') := by
      rcases hc : it.cursor with _ | position <;>
        simp [Iterator.close, Iterator.closeCursor, hfollows.closed, hc]
    have hcall : w.closeIterator noFaults (some i) = (some .kOk, none,
        { w with iterators := Function.update w.iterators i none, free := w.free }) := by
      simp only [World.closeIterator, hi, hfollows.closed, hclose, Bool.false_eq_true, if_false]
    simp only [serve, hcall]
    exact ⟨_, .closeIterator hsome, hr.withIterator le_rfl (absurd rfl) .none⟩

/-! ### Every session -/

/-- STEP: a permitted call does what is specified. -/
theorem serve_does (B : BerkeleyDB) (w : World) (d : Database) (c : Call) (hr : w.Represents d)
    (hp : Permitted d c) : ∃ d', Does d c (w.serve B c).1 d' ∧ (w.serve B c).2.Represents d' := by
  obtain ⟨modifiers, T, U, hr⟩ := hr
  cases c with
  | beginTransaction => exact hr.begin B
  | abortTransaction tx => exact hr.abort B hp
  | commitTransaction tx => exact hr.commit B hp
  | createIndex name types => exact hr.createIndex B name types
  | openIndex name => exact hr.openIndex B name
  | closeIndex idx => exact hr.closeIndex B hp
  | deleteIndex name => exact hr.deleteIndex B hp
  | modify tx h m => exact hr.modify B hp
  | getRecords tx idx minKeys maxKeys it => exact hr.getRecords B hp
  | getNext it => exact hr.getNext B hp
  | closeIterator it => exact hr.closeIterator B hp

end World

end Contest
