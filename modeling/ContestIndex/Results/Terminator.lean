import ContestIndex.Results.Twins

/-! @src example/BDBImpl.cc | name:Bytes behind a terminator never matter | layer:results

    The calls that pass keys keep twin states twins, so two runs that differ behind the terminators
    of the strings passed in have the same return codes and return the same records by value.

        w  ──c ──▶ w₁  ──d ──▶ w₂ …      replies  [r , s , ..]
        ‖          ‖           ‖                   ‖   ‖         codes equal, records worth the same
        w' ──c'──▶ w₁' ──d'──▶ w₂' …     replies  [r', s', ..]                                    -/

namespace Contest
open Schemes

/-- The same modification moves a cursor that stands alike to the same place. -/
theorem Modification.Same.place {B : BerkeleyDB} (hB : B.ComparesKeys) {o : World.Opened}
    {pairs' after after' : List Pair} {m m' : Modification} (hm : m.Same m')
    (hfits : m.record.key.FullySet o.s.type) (hcmp : o.cmp = o.s.dbKeycmp)
    (hpairs : List.Forall₂ (Indistinct o.s.dbKeycmp) o.pairs pairs')
    (hafter : after.length = after'.length) {it it' : Iterator} (hit : it.Alike o.s it') (n : Nat) :
    m.place B o after it n = m'.place B { o with pairs := pairs' } after' it' n := by
  have hlength := hpairs.length_eq
  cases hm with
  | @insert r r' hr =>
    have hkey := getBDBKey_same hr.1 hfits.typed false
    have hpair : Indistinct o.s.dbKeycmp (o.s.getBDBKey r.key false, r.payload)
        (o.s.getBDBKey r'.key false, r'.payload) := ⟨hkey, hr.2⟩
    simp only [Modification.place, hcmp, hafter, hlength, hB.putAt hpairs hpair,
      cmp_congr hkey hit.key]
  | update => rfl
  | @delete r r' hr flags =>
    have hget := firstGet_related hB noFaults hr hfits (hasFlag flags kIgnorePayload) hpairs
    simp only [Modification.place, hcmp, hafter, hlength]
    generalize firstGet B noFaults o.s o.s.dbKeycmp r (hasFlag flags kIgnorePayload) o.pairs = found,
      firstGet B noFaults o.s o.s.dbKeycmp r' (hasFlag flags kIgnorePayload) pairs' = found' at hget
    cases hget with
    | found hcd => simp only [hcd.before.length_eq]
    | failed err => rfl
    | throws e => rfl
    | stuck => rfl

namespace World
variable {w w' : World} {h k : IndexPtr} {o : Opened} {name : String}

/-! ### Modifications -/

/-- Both handles are open, on contents that are the same by value, or both are not. -/
theorem Twins.opened (hw : w.Tidy) (h : Twins w w') (k : IndexPtr) :
    (w.opened k = none ∧ w'.opened k = none) ∨
    ∃ o pairs', w.opened k = some o ∧ w'.opened k = some { o with pairs := pairs' } ∧
      List.Forall₂ (Indistinct o.s.dbKeycmp) o.pairs pairs' := by
  have hrest := h.rest
  have hhandles : w'.handles = w.handles := by rw [hrest]; rfl
  have hstructures : w'.structures = w.structures := by rw [hrest]; rfl
  have hfind : ∀ n, w'.find n = w.find n := fun n => by rw [hrest]; rfl
  cases ho : w.opened k with
  | none =>
    refine Or.inl ⟨rfl, ?_⟩
    by_contra hsome
    obtain ⟨o', ho'⟩ := Option.ne_none_iff_exists'.mp hsome
    obtain ⟨hhandle, hptr, hlive, hpairs, hdb, q, t, hq, ht, -⟩ := opened_eq_some ho'
    rw [hhandles] at hhandle
    rw [hstructures] at hlive ht
    rw [hfind] at hq
    have hexists : (w.env.pairs o'.index.name).isSome := by
      rw [← h.pairs_isSome, hpairs]; rfl
    obtain ⟨pairs, hpairs⟩ := Option.isSome_iff_exists.mp hexists
    simp [World.opened, hhandle, hptr, hlive, hq, ht, hpairs, hdb] at ho
  | some o =>
    obtain ⟨hhandle, hptr, hlive, hpairs, hdb, q, t, hq, ht, hcmp⟩ := opened_eq_some ho
    have hknown := (hw.opened ho).2.1
    obtain ⟨-, hcontent⟩ := h.content.store o.index.name
    have hrel := hcontent o.s.type (Option.map_eq_some_iff.mpr ⟨o.s, hknown, rfl⟩)
    change Option.Rel _ (w.env.pairs o.index.name) (w'.env.pairs o.index.name) at hrel
    rw [hpairs] at hrel
    rcases hpairs' : w'.env.pairs o.index.name with _ | pairs' <;> rw [hpairs'] at hrel
    · cases hrel
    · obtain ⟨hrel⟩ := hrel
      refine Or.inr ⟨o, pairs', rfl, ?_, hrel⟩
      simp [World.opened, hhandles, hstructures, hfind, hhandle, hptr, hlive, hq, ht, hpairs', hdb,
        hcmp]

/-- The only columns of an open handle. -/
theorem handleTypes_opened (ho : w.opened h = some o) : w.handleTypes h = some o.s.type := by
  obtain ⟨hhandle, hptr, hlive, -⟩ := opened_eq_some ho
  exact handleTypes_eq_some.mpr ⟨_, _, _, hhandle, hptr, hlive, rfl⟩

/-- The columns of the database of an open handle are those of its structure. -/
theorem Tidy.columns (hw : w.Tidy) (ho : w.opened h = some o) :
    w.columns o.index.name = some o.s.type :=
  Option.map_eq_some_iff.mpr ⟨o.s, (hw.opened ho).2.1, rfl⟩

theorem setStructure_narrows {p : StructurePtr} {s s' : IndexStructure}
    (hs : w.structures p = some s) (htype : s'.type = s.type) :
    Narrows w (w.setStructure p s') := by
  have hlive : ∀ {q t}, (w.setStructure p s').structures q = some t →
      ∃ t', w.structures q = some t' ∧ t'.type = t.type := by
    intro q t ht
    rcases eq_or_ne q p with rfl | hne
    · obtain rfl : s' = t := by simpa [World.setStructure] using ht
      exact ⟨s, hs, htype.symm⟩
    · exact ⟨t, by simpa [World.setStructure, hne] using ht, rfl⟩
  refine ⟨fun n ts hts => ?_, fun k _ ts hts => ?_, le_rfl⟩
  · obtain ⟨t, ht, rfl⟩ := Option.map_eq_some_iff.mp hts
    obtain ⟨q, hq, hq'⟩ := known_eq_some.mp ht
    obtain ⟨t', ht', htype⟩ := hlive hq'
    exact Option.map_eq_some_iff.mpr ⟨t', known_eq_some.mpr ⟨q, hq, ht'⟩, htype⟩
  · obtain ⟨idx, q, t, hidx, hq, ht, rfl⟩ := handleTypes_eq_some.mp hts
    obtain ⟨t', ht', htype⟩ := hlive ht
    exact handleTypes_eq_some.mpr ⟨idx, q, t', hidx, hq, ht', htype⟩

/-- The same operation in twin states, on environments that stay alike. -/
theorem Twins.after (hw : w.Tidy) (h : Twins w w') (ho : w.opened k = some o) (pairs' : List Pair)
    {env env' : DbEnv} (txns : Finset TxnPtr) (hbegun : env.begun = env'.begun)
    (hcontent : UndoLog.Related (fun name => SameContent (w.columns name)) env.dbs env'.dbs) :
    Twins (w.after o env txns) (w'.after { o with pairs := pairs' } env' txns) := by
  have hset := h.setEnv hbegun hcontent
  have hlive : (w.setEnv env).structures o.ptr = some o.s := (opened_eq_some ho).2.2.1
  have htype : { o.s with transactions := txns }.type = o.s.type := rfl
  have hnarrows := setStructure_narrows hlive htype
  have hother : w'.after { o with pairs := pairs' } env' txns =
      (w.after o env txns).withData env' w'.iterators := by
    conv_lhs => rw [h.rest]
    rfl
  rw [hother]
  exact hset.frame hw.iterated hnarrows rfl rfl

theorem SameContent.pairs {s : IndexStructure} {pairs pairs' : List Pair}
    (h : List.Forall₂ (Indistinct s.dbKeycmp) pairs pairs') :
    SameContent (some s.type) (some pairs) (some pairs') :=
  ⟨rfl, fun _ hts => by cases hts; exact .some h⟩

/-- Writing what is the same by value. -/
theorem Twins.write (h : Twins w w') {tx : Option TxnPtr} {pairs pairs' : List Pair}
    (hpairs : SameContent (w.columns name) (some pairs) (some pairs')) :
    UndoLog.Related (fun name => SameContent (w.columns name)) (w.env.write tx name pairs).dbs
      (w'.env.write tx name pairs').dbs := by
  cases tx with
  | none => exact h.content.put hpairs
  | some t => exact h.content.write t hpairs

theorem indexInsert_twins {B : BerkeleyDB} (hB : B.ComparesKeys) (hw : w.Tidy) (hc : w.Consistent)
    (h : Twins w w') (F : Faults) (tx : Option TxnPtr) (k : IndexPtr) {r r' : Record}
    (hr : r.Same r') (hfits : ∀ types ∈ w.handleTypes k, r.key.FullySet types) :
    TwinsAfter (w.indexInsert B F tx k r) (w'.indexInsert B F tx k r') := by
  rcases h.opened hw k with ⟨ho, ho'⟩ | ⟨o, pairs', ho, ho', hpairs⟩
  · simp only [indexInsert, ho, ho']
    exact ⟨rfl, h⟩
  · obtain ⟨hhandle, hptr, hlive, -⟩ := opened_eq_some ho
    have hkey := hfits o.s.type (handleTypes_eq_some.mpr ⟨_, _, _, hhandle, hptr, hlive, rfl⟩)
    have hcmp := (hw.opened ho).2.2
    have hwritable := hc.writable _ _ hlive
    have hidle := fun txns => h.after hw ho pairs' txns h.begun h.content
    rw [indexInsert_opened B F ho hwritable, indexInsert_opened B F ho' hwritable]
    rcases F .put with _ | ⟨_ | _⟩
    · refine ⟨rfl, h.after hw ho pairs' _ ?_ (h.write ?_)⟩
      · cases tx <;> exact h.begun
      · rw [hw.columns ho, hcmp]
        exact .pairs (hB.put hpairs ⟨getBDBKey_same hr.1 hkey.typed false, hr.2⟩)
    · exact ⟨rfl, hidle _⟩
    · exact ⟨rfl, hidle _⟩

theorem indexModify_twins {B : BerkeleyDB} (hB : B.ComparesKeys) (hw : w.Tidy) (hc : w.Consistent)
    (h : Twins w w') (F : Faults) (cw : CursorWrite) (loopError : ErrorCode) (tx : Option TxnPtr)
    (k : IndexPtr) {r r' : Record} (hr : r.Same r')
    (hfits : ∀ types ∈ w.handleTypes k, r.key.FullySet types) (flags : UInt8) :
    TwinsAfter (w.indexModify B F cw loopError tx k r flags)
      (w'.indexModify B F cw loopError tx k r' flags) := by
  rcases h.opened hw k with ⟨ho, ho'⟩ | ⟨o, pairs', ho, ho', hpairs⟩
  · simp only [indexModify, ho, ho']
    exact ⟨rfl, h⟩
  · obtain ⟨hhandle, hptr, hlive, -⟩ := opened_eq_some ho
    have hkey := hfits o.s.type (handleTypes_eq_some.mpr ⟨_, _, _, hhandle, hptr, hlive, rfl⟩)
    have hwritable := hc.writable _ _ hlive
    have hcmp := (hw.opened ho).2.2
    obtain ⟨htid, hbegun⟩ := h.txnBegin B tx
    rw [indexModify_opened B F cw loopError ho hwritable,
      indexModify_opened B F cw loopError ho' hwritable]
    simp only [hcmp, ← htid]
    cases F.thrown .txnBegin with
    | some e => exact ⟨rfl, h⟩
    | none =>
      have hbody := modifyBody_related hB F cw loopError hr hkey flags hpairs
      generalize modifyBody B F o.s o.s.dbKeycmp cw loopError r flags o.pairs = body,
        modifyBody B F o.s o.s.dbKeycmp cw loopError r' flags pairs' = body' at hbody
      -- the environments in which the nested transaction is still open
      have henv : UndoLog.Related (fun name => SameContent (w.columns name))
          (w.bodyEnv B o tx body).dbs (w'.bodyEnv B { o with pairs := pairs' } tx body').dbs := by
        unfold bodyEnv
        rw [← hbody.wrote, ← htid]
        split
        · refine hbegun.write _ ?_
          rw [hw.columns ho]
          exact .pairs hbody.pairs
        · exact hbegun
      have hcount : (w.bodyEnv B o tx body).begun =
          (w'.bodyEnv B { o with pairs := pairs' } tx body').begun := by
        rw [bodyEnv_begun, bodyEnv_begun, h.begun]
      have hafter := fun (env env' : DbEnv) txns =>
        @Twins.after w w' k o hw h ho pairs' env env' txns
      simp only [← hbody.outcome, ← hbody.wrote]
      cases body.outcome with
      | throws e => exact ⟨rfl, hafter _ _ _ hcount henv⟩
      | stuck => exact ⟨rfl, hafter _ _ _ hcount henv⟩
      | ret code =>
        cases F.thrown .txnCommit with
        | some e => exact ⟨rfl, hafter _ _ _ hcount (henv.abort _)⟩
        | none => exact ⟨rfl, hafter _ _ _ hcount (henv.commit _)⟩

/-- The checks of the API look at handles, structures and the number of attributes. -/
theorem Twins.refusal (h : Twins w w') (idx : Option IndexPtr) {r r' : Record} (hr : r.Same r') :
    w'.refusal idx (some r') = w.refusal idx (some r) := by
  have hrest := h.rest
  generalize w'.env = env, w'.iterators = iterators at hrest
  subst hrest
  have hcompatible : ∀ h,
      (w.withData env iterators).compatible h r'.key = w.compatible h r.key := by
    intro h
    rw [World.compatible, World.compatible, hr.1.length_eq]
    rfl
  simp only [World.refusal, hcompatible]
  rfl

theorem caught_twins (handler : DbException → ErrorCode) {ended ended' : Outcome ErrorCode × World}
    (h : TwinsAfter ended ended') : TwinsAfter (caught handler ended) (caught handler ended') := by
  obtain ⟨outcome, v⟩ := ended
  obtain ⟨outcome', v'⟩ := ended'
  obtain ⟨houtcome, hv⟩ := h
  obtain rfl : outcome = outcome' := houtcome
  cases outcome <;> exact ⟨rfl, hv⟩

theorem guarded_twins (h : Twins w w') {r r' : Record} (hr : r.Same r')
    {work work' : IndexPtr → Record → Answer × World} (hwork : TwinsAfter (work k r) (work' k r')) :
    TwinsAfter (w.guarded (some k) (some r) work) (w'.guarded (some k) (some r') work') := by
  unfold guarded
  rw [h.refusal _ hr]
  rcases w.refusal (some k) (some r) with (_ | code) | e | _
  · exact hwork
  · exact ⟨rfl, h⟩
  · exact ⟨rfl, h⟩
  · exact ⟨rfl, h⟩

theorem modify_twins {B : BerkeleyDB} (hB : B.ComparesKeys) (hw : w.Tidy) (hc : w.Consistent)
    (h : Twins w w') (F : Faults) (tx : Option TxnPtr) (k : IndexPtr) {m m' : Modification}
    (hm : m.Same m') (hfits : ∀ types ∈ w.handleTypes k, m.record.key.FullySet types) :
    TwinsAfter (w.modify B F tx k m) (w'.modify B F tx k m') := by
  cases hm with
  | insert hr =>
    exact guarded_twins h hr (caught_twins _ (indexInsert_twins hB hw hc h F tx k hr hfits))
  | update hr payload flags =>
    exact guarded_twins h hr (caught_twins _
      (indexModify_twins hB hw hc h F _ _ tx k hr hfits flags))
  | delete hr flags =>
    exact guarded_twins h hr (caught_twins _
      (indexModify_twins hB hw hc h F _ _ tx k hr hfits flags))

/-! ### Cursors behind a modification -/

/-- A modification leaves the handle with its name and its columns. -/
theorem Worked.opened {B : BerkeleyDB} {tx : Option TxnPtr} {v : World} {o' : Opened}
    (hwork : Worked B tx k w v) (ho : w.opened k = some o) (ho' : v.opened k = some o') :
    o'.index = o.index ∧ o'.s.type = o.s.type := by
  rcases hwork with rfl | ⟨q, env, txns, hq, -, rfl⟩
  · obtain rfl : o = o' := Option.some.inj (ho.symm.trans ho')
    exact ⟨rfl, rfl⟩
  · obtain rfl : o = q := Option.some.inj (ho.symm.trans hq)
    obtain ⟨hhandle, hptr, -⟩ := opened_eq_some ho
    obtain ⟨hhandle', hptr', hlive', -⟩ := opened_eq_some ho'
    obtain hindex : o.index = o'.index := Option.some.inj (hhandle.symm.trans hhandle')
    obtain hsame : o.ptr = o'.ptr := Option.some.inj (hptr.symm.trans (hindex ▸ hptr'))
    rw [after_structures, ← hsame, Function.update_self] at hlive'
    have hs := Option.some.inj hlive'
    exact ⟨hindex.symm, by rw [← hs]⟩

/-- Cursors at the same place are moved to the same place. -/
theorem Twins.shifted (h : Twins w w') {g g' : Iterator → Nat → Nat}
    (hg : ∀ it it', SameIterator w it it' → g it = g' it') :
    Twins (w.shifted g) (w'.shifted g') where
  rest := congrArg (fun v : World => { v with iterators := (w'.shifted g').iterators }) h.rest
  begun := h.begun
  content := h.content
  iterators := fun i => by
    have hi := h.iterators i
    change Option.Rel (SameIterator w) ((w.iterators i).map _) ((w'.iterators i).map _)
    generalize w.iterators i = it, w'.iterators i = it' at hi
    cases hi with
    | none => exact .none
    | @some it it' hit =>
      have hsame := hg it it' hit
      obtain ⟨types, halike, hcolumns⟩ := hit
      exact .some ⟨types, { halike with cursor := by simp only [Iterator.shift, halike.cursor, hsame] },
        hcolumns⟩

/-- In twin states the cursors follow alike. -/
theorem follow_twins {B : BerkeleyDB} (hB : B.ComparesKeys) (hw : w.Tidy) (h : Twins w w')
    (k : IndexPtr) {m m' : Modification} (hm : m.Same m')
    (hfits : ∀ types ∈ w.handleTypes k, m.record.key.FullySet types) {tx : Option TxnPtr}
    {v v' : World} (hv : v.Tidy) (hwork : Worked B tx k w v) (hafter : Twins v v') :
    Twins (w.follow B k m v) (w'.follow B k m' v') := by
  unfold World.follow
  rcases h.opened hw k with ⟨ho, ho'⟩ | ⟨o, pairs', ho, ho', hpairs⟩
  · simp only [ho, ho']
    exact hafter
  rcases hafter.opened hv k with ⟨hq, hq'⟩ | ⟨q, after', hq, hq', hleft⟩
  · simp only [ho, ho', hq, hq']
    exact hafter
  obtain ⟨hindex, htype⟩ := hwork.opened ho hq
  simp only [ho, ho', hq, hq']
  refine hafter.shifted fun it it' hit => funext fun n => ?_
  obtain ⟨types, halike, hcolumns⟩ := hit
  rw [moved, moved, ← halike.index]
  rcases hafter.opened hv it.index with ⟨hu, hu'⟩ | ⟨user, _, hu, hu', -⟩
  · simp only [hu, hu']
  · simp only [hu, hu']
    split
    · next hname =>
      -- the handle of the iterator is open on the same structure
      have hknown := (hv.opened hu).2.1
      rw [hname, ← hindex, (hv.opened hq).2.1] at hknown
      have htypes := hcolumns _ (handleTypes_opened hu)
      rw [← Option.some.inj hknown, htype] at htypes
      subst htypes
      have halike' : it.Alike o.s it' := { halike with key := halike.key, typed := halike.typed }
      exact hm.place hB (hfits _ (handleTypes_opened ho)) (hw.opened ho).2.2 hpairs
        hleft.length_eq halike' n
    · rfl

/-! ### Range queries -/

/-- Both change the iterator at the same address. -/
theorem Twins.updateIterator (h : Twins w w') (i : IteratorPtr) {it it' : Option Iterator}
    (hit : Option.Rel (SameIterator w) it it') :
    Twins { w with iterators := Function.update w.iterators i it }
      { w' with iterators := Function.update w'.iterators i it' } where
  rest :=
    congrArg (fun v : World => { v with iterators := Function.update w'.iterators i it' }) h.rest
  begun := h.begun
  content := h.content
  iterators := fun j => by
    change Option.Rel (SameIterator w) _ _
    rcases eq_or_ne j i with rfl | hne
    · simpa using hit
    · simpa [hne] using h.iterators j

theorem Twins.setIterator (h : Twins w w') (i : IteratorPtr) {it it' : Iterator}
    (hit : SameIterator w it it') : Twins (w.setIterator i it) (w'.setIterator i it') :=
  h.updateIterator i (.some hit)

theorem newIterator_twins (h : Twins w w') (tx : Option TxnPtr) (k : IndexPtr) {s : IndexStructure}
    (hs : ∀ ts ∈ w.handleTypes k, ts = s.type) {minKeys minKeys' maxKeys maxKeys' : Key}
    (hmin : minKeys.Same minKeys') (hmax : maxKeys.Same maxKeys') (hmint : minKeys.Typed s.type)
    (hmaxt : maxKeys.Typed s.type) :
    Twins (w.newIterator tx k s minKeys maxKeys).2 (w'.newIterator tx k s minKeys' maxKeys').2 := by
  have hfree : w'.free = w.free := by rw [h.rest]; rfl
  have hnext : Twins { w with free := w.free + 1 } { w' with free := w'.free + 1 } :=
    { rest := by
        rw [hfree]
        exact congrArg (fun v : World => { v with free := w.free + 1 }) h.rest
      begun := h.begun
      content := h.content
      iterators := h.iterators }
  simp only [newIterator]
  rw [hfree] at hnext ⊢
  refine hnext.setIterator w.free ⟨s.type, ?_, hs⟩
  exact
    { index := rfl, txn := rfl, closed := rfl, ended := rfl, initialized := rfl, value := rfl,
      cursor := rfl, key := getBDBKey_same hmin hmint false, maxKey := hmax, typed := hmaxt }

theorem getRecords_twins (hw : w.Tidy) (h : Twins w w') (F : Faults) (tx : Option TxnPtr)
    (idx : Option IndexPtr) {minKeys minKeys' maxKeys maxKeys' : Key} (hmin : minKeys.Same minKeys')
    (hmax : maxKeys.Same maxKeys') (hfits : ∀ k ∈ idx, ∀ types ∈ w.handleTypes k,
      minKeys.Typed types ∧ maxKeys.Typed types) (it : Option (Option IteratorPtr)) :
    (w.getRecords F tx idx minKeys maxKeys it).1 = (w'.getRecords F tx idx minKeys' maxKeys' it).1 ∧
      Twins (w.getRecords F tx idx minKeys maxKeys it).2.2
        (w'.getRecords F tx idx minKeys' maxKeys' it).2.2 := by
  rcases idx with _ | k
  · exact ⟨rfl, h⟩
  · have hhandles : w'.handles k = w.handles k := by rw [h.rest]; rfl
    have hcompatible : ∀ {key key' : Key}, key.Same key' →
        w'.compatible k key' = w.compatible k key := by
      intro key key' hkey
      rw [h.rest, World.compatible, World.compatible, hkey.length_eq]
      rfl
    unfold getRecords
    simp only [hhandles, hcompatible hmin, hcompatible hmax]
    cases w.handles k with
    | none => exact ⟨rfl, h⟩
    | some index =>
      simp only
      split
      · exact ⟨rfl, h⟩
      · split
        · rcases it with _ | var
          · exact ⟨rfl, h⟩
          · rcases h.opened hw k with ⟨ho, ho'⟩ | ⟨o, pairs', ho, ho', hpairs⟩
            · simp only [ho, ho', true_and]
              exact h
            · have htypes := handleTypes_opened ho
              obtain ⟨hmint, hmaxt⟩ := hfits k rfl _ htypes
              have honly : ∀ ts ∈ w.handleTypes k, ts = o.s.type := fun ts hts =>
                Option.some.inj (hts.symm.trans htypes)
              simp only [ho, ho']
              cases F.thrown .cursor with
              | none => exact ⟨rfl, newIterator_twins h tx k honly hmin hmax hmint hmaxt⟩
              | some e =>
                rcases var with _ | i
                · exact ⟨rfl, h⟩
                · have hold := h.iterators i
                  simp only
                  generalize w.iterators i = old, w'.iterators i = old' at hold
                  cases hold with
                  | none => exact ⟨rfl, h⟩
                  | @some old old' hold =>
                    obtain ⟨types, halike, hcolumns⟩ := hold
                    have hindex := @close_index F old
                    have hclosed := halike.close F
                    simp only
                    generalize old.close F = closed, old'.close F = closed' at hclosed hindex
                    obtain ⟨outcome, hu⟩ := hclosed
                    have hsame : SameIterator w _ _ := ⟨types, hu, hindex ▸ hcolumns⟩
                    cases outcome <;> exact ⟨rfl, h.setIterator i hsame⟩
        · exact ⟨rfl, h⟩
        · exact ⟨rfl, h⟩

/-- An iterator's columns are those of the open handle. -/
theorem SameIterator.alike {it it' : Iterator} (hit : SameIterator w it it')
    (ho : w.opened it.index = some o) : it.Alike o.s it' := by
  obtain ⟨types, halike, hcolumns⟩ := hit
  obtain rfl := hcolumns o.s.type (handleTypes_opened ho)
  exact { halike with key := halike.key, typed := halike.typed }

theorem getNext_twins {B : BerkeleyDB} (hB : B.ComparesKeys) (hw : w.Tidy) (h : Twins w w')
    (F : Faults) (it : Option IteratorPtr) :
    SameReply ((w.getNext B F it).1, (w.getNext B F it).2.1)
        ((w'.getNext B F it).1, (w'.getNext B F it).2.1) ∧
      Twins (w.getNext B F it).2.2 (w'.getNext B F it).2.2 := by
  rcases it with _ | i
  · exact ⟨⟨rfl, .none⟩, h⟩
  · have hit := h.iterators i
    unfold getNext
    simp only
    generalize w.iterators i = it, w'.iterators i = it' at hit
    cases hit with
    | none => exact ⟨⟨rfl, .none⟩, h⟩
    | @some it it' hit =>
      obtain ⟨types, halike, hcolumns⟩ := hit
      simp only [← halike.closed, ← halike.index]
      split
      · exact ⟨⟨rfl, .none⟩, h⟩
      · rcases h.opened hw it.index with ⟨ho, ho'⟩ | ⟨o, pairs', ho, ho', hpairs⟩
        · simp only [ho, ho']
          exact ⟨⟨rfl, .none⟩, h⟩
        · have hopen := SameIterator.alike ⟨types, halike, hcolumns⟩ ho
          have hcmp := (hw.opened ho).2.2
          have hnext := hopen.next hB F hpairs
          have hindex := @next_index F it B o.s o.s.dbKeycmp o.pairs
          simp only [ho, ho', hcmp]
          generalize it.next B F o.s o.s.dbKeycmp o.pairs = ended,
            it'.next B F o.s o.s.dbKeycmp pairs' = ended' at hnext hindex
          obtain @⟨outcome, u, u', hu⟩ := hnext
          have hsame : SameIterator w u u' :=
            ⟨o.s.type, { hu with key := hu.key, typed := hu.typed }, fun ts hts => by
              have hindex' : u.index = it.index := hindex
              rw [hindex', handleTypes_opened ho] at hts
              exact (Option.some.inj hts).symm⟩
          have hset := h.setIterator i hsame
          rcases outcome with (_ | _) | e | _
          · exact ⟨⟨rfl, .none⟩, hset⟩
          · simp only [← hu.ended]
            split
            · exact ⟨⟨rfl, .some .none⟩, hset⟩
            · exact ⟨⟨rfl, .some hu.record⟩, hset⟩
          · exact ⟨⟨rfl, .none⟩, hset⟩
          · exact ⟨⟨rfl, .none⟩, hset⟩

theorem closeIterator_twins (h : Twins w w') (F : Faults) (it : Option IteratorPtr) :
    (w.closeIterator F it).1 = (w'.closeIterator F it).1 ∧
      Twins (w.closeIterator F it).2.2 (w'.closeIterator F it).2.2 := by
  rcases it with _ | i
  · exact ⟨rfl, h⟩
  · have hit := h.iterators i
    unfold closeIterator
    simp only
    generalize w.iterators i = it, w'.iterators i = it' at hit
    cases hit with
    | none => exact ⟨rfl, h⟩
    | @some it it' hit =>
      have hdropped := h.updateIterator i .none
      obtain ⟨types, halike, hcolumns⟩ := hit
      have hindex := @close_index F it
      have hclosed := halike.close F
      simp only [← halike.closed]
      split
      · exact ⟨rfl, hdropped⟩
      · generalize it.close F = ended, it'.close F = ended' at hclosed hindex
        obtain @⟨outcome, u, u', hu⟩ := hclosed
        have hsame : SameIterator w u u' := ⟨types, hu, hindex ▸ hcolumns⟩
        cases outcome with
        | ret a => exact ⟨rfl, hdropped⟩
        | throws e => exact ⟨rfl, h.setIterator i hsame⟩
        | stuck => exact ⟨rfl, h.setIterator i hsame⟩

/-! ### Runs -/

/-- What holds of the two states between any two calls. -/
structure Paired (w w' : World) : Prop where
  tidy : w.Tidy
  consistent : w.Consistent
  twins : Twins w w'

theorem initial_paired : Paired initial initial := ⟨initial_tidy, initial_consistent, initial_twins⟩

/-- A call other than `GetNext` returns no record. -/
theorem sameReply_code {code code' : Answer} (h : code = code') :
    SameReply (code, none) (code', none) := ⟨h, .none⟩

/-- STEP: the same call in paired states has the same reply, and the states stay paired. -/
theorem respond_paired {B : BerkeleyDB} (hB : B.ComparesKeys) (hp : Paired w w') (F : Faults)
    {c c' : Call} (hc : c.Same c') (hlive : c.Live w) (hfits : c.Fits w) :
    SameReply (respond B w (F, c)).1 (respond B w' (F, c')).1 ∧
      Paired (respond B w (F, c)).2 (respond B w' (F, c')).2 := by
  obtain ⟨hw, hcons, h⟩ := hp
  have hafter : ∀ {code code' : Answer × Option (Option Record)} {v v' : World},
      SameReply code code' ∧ Twins v v' → (w.perform B F c).2 = v →
        SameReply code code' ∧ Paired v v' := by
    rintro code code' v v' ⟨hcode, hv⟩ rfl
    exact ⟨hcode, perform_tidy B F hw hcons hlive, perform_consistent B F hcons hlive, hv⟩
  have hmodify : ∀ {tx idx m m'}, m.Same m' → Call.Live w (.modify tx idx m) →
      Call.Fits w (.modify tx idx m) →
        TwinsAfter (w.perform B F (.modify tx idx m)) (w'.perform B F (.modify tx idx m')) := by
    intro tx idx m m' hm hlive hfits
    obtain ⟨hcode, hv⟩ := modify_twins hB hw hcons h F tx idx hm hfits
    have htidy := modify_tidy hw hcons B F (fun t ht => (hlive.1 t ht).mem_ids) idx m
    exact ⟨hcode, follow_twins hB hw h idx hm hfits htidy (modify_worked B F w tx idx m) hv⟩
  cases hc with
  | modify tx idx hm => exact hafter ((hmodify hm hlive hfits).imp_left sameReply_code) rfl
  | getRecords tx idx hmin hmax it =>
    exact hafter ((getRecords_twins hw h F tx idx hmin hmax hfits it).imp_left sameReply_code) rfl
  | same c =>
    cases c with
    | beginTransaction =>
      exact hafter ((beginTransaction_twins h B F).imp_left sameReply_code) rfl
    | abortTransaction tx =>
      exact hafter ((abortTransaction_twins hw h F tx).imp_left sameReply_code) rfl
    | commitTransaction tx =>
      exact hafter ((commitTransaction_twins hw hcons h F hlive).imp_left sameReply_code) rfl
    | createIndex name types =>
      exact hafter ((createIndex_twins hw h F name types).imp_left sameReply_code) rfl
    | openIndex name => exact hafter ((openIndex_twins hw h F name).imp_left sameReply_code) rfl
    | closeIndex idx => exact hafter ((closeIndex_twins hw h F idx).imp_left sameReply_code) rfl
    | deleteIndex name => exact hafter ((deleteIndex_twins hw h F name).imp_left sameReply_code) rfl
    | modify tx idx m =>
      exact hafter ((hmodify (.refl m) hlive hfits).imp_left sameReply_code) rfl
    | getRecords tx idx minKeys maxKeys it =>
      have hcall := getRecords_twins hw h F tx idx (.refl minKeys) (.refl maxKeys) hfits it
      exact hafter (hcall.imp_left sameReply_code) rfl
    | getNext it => exact hafter (getNext_twins hB hw h F it) rfl
    | closeIterator it => exact hafter ((closeIterator_twins h F it).imp_left sameReply_code) rfl

/-- CORRECT: bytes behind a terminator never matter. In both runs `DeleteIndex` takes `closeHandles` for
    the loop over the handles. -/
theorem terminated_bytes_ignored {B : BerkeleyDB} (hB : B.ComparesKeys)
    {calls calls' : List (Faults × Call)}
    (hsame : List.Forall₂ (fun c c' => c.1 = c'.1 ∧ c.2.Same c'.2) calls calls')
    (hok : Admissible (fun w c => c.2.Live w ∧ c.2.Fits w) (respond B) initial calls) :
    List.Forall₂ SameReply (run (respond B) initial calls).1
      (run (respond B) initial calls').1 := by
  refine run_related ?_ hsame initial_paired hok
  rintro v v' ⟨F, c⟩ ⟨F', c'⟩ hv ⟨hF, hc⟩ ⟨hlive, hfits⟩
  obtain rfl : F = F' := hF
  exact respond_paired hB hv F hc hlive hfits

/-- The string "a" with a byte behind its terminator. -/
def trailing (x : UInt8) : Attribute := Attribute.ofBytes .kVarchar [97, 0, x]

theorem trailing_same (x y : UInt8) : (trailing x).Same (trailing y) :=
  Attribute.same_of_nul [97] ((trailing x).mem.drop 2) ((trailing y).mem.drop 2) rfl rfl (by simp)
    rfl rfl

/-- Inside one transaction two records are inserted, the first one is found and deleted, a third one is
    inserted, and the iterator goes on to the end. -/
def session (x y z : UInt8) : List (Faults × Call) :=
  let record (byte payload : UInt8) : Record := ⟨[some (trailing byte)], [payload]⟩
  [.createIndex "x" (some [.kVarchar]), .openIndex "x", .beginTransaction,
    .modify (some 1) 1 (.insert (record x 7)), .modify (some 1) 1 (.insert (record y 8)),
    .getRecords (some 1) (some 1) [some (trailing z)] [none] (some none), .getNext (some 2),
    .modify (some 1) 1 (.delete (record z 7) 0), .modify (some 1) 1 (.insert (record z 9)),
    .getNext (some 2), .getNext (some 2), .getNext (some 2), .closeIterator (some 2),
    .commitTransaction (some 1)].map (Prod.mk noFaults)

theorem terminated_bytes_ignored_at :
    List.Forall₂ SameReply (run (respond .plain) initial (session 1 2 3)).1
      (run (respond .plain) initial (session 4 5 6)).1 := by
  have hkey : ∀ x y, Key.Same [some (trailing x)] [some (trailing y)] := fun x y =>
    .cons (.some (trailing_same x y)) .nil
  have hrecord : ∀ x y p, Record.Same ⟨[some (trailing x)], [p]⟩ ⟨[some (trailing y)], [p]⟩ :=
    fun x y _ => ⟨hkey x y, rfl⟩
  refine terminated_bytes_ignored plain_comparesKeys ?_ ?_
  · refine .cons ⟨rfl, .same _⟩ (.cons ⟨rfl, .same _⟩ (.cons ⟨rfl, .same _⟩ (.cons ⟨rfl, ?_⟩
      (.cons ⟨rfl, ?_⟩ (.cons ⟨rfl, ?_⟩ (.cons ⟨rfl, .same _⟩ (.cons ⟨rfl, ?_⟩ (.cons ⟨rfl, ?_⟩
      (.cons ⟨rfl, .same _⟩ (.cons ⟨rfl, .same _⟩ (.cons ⟨rfl, .same _⟩ (.cons ⟨rfl, .same _⟩
      (.cons ⟨rfl, .same _⟩ .nil)))))))))))))
    · exact .modify _ _ (.insert (hrecord 1 4 7))
    · exact .modify _ _ (.insert (hrecord 2 5 8))
    · exact .getRecords _ _ (hkey 3 6) (.refl _) _
    · exact .modify _ _ (.delete (hrecord 3 6 7) _)
    · exact .modify _ _ (.insert (hrecord 3 6 9))
  · have hpasses : ∀ {w : World}, (1, none) ∈ w.env.dbs.live → w.Passes (some 1) := by
      rintro w hlive t ⟨⟩
      exact hlive
    have hset : ∀ {w : World} {x : UInt8}, w.handleTypes 1 = some [.kVarchar] →
        ∀ types ∈ w.handleTypes 1, Key.FullySet types [some (trailing x)] := by
      intro w x hw types htypes
      obtain rfl := Option.some.inj (hw.symm.trans htypes)
      exact ⟨[trailing x], rfl, rfl⟩
    have hbounds : ∀ {w : World} {x : UInt8}, w.handleTypes 1 = some [.kVarchar] →
        ∀ types ∈ w.handleTypes 1,
          Key.Typed types [some (trailing x)] ∧ Key.Typed types [none] := by
      intro w x hw types htypes
      refine ⟨(hset hw types htypes).typed, ?_⟩
      obtain rfl := Option.some.inj (hw.symm.trans htypes)
      exact .cons (by simp) .nil
    have hthere : ∀ {w : World} {i : IteratorPtr}, (w.iterators i).isSome →
        ∀ j ∈ some i, (w.iterators j).isSome := by
      rintro w i hsome j ⟨⟩
      exact hsome
    refine ⟨⟨trivial, trivial⟩, ⟨trivial, trivial⟩, ⟨trivial, trivial⟩,
      ⟨⟨hpasses (.head _), rfl⟩, hset rfl⟩, ⟨⟨hpasses (.head _), rfl⟩, hset rfl⟩,
      ⟨⟨hpasses (.head _), ?_, by simp⟩, ?_⟩, ⟨hthere rfl, trivial⟩,
      ⟨⟨hpasses (.head _), rfl⟩, hset rfl⟩, ⟨⟨hpasses (.head _), rfl⟩, hset rfl⟩,
      ⟨hthere rfl, trivial⟩, ⟨hthere rfl, trivial⟩, ⟨hthere rfl, trivial⟩, ⟨hthere rfl, trivial⟩,
      ⟨hpasses (.head _), trivial⟩, trivial⟩
    · rintro h ⟨⟩
      rfl
    · rintro h ⟨⟩
      exact hbounds rfl

end World

end Contest
