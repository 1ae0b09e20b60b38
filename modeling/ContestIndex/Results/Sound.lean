import ContestIndex.Results.Reachable

/-! @src example/Index.cc | name:What holds between calls that do not fail | layer:specification

    When no Berkeley DB call fails, the manager's map, the structures, the handles, the databases and
    the before-images agree with each other between any two calls (`Sound`). `modifiers` says which
    transactions each index has registered; that these are the right ones is a matter of the results.

        manager: name ─▶ structure ─▶ handles_ ◀─▶ open handles of that name
                  │          └─────▶ transactions_ = modifiers name ⊆ unresolved
                  └─▶ database: pairs in order; before-images too, each owned by a modifier -/

namespace Contest
open Schemes

namespace World
variable {w w' : World} {h : IndexPtr} {o : Opened} {modifiers modifiers' : String → Finset TxnPtr}
  {name : String} {p : StructurePtr} {s : IndexStructure}

/-! ### The manager's map -/

/-- `indices_.erase(it)` -/
theorem find_erased (h : w'.indices = w.indices.filter (·.1 ≠ name)) (n : String) :
    w'.find n = if n = name then none else w.find n := by
  by_cases hn : n = name
  · subst hn
    simp [World.find, h]
  · simp only [World.find, if_neg hn, h, List.find?_filter]
    congr 2
    funext e
    by_cases he : e.1 = n
    · simp [he, hn]
    · simp [he]

/-- What is still known after an entry was erased. -/
theorem find_of_erased (h : w'.indices = w.indices.filter (·.1 ≠ name)) {n : String}
    (hn : w'.find n = some p) : n ≠ name ∧ w.find n = some p := by
  rw [find_erased h n] at hn
  by_cases hname : n = name
  · rw [if_pos hname] at hn
    contradiction
  · rw [if_neg hname] at hn
    exact ⟨hname, hn⟩

/-- A new name for a new structure keeps the names of structures distinct. -/
theorem insert_injective (hfresh : ∀ n q, w.find n = some q → q ≠ p)
    (hinj : ∀ a b q, w.find a = some q → w.find b = some q → a = b) (a b : String)
    (q : StructurePtr) (ha : (w.insert name p).find a = some q)
    (hb : (w.insert name p).find b = some q) : a = b := by
  rw [find_insert] at ha hb
  by_cases han : a = name <;> by_cases hbn : b = name
  · rw [han, hbn]
  · rw [if_pos han, Option.some.injEq] at ha
    rw [if_neg hbn] at hb
    exact absurd ha.symm (hfresh b q hb)
  · rw [if_pos hbn, Option.some.injEq] at hb
    rw [if_neg han] at ha
    exact absurd hb.symm (hfresh a q ha)
  · rw [if_neg han] at ha
    rw [if_neg hbn] at hb
    exact hinj a b q ha hb

theorem mem_of_find (h : w.find name = some p) : p ∈ w.indices.map (·.2) := by
  obtain ⟨e, he, rfl⟩ := Option.map_eq_some_iff.mp h
  exact List.mem_map.mpr ⟨e, List.mem_of_find?_eq_some he, rfl⟩

/-- `IndexManager::CloseTransaction` reaches every structure of the map. -/
theorem closeTransaction_structures (w : World) (t : TxnPtr) (p : StructurePtr) :
    (w.closeTransaction t).structures p =
      if p ∈ w.indices.map (·.2) then (w.structures p).map (·.endTransaction t)
      else w.structures p := by
  have hfold : ∀ (es : List (String × StructurePtr)) (st : StructurePtr → Option IndexStructure),
      es.foldl (fun st e => Function.update st e.2 ((st e.2).map (·.endTransaction t))) st p =
        if p ∈ es.map (·.2) then (st p).map (·.endTransaction t) else st p := by
    intro es
    induction es with
    | nil => simp
    | cons e es ih =>
      intro st
      rw [List.foldl_cons, ih, List.map_cons]
      by_cases hp : p = e.2
      · subst hp
        have htwice : ((st e.2).map (·.endTransaction t)).map (·.endTransaction t) =
            (st e.2).map (·.endTransaction t) := by
          cases st e.2 <;> simp [IndexStructure.endTransaction]
        simp [htwice]
      · simp only [Function.update_of_ne hp, List.mem_cons, hp, false_or]
  rw [closeTransaction_eq]
  exact hfold w.indices w.structures

/-! ### The invariant -/

/-- The content of a database whose keys have the types of the structure. -/
def Stores (s : IndexStructure) (content : Option (List Pair)) : Prop :=
  ∃ pairs, content = some pairs ∧ SortedBy s.dbKeycmp pairs

/-- The handle is open and refers to the index with this name. -/
def OpenOn (w : World) (h : IndexPtr) (name : String) : Prop :=
  ∃ idx, w.handles h = some idx ∧ idx.closed = false ∧ idx.name = name

/-- What the manager knows under `name` is a structure that can be worked with. -/
structure Entry (w : World) (modifiers : String → Finset TxnPtr) (name : String) (p : StructurePtr)
    (s : IndexStructure) : Prop where
  named : name ≠ ""
  live : w.structures p = some s
  fresh : p < w.free
  writable : s.readOnly = false
  exact : s.transactions = modifiers name
  stored : Stores s (w.env.pairs name)
  images : ∀ x ∈ w.env.dbs.log, x.2.1 = name → Stores s x.2.2
  handles : ∀ h, h ∈ s.handles ↔ w.OpenOn h name

structure Sound (w : World) (modifiers : String → Finset TxnPtr) : Prop where
  wf : w.env.dbs.Wf
  flat : w.env.dbs.Flat
  entry : ∀ name p, w.find name = some p → ∃ s, w.Entry modifiers name p s
  injective : ∀ name n p, w.find name = some p → w.find n = some p → name = n
  absent : ∀ name, w.find name = none → modifiers name = ∅
  unresolved : ∀ name, ∀ t ∈ modifiers name, t ∈ w.env.dbs.ids
  owners : ∀ x ∈ w.env.dbs.log, x.1 ∈ modifiers x.2.1
  allocated : ∀ h, w.handles h ≠ none → h < w.free
  opened : ∀ h idx, w.handles h = some idx → idx.closed = false →
    idx.db = true ∧ idx.structure_ = w.find idx.name ∧ (w.find idx.name).isSome

theorem initial_sound : initial.Sound fun _ => ∅ where
  wf := initial_consistent.wf
  flat := by simp [initial, DbEnv.empty, UndoLog.Flat]
  entry := by simp [initial, World.find]
  injective := by simp [initial, World.find]
  absent := fun _ _ => rfl
  unresolved := by simp
  owners := by simp [initial, DbEnv.empty]
  allocated := by simp [initial]
  opened := by simp [initial]

/-! ### Transactions -/

theorem begin_sound (B : BerkeleyDB) (hs : w.Sound modifiers) :
    (w.setEnv (w.env.txnBegin B none).2).Sound modifiers where
  wf := UndoLog.begin_wf hs.wf (txnBegin_fresh B w.env none) (by simp)
  flat := List.forall_mem_cons.mpr ⟨rfl, hs.flat⟩
  entry := fun name p hf => by
    obtain ⟨s, he⟩ := hs.entry name p hf
    exact ⟨s, he.named, he.live, he.fresh, he.writable, he.exact, he.stored, he.images, he.handles⟩
  injective := hs.injective
  absent := hs.absent
  unresolved := fun name t ht => List.mem_cons_of_mem _ (hs.unresolved name t ht)
  owners := hs.owners
  allocated := hs.allocated
  opened := hs.opened

/-- What resolving the transaction `t` does to the databases: it takes away `t` and its before-images,
    and whatever it changes it sets to one of them. -/
structure Resolves (t : TxnPtr) (dbs dbs' : UndoLog String (Option (List Pair))) : Prop where
  wf : dbs'.Wf
  flat : dbs'.Flat
  ids : ∀ x, x ∈ dbs'.ids ↔ x ∈ dbs.ids ∧ x ≠ t
  log : ∀ x ∈ dbs'.log, x ∈ dbs.log ∧ x.1 ≠ t
  store : ∀ name, dbs'.store name = dbs.store name ∨
    ∃ x ∈ dbs.log, x.2.1 = name ∧ dbs'.store name = x.2.2

theorem commit_resolves (hs : w.Sound modifiers) (t : TxnPtr) :
    Resolves t w.env.dbs (w.env.dbs.commit t) where
  wf := UndoLog.commit_wf hs.wf t
  flat := hs.flat.others t
  ids := fun _ => hs.flat.mem_others_iff
  log := fun _ => hs.flat.mem_commit_log.mp
  store := fun _ => Or.inl rfl

theorem abort_resolves (hs : w.Sound modifiers) (t : TxnPtr) :
    Resolves t w.env.dbs (w.env.dbs.abort t) where
  wf := UndoLog.abort_wf hs.wf t
  flat := hs.flat.others t
  ids := fun _ => hs.flat.mem_others_iff
  log := fun _ => hs.flat.mem_abort_log.mp
  store := fun name => UndoLog.undo_cases _ name w.env.dbs.log w.env.dbs.store

/-- Committing or aborting a transaction unregisters it everywhere. -/
theorem resolve_sound (hs : w.Sound modifiers) {t : TxnPtr} {env : DbEnv}
    (hr : Resolves t w.env.dbs env.dbs) :
    ((w.setEnv env).closeTransaction t).Sound fun name => (modifiers name).erase t := by
  have hv : (w.setEnv env).closeTransaction t =
      { w.setEnv env with structures := ((w.setEnv env).closeTransaction t).structures } := by
    rw [closeTransaction_eq]
  have hstructures := closeTransaction_structures (w.setEnv env) t
  generalize ((w.setEnv env).closeTransaction t).structures = st at hv hstructures
  rw [hv]
  exact {
    wf := hr.wf
    flat := hr.flat
    entry := fun name p hf => by
      obtain ⟨s, he⟩ := hs.entry name p hf
      have hp : p ∈ (w.setEnv env).indices.map (·.2) := mem_of_find hf
      have hlive : st p = some (s.endTransaction t) := by
        rw [hstructures, if_pos hp]
        exact congrArg (Option.map _) he.live
      refine ⟨s.endTransaction t, he.named, hlive, he.fresh, he.writable, ?_, ?_, ?_, he.handles⟩
      · exact congrArg (Finset.erase · t) he.exact
      · rcases hr.store name with hsame | ⟨x, hx, hname, hstore⟩
        · change Stores s (env.dbs.store name)
          rw [hsame]; exact he.stored
        · change Stores s (env.dbs.store name)
          rw [hstore]; exact he.images x hx hname
      · exact fun x hx => he.images x (hr.log x hx).1
    injective := hs.injective
    absent := fun name hn => by rw [hs.absent name hn, Finset.erase_empty]
    unresolved := fun name x hx => by
      obtain ⟨hne, hx⟩ := Finset.mem_erase.mp hx
      exact (hr.ids x).mpr ⟨hs.unresolved name x hx, hne⟩
    owners := fun x hx => by
      obtain ⟨hlog, hne⟩ := hr.log x hx
      exact Finset.mem_erase.mpr ⟨hne, hs.owners x hlog⟩
    allocated := hs.allocated
    opened := hs.opened }

/-! ### Creating, opening and closing -/

/-- A name without a database is not known to the manager. -/
theorem Sound.find_eq_none (hs : w.Sound modifiers) {name : String}
    (hnone : w.env.pairs name = none) : w.find name = none := by
  cases hf : w.find name with
  | none => rfl
  | some p =>
    obtain ⟨s, he⟩ := hs.entry name p hf
    obtain ⟨pairs, hpairs, -⟩ := he.stored
    rw [hnone] at hpairs
    contradiction

/-- No handle is open on a name that the manager does not know. -/
theorem Sound.not_openOn (hs : w.Sound modifiers) {name : String} (hf : w.find name = none)
    (h : IndexPtr) : ¬w.OpenOn h name := by
  rintro ⟨idx, hidx, hopen, rfl⟩
  have hsome := (hs.opened h idx hidx hopen).2.2
  rw [hf] at hsome
  contradiction

/-- What no transaction has modified is not in the log. -/
theorem Sound.no_image (hs : w.Sound modifiers) {name : String} (hmod : modifiers name = ∅) :
    ∀ x ∈ w.env.dbs.log, x.2.1 ≠ name := by
  intro x hx hxn
  have howner := hs.owners x hx
  rw [hxn, hmod] at howner
  exact Finset.notMem_empty _ howner

/-- Creating or removing another database. -/
theorem Entry.stored_put {n name : String} (he : w.Entry modifiers n p s) (hn : n ≠ name)
    (content : Option (List Pair)) : Stores s (w.env.dbs.put name content |>.store n) := by
  rw [UndoLog.put_store, Function.update_of_ne hn]
  exact he.stored

theorem create_sound (hs : w.Sound modifiers) {name : String} (hname : name ≠ "")
    (hnone : w.env.pairs name = none) (types : List AttributeType) :
    (w.created name types).Sound modifiers := by
  have hfresh := hs.find_eq_none hnone
  have hmod : modifiers name = ∅ := hs.absent name hfresh
  have hfind : ∀ n, (w.created name types).find n = if n = name then some w.free else w.find n :=
    created_find name types
  have hlt : ∀ {n p}, w.find n = some p → p < w.free := fun hf =>
    (hs.entry _ _ hf).choose_spec.fresh
  exact {
    wf := UndoLog.put_wf hs.wf _ _
    flat := hs.flat
    entry := fun n p hf => by
      rw [hfind] at hf
      by_cases hn : n = name
      · subst hn
        rw [if_pos rfl, Option.some.injEq] at hf
        subst hf
        exact ⟨IndexStructure.new types, hname, Function.update_self .., Nat.lt_succ_self _, rfl,
          hmod.symm, ⟨[], Function.update_self .., .nil⟩,
          fun x hx hxn => absurd hxn (hs.no_image hmod x hx),
          fun h => iff_of_false (Finset.notMem_empty h) (hs.not_openOn hfresh h)⟩
      · rw [if_neg hn] at hf
        obtain ⟨s, he⟩ := hs.entry n p hf
        have hp : p ≠ w.free := (hlt hf).ne
        exact ⟨s, he.named, (Function.update_of_ne hp ..).trans he.live, Nat.lt_succ_of_lt he.fresh,
          he.writable, he.exact, he.stored_put hn _, he.images, he.handles⟩
    injective := insert_injective (fun _ _ hf => (hlt hf).ne) hs.injective
    absent := fun n hn => by
      rw [hfind] at hn
      by_cases hne : n = name
      · rw [hne]; exact hmod
      · rw [if_neg hne] at hn
        exact hs.absent n hn
    unresolved := hs.unresolved
    owners := hs.owners
    allocated := fun h hh => Nat.lt_succ_of_lt (hs.allocated h hh)
    opened := fun h idx hidx hopen => by
      obtain ⟨hdb, hstructure, hsome⟩ := hs.opened h idx hidx hopen
      have hne : idx.name ≠ name := by
        intro hc
        rw [hc, hfresh] at hsome
        contradiction
      have hf := hfind idx.name
      rw [if_neg hne] at hf
      rw [hf]
      exact ⟨hdb, hstructure, hsome⟩ }

/-- Calls that change handles, the registered handles of structures, or iterators. -/
theorem Sound.withHandles (hs : w.Sound modifiers) {handles : IndexPtr → Option Index}
    {structures : StructurePtr → Option IndexStructure} {iterators : IteratorPtr → Option Iterator}
    {free : Nat} (hfree : w.free ≤ free) (hallocated : ∀ h, handles h ≠ none → h < free)
    (hopened : ∀ h idx, handles h = some idx → idx.closed = false →
      idx.db = true ∧ idx.structure_ = w.find idx.name ∧ (w.find idx.name).isSome)
    (hstructures : ∀ name p s, w.find name = some p → w.Entry modifiers name p s →
      ∃ registered, structures p = some { s with handles := registered } ∧
        ∀ h, h ∈ registered ↔ ∃ idx, handles h = some idx ∧ idx.closed = false ∧ idx.name = name) :
    { w with
      handles := handles, structures := structures, iterators := iterators,
      free := free }.Sound modifiers where
  wf := hs.wf
  flat := hs.flat
  entry := fun name p hf => by
    obtain ⟨s, he⟩ := hs.entry name p hf
    obtain ⟨registered, hlive, hregistered⟩ := hstructures name p s hf he
    exact ⟨_, he.named, hlive, he.fresh.trans_le hfree, he.writable, he.exact, he.stored, he.images,
      hregistered⟩
  injective := hs.injective
  absent := hs.absent
  unresolved := hs.unresolved
  owners := hs.owners
  allocated := hallocated
  opened := hopened

theorem Sound.iterators (hs : w.Sound modifiers) (h : OnlyIterators w w') : w'.Sound modifiers := by
  obtain ⟨iterators, free, hfree, rfl⟩ := h
  exact hs.withHandles hfree (fun h hh => (hs.allocated h hh).trans_le hfree) hs.opened
    fun _ _ s _ he => ⟨s.handles, he.live, he.handles⟩

/-- Calls that change one handle, and the set that it is registered in. -/
theorem Sound.withHandle (hs : w.Sound modifiers) {value : Option Index}
    {structures : StructurePtr → Option IndexStructure} {free : Nat} (hfree : w.free ≤ free)
    (hh : h < free)
    (hvalue : ∀ idx, value = some idx → idx.closed = false →
      idx.db = true ∧ idx.structure_ = w.find idx.name ∧ (w.find idx.name).isSome)
    (hstructures : ∀ name p s, w.find name = some p → w.Entry modifiers name p s →
      ∃ registered, structures p = some { s with handles := registered } ∧
        (h ∈ registered ↔ ∃ idx, value = some idx ∧ idx.closed = false ∧ idx.name = name) ∧
        ∀ g, g ≠ h → (g ∈ registered ↔ g ∈ s.handles)) :
    { w with
      handles := Function.update w.handles h value, structures := structures
      free := free }.Sound modifiers := by
  refine hs.withHandles hfree (fun g hg => ?_) (fun g idx hidx hopen => ?_) fun name p s hf he => ?_
  · by_cases hgh : g = h
    · rwa [hgh]
    · rw [Function.update_of_ne hgh] at hg
      exact (hs.allocated g hg).trans_le hfree
  · by_cases hgh : g = h
    · subst hgh
      exact hvalue idx (by simpa using hidx) hopen
    · exact hs.opened g idx (by simpa [hgh] using hidx) hopen
  · obtain ⟨registered, hlive, hhere, hothers⟩ := hstructures name p s hf he
    refine ⟨registered, hlive, fun g => ?_⟩
    by_cases hgh : g = h
    · subst hgh
      rw [hhere, Function.update_self]
    · rw [hothers g hgh, he.handles, OpenOn, Function.update_of_ne hgh]

theorem openIndex_sound (hs : w.Sound modifiers) (name : String) :
    (w.openIndex noFaults name).2.2.Sound modifiers := by
  have hnew : w.handles w.free = none := by
    by_contra hc
    exact absurd (hs.allocated w.free hc) (lt_irrefl _)
  by_cases hname : name = ""
  · simp only [openIndex, if_pos hname]
    exact hs
  · cases hf : w.find name with
    | none =>
      -- the handle exists, but it is not open
      have hcall : (w.openIndex noFaults name).2.2 =
          { w with
            handles := Function.update w.handles w.free (some ⟨name, none, false, true⟩)
            structures := w.structures, free := w.free + 1 } := by
        simp only [openIndex, if_neg hname, openHandle, hf]
        rfl
      rw [hcall]
      refine hs.withHandle (Nat.le_succ _) (Nat.lt_succ_self _) ?_ fun n p s hfn he => ?_
      · rintro idx ⟨⟩ hopen
        contradiction
      · exact ⟨s.handles, he.live, by simp [he.handles, OpenOn, hnew], fun _ _ => Iff.rfl⟩
    | some p =>
      obtain ⟨s, he⟩ := hs.entry name p hf
      obtain ⟨pairs, hpairs, -⟩ := he.stored
      have hcall : (w.openIndex noFaults name).2.2 =
          { w with
            handles := Function.update w.handles w.free (some ⟨name, some p, true, false⟩)
            structures := Function.update w.structures p
              (some { s with handles := Insert.insert w.free s.handles })
            free := w.free + 1 } := by
        have hlive : w.structures p = some s := he.live
        have hpairs' : w.env.pairs name = some pairs := hpairs
        simp only [openIndex, if_neg hname, openHandle, hf, setHandle, setStructure, hlive,
          noFaults_thrown, hpairs', Function.update_idem]
      rw [hcall]
      refine hs.withHandle (Nat.le_succ _) (Nat.lt_succ_self _) ?_ fun n q t hfn hen => ?_
      · rintro idx ⟨⟩ -
        exact ⟨rfl, hf.symm, by rw [hf]; rfl⟩
      · by_cases hq : q = p
        · subst hq
          obtain rfl := hs.injective n name q hfn hf
          obtain rfl : s = t := Option.some.inj (he.live.symm.trans hen.live)
          exact ⟨Insert.insert w.free s.handles, Function.update_self .., by simp,
            fun g hg => by rw [Finset.mem_insert, or_iff_right hg]⟩
        · have hne : name ≠ n := by
            rintro rfl
            exact hq (Option.some.inj (hfn.symm.trans hf))
          exact ⟨t.handles, (Function.update_of_ne hq ..).trans hen.live,
            by simp [hen.handles, OpenOn, hnew, hne], fun _ _ => Iff.rfl⟩

/-- `Index::Close` on an open handle whose structure exists, when the database can be closed. -/
theorem closeHandle_open {F : Faults} {idx : Index} (hidx : w.handles h = some idx)
    (hopen : idx.closed = false) (hstructure : idx.structure_ = some p)
    (hlive : w.structures p = some s) (hthrown : idx.db = true → F.thrown (.dbClose h) = none) :
    w.closeHandle F h =
      (.ret (), (w.setHandle h { idx with closed := true, db := false }).setStructure p
        { s with handles := s.handles.erase h }) := by
  have hfailure : (if idx.db then F.thrown (.dbClose h) else none) = none := by
    split
    · next hdb => exact hthrown hdb
    · rfl
  have hlive' : ∀ i, (w.setHandle h i).structures p = some s := fun _ => hlive
  simp only [closeHandle, hidx, hopen, hfailure, hstructure, Bool.false_eq_true, if_false, hlive']

theorem closeIndex_sound (hs : w.Sound modifiers) (idx : Option IndexPtr) :
    (w.closeIndex noFaults idx).2.2.Sound modifiers := by
  cases idx with
  | none => exact hs
  | some h =>
    cases hidx : w.handles h with
    | none => simp only [closeIndex, hidx]; exact hs
    | some idx =>
      have hh : h < w.free := hs.allocated h (by rw [hidx]; exact Option.some_ne_none _)
      cases hclosed : idx.closed with
      | true =>
        have hcall : (w.closeIndex noFaults (some h)).2.2 =
            { w with
              handles := Function.update w.handles h none, structures := w.structures
              free := w.free } := by
          simp only [closeIndex, hidx, closeHandle, hclosed, if_true]
        rw [hcall]
        refine hs.withHandle le_rfl hh (fun _ hnone => by cases hnone) fun n p s _ he => ?_
        exact ⟨s.handles, he.live, by simp [he.handles, OpenOn, hidx, hclosed], fun _ _ => Iff.rfl⟩
      | false =>
        obtain ⟨hdb, hstructure, hsome⟩ := hs.opened h idx hidx hclosed
        obtain ⟨p, hf⟩ := Option.isSome_iff_exists.mp hsome
        obtain ⟨s, he⟩ := hs.entry idx.name p hf
        have hcall : (w.closeIndex noFaults (some h)).2.2 =
            { w with
              handles := Function.update w.handles h none
              structures := Function.update w.structures p
                (some { s with handles := s.handles.erase h })
              free := w.free } := by
          have hclose := closeHandle_open (F := noFaults) hidx hclosed (hstructure.trans hf) he.live
            fun _ => rfl
          simp only [closeIndex, hidx, hclose, setHandle, setStructure, Function.update_idem]
        rw [hcall]
        refine hs.withHandle le_rfl hh (fun _ hnone => by cases hnone) fun n q t hfn hen => ?_
        by_cases hq : q = p
        · subst hq
          obtain rfl := hs.injective n idx.name q hfn hf
          obtain rfl : s = t := Option.some.inj (he.live.symm.trans hen.live)
          exact ⟨s.handles.erase h, Function.update_self .., by simp,
            fun g hg => by rw [Finset.mem_erase, and_iff_right hg]⟩
        · have hne : idx.name ≠ n := by
            rintro rfl
            exact hq (Option.some.inj (hfn.symm.trans hf))
          exact ⟨t.handles, (Function.update_of_ne hq ..).trans hen.live,
            by simp [hen.handles, OpenOn, hidx, hne], fun _ _ => Iff.rfl⟩

/-! ### Deleting an index -/

/-- `IndexStructure::CloseHandles` closes open handles of the structure one after the other. -/
theorem closeHandles_open : ∀ {hs : List IndexPtr} {w : World} {s : IndexStructure}, hs.Nodup →
    (∀ h ∈ hs, ∃ idx, w.handles h = some idx ∧ idx.closed = false ∧ idx.structure_ = some p) →
    w.structures p = some s →
    ∃ handles structures, closeHandles noFaults hs w =
        (.ret (), { w with handles := handles, structures := structures }) ∧
      (∀ h ∉ hs, handles h = w.handles h) ∧
      (∀ h ∈ hs, ∃ idx, handles h = some idx ∧ idx.closed = true) ∧
      (∀ q, q ≠ p → structures q = w.structures q)
  | [], w, _, _, _, _ => ⟨w.handles, w.structures, rfl, by simp, by simp, by simp⟩
  | h :: hs, w, s, hn, hopen, hlive => by
    obtain ⟨hh, hn⟩ := List.nodup_cons.mp hn
    obtain ⟨idx, hidx, hclosed, hstructure⟩ := hopen h List.mem_cons_self
    have hrest : ∀ g ∈ hs, ∃ i,
        ((w.setHandle h { idx with closed := true, db := false }).setStructure p
          { s with handles := s.handles.erase h }).handles g = some i ∧
        i.closed = false ∧ i.structure_ = some p := by
      intro g hg
      obtain ⟨i, hi, hrest⟩ := hopen g (List.mem_cons_of_mem _ hg)
      have hgh : g ≠ h := fun hc => hh (hc ▸ hg)
      exact ⟨i, (Function.update_of_ne hgh ..).trans hi, hrest⟩
    obtain ⟨handles, structures, hcall, hother, hthese, hstructures⟩ :=
      closeHandles_open hn hrest (Function.update_self ..)
    refine ⟨handles, structures, ?_, fun g hg => ?_, fun g hg => ?_, fun q hq => ?_⟩
    · rw [closeHandles, closeHandle_open (F := noFaults) hidx hclosed hstructure hlive fun _ => rfl]
      exact hcall
    · have hgh : g ≠ h := fun hc => hg (hc ▸ List.mem_cons_self)
      exact (hother g fun hc => hg (List.mem_cons_of_mem _ hc)).trans (Function.update_of_ne hgh ..)
    · rcases List.mem_cons.mp hg with rfl | hg
      · exact ⟨_, (hother g hh).trans (Function.update_self ..), rfl⟩
      · exact hthese g hg
    · exact (hstructures q hq).trans (Function.update_of_ne hq ..)

/-- `IndexManager::Remove` on an index without open transactions. -/
theorem remove_empty (hs : w.Sound modifiers) (hf : w.find name = some p)
    (he : w.Entry modifiers name p s) (hempty : s.transactions = ∅) :
    ∃ handles structures, w.remove noFaults name =
        (.ret .kOk, { w with
          handles := handles, structures := Function.update structures p none
          indices := w.indices.filter (·.1 ≠ name) }) ∧
      (∀ h, ¬w.OpenOn h name → handles h = w.handles h) ∧
      (∀ h, w.OpenOn h name → ∃ idx, handles h = some idx ∧ idx.closed = true) ∧
      (∀ q, q ≠ p → structures q = w.structures q) := by
  have hro : s.makeReadOnly = (true, { s with readOnly := true }) := by
    simp [IndexStructure.makeReadOnly, hempty]
  have hopen : ∀ h ∈ s.handles.sort (· ≤ ·), ∃ idx,
      (w.setStructure p { s with readOnly := true }).handles h = some idx ∧ idx.closed = false ∧
        idx.structure_ = some p := by
    intro h hh
    obtain ⟨idx, hidx, hclosed, hname⟩ := (he.handles h).mp ((Finset.mem_sort _).mp hh)
    refine ⟨idx, hidx, hclosed, ?_⟩
    rw [(hs.opened h idx hidx hclosed).2.1, hname, hf]
  obtain ⟨handles, structures, hcall, hother, hthese, hstructures⟩ :=
    closeHandles_open (Finset.sort_nodup _ _) hopen (Function.update_self ..)
  refine ⟨handles, structures, ?_, fun h hh => hother h fun hc => hh ?_, fun h hh => hthese h ?_,
    fun q hq => (hstructures q hq).trans (Function.update_of_ne hq ..)⟩
  · simp only [remove, hf, he.live, hro, if_true, destroyStructure, hcall]
    rfl
  · exact (he.handles h).mp ((Finset.mem_sort _).mp hc)
  · exact (Finset.mem_sort _).mpr ((he.handles h).mpr hh)

theorem deleteIndex_sound (hs : w.Sound modifiers) (name : String) :
    (w.deleteIndex noFaults name).2.Sound modifiers := by
  by_cases hname : name = ""
  · simp only [deleteIndex, if_pos hname]; exact hs
  cases hf : w.find name with
  | none =>
    simp only [deleteIndex, if_neg hname, remove, hf, caught]
    exact hs
  | some p =>
    obtain ⟨s, he⟩ := hs.entry name p hf
    by_cases hempty : s.transactions = ∅
    · obtain ⟨handles, structures, hcall, hother, hthese, hstructures⟩ := remove_empty hs hf he hempty
      obtain ⟨pairs, hpairs, -⟩ := he.stored
      have hmod : modifiers name = ∅ := he.exact ▸ hempty
      have hopened : ∀ h idx, handles h = some idx → idx.closed = false →
          w.handles h = some idx ∧ idx.name ≠ name := by
        intro h idx hidx hopen
        have hnot : ¬w.OpenOn h name := by
          intro hc
          obtain ⟨i, hi, hclosed⟩ := hthese h hc
          rw [hidx, Option.some.injEq] at hi
          rw [← hi, hopen] at hclosed
          contradiction
        have hsame : w.handles h = some idx := (hother h hnot).symm.trans hidx
        exact ⟨hsame, fun hc => hnot ⟨idx, hsame, hopen, hc⟩⟩
      have hdelete : (w.deleteIndex noFaults name).2 =
          { w with
            env := { w.env with dbs := w.env.dbs.put name none }
            handles := handles, structures := Function.update structures p none
            indices := w.indices.filter (·.1 ≠ name) } := by
        simp only [deleteIndex, if_neg hname, hcall, noFaults_thrown, hpairs, Option.isSome_some,
          if_true]
        rfl
      rw [hdelete]
      exact {
        wf := UndoLog.put_wf hs.wf _ _
        flat := hs.flat
        entry := fun n q hfn => by
          obtain ⟨hn, hfn⟩ := find_of_erased rfl hfn
          obtain ⟨t, hen⟩ := hs.entry n q hfn
          have hq : q ≠ p := fun hc => hn (hs.injective n name p (hc ▸ hfn) hf)
          refine ⟨t, hen.named, ?_, hen.fresh, hen.writable, hen.exact, ?_, hen.images, fun h => ?_⟩
          · exact (Function.update_of_ne hq ..).trans ((hstructures q hq).trans hen.live)
          · exact hen.stored_put hn none
          · rw [hen.handles]
            constructor
            · rintro ⟨idx, hidx, hopen, rfl⟩
              have hnot : ¬w.OpenOn h name := by
                rintro ⟨i, hi, -, hc⟩
                rw [hidx, Option.some.injEq] at hi
                exact hn (hi ▸ hc)
              exact ⟨idx, (hother h hnot).trans hidx, hopen, rfl⟩
            · rintro ⟨idx, hidx, hopen, rfl⟩
              exact ⟨idx, (hopened h idx hidx hopen).1, hopen, rfl⟩
        injective := fun a b q ha hb =>
          hs.injective a b q (find_of_erased rfl ha).2 (find_of_erased rfl hb).2
        absent := fun n hfn => by
          rw [find_erased rfl n] at hfn
          by_cases hn : n = name
          · rw [hn]; exact hmod
          · rw [if_neg hn] at hfn
            exact hs.absent n hfn
        unresolved := hs.unresolved
        owners := hs.owners
        allocated := fun h hh => by
          by_cases ho : w.OpenOn h name
          · obtain ⟨idx, hidx, -⟩ := ho
            exact hs.allocated h (by rw [hidx]; simp)
          · exact hs.allocated h fun hc => hh ((hother h ho).trans hc)
        opened := fun h idx hidx hopen => by
          obtain ⟨hsame, hne⟩ := hopened h idx hidx hopen
          rw [find_erased rfl idx.name, if_neg hne]
          exact hs.opened h idx hsame hopen }
    · have hcard : s.transactions.card > 0 := Finset.card_pos.mpr
        (Finset.nonempty_iff_ne_empty.mpr hempty)
      have hro : s.makeReadOnly.1 = false := by simp [IndexStructure.makeReadOnly, hcard]
      simp only [deleteIndex, if_neg hname, remove, hf, he.live, hro, Bool.false_eq_true, if_false,
        caught]
      exact hs

/-! ### Modifications -/

/-- In a sound state a handle that is not closed is open. -/
theorem Sound.open_ (hs : w.Sound modifiers) {idx : Index} (hidx : w.handles h = some idx)
    (hopen : idx.closed = false) :
    ∃ o, w.Open h o ∧ o.index = idx ∧ w.Entry modifiers idx.name o.ptr o.s := by
  obtain ⟨hdb, hstructure, hsome⟩ := hs.opened h idx hidx hopen
  obtain ⟨p, hf⟩ := Option.isSome_iff_exists.mp hsome
  obtain ⟨s, he⟩ := hs.entry idx.name p hf
  obtain ⟨pairs, hpairs, hsorted⟩ := he.stored
  refine ⟨⟨idx, p, s, s.dbKeycmp, pairs⟩, ?_, rfl, he⟩
  exact ⟨hidx, hopen, hdb, hstructure.trans hf, hf, he.live, he.writable, rfl, hpairs, hsorted⟩

/-- The registry after a modification that answers `code`. -/
def settledTxns (txns : Finset TxnPtr) (tx : Option TxnPtr) (code : ErrorCode) : Finset TxnPtr :=
  if code = .kOk then joining txns tx else txns

/-- The databases after a modification that answers `code`. -/
def settledDbs (w : World) (tx : Option TxnPtr) (name : String) (pairs : List Pair)
    (code : ErrorCode) : UndoLog String (Option (List Pair)) :=
  if code = .kOk then (w.env.write tx name pairs).dbs else w.env.dbs

/-- The nested transaction of an update or delete is gone when the call returns. -/
theorem indexModify_settles (B : BerkeleyDB) (cw : CursorWrite) (loopError : ErrorCode)
    (ho : w.Open h o) (hwf : w.env.dbs.Wf) {tx : Option TxnPtr} (htx : ∀ t ∈ tx, t ∈ w.env.dbs.ids)
    (htxns : ∀ t ∈ o.s.transactions, t ∈ w.env.dbs.ids) {r : Record}
    (hr : r.key.FullySet o.s.type) (flags : UInt8) :
    ∃ env, w.indexModify B noFaults cw loopError tx h r flags =
        (.ret (cw.effect o.s o.pairs r flags).1,
          w.after o env (settledTxns o.s.transactions tx (cw.effect o.s o.pairs r flags).1)) ∧
      env.dbs = w.settledDbs tx o.index.name (cw.effect o.s o.pairs r flags).2
        (cw.effect o.s o.pairs r flags).1 := by
  have hfresh := txnBegin_fresh B w.env tx
  have hne : ∀ t ∈ tx, t ≠ (w.env.txnBegin B tx).1 := fun t ht hc => hfresh (hc ▸ htx t ht)
  have hparent : tx ≠ some (w.env.txnBegin B tx).1 := fun hc => hne _ hc rfl
  have hnot : (w.env.txnBegin B tx).1 ∉ o.s.transactions := fun hc => hfresh (htxns _ hc)
  rw [indexModify_opened B noFaults cw loopError ho.opened ho.writable, ho.cmp,
    modifyBody_noFaults B hr ho.sorted, CursorWrite.effect]
  cases Cursor.first (r.selects o.s flags) o.pairs with
  | none =>
    -- nothing was written, so only the nested transaction joined
    have htxns' : (registering o.s.transactions tx (w.env.txnBegin B tx).1 false).erase
        (w.env.txnBegin B tx).1 = o.s.transactions := by
      cases tx <;> simp [registering, Finset.erase_insert hnot]
    simp only [noFaults_thrown, htxns']
    exact ⟨_, rfl, UndoLog.begin_commit hwf hfresh hparent⟩
  | some c =>
    have htxns' : (registering o.s.transactions tx (w.env.txnBegin B tx).1 true).erase
        (w.env.txnBegin B tx).1 = joining o.s.transactions tx := by
      cases tx with
      | none => simp [registering, joining, Finset.erase_insert hnot]
      | some t =>
        rw [registering, if_pos rfl, Finset.erase_insert_of_ne (hne t rfl),
          Finset.erase_insert hnot, joining]
    simp only [noFaults_thrown, htxns']
    refine ⟨_, rfl, ?_⟩
    cases tx with
    | none => exact UndoLog.begin_write_commit hwf hfresh _ _
    | some t => exact UndoLog.begin_write_commit_child hwf hfresh (hne t rfl) _ _

/-- What a modification leaves behind in a sound state. -/
theorem modify_settles (B : BerkeleyDB) (ho : w.Open h o) (hwf : w.env.dbs.Wf) {tx : Option TxnPtr}
    (htx : ∀ t ∈ tx, t ∈ w.env.dbs.ids) (htxns : ∀ t ∈ o.s.transactions, t ∈ w.env.dbs.ids)
    {m : Modification} (hm : m.record.key.FullySet o.s.type) :
    ∃ env, w.modify B noFaults tx h m =
        (some (m.effect B o.s o.pairs).1,
          w.after o env (settledTxns o.s.transactions tx (m.effect B o.s o.pairs).1)) ∧
      env.dbs = w.settledDbs tx o.index.name (m.effect B o.s o.pairs).2
        (m.effect B o.s o.pairs).1 := by
  cases m with
  | insert r =>
    have hr : r.key.FullySet o.s.type := hm
    simp only [World.modify, insertRecord, Modification.effect, ho.guarded hr,
      indexInsert_opened B _ ho.opened ho.writable, ho.cmp]
    exact ⟨_, rfl, rfl⟩
  | update r payload flags =>
    have hr : r.key.FullySet o.s.type := hm
    obtain ⟨env, hcall, hdbs⟩ := indexModify_settles B (.putCurrent payload) .kErrorNotFound ho hwf htx
      htxns hr flags
    simp only [World.modify, updateRecord, ho.guarded hr, indexUpdate, hcall]
    exact ⟨env, rfl, hdbs⟩
  | delete r flags =>
    have hr : r.key.FullySet o.s.type := hm
    obtain ⟨env, hcall, hdbs⟩ := indexModify_settles B .del .kErrorGenericFailure ho hwf htx htxns hr
      flags
    simp only [World.modify, deleteRecord, ho.guarded hr, indexDelete, hcall]
    exact ⟨env, rfl, hdbs⟩

/-- The registry of every index after a modification that answers `code`. -/
def settledModifiers (modifiers : String → Finset TxnPtr) (tx : Option TxnPtr) (name : String)
    (code : ErrorCode) : String → Finset TxnPtr :=
  Function.update modifiers name (settledTxns (modifiers name) tx code)

theorem mem_joining {txns : Finset TxnPtr} {tx : Option TxnPtr} {t : TxnPtr} :
    t ∈ joining txns tx ↔ t ∈ tx ∨ t ∈ txns := by
  cases tx <;> simp [joining, eq_comm]

theorem subset_settledModifiers (modifiers : String → Finset TxnPtr) (tx : Option TxnPtr)
    (name n : String) (code : ErrorCode) :
    modifiers n ⊆ settledModifiers modifiers tx name code n := by
  intro t ht
  by_cases hn : n = name
  · subst hn
    rw [settledModifiers, Function.update_self, settledTxns]
    split
    · exact mem_joining.mpr (Or.inr ht)
    · exact ht
  · rw [settledModifiers, Function.update_of_ne hn]
    exact ht

theorem settledDbs_live (w : World) (tx : Option TxnPtr) (name : String) (pairs : List Pair)
    (code : ErrorCode) : (w.settledDbs tx name pairs code).live = w.env.dbs.live := by
  unfold settledDbs
  split
  · cases tx <;> rfl
  · rfl

theorem settledDbs_wf (hwf : w.env.dbs.Wf) {tx : Option TxnPtr} (htx : ∀ t ∈ tx, t ∈ w.env.dbs.ids)
    (name : String) (pairs : List Pair) (code : ErrorCode) :
    (w.settledDbs tx name pairs code).Wf := by
  unfold settledDbs
  split
  · cases tx with
    | none => exact UndoLog.put_wf hwf _ _
    | some t => exact UndoLog.write_wf hwf (htx t rfl) _ _
  · exact hwf

theorem settledDbs_store (w : World) (tx : Option TxnPtr) (name : String) (pairs : List Pair)
    (code : ErrorCode) : (w.settledDbs tx name pairs code).store =
      if code = .kOk then Function.update w.env.dbs.store name (some pairs) else w.env.dbs.store := by
  unfold settledDbs
  split
  · cases tx <;> rfl
  · rfl

/-- A new before-image is the old content, owned by the caller's transaction. -/
theorem mem_settledDbs_log {tx : Option TxnPtr} {pairs : List Pair} {code : ErrorCode}
    {x : TxnPtr × String × Option (List Pair)}
    (hx : x ∈ (w.settledDbs tx name pairs code).log) :
    x ∈ w.env.dbs.log ∨ code = .kOk ∧ x.1 ∈ tx ∧ x.2.1 = name ∧ x.2.2 = w.env.pairs name := by
  unfold settledDbs at hx
  split at hx
  · next hcode =>
    cases tx with
    | none => exact Or.inl hx
    | some t =>
      rcases List.mem_cons.mp hx with rfl | hx
      · exact Or.inr ⟨hcode, rfl, rfl, rfl⟩
      · exact Or.inl hx
  · exact Or.inl hx

/-- A modification that settles keeps the state sound. -/
theorem Sound.settled (hs : w.Sound modifiers) (ho : w.Open h o) {tx : Option TxnPtr}
    (htx : ∀ t ∈ tx, t ∈ w.env.dbs.ids) {env : DbEnv} {pairs : List Pair} {code : ErrorCode}
    (hsorted : SortedBy o.s.dbKeycmp pairs)
    (hdbs : env.dbs = w.settledDbs tx o.index.name pairs code) :
    (w.after o env (settledTxns o.s.transactions tx code)).Sound
      (settledModifiers modifiers tx o.index.name code) where
  wf := by
    rw [after_env, hdbs]
    exact settledDbs_wf hs.wf htx _ _ _
  flat := by
    intro e he
    rw [after_env, hdbs, settledDbs_live] at he
    exact hs.flat e he
  entry := fun n q hf => by
    obtain ⟨s, he⟩ := hs.entry n q hf
    have himages : Stores s (w.env.pairs o.index.name) → ∀ x ∈ env.dbs.log, x.2.1 = n →
        Stores s x.2.2 := by
      intro hold x hx hxn
      rw [hdbs] at hx
      rcases mem_settledDbs_log hx with hx | ⟨-, -, -, himage⟩
      · exact he.images x hx hxn
      · rw [himage]; exact hold
    by_cases hn : n = o.index.name
    · subst hn
      obtain rfl : q = o.ptr := Option.some.inj (hf.symm.trans ho.found)
      obtain rfl : o.s = s := Option.some.inj (ho.live.symm.trans he.live)
      refine ⟨{ o.s with transactions := settledTxns o.s.transactions tx code }, he.named,
        Function.update_self .., he.fresh, he.writable, ?_, ?_, himages he.stored, he.handles⟩
      · rw [settledModifiers, Function.update_self, he.exact]
      · change Stores o.s (env.dbs.store o.index.name)
        rw [hdbs, settledDbs_store]
        split
        · exact ⟨pairs, Function.update_self .., hsorted⟩
        · exact he.stored
    · have hq : q ≠ o.ptr := fun hc => hn (hs.injective n _ q hf (hc ▸ ho.found))
      refine ⟨s, he.named, (Function.update_of_ne hq ..).trans he.live, he.fresh, he.writable, ?_, ?_,
        fun x hx hxn => ?_, he.handles⟩
      · rw [settledModifiers, Function.update_of_ne hn, he.exact]
      · change Stores s (env.dbs.store n)
        rw [hdbs, settledDbs_store]
        split
        · rw [Function.update_of_ne hn]; exact he.stored
        · exact he.stored
      · rw [after_env, hdbs] at hx
        rcases mem_settledDbs_log hx with hx | ⟨-, -, hname, -⟩
        · exact he.images x hx hxn
        · exact absurd (hxn.symm.trans hname) hn
  injective := hs.injective
  absent := fun n hf => by
    have hn : n ≠ o.index.name := by
      rintro rfl
      exact absurd (hf.symm.trans ho.found) (by simp)
    rw [settledModifiers, Function.update_of_ne hn]
    exact hs.absent n hf
  unresolved := fun n t ht => by
    have hids : (w.after o env (settledTxns o.s.transactions tx code)).env.dbs.ids =
        w.env.dbs.ids := by
      rw [after_env, UndoLog.ids, hdbs, settledDbs_live]; rfl
    rw [hids]
    by_cases hn : n = o.index.name
    · subst hn
      rw [settledModifiers, Function.update_self, settledTxns] at ht
      split at ht
      · exact (mem_joining.mp ht).elim (htx t) (hs.unresolved _ t)
      · exact hs.unresolved _ t ht
    · rw [settledModifiers, Function.update_of_ne hn] at ht
      exact hs.unresolved n t ht
  owners := fun x hx => by
    rw [after_env, hdbs] at hx
    rcases mem_settledDbs_log hx with hx | ⟨hcode, howner, hname, -⟩
    · exact subset_settledModifiers _ _ _ _ _ (hs.owners x hx)
    · rw [hname, settledModifiers, Function.update_self, settledTxns, if_pos hcode]
      exact mem_joining.mpr (Or.inl howner)
  allocated := hs.allocated
  opened := hs.opened

end World

end Contest
