import ContestIndex.Results.Database
import ContestIndex.Results.Registry

/-! @src example/BDBImpl.cc | name:What a state stands for | layer:specification

    The state of the program as a state of its specification. The databases and their before-images are
    the tables, the structures have the column types, a handle's `closed_` and name say where it is
    open, and the pairs that a cursor has not visited, without those that `CheckBounds` drops, are what
    its iterator has still to return (`Represents`). One lemma a call shows that this stays so and that
    the answer is allowed; the calls on transactions, indexes and handles are here.

        Database ──Does──▶ Database'            d' for every permitted call
           │ Represents      │ Represents
        World ───serve────▶ World'              no Berkeley DB call fails -/

namespace Contest
open Schemes

/-- What the record of a caller is worth. -/
def Record.abstract (r : Record) : AbstractRecord := (r.key.values, r.payload)

/-- Where a handle leads. -/
def Index.target (idx : Index) : Option String := if idx.closed then none else some idx.name

namespace World

/-- Make a call in which nothing fails, with everything that it returns. -/
def serve (B : BerkeleyDB) (w : World) : Call → Reply × World
  | .beginTransaction =>
    let r := w.beginTransaction B noFaults
    (⟨r.1, r.2.1, none⟩, r.2.2)
  | .abortTransaction tx =>
    let r := w.abortTransaction noFaults tx
    (⟨r.1, r.2.1, none⟩, r.2.2)
  | .commitTransaction tx =>
    let r := w.commitTransaction noFaults tx
    (⟨r.1, r.2.1, none⟩, r.2.2)
  | .createIndex name types =>
    let r := w.createIndex noFaults name types
    (⟨r.1, none, none⟩, r.2)
  | .openIndex name =>
    let r := w.openIndex noFaults name
    (⟨r.1, r.2.1.join, none⟩, r.2.2)
  | .closeIndex idx =>
    let r := w.closeIndex noFaults idx
    (⟨r.1, r.2.1, none⟩, r.2.2)
  | .deleteIndex name =>
    let r := w.deleteIndex noFaults name
    (⟨r.1, none, none⟩, r.2)
  | .modify tx h m =>
    let r := w.modify B noFaults tx h m
    (⟨r.1, none, none⟩, w.follow B h m r.2)
  | .getRecords tx idx minKeys maxKeys it =>
    let r := w.getRecords noFaults tx idx minKeys maxKeys it
    (⟨r.1, r.2.1.join, none⟩, r.2.2)
  | .getNext it =>
    let r := w.getNext B noFaults it
    (⟨r.1, none, r.2.1.join.map Record.abstract⟩, r.2.2)
  | .closeIterator it =>
    let r := w.closeIterator noFaults it
    (⟨r.1, r.2.1, none⟩, r.2.2)

/-! ### The abstraction -/

/-- The column types of the index that the manager knows under the name. -/
def typesOf (w : World) (name : String) : Option (List AttributeType) :=
  (w.find name).bind fun p => (w.structures p).map (·.type)

/-- What a database is worth. -/
def contentAt (types : List AttributeType) : Option (List Pair) → Multiset AbstractRecord
  | some pairs => content (IndexStructure.new types) pairs
  | none => 0

/-- The iterator has still to return these records, on a database with these pairs. -/
def Remaining (types : List AttributeType) (pairs : List Pair) (it : Iterator)
    (rest : List AbstractRecord) : Prop :=
  ∃ (o : Opened) (minKeys maxKeys : Key) (unvisited : List Pair),
    o.s.type = types ∧ o.pairs = pairs ∧ maxKeys.length = types.length ∧
      it.Stands o minKeys maxKeys unvisited ∧
      (scan (keeps o.s maxKeys) (stops o.s maxKeys) unvisited).map (abstractRecord o.s) = rest

/-- The iterator is open, its cursor until it has ended, and what it has still to return is what the
    specification says. -/
structure Follows (w : World) (it : Iterator) (c : AbstractCursor) : Prop where
  closed : it.closed = false
  index : it.index = c.handle
  txn : it.txn = c.txn
  cursor : it.cursor = none ↔ c.coming = .ended
  rest : ∀ rest, c.coming = .records rest → ∃ name types pairs, w.OpenOn c.handle name ∧
    w.typesOf name = some types ∧ w.env.pairs name = some pairs ∧ Remaining types pairs it rest

/-- The state represents the database, with these modifiers, tables and workers. -/
structure RepresentsBy (w : World) (modifiers : String → Finset TxnPtr)
    (T : String → Table (Option (List Pair))) (U : String → Finset TxnPtr) (d : Database) : Prop where
  sound : w.Sound modifiers
  tables : w.env.dbs.Tables T
  owners : ∀ name t, t ∈ modifiers name ↔ (T name).OwnedBy t
  busy : ∀ name t, (T name).OwnedBy t → t ∈ U name
  unknown : ∀ name, w.find name = none → w.env.pairs name = none
  indexes : ∀ name, d.indexes name =
    (w.typesOf name).map fun types => ⟨types, (T name).map (contentAt types), U name⟩
  transactions : ∀ t, t ∈ d.transactions ↔ t ∈ w.env.dbs.ids
  handles : ∀ h, d.handles h = (w.handles h).map Index.target
  cursors : ∀ i, Option.Rel w.Follows (w.iterators i) (d.cursors i)
  allocated : ∀ i, w.iterators i ≠ none → i < w.free

/-- The state represents the database. -/
def Represents (w : World) (d : Database) : Prop := ∃ modifiers T U, w.RepresentsBy modifiers T U d

variable {w w' : World} {d : Database} {modifiers : String → Finset TxnPtr}
  {T : String → Table (Option (List Pair))} {U : String → Finset TxnPtr} {name : String} {h : IndexPtr}
  {types : List AttributeType}

theorem initial_represents : initial.Represents .empty := by
  refine ⟨fun _ => ∅, fun _ => .clean none, fun _ => ∅, ?_⟩
  exact {
    sound := initial_sound
    tables := UndoLog.Tables.empty _ _
    owners := by simp [Table.OwnedBy]
    busy := by simp [Table.OwnedBy]
    unknown := fun _ _ => rfl
    indexes := fun _ => rfl
    transactions := by simp [Database.empty, initial, DbEnv.empty, UndoLog.ids]
    handles := fun _ => rfl
    cursors := fun _ => .none
    allocated := by simp [initial] }

/-! ### Reading the abstraction -/

namespace RepresentsBy
variable (hr : w.RepresentsBy modifiers T U d)
include hr

theorem typesOf_eq_some : w.typesOf name = some types ↔
    ∃ p s, w.find name = some p ∧ w.Entry modifiers name p s ∧ s.type = types := by
  constructor
  · intro ht
    obtain ⟨p, hf, hp⟩ := Option.bind_eq_some_iff.mp ht
    obtain ⟨s, he⟩ := hr.sound.entry name p hf
    rw [he.live, Option.map_some, Option.some.injEq] at hp
    exact ⟨p, s, hf, he, hp⟩
  · rintro ⟨p, s, hf, he, rfl⟩
    rw [typesOf, hf, Option.bind_some, he.live, Option.map_some]

theorem typesOf_eq_none : w.typesOf name = none ↔ w.find name = none := by
  cases hf : w.find name with
  | none => simp [typesOf, hf]
  | some p =>
    obtain ⟨s, he⟩ := hr.sound.entry name p hf
    simp [typesOf, hf, he.live]

theorem index_eq_none : d.indexes name = none ↔ w.find name = none := by
  rw [hr.indexes, Option.map_eq_none_iff, hr.typesOf_eq_none]

/-- What the specification knows of an index. -/
theorem index_eq_some {X : AbstractIndex} : d.indexes name = some X ↔
    ∃ p s, w.find name = some p ∧ w.Entry modifiers name p s ∧
      X = ⟨s.type, (T name).map (contentAt s.type), U name⟩ := by
  rw [hr.indexes, Option.map_eq_some_iff]
  constructor
  · rintro ⟨types, ht, rfl⟩
    obtain ⟨p, s, hf, he, rfl⟩ := hr.typesOf_eq_some.mp ht
    exact ⟨p, s, hf, he, rfl⟩
  · rintro ⟨p, s, hf, he, rfl⟩
    exact ⟨s.type, hr.typesOf_eq_some.mpr ⟨p, s, hf, he, rfl⟩, rfl⟩

/-- A handle of the specification that is open. -/
theorem handle_open : d.handles h = some (some name) ↔ w.OpenOn h name := by
  rw [hr.handles, OpenOn, Option.map_eq_some_iff]
  refine exists_congr fun idx => and_congr_right fun _ => ?_
  rw [Index.target]
  cases idx.closed <;> simp

theorem handle_closed : d.handles h = some none ↔
    ∃ idx, w.handles h = some idx ∧ idx.closed = true := by
  rw [hr.handles, Option.map_eq_some_iff]
  refine exists_congr fun idx => and_congr_right fun _ => ?_
  rw [Index.target]
  cases idx.closed <;> simp

theorem handle_none : d.handles h = none ↔ w.handles h = none := by
  rw [hr.handles, Option.map_eq_none_iff]

/-- An open handle leads to an index. -/
theorem open_index {X : AbstractIndex} (ho : d.OpenOn h name X) :
    ∃ o, w.Open h o ∧ o.index.name = name ∧ w.Entry modifiers name o.ptr o.s ∧
      X = ⟨o.s.type, (T name).map (contentAt o.s.type), U name⟩ := by
  obtain ⟨hhandle, hindex⟩ := ho
  obtain ⟨idx, hidx, hopen, rfl⟩ := hr.handle_open.mp hhandle
  obtain ⟨o, ho, rfl, he⟩ := hr.sound.open_ hidx hopen
  obtain ⟨p, s, hf, he', rfl⟩ := hr.index_eq_some.mp hindex
  obtain rfl : o.ptr = p := Option.some.inj (ho.found.symm.trans hf)
  obtain rfl : o.s = s := Option.some.inj (ho.live.symm.trans he'.live)
  exact ⟨o, ho, rfl, he, rfl⟩

/-- An open handle of the program is one of the specification. -/
theorem openOn (ho : w.OpenOn h name) : ∃ X, d.OpenOn h name X := by
  obtain ⟨idx, hidx, hopen, rfl⟩ := ho
  obtain ⟨-, -, hfound⟩ := hr.sound.opened h idx hidx hopen
  cases hindex : d.indexes idx.name with
  | none =>
    rw [hr.index_eq_none.mp hindex] at hfound
    contradiction
  | some X => exact ⟨X, hr.handle_open.mpr ⟨idx, hidx, hopen, rfl⟩, hindex⟩

/-- A handle that exists is closed or open. -/
theorem handle_cases (hsome : (d.handles h).isSome) :
    d.handles h = some none ∨ ∃ name X, d.OpenOn h name X := by
  obtain ⟨target, htarget⟩ := Option.isSome_iff_exists.mp hsome
  cases target with
  | none => exact Or.inl htarget
  | some name => exact Or.inr ⟨name, hr.openOn (hr.handle_open.mp htarget)⟩

/-- Nobody owns what the manager does not know. -/
theorem unowned_of_unknown (hf : w.find name = none) : (T name).saved = none := by
  cases hsaved : (T name).saved with
  | none => rfl
  | some e =>
    have howned : e.1 ∈ modifiers name :=
      (hr.owners name e.1).mpr (Table.ownedBy_iff.mpr ⟨e.2, hsaved⟩)
    rw [hr.sound.absent name hf] at howned
    exact absurd howned (Finset.notMem_empty _)

/-- An iterator of the specification is one of the program, and follows it. -/
theorem cursor_some {i : IteratorPtr} {c : AbstractCursor} (hc : d.cursors i = some c) :
    ∃ it, w.iterators i = some it ∧ w.Follows it c := by
  have hrel := hr.cursors i
  rw [hc] at hrel
  cases hi : w.iterators i with
  | none =>
    rw [hi] at hrel
    exact absurd hrel Option.not_rel_none_some
  | some it =>
    rw [hi] at hrel
    exact ⟨it, rfl, Option.rel_some_some.mp hrel⟩

theorem cursor_none {i : IteratorPtr} : d.cursors i = none ↔ w.iterators i = none := by
  have hrel := hr.cursors i
  cases hc : d.cursors i with
  | none =>
    rw [hc] at hrel
    cases hi : w.iterators i with
    | none => simp
    | some it =>
      rw [hi] at hrel
      exact absurd hrel Option.not_rel_some_none
  | some c =>
    obtain ⟨it, hi, -⟩ := hr.cursor_some hc
    simp [hi]

theorem mem_ids {tx : Option TxnPtr} (hp : d.Passes tx) : ∀ t ∈ tx, t ∈ w.env.dbs.ids := fun t ht =>
  (hr.transactions t).mp (hp t ht)

end RepresentsBy

/-! ### Iterators -/

/-- An iterator goes on while its handle stays open on the same pairs. -/
theorem Follows.transfer {it : Iterator} {c : AbstractCursor} (hf : w.Follows it c)
    (hkeep : ∀ name, w.OpenOn c.handle name → w'.OpenOn c.handle name ∧
      w'.typesOf name = w.typesOf name ∧ w'.env.pairs name = w.env.pairs name) :
    w'.Follows it c where
  closed := hf.closed
  index := hf.index
  txn := hf.txn
  cursor := hf.cursor
  rest := fun rest hrest => by
    obtain ⟨name, types, pairs, hopen, htypes, hpairs, hremaining⟩ := hf.rest rest hrest
    obtain ⟨hopen', htypes', hpairs'⟩ := hkeep name hopen
    exact ⟨name, types, pairs, hopen', htypes'.trans htypes, hpairs'.trans hpairs, hremaining⟩

/-- Nothing has to be known of what is still to come. -/
theorem Follows.lose {it : Iterator} {c : AbstractCursor} (hf : w.Follows it c) :
    w'.Follows it { c with coming := c.coming.lose } where
  closed := hf.closed
  index := hf.index
  txn := hf.txn
  cursor := hf.cursor.trans (by cases c.coming <;> simp [Coming.lose])
  rest := fun rest hrest => by
    cases hcoming : c.coming <;> simp [Coming.lose, hcoming] at hrest

/-- A call that leaves the iterators alone, where all that it changes has expired. -/
theorem RepresentsBy.cursors_expire (hr : w.RepresentsBy modifiers T U d) (p : IndexPtr → Prop)
    (hiterators : w'.iterators = w.iterators)
    (hkeep : ∀ h name, ¬p h → w.OpenOn h name → w'.OpenOn h name ∧
      w'.typesOf name = w.typesOf name ∧ w'.env.pairs name = w.env.pairs name) (i : IteratorPtr) :
    Option.Rel w'.Follows (w'.iterators i) ((d.expire p).cursors i) := by
  rw [hiterators, Database.expire]
  dsimp only
  cases hc : d.cursors i with
  | none =>
    rw [hr.cursor_none.mp hc]
    exact .none
  | some c =>
    obtain ⟨it, hi, hf⟩ := hr.cursor_some hc
    rw [hi]
    refine .some ?_
    dsimp only
    split
    · exact hf.lose
    · next hp => exact hf.transfer fun name => hkeep _ name hp

/-- A call that leaves the iterators alone and whatever they stand on. -/
theorem RepresentsBy.cursors_same (hr : w.RepresentsBy modifiers T U d)
    (hiterators : w'.iterators = w.iterators)
    (hkeep : ∀ h name, w.OpenOn h name → w'.OpenOn h name ∧
      w'.typesOf name = w.typesOf name ∧ w'.env.pairs name = w.env.pairs name) (i : IteratorPtr) :
    Option.Rel w'.Follows (w'.iterators i) (d.cursors i) := by
  have hnobody := hr.cursors_expire (fun _ => False) hiterators (fun h name _ => hkeep h name) i
  rwa [Database.expire_nobody] at hnobody

/-! ### Transactions -/

theorem typesOf_congr (hfind : w'.find name = w.find name)
    (hstructures : ∀ p, w.find name = some p →
      (w'.structures p).map (·.type) = (w.structures p).map (·.type)) :
    w'.typesOf name = w.typesOf name := by
  rw [typesOf, typesOf, hfind]
  cases hf : w.find name with
  | none => rfl
  | some p => exact hstructures p hf

theorem typesOf_closeTransaction (w : World) (t : TxnPtr) (name : String) :
    (w.closeTransaction t).typesOf name = w.typesOf name := by
  have hfind : (w.closeTransaction t).find name = w.find name := by
    rw [closeTransaction_eq]
    rfl
  refine typesOf_congr hfind fun p hp => ?_
  rw [closeTransaction_structures, if_pos (mem_of_find hp), Option.map_map]
  rfl

/-- STEP (`BeginTransaction`). -/
theorem RepresentsBy.begin (B : BerkeleyDB) (hr : w.RepresentsBy modifiers T U d) :
    ∃ d', Does d .beginTransaction (w.serve B .beginTransaction).1 d' ∧
      (w.serve B .beginTransaction).2.Represents d' := by
  have hfresh : (w.env.txnBegin B none).1 ∉ d.transactions := fun hc =>
    txnBegin_fresh B w.env none ((hr.transactions _).mp hc)
  refine ⟨_, .begin hfresh, modifiers, T, U, ?_⟩
  exact {
    sound := begin_sound B hr.sound
    tables := hr.tables.begin _ _
    owners := hr.owners
    busy := hr.busy
    unknown := hr.unknown
    indexes := hr.indexes
    transactions := fun t => by
      rw [Finset.mem_insert, hr.transactions]
      exact List.mem_cons.symm
    handles := hr.handles
    cursors := hr.cursors_same rfl fun h name ho => ⟨ho, rfl, rfl⟩
    allocated := hr.allocated }

/-- STEP: a transaction has been resolved. -/
theorem RepresentsBy.resolve (hr : w.RepresentsBy modifiers T U d) (how : Ending) {t : TxnPtr}
    {env : DbEnv} (henv : env.dbs = w.env.dbs.resolve how t)
    (hresolves : Resolves t w.env.dbs env.dbs)
    {p : IndexPtr → Prop}
    (hkeep : ∀ h name, ¬p h → w.OpenOn h name → env.pairs name = w.env.pairs name) :
    ((w.setEnv env).closeTransaction t).Represents ((d.expire p).resolve how t) := by
  have htables : env.dbs.Tables fun name => (T name).resolve how t :=
    henv ▸ hr.tables.resolve hr.sound.flat how t
  have htypes : ∀ name, ((w.setEnv env).closeTransaction t).typesOf name = w.typesOf name :=
    typesOf_closeTransaction (w.setEnv env) t
  have henv' : ((w.setEnv env).closeTransaction t).env = env := closeTransaction_env _ t
  have hv := closeTransaction_eq (w.setEnv env) t
  refine ⟨fun name => (modifiers name).erase t, fun name => (T name).resolve how t,
    fun name => (U name).erase t, ?_⟩
  exact {
    sound := resolve_sound hr.sound hresolves
    tables := by
      rw [henv']
      exact htables
    owners := fun name x => by
      rw [Finset.mem_erase, Table.resolve_ownedBy, hr.owners, and_comm]
    busy := fun name x hx => by
      obtain ⟨howned, hne⟩ := Table.resolve_ownedBy.mp hx
      exact Finset.mem_erase.mpr ⟨hne, hr.busy name x howned⟩
    unknown := fun name hf => by
      have hf' : w.find name = none := by
        rw [hv] at hf
        exact hf
      have hnobody : ¬(T name).OwnedBy t := by
        rw [Table.OwnedBy, hr.unowned_of_unknown hf']
        simp
      have hsame := htables.content name
      rw [Table.resolve_of_other hnobody, ← hr.tables.content] at hsame
      rw [henv']
      exact hsame.trans (hr.unknown name hf')
    indexes := fun name => by
      rw [htypes]
      simp only [Database.resolve, Database.expire, hr.indexes, Option.map_map, Function.comp_def,
        Table.map_resolve]
    transactions := fun x => by
      rw [henv', hresolves.ids, ← hr.transactions, and_comm]
      exact Finset.mem_erase
    handles := by
      rw [hv]
      exact hr.handles
    cursors := by
      refine hr.cursors_expire p (by rw [hv]; rfl) fun h name hp ho => ⟨?_, htypes name, ?_⟩
      · rw [hv]
        exact ho
      · rw [henv']
        exact hkeep h name hp ho
    allocated := by
      rw [hv]
      exact hr.allocated }

/-- STEP (`AbortTransaction`). -/
theorem RepresentsBy.abort (B : BerkeleyDB) (hr : w.RepresentsBy modifiers T U d) {tx : Option TxnPtr}
    (hp : Permitted d (.abortTransaction tx)) :
    ∃ d', Does d (.abortTransaction tx) (w.serve B (.abortTransaction tx)).1 d' ∧
      (w.serve B (.abortTransaction tx)).2.Represents d' := by
  cases tx with
  | none => exact ⟨d, .abortNull d, modifiers, T, U, hr⟩
  | some t =>
    have ht : t ∈ d.transactions := hp.1 t rfl
    have hcall : w.abortTransaction noFaults (some t) =
        (some .kOk, none, (w.setEnv (w.env.abort t)).closeTransaction t) := by
      simp [abortTransaction, (hr.transactions t).mp ht]
    simp only [serve, hcall]
    refine ⟨_, .abort ht, hr.resolve .abort rfl (abort_resolves hr.sound t) fun h name hnot ho => ?_⟩
    -- a handle that the transaction does not change leads to a table that it does not own
    refine hr.tables.resolve_other hr.sound.flat .abort fun howned => hnot ?_
    obtain ⟨X, hopen⟩ := hr.openOn ho
    obtain ⟨p, s, -, -, rfl⟩ := hr.index_eq_some.mp hopen.2
    exact ⟨name, _, hopen, (Table.map_ownedBy ..).mpr howned⟩

/-- STEP (`CommitTransaction`). -/
theorem RepresentsBy.commit (B : BerkeleyDB) (hr : w.RepresentsBy modifiers T U d) {tx : Option TxnPtr}
    (hp : Permitted d (.commitTransaction tx)) :
    ∃ d', Does d (.commitTransaction tx) (w.serve B (.commitTransaction tx)).1 d' ∧
      (w.serve B (.commitTransaction tx)).2.Represents d' := by
  cases tx with
  | none => exact ⟨d, .commitNull d, modifiers, T, U, hr⟩
  | some t =>
    have ht : t ∈ d.transactions := hp.1 t rfl
    have hcall : w.commitTransaction noFaults (some t) =
        (some .kOk, none, (w.setEnv (w.env.commit t)).closeTransaction t) := by
      simp [commitTransaction, (hr.transactions t).mp ht]
    simp only [serve, hcall]
    have hcommitted : ((w.setEnv (w.env.commit t)).closeTransaction t).Represents
        ((d.expire fun _ => False).resolve .commit t) :=
      hr.resolve .commit rfl (commit_resolves hr.sound t) fun _ _ _ _ => rfl
    rw [Database.expire_nobody] at hcommitted
    exact ⟨_, .commit ht, hcommitted⟩

/-! ### The catalogue -/

theorem created_typesOf (hr : w.RepresentsBy modifiers T U d) (name : String)
    (types : List AttributeType) (n : String) :
    (w.created name types).typesOf n = if n = name then some types else w.typesOf n := by
  have hfind := @created_find w name types n
  by_cases hn : n = name
  · rw [if_pos hn] at hfind ⊢
    have hlive : (w.created name types).structures w.free = some (IndexStructure.new types) :=
      Function.update_self ..
    rw [typesOf, hfind, Option.bind_some, hlive]
    rfl
  · rw [if_neg hn] at hfind ⊢
    refine typesOf_congr hfind fun p hp => ?_
    obtain ⟨s, he⟩ := hr.sound.entry n p hp
    rw [created_structures types he.fresh.ne]

/-- STEP: an index has been created. -/
theorem RepresentsBy.created (hr : w.RepresentsBy modifiers T U d) (hname : name ≠ "")
    (hpairs : w.env.pairs name = none) (types : List AttributeType) :
    (w.created name types).Represents (d.setIndex name (some ⟨types, .clean 0, ∅⟩)) := by
  have hunknown : w.find name = none := hr.sound.find_eq_none hpairs
  have hsaved : (T name).saved = none := hr.unowned_of_unknown hunknown
  have hfind := @created_find w name types
  have htypes := created_typesOf hr name types
  refine ⟨modifiers, Function.update T name (.clean (some [])), Function.update U name ∅, ?_⟩
  exact {
    sound := create_sound hr.sound hname hpairs types
    tables := hr.tables.put (Table.freeFor_none.mpr hsaved) _
    owners := fun n t => by
      rw [hr.owners]
      rcases eq_or_ne n name with rfl | hn
      · simp [Table.OwnedBy, hsaved]
      · rw [Function.update_of_ne hn]
    busy := fun n t ht => by
      rcases eq_or_ne n name with rfl | hn
      · simp [Table.OwnedBy] at ht
      · rw [Function.update_of_ne hn] at ht ⊢
        exact hr.busy n t ht
    unknown := fun n hn => by
      rw [hfind] at hn
      rw [created_pairs]
      by_cases hne : n = name
      · rw [if_pos hne] at hn
        contradiction
      · rw [if_neg hne] at hn ⊢
        exact hr.unknown n hn
    indexes := fun n => by
      rw [htypes]
      rcases eq_or_ne n name with rfl | hn
      · rw [Database.setIndex_same, Function.update_self, Function.update_self, if_pos rfl]
        rfl
      · rw [Database.setIndex_other _ hn, Function.update_of_ne hn, Function.update_of_ne hn,
          if_neg hn, hr.indexes]
    transactions := hr.transactions
    handles := hr.handles
    cursors := hr.cursors_same rfl fun h n ho => by
      have hn : n ≠ name := by
        rintro rfl
        exact hr.sound.not_openOn hunknown h ho
      rw [htypes, created_pairs, if_neg hn, if_neg hn]
      exact ⟨ho, rfl, rfl⟩
    allocated := fun i hi => Nat.lt_succ_of_lt (hr.allocated i hi) }

/-- STEP (`CreateIndex`). -/
theorem RepresentsBy.createIndex (B : BerkeleyDB) (hr : w.RepresentsBy modifiers T U d)
    (name : String) (types : Option (List AttributeType)) :
    ∃ d', Does d (.createIndex name types) (w.serve B (.createIndex name types)).1 d' ∧
      (w.serve B (.createIndex name types)).2.Represents d' := by
  have hsame : w.Represents d := ⟨modifiers, T, U, hr⟩
  cases types with
  | none => exact ⟨d, .createRefused (Or.inr (Or.inl rfl)), hsame⟩
  | some types =>
    by_cases hargs : name = "" ∨ types.length = 0
    · have hrefused : name = "" ∨ some types = none ∨ some types = some [] :=
        hargs.imp_right fun hlen => Or.inr (congrArg some (List.eq_nil_of_length_eq_zero hlen))
      simp only [serve, World.createIndex, if_pos hargs]
      exact ⟨d, .createRefused hrefused, hsame⟩
    · obtain ⟨hname, hlen⟩ := not_or.mp hargs
      have hne : types ≠ [] := fun hc => hlen (by rw [hc]; rfl)
      cases hpairs : w.env.pairs name with
      | none =>
        have hcall : w.createIndex noFaults name (some types) = (some .kOk, w.created name types) := by
          simp only [World.createIndex, if_neg hargs, noFaults_thrown, hpairs]
          rfl
        have hnone : d.indexes name = none := hr.index_eq_none.mpr (hr.sound.find_eq_none hpairs)
        simp only [serve, hcall]
        exact ⟨_, .create hname hne hnone, hr.created hname hpairs types⟩
      | some pairs =>
        have hcall : w.createIndex noFaults name (some types) = (some .kErrorIndexExists, w) := by
          simp [World.createIndex, hname, hlen, hpairs]
        have hsome : (d.indexes name).isSome := by
          rw [Option.isSome_iff_ne_none]
          intro hc
          rw [hr.unknown name (hr.index_eq_none.mp hc)] at hpairs
          contradiction
        simp only [serve, hcall]
        exact ⟨d, .createExists hname hne hsome, hsame⟩

/-! ### Handles -/

/-- STEP: one handle has been made, or is gone, and nothing else that the specification knows of. If it
    was open before, no open iterator used it. -/
theorem RepresentsBy.withHandle (hr : w.RepresentsBy modifiers T U d) {value : Option Index}
    {structures : StructurePtr → Option IndexStructure} {free : Nat}
    (hsound : Sound { w with
      handles := Function.update w.handles h value, structures := structures, free := free } modifiers)
    (hstructures : ∀ p, (structures p).map (·.type) = (w.structures p).map (·.type))
    (hfree : w.free ≤ free) (hunused : ∀ name, w.OpenOn h name → d.NoneOpen (·.handle = h)) :
    Represents { w with
        handles := Function.update w.handles h value, structures := structures, free := free }
      (d.setHandle h (value.map Index.target)) := by
  have htypes : ∀ name, typesOf { w with
      handles := Function.update w.handles h value, structures := structures, free := free } name =
      w.typesOf name := fun name => typesOf_congr rfl fun q _ => hstructures q
  refine ⟨modifiers, T, U, ?_⟩
  exact {
    sound := hsound
    tables := hr.tables
    owners := hr.owners
    busy := hr.busy
    unknown := hr.unknown
    indexes := fun name => by
      rw [htypes]
      exact hr.indexes name
    transactions := hr.transactions
    handles := fun g => by
      change _ = (Function.update w.handles h value g).map Index.target
      rcases eq_or_ne g h with rfl | hg
      · rw [Database.setHandle_same, Function.update_self]
      · rw [Database.setHandle_other _ hg, Function.update_of_ne hg]
        exact hr.handles g
    cursors := by
      have hsame : d.expire (fun g => g = h ∧ ∃ name, w.OpenOn h name) = d :=
        Database.expire_of_noneOpen fun i c hc ⟨hch, name, ho⟩ => hunused name ho i c hc hch
      change ∀ i, Option.Rel _ (w.iterators i) (d.cursors i)
      rw [← hsame]
      refine hr.cursors_expire _ rfl fun g name hnot ho => ⟨?_, htypes name, rfl⟩
      have hg : g ≠ h := by
        rintro rfl
        exact hnot ⟨rfl, name, ho⟩
      obtain ⟨idx, hidx, hopen⟩ := ho
      exact ⟨idx, (Function.update_of_ne hg ..).trans hidx, hopen⟩
    allocated := fun i hi => (hr.allocated i hi).trans_le hfree }

/-- A structure that keeps its column types. -/
theorem map_type_update {p : StructurePtr} {s s' : IndexStructure} (hs : w.structures p = some s)
    (htype : s'.type = s.type) (q : StructurePtr) :
    (Function.update w.structures p (some s') q).map (·.type) = (w.structures q).map (·.type) := by
  rcases eq_or_ne q p with rfl | hq
  · rw [Function.update_self, hs, Option.map_some, Option.map_some, htype]
  · rw [Function.update_of_ne hq]

/-- Nothing has been allocated at the next free address. -/
theorem RepresentsBy.free_handle (hr : w.RepresentsBy modifiers T U d) : w.handles w.free = none := by
  by_contra hc
  exact absurd (hr.sound.allocated w.free hc) (lt_irrefl _)

/-- STEP (`OpenIndex`). -/
theorem RepresentsBy.openIndex (B : BerkeleyDB) (hr : w.RepresentsBy modifiers T U d) (name : String) :
    ∃ d', Does d (.openIndex name) (w.serve B (.openIndex name)).1 d' ∧
      (w.serve B (.openIndex name)).2.Represents d' := by
  have hsound := openIndex_sound hr.sound name
  have hnew : ∀ n, ¬w.OpenOn w.free n := by
    rintro n ⟨idx, hidx, -⟩
    rw [hr.free_handle] at hidx
    contradiction
  have hfresh : d.handles w.free = none := hr.handle_none.mpr hr.free_handle
  by_cases hname : name = ""
  · subst hname
    exact ⟨d, .openRefused d, modifiers, T, U, hr⟩
  cases hf : w.find name with
  | none =>
    have hcall : w.openIndex noFaults name = (some .kErrorUnknownIndex, some (some w.free),
        { w with
          handles := Function.update w.handles w.free (some ⟨name, none, false, true⟩)
          structures := w.structures, free := w.free + 1 }) := by
      simp only [World.openIndex, if_neg hname, openHandle, hf]
      rfl
    rw [hcall] at hsound
    have hopened := hr.withHandle hsound (fun _ => rfl) (Nat.le_succ _) fun n ho => absurd ho (hnew n)
    simp only [serve, hcall]
    exact ⟨_, .openUnknown hname (hr.index_eq_none.mpr hf) hfresh, hopened⟩
  | some p =>
    obtain ⟨s, he⟩ := hr.sound.entry name p hf
    have hlive : w.structures p = some s := he.live
    obtain ⟨pairs, hpairs, -⟩ := he.stored
    have hcall : w.openIndex noFaults name = (some .kOk, some (some w.free),
        { w with
          handles := Function.update w.handles w.free (some ⟨name, some p, true, false⟩)
          structures := Function.update w.structures p
            (some { s with handles := Insert.insert w.free s.handles })
          free := w.free + 1 }) := by
      simp only [World.openIndex, if_neg hname, openHandle, hf, setHandle, setStructure, hlive,
        noFaults_thrown, hpairs, Function.update_idem]
    rw [hcall] at hsound
    have hopened := hr.withHandle hsound (map_type_update he.live rfl) (Nat.le_succ _)
      fun n ho => absurd ho (hnew n)
    have hsome : (d.indexes name).isSome := by
      rw [hr.index_eq_some.mpr ⟨p, s, hf, he, rfl⟩]
      rfl
    simp only [serve, hcall]
    exact ⟨_, .open hsome hfresh, hopened⟩

/-- STEP (`CloseIndex`). -/
theorem RepresentsBy.closeIndex (B : BerkeleyDB) (hr : w.RepresentsBy modifiers T U d)
    {idx : Option IndexPtr} (hp : Permitted d (.closeIndex idx)) :
    ∃ d', Does d (.closeIndex idx) (w.serve B (.closeIndex idx)).1 d' ∧
      (w.serve B (.closeIndex idx)).2.Represents d' := by
  cases idx with
  | none => exact ⟨d, .closeNull d, modifiers, T, U, hr⟩
  | some h =>
    have hsound := closeIndex_sound hr.sound (some h)
    obtain ⟨hexists, hunused, -⟩ := hp h rfl
    rcases hr.handle_cases hexists with hclosed | ⟨name, X, hopen⟩
    · obtain ⟨idx, hidx, hc⟩ := hr.handle_closed.mp hclosed
      have hcall : w.closeIndex noFaults (some h) = (some .kErrorUnknownIndex, none,
          { w with
            handles := Function.update w.handles h none, structures := w.structures
            free := w.free }) := by
        simp only [World.closeIndex, hidx, closeHandle, hc, if_true]
      rw [hcall] at hsound
      have hgone := hr.withHandle hsound (fun _ => rfl) le_rfl fun _ _ => hunused
      simp only [serve, hcall]
      exact ⟨_, .closeClosed hclosed, hgone⟩
    · obtain ⟨idx, hidx, hc, rfl⟩ := hr.handle_open.mp hopen.1
      obtain ⟨hdb, hstructure, hsome⟩ := hr.sound.opened h idx hidx hc
      obtain ⟨p, hf⟩ := Option.isSome_iff_exists.mp hsome
      obtain ⟨s, he⟩ := hr.sound.entry idx.name p hf
      have hclose := @closeHandle_open w h p s noFaults idx hidx hc (hstructure.trans hf) he.live
        fun _ => rfl
      have hcall : w.closeIndex noFaults (some h) = (some .kOk, none,
          { w with
            handles := Function.update w.handles h none
            structures := Function.update w.structures p (some { s with handles := s.handles.erase h })
            free := w.free }) := by
        simp only [World.closeIndex, hidx, hclose, hc, setHandle, setStructure, Function.update_idem,
          Bool.false_eq_true, if_false]
      rw [hcall] at hsound
      have hgone := hr.withHandle hsound (map_type_update he.live rfl) le_rfl fun _ _ => hunused
      simp only [serve, hcall]
      exact ⟨_, .close hopen.1, hgone⟩

/-! ### Deleting an index -/

/-- The set of a structure is empty when nobody owns its table. -/
theorem RepresentsBy.transactions_eq_empty {p : StructurePtr} {s : IndexStructure}
    (hr : w.RepresentsBy modifiers T U d) (he : w.Entry modifiers name p s) :
    s.transactions = ∅ ↔ (T name).saved = none := by
  rw [he.exact, Finset.eq_empty_iff_forall_notMem]
  constructor
  · intro hempty
    cases hsaved : (T name).saved with
    | none => rfl
    | some e =>
      exact absurd ((hr.owners name e.1).mpr (Table.ownedBy_iff.mpr ⟨e.2, hsaved⟩)) (hempty e.1)
  · intro hsaved t ht
    have howned := (hr.owners name t).mp ht
    rw [Table.OwnedBy, hsaved] at howned
    contradiction

/-- STEP: an index has been deleted, on which no handle was open. -/
theorem RepresentsBy.deleted (hr : w.RepresentsBy modifiers T U d) {p : StructurePtr}
    (hf : w.find name = some p) (hsaved : (T name).saved = none) (hunused : ∀ h, ¬w.OpenOn h name)
    {handles : IndexPtr → Option Index} {structures : StructurePtr → Option IndexStructure}
    (hhandles : ∀ h, ¬w.OpenOn h name → handles h = w.handles h)
    (hstructures : ∀ q, q ≠ p → structures q = w.structures q)
    {w' : World} (hw' : w' = { w with
      env := { w.env with dbs := w.env.dbs.put name none }
      handles := handles, structures := Function.update structures p none
      indices := w.indices.filter (·.1 ≠ name) }) (hsound : w'.Sound modifiers) :
    w'.Represents (d.setIndex name none) := by
  have hfind := @find_erased w w' name (by rw [hw'])
  have hpairs : ∀ n, w'.env.pairs n = if n = name then none else w.env.pairs n := by
    intro n
    rw [hw']
    exact Function.update_apply ..
  have htypes : ∀ n, w'.typesOf n = if n = name then none else w.typesOf n := by
    intro n
    by_cases hn : n = name
    · rw [if_pos hn, typesOf, hfind, if_pos hn, Option.bind_none]
    · rw [if_neg hn]
      refine typesOf_congr (by rw [hfind, if_neg hn]) fun q hq => ?_
      have hqp : q ≠ p := fun hc => hn (hr.sound.injective n name p (hc ▸ hq) hf)
      rw [hw']
      simp only [Function.update_of_ne hqp, hstructures q hqp]
  obtain rfl : handles = w.handles := funext fun h => hhandles h (hunused h)
  refine ⟨modifiers, Function.update T name (.clean none), U, ?_⟩
  exact {
    sound := hsound
    tables := by
      rw [hw']
      exact hr.tables.put (Table.freeFor_none.mpr hsaved) none
    owners := fun n t => by
      rw [hr.owners]
      rcases eq_or_ne n name with rfl | hn
      · simp [Table.OwnedBy, hsaved]
      · rw [Function.update_of_ne hn]
    busy := fun n t ht => by
      rcases eq_or_ne n name with rfl | hn
      · simp [Table.OwnedBy] at ht
      · rw [Function.update_of_ne hn] at ht
        exact hr.busy n t ht
    unknown := fun n hn => by
      rw [hfind] at hn
      rw [hpairs]
      split
      · rfl
      · next hne =>
        rw [if_neg hne] at hn
        exact hr.unknown n hn
    indexes := fun n => by
      rw [htypes]
      rcases eq_or_ne n name with rfl | hn
      · rw [Database.setIndex_same, if_pos rfl, Option.map_none]
      · rw [Database.setIndex_other _ hn, Function.update_of_ne hn, if_neg hn]
        exact hr.indexes n
    transactions := by
      rw [hw']
      exact hr.transactions
    handles := by
      rw [hw']
      exact hr.handles
    cursors := by
      refine hr.cursors_same (by rw [hw']) fun h n ho => ?_
      have hn : n ≠ name := by
        rintro rfl
        exact hunused h ho
      rw [htypes, hpairs, if_neg hn, if_neg hn]
      refine ⟨?_, rfl, rfl⟩
      rw [OpenOn, hw']
      exact ho
    allocated := by
      rw [hw']
      exact hr.allocated }

/-- STEP (`DeleteIndex`). -/
theorem RepresentsBy.deleteIndex (B : BerkeleyDB) (hr : w.RepresentsBy modifiers T U d)
    (hp : Permitted d (.deleteIndex name)) :
    ∃ d', Does d (.deleteIndex name) (w.serve B (.deleteIndex name)).1 d' ∧
      (w.serve B (.deleteIndex name)).2.Represents d' := by
  have hsame : w.Represents d := ⟨modifiers, T, U, hr⟩
  by_cases hname : name = ""
  · subst hname
    exact ⟨d, .deleteRefused d, hsame⟩
  cases hf : w.find name with
  | none =>
    have hcall : w.deleteIndex noFaults name = (some .kErrorUnknownIndex, w) := by
      simp only [World.deleteIndex, if_neg hname, remove, hf, caught]
    simp only [serve, hcall]
    exact ⟨d, .deleteUnknown hname (hr.index_eq_none.mpr hf), hsame⟩
  | some p =>
    obtain ⟨s, he⟩ := hr.sound.entry name p hf
    have hindex := hr.index_eq_some.mpr ⟨p, s, hf, he, rfl⟩
    cases hsaved : (T name).saved with
    | none =>
      have hempty := (hr.transactions_eq_empty he).mpr hsaved
      have hnobody : ((T name).map (contentAt s.type)).saved = none := by simp [Table.map, hsaved]
      have hunused : ∀ h, ¬w.OpenOn h name := by
        obtain ⟨-, hnone⟩ := (hp _ hindex).resolve_left fun hc => hc hnobody
        exact fun h ho => hnone h (hr.handle_open.mpr ho)
      obtain ⟨handles, structures, hremove, hother, -, hstructures⟩ :=
        remove_empty hr.sound hf he hempty
      obtain ⟨pairs, hpairs, -⟩ := he.stored
      have hcall : w.deleteIndex noFaults name = (some .kOk, { w with
          env := { w.env with dbs := w.env.dbs.put name none }
          handles := handles, structures := Function.update structures p none
          indices := w.indices.filter (·.1 ≠ name) }) := by
        simp only [World.deleteIndex, if_neg hname, hremove, noFaults_thrown, hpairs, Option.isSome_some,
          if_true]
        rfl
      have hsound := deleteIndex_sound hr.sound name
      rw [hcall] at hsound
      simp only [serve, hcall]
      exact ⟨_, .delete hindex hnobody, hr.deleted hf hsaved hunused hother hstructures rfl hsound⟩
    | some e =>
      have hempty : s.transactions ≠ ∅ := fun hc => by
        rw [(hr.transactions_eq_empty he).mp hc] at hsaved
        contradiction
      have hcard : s.transactions.card > 0 :=
        Finset.card_pos.mpr (Finset.nonempty_iff_ne_empty.mpr hempty)
      have hcall : w.deleteIndex noFaults name = (some .kErrorOpenTransactions, w) := by
        simp [World.deleteIndex, hname, remove, hf, he.live, IndexStructure.makeReadOnly, hcard, caught]
      have hsomebody : ((T name).map (contentAt s.type)).saved ≠ none := by simp [Table.map, hsaved]
      simp only [serve, hcall]
      exact ⟨d, .deleteModified hindex hsomebody, hsame⟩

end World

end Contest
