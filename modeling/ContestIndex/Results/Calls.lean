import ContestIndex.Model.Api
import ContestIndex.Results.Selection

/-! @src example/BDBImpl.cc | name:Modifications through an open handle | layer:specification

    One description for each of the three calls that modify an index, for a handle that is open.
    What the call does to the state is its effect on the database, on the unresolved transactions
    and on the registry of the structure; handles, iterators and the manager's map stay. -/

namespace Contest
open Schemes

namespace World

/-- The handle `h` is open: it refers to an open database, its structure is the one the manager knows
    under its name and has not been made read-only, and the pairs of the database are in order. -/
structure Open (w : World) (h : IndexPtr) (o : Opened) : Prop where
  handle : w.handles h = some o.index
  notClosed : o.index.closed = false
  db : o.index.db = true
  structure_ : o.index.structure_ = some o.ptr
  found : w.find o.index.name = some o.ptr
  live : w.structures o.ptr = some o.s
  writable : o.s.readOnly = false
  cmp : o.cmp = o.s.dbKeycmp
  pairs : w.env.pairs o.index.name = some o.pairs
  sorted : SortedBy o.s.dbKeycmp o.pairs

variable {w : World} {h : IndexPtr} {o : Opened}

theorem Open.opened (ho : w.Open h o) : w.opened h = some o := by
  obtain ⟨index, ptr, s, cmp, pairs⟩ := o
  obtain ⟨hh, -, hdb, hs, hf, hl, -, hc, hp, -⟩ := ho
  simp only at *
  simp [World.opened, hh, hs, hl, hf, hp, hdb, hc]

theorem Open.compatible (ho : w.Open h o) (key : Key) :
    w.compatible h key = .ret (key.length = o.s.type.length) := by
  simp only [World.compatible, ho.handle, ho.notClosed, ho.structure_, Option.bind_some, ho.live,
    Bool.false_eq_true, if_false]
  rfl

/-- The checks of the API look at the number of attributes only. -/
theorem Open.guarded_iff (ho : w.Open h o) (r : Record)
    (work : IndexPtr → Record → Answer × World) :
    w.guarded (some h) (some r) work =
      if r.key.length = o.s.type.length then work h r else (some .kErrorIncompatibleKey, w) := by
  by_cases hlen : r.key.length = o.s.type.length <;>
    simp [World.guarded, World.refusal, ho.handle, ho.notClosed, ho.compatible, hlen]

theorem Open.guarded (ho : w.Open h o) {r : Record} (hr : r.key.FullySet o.s.type)
    (work : IndexPtr → Record → Answer × World) :
    w.guarded (some h) (some r) work = work h r := by
  have hlen : r.key.length = o.s.type.length := by
    obtain ⟨as, hkey, htypes⟩ := hr
    rw [hkey, ← htypes]; simp [Key.ofAttributes]
  rw [ho.guarded_iff, if_pos hlen]

/-- The state after a modification through a handle with `o`: a new environment, and a new set of
    open transactions of its structure. -/
def after (w : World) (o : Opened) (env : DbEnv) (txns : Finset TxnPtr) : World :=
  (w.setEnv env).setStructure o.ptr { o.s with transactions := txns }

@[simp] theorem after_env (w : World) (o : Opened) (env : DbEnv) (txns : Finset TxnPtr) :
    (w.after o env txns).env = env := rfl
@[simp] theorem after_structures (w : World) (o : Opened) (env : DbEnv) (txns : Finset TxnPtr) :
    (w.after o env txns).structures =
      Function.update w.structures o.ptr (some { o.s with transactions := txns }) := rfl

/-- What the handle works with in that state. -/
def Opened.after (o : Opened) (txns : Finset TxnPtr) (pairs : List Pair) : Opened :=
  { o with s := { o.s with transactions := txns }, pairs := pairs }

theorem Open.after (ho : w.Open h o) {env : DbEnv} {pairs : List Pair} (txns : Finset TxnPtr)
    (hp : env.pairs o.index.name = some pairs) (hs : SortedBy o.s.dbKeycmp pairs) :
    (w.after o env txns).Open h (o.after txns pairs) where
  handle := ho.handle
  notClosed := ho.notClosed
  db := ho.db
  structure_ := ho.structure_
  found := ho.found
  live := Function.update_self ..
  writable := ho.writable
  cmp := ho.cmp
  pairs := hp
  sorted := hs

/-- The registry while the nested transaction `tid` is open: the caller's transaction joins it with
    the first write. -/
def registering (txns : Finset TxnPtr) (tx : Option TxnPtr) (tid : TxnPtr) (wrote : Bool) :
    Finset TxnPtr :=
  match tx with
  | some t => if wrote then Insert.insert t (Insert.insert tid txns) else Insert.insert tid txns
  | none => Insert.insert tid txns

/-- The environment after the body: the nested transaction is open, its write is done. -/
def bodyEnv (B : BerkeleyDB) (w : World) (o : Opened) (tx : Option TxnPtr) (body : Body) : DbEnv :=
  if body.wrote then
    (w.env.txnBegin B tx).2.write (some (w.env.txnBegin B tx).1) o.index.name body.pairs
  else (w.env.txnBegin B tx).2

@[simp] theorem bodyEnv_begun (B : BerkeleyDB) (w : World) (o : Opened) (tx : Option TxnPtr)
    (body : Body) : (w.bodyEnv B o tx body).begun = w.env.begun + 1 := by
  unfold bodyEnv; split <;> rfl

@[simp] theorem bodyEnv_ids (B : BerkeleyDB) (w : World) (o : Opened) (tx : Option TxnPtr)
    (body : Body) :
    (w.bodyEnv B o tx body).dbs.ids = (w.env.txnBegin B tx).1 :: w.env.dbs.ids := by
  unfold bodyEnv; split <;> rfl

/-- The write is in place, whatever becomes of the nested transaction. -/
theorem bodyEnv_store (B : BerkeleyDB) (w : World) (o : Opened) (tx : Option TxnPtr) (body : Body) :
    (w.bodyEnv B o tx body).dbs.store =
      if body.wrote then Function.update w.env.dbs.store o.index.name (some body.pairs)
      else w.env.dbs.store := by
  unfold bodyEnv; split <;> rfl

theorem mem_registering (txns : Finset TxnPtr) (tx : Option TxnPtr) (tid : TxnPtr) (wrote : Bool) :
    tid ∈ registering txns tx tid wrote := by
  cases tx <;> cases wrote <;> simp [registering]

/-- What `opened` looks at. -/
theorem opened_eq_some (h₁ : w.opened h = some o) :
    w.handles h = some o.index ∧ o.index.structure_ = some o.ptr ∧ w.structures o.ptr = some o.s ∧
      w.env.pairs o.index.name = some o.pairs ∧ o.index.db = true ∧
      ∃ q t, w.find o.index.name = some q ∧ w.structures q = some t ∧ o.cmp = t.dbKeycmp := by
  simp only [World.opened, Option.bind_eq_bind, Option.bind_eq_some_iff] at h₁
  obtain ⟨idx, hidx, p, hp, s, hs, q, hq, t, ht, pairs, hpairs, hdb⟩ := h₁
  by_cases hd : idx.db = true
  · rw [if_pos hd, Option.some.injEq] at hdb
    subst hdb
    exact ⟨hidx, hp, hs, hpairs, hd, q, t, hq, ht, rfl⟩
  · rw [if_neg hd] at hdb; contradiction

theorem after_self (h₁ : w.opened h = some o) : w.after o w.env o.s.transactions = w := by
  have hself : Function.update w.structures o.ptr (some o.s) = w.structures := by
    rw [← (opened_eq_some h₁).2.2.1, Function.update_eq_self]
  simp only [World.after, setEnv, setStructure, hself]

theorem setEnv_eq_after (h₁ : w.opened h = some o) (env : DbEnv) :
    w.setEnv env = w.after o env o.s.transactions := by
  conv_lhs => rw [← after_self h₁]
  rfl

/-- `Index::Update` and `Index::Delete` through an index that is not read-only, whatever fails. -/
theorem indexModify_opened (B : BerkeleyDB) (F : Faults) (cw : CursorWrite) (loopError : ErrorCode)
    (h₁ : w.opened h = some o) (hw : o.s.readOnly = false) (tx : Option TxnPtr) (r : Record)
    (flags : UInt8) :
    w.indexModify B F cw loopError tx h r flags =
      match F.thrown .txnBegin with
      | some e => (.throws e, w)
      | none =>
        let tid := (w.env.txnBegin B tx).1
        let body := modifyBody B F o.s o.cmp cw loopError r flags o.pairs
        let env := w.bodyEnv B o tx body
        let txns := registering o.s.transactions tx tid body.wrote
        match body.outcome with
        | .throws e => (.throws e, w.after o env txns)
        | .stuck => (.stuck, w.after o env txns)
        | .ret result =>
          match F.thrown .txnCommit with
          | some e => (.throws e, w.after o (env.abort tid) txns)
          | none => (.ret result, w.after o (env.commit tid) (txns.erase tid)) := by
  have hstart : ∀ t, o.s.startTransaction t =
      (true, { o.s with transactions := Insert.insert t o.s.transactions }) := fun t =>
    Prod.ext (IndexStructure.startTransaction_fst hw t) (IndexStructure.startTransaction_snd hw t)
  simp only [indexModify, h₁, hstart, if_true]
  cases F.thrown .txnBegin with
  | some e => rfl
  | none =>
    cases tx with
    | none => rfl
    | some t =>
      simp only [registering, bodyEnv]
      cases (modifyBody B F o.s o.cmp cw loopError r flags o.pairs).wrote with
      | false => rfl
      | true =>
        cases (modifyBody B F o.s o.cmp cw loopError r flags o.pairs).outcome with
        | throws e => simp [IndexStructure.startTransaction, hw, after]
        | stuck => simp [IndexStructure.startTransaction, hw, after]
        | ret result =>
          cases F.thrown .txnCommit <;>
            simp [IndexStructure.startTransaction, hw, after, IndexStructure.endTransaction]

/-- The registry after an insert. -/
def joining (txns : Finset TxnPtr) : Option TxnPtr → Finset TxnPtr
  | some t => Insert.insert t txns
  | none => txns

/-- `Index::Insert` through an index that is not read-only, whatever fails. -/
theorem indexInsert_opened (B : BerkeleyDB) (F : Faults) (h₁ : w.opened h = some o)
    (hw : o.s.readOnly = false) (tx : Option TxnPtr) (r : Record) :
    w.indexInsert B F tx h r =
      match F .put with
      | some (.throws e) => (.throws e, w.after o w.env (joining o.s.transactions tx))
      | some (.returns _) =>
        (.ret .kErrorGenericFailure, w.after o w.env (joining o.s.transactions tx))
      | none =>
        (.ret .kOk, w.after o (w.env.write tx o.index.name (B.put o.cmp o.pairs
          (o.s.getBDBKey r.key false, r.payload))) (joining o.s.transactions tx)) := by
  cases tx with
  | none =>
    cases hput : F .put with
    | none => simp only [indexInsert, h₁, hput, if_true, joining, setEnv_eq_after h₁]
    | some failure =>
      cases failure <;> simp only [indexInsert, h₁, hput, if_true, joining, after_self h₁]
  | some t =>
    have hstart : o.s.startTransaction t =
        (true, { o.s with transactions := Insert.insert t o.s.transactions }) :=
      Prod.ext (IndexStructure.startTransaction_fst hw t) (IndexStructure.startTransaction_snd hw t)
    cases hput : F .put with
    | none =>
      simp only [indexInsert, h₁, startTransaction, hstart, hput, if_true, joining]
      rfl
    | some failure =>
      cases failure <;>
        simp only [indexInsert, h₁, startTransaction, hstart, hput, if_true, joining] <;> rfl

end World

/-! ### When no call fails -/

/-- What an update or a delete answers and makes of the pairs of the database. -/
def CursorWrite.effect (cw : CursorWrite) (s : IndexStructure) (pairs : List Pair) (r : Record)
    (flags : UInt8) : ErrorCode × List Pair :=
  match Cursor.first (r.selects s flags) pairs with
  | none => (.kErrorNotFound, pairs)
  | some c => (.kOk, c.before ++ (cw.pair c.cur).toList ++ afterHit s cw flags c.cur.1 c.after)

/-- What a modification answers and makes of the pairs of the database. -/
def Modification.effect (B : BerkeleyDB) (s : IndexStructure) (pairs : List Pair) :
    Modification → ErrorCode × List Pair
  | insert r => (.kOk, B.put s.dbKeycmp pairs (s.getBDBKey r.key false, r.payload))
  | update r payload flags => (CursorWrite.putCurrent payload).effect s pairs r flags
  | delete r flags => CursorWrite.del.effect s pairs r flags

theorem CursorWrite.effect_sorted (cw : CursorWrite) {s : IndexStructure} {pairs : List Pair}
    (hs : SortedBy s.dbKeycmp pairs) (r : Record) (flags : UInt8) :
    SortedBy s.dbKeycmp (cw.effect s pairs r flags).2 := by
  rw [CursorWrite.effect]
  cases hc : Cursor.first (r.selects s flags) pairs with
  | none => exact hs
  | some c => exact writes_sorted hs cw flags (Cursor.first_eq_some hc).2.1

/-- Every modification keeps the pairs in order. -/
theorem Modification.effect_sorted (B : BerkeleyDB) {s : IndexStructure} {pairs : List Pair}
    (hs : SortedBy s.dbKeycmp pairs) (m : Modification) :
    SortedBy s.dbKeycmp (m.effect B s pairs).2 := by
  cases m with
  | insert r =>
    obtain ⟨-, -, -, -, hput⟩ := B.put_adds (s.getBDBKey r.key false, r.payload) hs
    exact hput
  | update r payload flags => exact CursorWrite.effect_sorted _ hs r flags
  | delete r flags => exact CursorWrite.effect_sorted _ hs r flags

namespace World
variable {w : World} {h : IndexPtr} {o : Opened}

theorem indexModify_noFaults (B : BerkeleyDB) (cw : CursorWrite) (loopError : ErrorCode)
    (ho : w.Open h o) (tx : Option TxnPtr) {r : Record} (hr : r.key.FullySet o.s.type)
    (flags : UInt8) :
    ∃ env txns, w.indexModify B noFaults cw loopError tx h r flags =
        (.ret (cw.effect o.s o.pairs r flags).1, w.after o env txns) ∧
      env.dbs.store =
        Function.update w.env.dbs.store o.index.name (some (cw.effect o.s o.pairs r flags).2) := by
  rw [indexModify_opened B noFaults cw loopError ho.opened ho.writable, ho.cmp,
    modifyBody_noFaults B hr ho.sorted, CursorWrite.effect]
  cases Cursor.first (r.selects o.s flags) o.pairs with
  | none =>
    refine ⟨_, _, rfl, ?_⟩
    rw [← ho.pairs, DbEnv.pairs, Function.update_eq_self]; rfl
  | some c => exact ⟨_, _, rfl, rfl⟩

/-- CORRECT (`InsertRecord`, `UpdateRecord`, `DeleteRecord` when no Berkeley DB call fails). -/
theorem Open.modify (B : BerkeleyDB) (ho : w.Open h o) (tx : Option TxnPtr) {m : Modification}
    (hm : m.record.key.FullySet o.s.type) :
    ∃ env txns, w.modify B noFaults tx h m =
        (some (m.effect B o.s o.pairs).1, w.after o env txns) ∧
      env.dbs.store =
        Function.update w.env.dbs.store o.index.name (some (m.effect B o.s o.pairs).2) := by
  cases m with
  | insert r =>
    have hr : r.key.FullySet o.s.type := hm
    simp only [World.modify, insertRecord, Modification.effect, ho.guarded hr,
      indexInsert_opened B _ ho.opened ho.writable, ho.cmp]
    refine ⟨_, _, rfl, ?_⟩
    cases tx <;> rfl
  | update r payload flags =>
    have hr : r.key.FullySet o.s.type := hm
    obtain ⟨env, txns, hcall, hstore⟩ :=
      indexModify_noFaults B (.putCurrent payload) .kErrorNotFound ho tx hr flags
    simp only [World.modify, updateRecord, ho.guarded hr, indexUpdate, hcall]
    exact ⟨env, txns, rfl, hstore⟩
  | delete r flags =>
    have hr : r.key.FullySet o.s.type := hm
    obtain ⟨env, txns, hcall, hstore⟩ :=
      indexModify_noFaults B .del .kErrorGenericFailure ho tx hr flags
    simp only [World.modify, deleteRecord, ho.guarded hr, indexDelete, hcall]
    exact ⟨env, txns, rfl, hstore⟩

/-! ### States with one index -/

/-- A state with one index, named "x", that holds the given pairs, and one open handle. -/
def single (types : List AttributeType) (pairs : List Pair) : World where
  env := { dbs := { store := Function.update (fun _ => none) "x" (some pairs), live := [], log := [] }
           begun := 0 }
  indices := [("x", 0)]
  structures := Function.update (fun _ => none) 0 (some { IndexStructure.new types with handles := {1} })
  handles := Function.update (fun _ => none) 1 (some ⟨"x", some 0, true, false⟩)
  iterators := fun _ => none
  free := 2

/-- What the handle of `single` works with. -/
def singleOpened (types : List AttributeType) (pairs : List Pair) : Opened where
  index := ⟨"x", some 0, true, false⟩
  ptr := 0
  s := { IndexStructure.new types with handles := {1} }
  cmp := (IndexStructure.new types).dbKeycmp
  pairs := pairs

theorem single_open {types : List AttributeType} {pairs : List Pair}
    (hs : SortedBy (IndexStructure.new types).dbKeycmp pairs) :
    (single types pairs).Open 1 (singleOpened types pairs) where
  handle := rfl
  notClosed := rfl
  db := rfl
  structure_ := rfl
  found := rfl
  live := rfl
  writable := rfl
  cmp := rfl
  pairs := rfl
  sorted := hs

/-- The empty one is what creating and opening an index leads to. -/
theorem single_created {types : List AttributeType} (ht : types ≠ []) :
    ((initial.createIndex noFaults "x" (some types)).2.openIndex noFaults "x").2.2 =
      single types [] := by
  have hlen : ¬types.length = 0 := by simpa using ht
  have hcreate : (initial.createIndex noFaults "x" (some types)).2 =
      ({ initial with
          env := { initial.env with dbs := initial.env.dbs.put "x" (some []) }
          free := 1 }.setStructure 0 (IndexStructure.new types)).insert "x" 0 := by
    simp [createIndex, hlen, initial, DbEnv.pairs, DbEnv.empty]
  rw [hcreate]
  simp [openIndex, openHandle, insert, find, setStructure, setHandle, initial, DbEnv.pairs,
    DbEnv.empty, single, IndexStructure.new]
  rfl

end World

/-- A key of one column of type kShort, and a stored pair with it. -/
def shortKey (v : Int) : Key := [some (Attribute.ofBytes .kShort (leBytes 4 v))]
def shortPair (v : Int) (data : Bytes) : Pair := (leBytes 4 v, data)

theorem shortKey_fullySet (v : Int) : (shortKey v).FullySet [.kShort] :=
  ⟨[Attribute.ofBytes .kShort (leBytes 4 v)], rfl, rfl⟩

end Contest
