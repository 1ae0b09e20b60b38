import ContestIndex.Schemes.Cursor
import ContestIndex.Schemes.UndoLog
import ContestIndex.Model.IndexStructure

/-! @src db_cxx.h (not part of the repository) | name:Berkeley DB | layer:parameter

    What the code relies on. A database is the list of its pairs in the order in which a cursor
    visits them, so moving a cursor is moving in that list. Everything else Berkeley DB decides
    itself is a parameter (`BerkeleyDB`) with its documented behaviour as fields: where `put` puts
    a pair among the duplicates of its key, which pair DB_SET_RANGE and DB_GET_BOTH find, and at
    which address `txn_begin` puts a transaction. Writes go to the database in place; transactions
    remember how to undo them (`Schemes.UndoLog`).

    Any call may fail. The environment is opened with exceptions on (`new DbEnv(0)`), so a failure is
    a `DbException`; the cursor calls and `Db::put` may also return an error code. -/

namespace Contest
open Schemes

/-- Key and data of a stored record. -/
abbrev Pair := Bytes × Bytes

/-- An exception, by its class or its errno. -/
inductive DbException where
  | DbDeadlockException | ENOMEM | EEXIST | ENOENT | EINVAL | other
  deriving DecidableEq, Repr

/-- A nonzero return code. -/
inductive DbError where
  | DB_NOTFOUND | other
  deriving DecidableEq, Repr

/-- The Berkeley DB calls of one API call. The `n`-th `get` and the `n`-th `write` (a `put` with
    DB_CURRENT or a `del`) of a cursor are counted from 0; `close` names the handle. -/
inductive CallSite where
  | txnBegin | txnCommit | txnAbort
  | dbOpen | dbClose (handle : IndexPtr) | dbremove
  | put | cursor | get (n : Nat) | write (n : Nat) | cursorClose
  deriving DecidableEq, Repr

/-- What a failing call does instead of its work. -/
inductive Failure where
  | throws (e : DbException)
  | returns (err : DbError)
  deriving DecidableEq, Repr

/-- Which calls fail. -/
abbrev Faults := CallSite → Option Failure

/-- No call fails. -/
def noFaults : Faults := fun _ => none

/-- The exception with which the call at `site` fails. -/
def Faults.thrown (F : Faults) (site : CallSite) : Option DbException :=
  match F site with
  | some (.throws e) => some e
  | _ => none

@[simp] theorem noFaults_thrown (site : CallSite) : noFaults.thrown site = none := rfl

/-- How a call ends: it returns, an exception leaves it, or it does not come back (a failed
    assertion ends the process, an access to a destroyed object is undefined). -/
inductive Outcome (α : Type) where
  | ret (a : α)
  | throws (e : DbException)
  | stuck
  deriving DecidableEq, Repr

/-- The pairs are in the order of the compare function. -/
def SortedBy (cmp : Bytes → Bytes → Ordering) (pairs : List Pair) : Prop :=
  pairs.Pairwise fun p q => (cmp p.1 q.1).isLE

instance (cmp : Bytes → Bytes → Ordering) (pairs : List Pair) : Decidable (SortedBy cmp pairs) :=
  inferInstanceAs (Decidable (pairs.Pairwise fun p q => (cmp p.1 q.1).isLE))

/-- Only the keys matter. -/
theorem sortedBy_iff_keys {cmp : Bytes → Bytes → Ordering} {pairs : List Pair} :
    SortedBy cmp pairs ↔ (pairs.map (·.1)).Pairwise fun a b => (cmp a b).isLE := by
  rw [SortedBy, List.pairwise_map]

/-- The parts of Berkeley DB's behaviour that its documentation describes and its caller cannot
    choose. -/
structure BerkeleyDB where
  /-- behind how many pairs `Db::put` without flags puts a pair, on a database opened with DB_DUP -/
  putAt : (cmp : Bytes → Bytes → Ordering) → List Pair → Pair → Nat
  /-- `Dbc::get` with DB_SET_RANGE -/
  setRange : (cmp : Bytes → Bytes → Ordering) → List Pair → Bytes → Option (Cursor Pair)
  /-- `Dbc::get` with DB_GET_BOTH -/
  getBoth : (cmp : Bytes → Bytes → Ordering) → List Pair → Bytes → Bytes → Option (Cursor Pair)
  /-- the address of the `n`-th transaction begun, given the unresolved ones -/
  txnAddress : Nat → List TxnPtr → TxnPtr
  /-- `put` keeps the key order. -/
  putAt_sorted : ∀ {cmp} [Std.TransCmp cmp] {pairs} (pair), SortedBy cmp pairs →
    SortedBy cmp (pairs.take (putAt cmp pairs pair) ++ pair :: pairs.drop (putAt cmp pairs pair))
  /-- DB_SET_RANGE positions at the first pair whose key is not below the given one. -/
  setRange_first : ∀ {cmp} [Std.TransCmp cmp] {pairs} (key), SortedBy cmp pairs →
    setRange cmp pairs key = Cursor.first (fun p => cmp p.1 key != .lt) pairs
  /-- DB_GET_BOTH positions at the first pair with an equal key and the same data bytes. -/
  getBoth_first : ∀ {cmp} [Std.TransCmp cmp] {pairs} (key data), SortedBy cmp pairs →
    getBoth cmp pairs key data = Cursor.first (fun p => cmp p.1 key == .eq && p.2 == data) pairs
  /-- An unresolved transaction keeps its address for itself. -/
  txnAddress_fresh : ∀ n live, txnAddress n live ∉ live

/-- `Db::put` without flags -/
def BerkeleyDB.put (B : BerkeleyDB) (cmp : Bytes → Bytes → Ordering) (pairs : List Pair)
    (pair : Pair) : List Pair :=
  pairs.take (B.putAt cmp pairs pair) ++ pair :: pairs.drop (B.putAt cmp pairs pair)

/-- `put` adds one pair, in key order. -/
theorem BerkeleyDB.put_adds (B : BerkeleyDB) {cmp : Bytes → Bytes → Ordering} [Std.TransCmp cmp]
    {pairs : List Pair} (pair : Pair) (hs : SortedBy cmp pairs) :
    ∃ front back, pairs = front ++ back ∧ B.put cmp pairs pair = front ++ pair :: back ∧
      SortedBy cmp (B.put cmp pairs pair) :=
  ⟨_, _, (List.take_append_drop _ pairs).symm, rfl, B.putAt_sorted pair hs⟩

/-- DB_NEXT and DB_NEXT_DUP. -/
inductive Move where
  | DB_NEXT | DB_NEXT_DUP
  deriving DecidableEq, Repr

/-- `Dbc::get` with a flag that moves the cursor. DB_NEXT goes to the next pair whatever its key,
    DB_NEXT_DUP only if it has the key under the cursor; data does not matter to either. -/
def moveCursor (cmp : Bytes → Bytes → Ordering) : Move → Cursor Pair → Option (Cursor Pair)
  | .DB_NEXT, c => c.next
  | .DB_NEXT_DUP, c => c.nextIf fun p q => cmp p.1 q.1 == .eq

/-- The two writes through a cursor: `put` with DB_CURRENT overwrites the data and keeps the key, `del`
    erases the pair. -/
inductive CursorWrite where
  | putCurrent (data : Bytes)
  | del
  deriving DecidableEq, Repr

def CursorWrite.apply : CursorWrite → Cursor Pair → Cursor Pair
  | .putCurrent data, c => c.set fun p => (p.1, data)
  | .del, c => c.erase

/-- What the written pair becomes. -/
def CursorWrite.pair : CursorWrite → Pair → Option Pair
  | .putCurrent data, p => some (p.1, data)
  | .del, _ => none

@[simp] theorem CursorWrite.apply_before (w : CursorWrite) (c : Cursor Pair) :
    (w.apply c).before = c.before := by cases w <;> rfl
@[simp] theorem CursorWrite.apply_after (w : CursorWrite) (c : Cursor Pair) :
    (w.apply c).after = c.after := by cases w <;> rfl
@[simp] theorem CursorWrite.apply_key (w : CursorWrite) (c : Cursor Pair) :
    (w.apply c).cur.1 = c.cur.1 := by cases w <;> rfl

theorem CursorWrite.apply_here (w : CursorWrite) {c : Cursor Pair} (h : c.erased = false) :
    (w.apply c).here = (w.pair c.cur).toList := by
  cases w <;> simp [CursorWrite.apply, CursorWrite.pair, Cursor.here, h]

@[simp] theorem CursorWrite.filterMap_putCurrent (data : Bytes) : ∀ l : List Pair,
    l.filterMap (CursorWrite.putCurrent data).pair = l.map fun p => (p.1, data)
  | [] => rfl
  | p :: l => by
    have ih := CursorWrite.filterMap_putCurrent data l
    simp only [List.filterMap_cons, List.map_cons, ih]; rfl

@[simp] theorem CursorWrite.filterMap_del : ∀ l : List Pair, l.filterMap CursorWrite.del.pair = []
  | [] => rfl
  | _ :: l => CursorWrite.filterMap_del l

/-- Every move shortens what lies behind the cursor. -/
theorem moveCursor_after_lt {cmp : Bytes → Bytes → Ordering} {move : Move} {c d : Cursor Pair}
    (h : moveCursor cmp move c = some d) : d.after.length < c.after.length := by
  cases move with
  | DB_NEXT =>
    obtain ⟨x, xs, ha, rfl⟩ := Cursor.next_eq_some h
    simp [ha]
  | DB_NEXT_DUP =>
    simp only [moveCursor] at h
    obtain ⟨x, xs, ha, rfl, -⟩ := Cursor.nextIf_eq_some h
    simp [ha]

/-! ### The environment -/

/-- The databases by name (`none`: there is no such database) under transactions, and the number
    of transactions begun so far. -/
structure DbEnv where
  dbs : UndoLog String (Option (List Pair))
  begun : Nat

namespace DbEnv

/-- `DbEnv::txn_begin` -/
def txnBegin (B : BerkeleyDB) (env : DbEnv) (parent : Option TxnPtr) : TxnPtr × DbEnv :=
  let tid := B.txnAddress env.begun env.dbs.ids
  (tid, { dbs := env.dbs.begin tid parent, begun := env.begun + 1 })

/-- `DbTxn::commit` -/
def commit (env : DbEnv) (tx : TxnPtr) : DbEnv := { env with dbs := env.dbs.commit tx }

/-- `DbTxn::abort` -/
def abort (env : DbEnv) (tx : TxnPtr) : DbEnv := { env with dbs := env.dbs.abort tx }

/-- The pairs of a database. -/
def pairs (env : DbEnv) (name : String) : Option (List Pair) := env.dbs.store name

/-- Write to a database, under a transaction or (DB_AUTO_COMMIT) for good. -/
def write (env : DbEnv) (tx : Option TxnPtr) (name : String) (pairs : List Pair) : DbEnv :=
  match tx with
  | some t => { env with dbs := env.dbs.write t name (some pairs) }
  | none => { env with dbs := env.dbs.put name (some pairs) }

/-- A fresh environment. -/
def empty : DbEnv := { dbs := { store := fun _ => none, live := [], log := [] }, begun := 0 }

end DbEnv

/-! ### A Berkeley DB that exists -/

/-- The place behind all pairs that are not above the given one. -/
def lastPlace (cmp : Bytes → Bytes → Ordering) : List Pair → Pair → Nat
  | [], _ => 0
  | q :: qs, p => if cmp q.1 p.1 = .gt then 0 else lastPlace cmp qs p + 1

theorem lastPlace_sorted {cmp : Bytes → Bytes → Ordering} [Std.TransCmp cmp] :
    ∀ {pairs : List Pair} (p : Pair), SortedBy cmp pairs → SortedBy cmp
      (pairs.take (lastPlace cmp pairs p) ++ p :: pairs.drop (lastPlace cmp pairs p))
  | [], p, _ => by simp [SortedBy]
  | q :: qs, p, h => by
    obtain ⟨hq, hqs⟩ := List.pairwise_cons.mp h
    by_cases hgt : cmp q.1 p.1 = .gt
    · have hpq : (cmp p.1 q.1).isLE := by
        rw [Std.OrientedCmp.gt_iff_lt.mp hgt]; rfl
      rw [lastPlace, if_pos hgt]
      refine List.pairwise_cons.mpr ⟨fun r hr => ?_, h⟩
      rcases List.mem_cons.mp hr with rfl | hr
      · exact hpq
      · exact Std.TransCmp.isLE_trans hpq (hq r hr)
    · have hqp : (cmp q.1 p.1).isLE := by
        cases hc : cmp q.1 p.1 with
        | gt => exact absurd hc hgt
        | lt => rfl
        | eq => rfl
      rw [lastPlace, if_neg hgt]
      refine List.pairwise_cons.mpr ⟨fun r hr => ?_, lastPlace_sorted p hqs⟩
      have hr' : r = p ∨ r ∈ qs := by
        rcases List.mem_append.mp hr with hr | hr
        · exact Or.inr (List.mem_of_mem_take hr)
        · exact (List.mem_cons.mp hr).imp_right List.mem_of_mem_drop
      rcases hr' with rfl | hr'
      · exact hqp
      · exact hq r hr'

/-- Duplicates in insertion order, addresses above all that are in use. -/
def BerkeleyDB.plain : BerkeleyDB where
  putAt := lastPlace
  setRange := fun cmp pairs key => Cursor.first (fun p => cmp p.1 key != .lt) pairs
  getBoth := fun cmp pairs key data =>
    Cursor.first (fun p => cmp p.1 key == .eq && p.2 == data) pairs
  txnAddress := fun _ live => live.foldr max 0 + 1
  putAt_sorted := fun p h => lastPlace_sorted p h
  setRange_first := fun _ _ => rfl
  getBoth_first := fun _ _ _ => rfl
  txnAddress_fresh := fun _ live hmem => by
    have hle : ∀ {l : List TxnPtr} {x : TxnPtr}, x ∈ l → x ≤ l.foldr max 0 := by
      intro l x hx
      induction l with
      | nil => simp at hx
      | cons y l ih =>
        rcases List.mem_cons.mp hx with rfl | hx
        · exact Nat.le_max_left _ _
        · exact (ih hx).trans (Nat.le_max_right _ _)
    exact absurd (hle hmem) (Nat.not_succ_le_self _)

end Contest
