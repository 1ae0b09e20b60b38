import ContestIndex.Schemes.Contract
import ContestIndex.Schemes.Tables
import ContestIndex.Model.Session
import ContestIndex.Results.MultisetRefinement
import ContestIndex.Results.MaximumKey
import Mathlib.Data.Finset.Option

/-! @src include/contest_interface.h | name:A transactional database | layer:specification

    What the API is for: named multisets of records under transactions, handles to them, and iterators
    over a range of one of them. `Does` says what every call may answer and make of such a database,
    and `Permitted` what a client has to keep to. It passes what it was given, its keys have the column
    types, and it modifies without kMatchDuplicates. Berkeley DB makes a call wait for the locks of
    others, and wants the cursors closed before their transaction or their handle: so an index belongs
    to one transaction at a time, and an iterator comes to its end before it loses what it needs.

        indexes        name ─▶ column types, records (and what an abort puts back), who works there
        transactions   the unresolved ones
        handles        h ─▶ closed, or open on a name
        cursors        i ─▶ a handle, a transaction and the records still to come -/

namespace Contest
open Schemes

structure AbstractIndex where
  types : List AttributeType
  rows : Table (Multiset AbstractRecord)
  /-- the unresolved transactions under which a record was put in, or looked for to change it -/
  workers : Finset TxnPtr

/-- What an iterator has not returned yet. -/
inductive Coming where
  | records (rest : List AbstractRecord)
  /-- something has changed under it: it may not be asked for more -/
  | unknown
  /-- it has answered kErrorNotFound, and its cursor is closed -/
  | ended

/-- Whatever was still to come is not known any more. -/
def Coming.lose : Coming → Coming
  | .ended => .ended
  | _ => .unknown

/-- An iterator, with the handle and the transaction it came from. -/
structure AbstractCursor where
  handle : IndexPtr
  txn : Option TxnPtr
  coming : Coming

structure Database where
  indexes : String → Option AbstractIndex
  transactions : Finset TxnPtr
  /-- the name on which the handle is open, or `none` for a closed one -/
  handles : IndexPtr → Option (Option String)
  cursors : IteratorPtr → Option AbstractCursor

/-- What a call returns: its code, the caller's variable of pointer type, and the record. -/
structure Reply where
  answer : Answer
  pointer : Option Nat
  record : Option AbstractRecord

/-- A code and nothing else. -/
def Reply.code (code : ErrorCode) : Reply := ⟨some code, none, none⟩

/-! ### Ranges -/

/-- Where a range starts. A NULL attribute of the minimum key is a wildcard. -/
def lowerBound (types : List AttributeType) (minKeys : Key) : List AttrValue :=
  List.zipWith (fun t o => o.elim (wildcard false t) Attribute.value) types minKeys

/-- The record is at or behind the start, and no attribute is above the maximum. -/
def InScan (types : List AttributeType) (minKeys maxKeys : Key) (x : AbstractRecord) : Prop :=
  compare x.1 (lowerBound types minKeys) ≠ .lt ∧
    ∀ (i : Nat) v (a : Attribute), x.1[i]? = some v → maxKeys[i]? = some (some a) →
      compare v a.value ≠ .gt

/-- The list has exactly the records of the range, in the order of their keys. -/
structure Lists (types : List AttributeType) (minKeys maxKeys : Key) (M : Multiset AbstractRecord)
    (found : List AbstractRecord) : Prop where
  exact : ∃ others : Multiset AbstractRecord, M = ↑found + others ∧
    ∀ x ∈ others, ¬InScan types minKeys maxKeys x
  inside : ∀ x ∈ found, InScan types minKeys maxKeys x
  sorted : found.Pairwise fun x y => (compare x.1 y.1).isLE

/-! ### What a call does -/

namespace Database

def empty : Database := ⟨fun _ => none, ∅, fun _ => none, fun _ => none⟩

/-- The handle is open on an index. -/
def OpenOn (d : Database) (h : IndexPtr) (name : String) (X : AbstractIndex) : Prop :=
  d.handles h = some (some name) ∧ d.indexes name = some X

open Classical in
/-- Iterators over these handles may not be asked for more. -/
noncomputable def expire (d : Database) (p : IndexPtr → Prop) : Database :=
  { d with
    cursors := fun i => (d.cursors i).map fun c =>
      if p c.handle then { c with coming := c.coming.lose } else c }

/-- Every iterator of this kind has ended or is closed. -/
def NoneOpen (d : Database) (p : AbstractCursor → Prop) : Prop :=
  ∀ i c, d.cursors i = some c → p c → c.coming = .ended

/-- Iterators that have come to their end lose nothing. -/
theorem expire_of_noneOpen {d : Database} {p : IndexPtr → Prop}
    (h : d.NoneOpen fun c => p c.handle) : d.expire p = d := by
  rw [expire]
  congr 1
  funext i
  cases hc : d.cursors i with
  | none => rfl
  | some c =>
    by_cases hp : p c.handle
    · rw [Option.map_some, if_pos hp, h i c hc hp, Coming.lose, ← h i c hc hp]
    · rw [Option.map_some, if_neg hp]

/-- What is still to come from the others is not known. -/
theorem expire_lost {d : Database} {p : IndexPtr → Prop} {i : IteratorPtr} {c : AbstractCursor}
    (hc : (d.expire p).cursors i = some c) (hp : p c.handle) (rest : List AbstractRecord) :
    c.coming ≠ .records rest := by
  obtain ⟨b, -, rfl⟩ := Option.map_eq_some_iff.mp hc
  by_cases hb : p b.handle
  · rw [if_pos hb]
    cases b.coming <;> simp [Coming.lose]
  · rw [if_neg hb] at hp
    exact absurd hp hb

theorem expire_nobody (d : Database) : d.expire (fun _ => False) = d :=
  expire_of_noneOpen fun _ _ _ hnobody => hnobody.elim

/-- The handle is open on this name. -/
def On (d : Database) (name : String) (h : IndexPtr) : Prop := d.handles h = some (some name)

/-- The handle is open on an index that the transaction is modifying. -/
def Changing (d : Database) (t : TxnPtr) (h : IndexPtr) : Prop :=
  ∃ name X, d.OpenOn h name X ∧ X.rows.OwnedBy t

/-- The transaction is gone, and its tables have been committed or aborted. -/
def resolve (d : Database) (how : Ending) (t : TxnPtr) : Database :=
  { d with
    transactions := d.transactions.erase t
    indexes := fun n => (d.indexes n).map fun X =>
      { X with rows := X.rows.resolve how t, workers := X.workers.erase t } }

def setIndex (d : Database) (name : String) (X : Option AbstractIndex) : Database :=
  { d with indexes := Function.update d.indexes name X }

def setHandle (d : Database) (h : IndexPtr) (target : Option (Option String)) : Database :=
  { d with handles := Function.update d.handles h target }

def setCursor (d : Database) (i : IteratorPtr) (c : Option AbstractCursor) : Database :=
  { d with cursors := Function.update d.cursors i c }

section Set
variable (d : Database) {n name : String} {g h : IndexPtr} {i j : IteratorPtr}

@[simp] theorem setIndex_same (X : Option AbstractIndex) : (d.setIndex name X).indexes name = X :=
  Function.update_self ..
@[simp] theorem setHandle_same (target : Option (Option String)) :
    (d.setHandle h target).handles h = target := Function.update_self ..
@[simp] theorem setCursor_same (c : Option AbstractCursor) : (d.setCursor i c).cursors i = c :=
  Function.update_self ..

theorem setIndex_other (hn : n ≠ name) {X : Option AbstractIndex} :
    (d.setIndex name X).indexes n = d.indexes n := Function.update_of_ne hn ..
theorem setHandle_other (hg : g ≠ h) {target : Option (Option String)} :
    (d.setHandle h target).handles g = d.handles g := Function.update_of_ne hg ..
theorem setCursor_other (hj : j ≠ i) {c : Option AbstractCursor} :
    (d.setCursor i c).cursors j = d.cursors j := Function.update_of_ne hj ..

end Set

end Database

/-- A transaction has come to work on the index. -/
def AbstractIndex.join (X : AbstractIndex) (tx : Option TxnPtr) : AbstractIndex :=
  { X with workers := tx.toFinset ∪ X.workers }

open Database in
/-- The specification: what a call may answer, and the database after it. -/
inductive Does : Database → Call → Reply → Database → Prop
  | begin {d t} : t ∉ d.transactions →
      Does d .beginTransaction ⟨some .kOk, some t, none⟩
        { d with transactions := insert t d.transactions }
  | abortNull (d) : Does d (.abortTransaction none) (.code .kErrorTransactionClosed) d
  | abort {d t} : t ∈ d.transactions →
      Does d (.abortTransaction (some t)) (.code .kOk)
        ((d.expire (d.Changing t)).resolve .abort t)
  | commitNull (d) : Does d (.commitTransaction none) (.code .kErrorTransactionClosed) d
  | commit {d t} : t ∈ d.transactions →
      Does d (.commitTransaction (some t)) (.code .kOk) (d.resolve .commit t)
  | createRefused {d name types} : name = "" ∨ types = none ∨ types = some [] →
      Does d (.createIndex name types) (.code .kErrorGenericFailure) d
  | createExists {d name types} : name ≠ "" → types ≠ [] → (d.indexes name).isSome →
      Does d (.createIndex name (some types)) (.code .kErrorIndexExists) d
  | create {d name types} : name ≠ "" → types ≠ [] → d.indexes name = none →
      Does d (.createIndex name (some types)) (.code .kOk)
        (d.setIndex name (some ⟨types, .clean 0, ∅⟩))
  | openRefused (d) : Does d (.openIndex "") (.code .kErrorGenericFailure) d
  | openUnknown {d name h} : name ≠ "" → d.indexes name = none → d.handles h = none →
      Does d (.openIndex name) ⟨some .kErrorUnknownIndex, some h, none⟩ (d.setHandle h (some none))
  | open {d name h} : (d.indexes name).isSome → d.handles h = none →
      Does d (.openIndex name) ⟨some .kOk, some h, none⟩ (d.setHandle h (some (some name)))
  | closeNull (d) : Does d (.closeIndex none) (.code .kErrorUnknownIndex) d
  | closeClosed {d h} : d.handles h = some none →
      Does d (.closeIndex (some h)) (.code .kErrorUnknownIndex) (d.setHandle h none)
  | close {d h name} : d.handles h = some (some name) →
      Does d (.closeIndex (some h)) (.code .kOk) (d.setHandle h none)
  | deleteRefused (d) : Does d (.deleteIndex "") (.code .kErrorGenericFailure) d
  | deleteUnknown {d name} : name ≠ "" → d.indexes name = none →
      Does d (.deleteIndex name) (.code .kErrorUnknownIndex) d
  | deleteModified {d name X} : d.indexes name = some X → X.rows.saved ≠ none →
      Does d (.deleteIndex name) (.code .kErrorOpenTransactions) d
  | delete {d name X} : d.indexes name = some X → X.rows.saved = none →
      Does d (.deleteIndex name) (.code .kOk) (d.setIndex name none)
  | modifyClosed {d tx h m} : d.handles h = some none →
      Does d (.modify tx h m) (.code .kErrorUnknownIndex) d
  | modifyIncompatible {d tx h m name X} : d.OpenOn h name X →
      m.record.key.length ≠ X.types.length →
      Does d (.modify tx h m) (.code .kErrorIncompatibleKey) d
  | modifyNothing {d tx h m name X} : d.OpenOn h name X → m.record.key.length = X.types.length →
      Reference X.rows.content m .kErrorNotFound X.rows.content →
      Does d (.modify tx h m) (.code .kErrorNotFound) (d.setIndex name (some (X.join tx)))
  | modify {d tx h m name X M} : d.OpenOn h name X → m.record.key.length = X.types.length →
      Reference X.rows.content m .kOk M →
      Does d (.modify tx h m) (.code .kOk)
        ((d.expire (d.On name)).setIndex name
          (some { X.join tx with rows := X.rows.write tx M }))
  | scanNull {d tx minKeys maxKeys it} :
      Does d (.getRecords tx none minKeys maxKeys it) ⟨some .kErrorUnknownIndex, it.join, none⟩ d
  | scanClosed {d tx h minKeys maxKeys it} : d.handles h = some none →
      Does d (.getRecords tx (some h) minKeys maxKeys it) ⟨some .kErrorUnknownIndex, it.join, none⟩ d
  | scanIncompatible {d tx h minKeys maxKeys it name X} : d.OpenOn h name X →
      ¬(minKeys.length = X.types.length ∧ maxKeys.length = X.types.length) →
      Does d (.getRecords tx (some h) minKeys maxKeys it)
        ⟨some .kErrorIncompatibleKey, it.join, none⟩ d
  | scanRefused {d tx h minKeys maxKeys name X} : d.OpenOn h name X →
      minKeys.length = X.types.length → maxKeys.length = X.types.length →
      Does d (.getRecords tx (some h) minKeys maxKeys none) (.code .kErrorGenericFailure) d
  | scan {d tx h minKeys maxKeys var name X i found} : d.OpenOn h name X →
      minKeys.length = X.types.length → maxKeys.length = X.types.length → d.cursors i = none →
      Lists X.types minKeys maxKeys X.rows.content found →
      Does d (.getRecords tx (some h) minKeys maxKeys (some var)) ⟨some .kOk, some i, none⟩
        (d.setCursor i (some ⟨h, tx, .records found⟩))
  | nextNull (d) : Does d (.getNext none) (.code .kErrorIteratorClosed) d
  | next {d i h tx x rest} : d.cursors i = some ⟨h, tx, .records (x :: rest)⟩ →
      Does d (.getNext (some i)) ⟨some .kOk, none, some x⟩
        (d.setCursor i (some ⟨h, tx, .records rest⟩))
  | nextEnd {d i h tx} : d.cursors i = some ⟨h, tx, .records []⟩ →
      Does d (.getNext (some i)) (.code .kErrorNotFound) (d.setCursor i (some ⟨h, tx, .ended⟩))
  | closeIteratorNull (d) : Does d (.closeIterator none) (.code .kErrorIteratorClosed) d
  | closeIterator {d i} : (d.cursors i).isSome →
      Does d (.closeIterator (some i)) (.code .kOk) (d.setCursor i none)

/-! ### What a client may ask for -/

/-- NULL, or an unresolved transaction. -/
def Database.Passes (d : Database) (tx : Option TxnPtr) : Prop := ∀ t ∈ tx, t ∈ d.transactions

/-- No unresolved transaction works on the index. -/
def Database.Quiet (d : Database) (name : String) : Prop :=
  ∀ X, d.indexes name = some X → X.workers = ∅

/-- The contract of the client. Whoever works on an index keeps locks there until its transaction is
    resolved, an iterator keeps the one on its page, and no call may have to wait for another's. -/
def Permitted (d : Database) : Call → Prop
  | .abortTransaction tx | .commitTransaction tx => d.Passes tx ∧
      ∀ t ∈ tx, d.NoneOpen (·.txn = some t)
  | .openIndex name => d.Quiet name
  | .closeIndex idx => ∀ h ∈ idx, (d.handles h).isSome ∧ d.NoneOpen (·.handle = h) ∧
      ∀ name, d.On name h → d.Quiet name
  | .deleteIndex name => ∀ X, d.indexes name = some X →
      -- the call is refused, or it finds no handle that it would have to close
      X.rows.saved ≠ none ∨ X.workers = ∅ ∧ ∀ h, ¬d.On name h
  | .modify tx h m => d.Passes tx ∧ (d.handles h).isSome ∧ ∀ name X, d.OpenOn h name X →
      m.record.key.length = X.types.length →
        m.record.key.FullySet X.types ∧ m.Single ∧ (∀ t ∈ X.workers, tx = some t) ∧
          d.NoneOpen fun c => d.On name c.handle ∧ ∀ t ∈ tx, c.txn ≠ some t
  | .getRecords tx idx minKeys maxKeys _ => d.Passes tx ∧ (∀ h ∈ idx, (d.handles h).isSome) ∧
      ∀ h ∈ idx, ∀ name X, d.OpenOn h name X → minKeys.length = X.types.length →
        maxKeys.length = X.types.length → minKeys.Typed X.types ∧ maxKeys.Typed X.types
  | .getNext it => ∀ i ∈ it, ∃ c rest, d.cursors i = some c ∧ c.coming = .records rest ∧
      ∀ name X, d.OpenOn c.handle name X → X.rows.FreeFor c.txn
  | .closeIterator it => ∀ i ∈ it, (d.cursors i).isSome
  | .beginTransaction | .createIndex .. => True

end Contest
