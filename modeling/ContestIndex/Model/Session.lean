import ContestIndex.Model.Api
import ContestIndex.Schemes.Run

/-! @src include/contest_interface.h | name:Sequences of API calls | layer:model

    A client makes one complete call after the other. It may only pass what it has been given: an
    unresolved transaction that it began (nested ones are never handed out), a handle or an iterator
    whose object exists. In every call any Berkeley DB call may fail. Behind a modification Berkeley DB
    adjusts the cursors that are open on the index: each stays on its pair.

        initial ──call──▶ w ──call──▶ w' ──call──▶ …          Live at every step: Reachable -/

namespace Contest
open Schemes

/-- A call of the API. NULL records, payloads and handles of a modification are refused before
    anything happens and are left out. -/
inductive Call where
  | beginTransaction
  | abortTransaction (tx : Option TxnPtr)
  | commitTransaction (tx : Option TxnPtr)
  | createIndex (name : String) (types : Option (List AttributeType))
  | openIndex (name : String)
  | closeIndex (idx : Option IndexPtr)
  | deleteIndex (name : String)
  | modify (tx : Option TxnPtr) (idx : IndexPtr) (m : Modification)
  | getRecords (tx : Option TxnPtr) (idx : Option IndexPtr) (minKeys maxKeys : Key)
      (it : Option (Option IteratorPtr))
  | getNext (it : Option IteratorPtr)
  | closeIterator (it : Option IteratorPtr)

/-- What is behind `n` pairs of the database, for the cursor of `it`, after the modification has left
    the pairs `pairs'`. A new pair comes before the cursor or behind it; if the pair of the cursor has
    been deleted its key decides. Whoever stands on a pair that is deleted goes on with the next one
    that is left; the pairs that a deletion takes away are next to each other. -/
def Modification.place (B : BerkeleyDB) (o : World.Opened) (pairs' : List Pair) (it : Iterator)
    (n : Nat) : Modification → Nat
  | .insert record =>
    let pair := (o.s.getBDBKey record.key false, record.payload)
    let k := B.putAt o.cmp o.pairs pair
    if pairs'.length ≤ o.pairs.length then n
    else if k < n ∨ k = n ∧ o.cmp pair.1 it.key = .lt then n + 1
    else n
  | .update .. => n
  | .delete record flags =>
    match firstGet B noFaults o.s o.cmp record (hasFlag flags kIgnorePayload) o.pairs with
    | .ret (.ok c) =>
      let k := c.before.length
      if n ≤ k then n else max k (n - (o.pairs.length - pairs'.length))
    | _ => n

namespace World

/-- Behind how many pairs the cursor of `it` is after the modification, if it was behind `n`. Only the
    cursors on the same database move. -/
def moved (B : BerkeleyDB) (w' : World) (o : Opened) (pairs' : List Pair) (m : Modification)
    (it : Iterator) (n : Nat) : Nat :=
  match w'.opened it.index with
  | some user => if user.index.name = o.index.name then m.place B o pairs' it n else n
  | none => n

/-- The modification through the handle has led from `w` to `w'`: the cursors on its database follow.
    An abort moves none. It takes back what its transaction has written, and there locks let only
    cursors of that transaction stand, which Berkeley DB wants closed before. -/
def follow (B : BerkeleyDB) (w : World) (h : IndexPtr) (m : Modification) (w' : World) : World :=
  match w.opened h, w'.opened h with
  | some o, some o' => w'.shifted (w'.moved B o o'.pairs m)
  | _, _ => w'

/-- Make the call. -/
def perform (B : BerkeleyDB) (F : Faults) (w : World) : Call → Answer × World
  | .beginTransaction => ((w.beginTransaction B F).1, (w.beginTransaction B F).2.2)
  | .abortTransaction tx => ((w.abortTransaction F tx).1, (w.abortTransaction F tx).2.2)
  | .commitTransaction tx => ((w.commitTransaction F tx).1, (w.commitTransaction F tx).2.2)
  | .createIndex name types => w.createIndex F name types
  | .openIndex name => ((w.openIndex F name).1, (w.openIndex F name).2.2)
  | .closeIndex idx => ((w.closeIndex F idx).1, (w.closeIndex F idx).2.2)
  | .deleteIndex name => w.deleteIndex F name
  | .modify tx idx m =>
    let ended := w.modify B F tx idx m
    (ended.1, w.follow B idx m ended.2)
  | .getRecords tx idx minKeys maxKeys it =>
    let ended := w.getRecords F tx idx minKeys maxKeys it
    (ended.1, ended.2.2)
  | .getNext it => ((w.getNext B F it).1, (w.getNext B F it).2.2)
  | .closeIterator it => ((w.closeIterator F it).1, (w.closeIterator F it).2.2)

/-- Following shifts cursors and does nothing else. -/
theorem follow_shifted (B : BerkeleyDB) (w : World) (h : IndexPtr) (m : Modification) (w' : World) :
    ∃ g, w.follow B h m w' = w'.shifted g := by
  unfold follow
  split
  · exact ⟨_, rfl⟩
  · exact ⟨fun _ => id, by simp [shifted, Iterator.shift]⟩

/-- An unresolved transaction that was begun by a client. -/
def Began (w : World) (t : TxnPtr) : Prop := (t, none) ∈ w.env.dbs.live

/-- The caller may pass this transaction: NULL, or one that it began. -/
def Passes (w : World) (tx : Option TxnPtr) : Prop := ∀ t ∈ tx, w.Began t

instance (w : World) (tx : Option TxnPtr) : Decidable (w.Passes tx) :=
  match tx with
  | none => isTrue (by simp [Passes])
  | some t => decidable_of_iff ((t, none) ∈ w.env.dbs.live) (by simp [Passes, Began])

end World

/-- What the call passes exists. -/
def Call.Live (w : World) : Call → Prop
  | .abortTransaction tx => w.Passes tx
  | .commitTransaction tx => w.Passes tx
  | .closeIndex idx => ∀ h ∈ idx, (w.handles h).isSome
  | .modify tx idx _ => w.Passes tx ∧ (w.handles idx).isSome
  | .getRecords tx idx _ _ it =>
    w.Passes tx ∧ (∀ h ∈ idx, (w.handles h).isSome) ∧
      ∀ var ∈ it, ∀ i ∈ var, (w.iterators i).isSome
  | .getNext it => ∀ i ∈ it, (w.iterators i).isSome
  | .closeIterator it => ∀ i ∈ it, (w.iterators i).isSome
  | .beginTransaction | .createIndex .. | .openIndex _ | .deleteIndex _ => True

namespace World

/-- A call in which some Berkeley DB calls may fail. -/
def faultyCall (B : BerkeleyDB) (w : World) (c : Faults × Call) : Answer × World :=
  w.perform B c.1 c.2

/-- The states that clients can reach. -/
def Reachable (B : BerkeleyDB) (w : World) : Prop :=
  ∃ calls, Admissible (fun w (c : Faults × Call) => c.2.Live w) (faultyCall B) initial calls ∧
    (run (faultyCall B) initial calls).2 = w

end World

end Contest
