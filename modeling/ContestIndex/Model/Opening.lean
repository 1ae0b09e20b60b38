import ContestIndex.Model.World
import ContestIndex.Schemes.Run
import Mathlib.Tactic.Simps.Basic

/-! @src example/BDBImpl.cc, example/Index.cc | name:Calls on the catalogue that overlap | layer:model

    Any number of clients inside CreateIndex, OpenIndex and DeleteIndex. A step is one call of Berkeley
    DB or one section under a mutex, with what is done outside of them before the next such step. The
    long section of `IndexManager::Remove` is taken apart further, for `register_handle` and the
    `Db::open` of others may come between its parts.

        CreateIndex   Db::open(EXCL) ▸ insert
        OpenIndex     Find ▸ register ▸ dbOpen
        DeleteIndex   Find ▸ makeReadOnly ▸ closeHandles ▸ dbClose ▸ unregister ▸ closeHandles ▸ … ▸ dbremove
                      └──────────────── the mutex of the IndexManager ─────────────────┘

    Berkeley DB says EEXIST and ENOENT, and fails in no other way. No transaction is open. A structure
    that is registered with after it was destroyed stays destroyed; the memory of destroyed structures
    is not given out again. A handle can get any address that is free. From a handle that it has closed
    the loop of `CloseHandles` goes on to the next one, as it was meant to. -/

namespace Contest.Opening

abbrev ClientId := Nat

/-- A call with its arguments; a NULL name is refused like the empty one. -/
inductive Call where
  | createIndex (name : String) (types : Option (List AttributeType))
  | openIndex (name : String)
  | deleteIndex (name : String)
  deriving DecidableEq

/-- What a client does next. -/
inductive Pc where
  | idle
  /-- `IndexManager::Insert` -/
  | insert (name : String) (types : List AttributeType)
  /-- `register_handle` -/
  | register (name : String) (h : IndexPtr) (p : StructurePtr)
  | dbOpen (name : String) (h : IndexPtr) (p : StructurePtr)
  | makeReadOnly (name : String) (p : StructurePtr)
  /-- `CloseHandles`, with the handle that was visited last -/
  | closeHandles (name : String) (p : StructurePtr) (last : Option IndexPtr)
  /-- `db_->close` -/
  | dbClose (name : String) (p : StructurePtr) (h : IndexPtr)
  /-- `unregister_handle` -/
  | unregister (name : String) (p : StructurePtr) (h : IndexPtr)
  | dbremove (name : String)
  deriving DecidableEq

structure State where
  pc : ClientId → Pc
  /-- whether the environment has a database of this name -/
  dbs : String → Bool
  /-- `IndexManager::indices_` -/
  indices : String → Option StructurePtr
  structures : StructurePtr → Option IndexStructure
  handles : IndexPtr → Option Index
  /-- who holds the mutex of the IndexManager -/
  manager : Option ClientId
  /-- the address of the next structure -/
  free : StructurePtr

/-- The state before the first call. -/
def State.start : State where
  pc _ := .idle
  dbs _ := false
  indices _ := none
  structures _ := none
  handles _ := none
  manager := none
  free := 0

namespace State
variable (s : State)

@[simps -fullyApplied dbs indices structures handles manager free]
def goto (c : ClientId) (pc : Pc) : State := { s with pc := Function.update s.pc c pc }

@[simps -fullyApplied] def setDb (name : String) (there : Bool) : State :=
  { s with dbs := Function.update s.dbs name there }

@[simps -fullyApplied] def setHandle (h : IndexPtr) (idx : Option Index) : State :=
  { s with handles := Function.update s.handles h idx }

@[simps -fullyApplied] def setManager (holder : Option ClientId) : State := { s with manager := holder }

/-- Change the structure at `p`, if it exists. -/
@[simps -fullyApplied] def onStructure (p : StructurePtr) (f : IndexStructure → IndexStructure) : State :=
  { s with structures := Function.update s.structures p ((s.structures p).map f) }

/-- `IndexManager::Insert` of a new structure -/
@[simps -fullyApplied] def insert (name : String) (types : List AttributeType) : State :=
  { s with structures := Function.update s.structures s.free (some (IndexStructure.new types)),
           indices := Function.update s.indices name (some s.free),
           free := s.free + 1 }

/-- `delete it->second` and `indices_.erase(it)` -/
@[simps -fullyApplied] def erase (name : String) (p : StructurePtr) : State :=
  { s with structures := Function.update s.structures p none,
           indices := Function.update s.indices name none }

end State

/-- The handle that the loop of `CloseHandles` visits behind the one that it visited last. -/
def nextHandle (handles : Finset IndexPtr) (last : Option IndexPtr) : Option IndexPtr :=
  ((handles.filter fun h => ∀ l ∈ last, l < h).sort (· ≤ ·)).head?

/-- The first step of a call; a new handle gets the address `h`. With the status code when the call
    ends there. -/
def begin (s : State) (c : ClientId) (h : IndexPtr) : Call → Option (State × Option ErrorCode)
  | .createIndex name types =>
    match types with
    | none => some (s, some .kErrorGenericFailure)
    | some types =>
      if name = "" ∨ types.length = 0 then some (s, some .kErrorGenericFailure)
      else if s.dbs name then some (s, some .kErrorIndexExists)
      else some ((s.setDb name true).goto c (.insert name types), none)
  | .openIndex name =>
    if name = "" then some (s, some .kErrorGenericFailure)
    else if s.handles h = none ∧ s.manager = none then
      let s' := s.setHandle h (some ⟨name, s.indices name, false, true⟩)
      match s.indices name with
      | none => some (s', some .kErrorUnknownIndex)
      | some p => some (s'.goto c (.register name h p), none)
    else none
  | .deleteIndex name =>
    if name = "" then some (s, some .kErrorGenericFailure)
    else if s.manager = none then
      match s.indices name with
      | none => some (s, some .kErrorUnknownIndex)
      | some p => some ((s.setManager (some c)).goto c (.makeReadOnly name p), none)
    else none

/-- The next step of a call. -/
def next (s : State) (c : ClientId) : Pc → Option (State × Option ErrorCode)
  | .idle => none
  | .insert name types =>
    if s.manager = none then some ((s.insert name types).goto c .idle, some .kOk) else none
  | .register name h p =>
    some ((s.onStructure p fun st => { st with handles := Insert.insert h st.handles }).goto c
      (.dbOpen name h p), none)
  | .dbOpen name h p =>
    if s.dbs name then
      some ((s.setHandle h (some ⟨name, some p, true, false⟩)).goto c .idle, some .kOk)
    else
      -- `delete *idx`: the handle is not open, so its destructor does nothing
      some ((s.setHandle h none).goto c .idle, some .kErrorUnknownIndex)
  | .makeReadOnly name p => do
    let st ← s.structures p
    if st.makeReadOnly.1 then
      some ((s.onStructure p fun st => st.makeReadOnly.2).goto c (.closeHandles name p none), none)
    else some ((s.setManager none).goto c .idle, some .kErrorOpenTransactions)
  | .closeHandles name p last => do
    let st ← s.structures p
    match nextHandle st.handles last with
    | none => some (((s.erase name p).setManager none).goto c (.dbremove name), none)
    | some h =>
      let idx ← s.handles h
      if idx.closed then some (s.goto c (.closeHandles name p (some h)), none)
      else some ((s.setHandle h (some { idx with closed := true })).goto c (.dbClose name p h), none)
  | .dbClose name p h => do
    let idx ← s.handles h
    some ((s.setHandle h (some { idx with db := false })).goto c (.unregister name p h), none)
  | .unregister name p h => do
    let idx ← s.handles h
    let q ← idx.structure_
    some ((s.onStructure q fun st => { st with handles := st.handles.erase h }).goto c
      (.closeHandles name p (some h)), none)
  | .dbremove name =>
    some ((s.setDb name false).goto c .idle, some (if s.dbs name then .kOk else .kErrorUnknownIndex))

inductive Action where
  /-- the first step of a call -/
  | call (c : ClientId) (call : Call) (h : IndexPtr)
  /-- the next step of the call that the client is in -/
  | advance (c : ClientId)
  deriving DecidableEq

def Action.client : Action → ClientId
  | .call c _ _ => c
  | .advance c => c

/-- A step, with the status code of a call that it ends. -/
def answer (s : State) : Action → Option (State × Option ErrorCode)
  | .call c call h => if s.pc c = .idle then begin s c h call else none
  | .advance c => next s c (s.pc c)

def step (s : State) (a : Action) : Option State := (answer s a).map (·.1)

/-! ### The handles in order -/

variable {handles : Finset IndexPtr} {last : Option IndexPtr} {h h' : IndexPtr}

theorem nextHandle_eq_none (hnext : nextHandle handles last = none) (hh : h ∈ handles) :
    ∃ l ∈ last, h ≤ l := by
  by_contra hfar
  push Not at hfar
  have hmem : h ∈ (handles.filter fun h => ∀ l ∈ last, l < h).sort (· ≤ ·) :=
    (Finset.mem_sort _).mpr (Finset.mem_filter.mpr ⟨hh, hfar⟩)
  rw [List.head?_eq_none_iff.mp hnext] at hmem
  exact absurd hmem List.not_mem_nil

theorem nextHandle_eq_some (hnext : nextHandle handles last = some h) :
    (h ∈ handles ∧ ∀ l ∈ last, l < h) ∧ ∀ h' ∈ handles, h' ≤ h → h' = h ∨ ∃ l ∈ last, h' ≤ l := by
  obtain ⟨rest, hsort⟩ := List.head?_eq_some_iff.mp hnext
  have hsorted := Finset.pairwise_sort (handles.filter fun h => ∀ l ∈ last, l < h) (· ≤ ·)
  have hmem : ∀ x, x ∈ h :: rest ↔ x ∈ handles ∧ ∀ l ∈ last, l < x := by
    intro x
    rw [← hsort, Finset.mem_sort, Finset.mem_filter]
  rw [hsort] at hsorted
  refine ⟨(hmem h).mp List.mem_cons_self, fun x hx hle => ?_⟩
  by_contra hfar
  push Not at hfar
  rcases List.mem_cons.mp ((hmem x).mpr ⟨hx, hfar.2⟩) with rfl | hrest
  · exact hfar.1 rfl
  · have hge : h ≤ x := List.rel_of_pairwise_cons hsorted hrest
    exact hfar.1 (le_antisymm hle hge)

end Contest.Opening
