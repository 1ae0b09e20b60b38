import ContestIndex.Schemes.Races
import ContestIndex.Results.Deadlock

/-! @src example/Index.cc | name:What the mutexes protect | layer:results

    The catalogue `indices_` is only read and written under the mutex of the manager, and the registry of
    transactions of an index, with `read_only_`, only under its `transaction_mutex_`, as long as the index
    lives: `Remove` destroys it under the mutex of the manager alone. The set of handles of an index is
    only written under its `mutex_`, but the loop of `CloseHandles` walks over it without.

        IndexManager::mutex_                  indices_                      no race
        IndexStructure::transaction_mutex_    transactions_, read_only_     no race before `delete`
        IndexStructure::mutex_                handles_                      written by one at a time,
                                                                            read meanwhile
        Index::mutex_                         nothing: `closed_` and `db_` are written outside of it -/

namespace Contest.Locks
open Schemes

/-! ### What is protected -/

/-- A structure without what the mutex protects of it. -/
def wipeStructure (m : Mutex) (x : StructurePtr) (st : IndexStructure) : IndexStructure :=
  match m with
  | .handles y => if y = x then { st with handles := ∅ } else st
  | .transactions y => if y = x then { st with readOnly := false, transactions := ∅ } else st
  | _ => st

namespace Shared

def wipe (m : Mutex) (s : Shared) : Shared :=
  { s with
    indices := if m = .manager then [] else s.indices
    structures := fun x => (s.structures x).map (wipeStructure m x) }

/-- What the mutex protects is the same in both states. The mutex of a handle protects nothing. -/
def Keeps (m : Mutex) (s s' : Shared) : Prop :=
  match m with
  | .manager => s'.indices = s.indices
  | .handles x => s'.registered x = s.registered x
  | .transactions x => s'.transactions x = s.transactions x ∧ s'.readOnly x = s.readOnly x
  | .handle _ => True

end Shared

def guards : Guards Mutex Shared where
  wipe := Shared.wipe
  keeps := Shared.Keeps
  readers := {m | m = .manager ∨ ∃ x, m = .transactions x}

/-- What is held where a procedure is called or continued. -/
def enter : Point → Set Mutex
  | .duplicates m _ => m.held
  | .closeHandles _ _ _ => {.manager}
  | _ => ∅

/-! ### Wiping -/

section
variable {m : Mutex} {s s' : Shared} {h : IndexPtr} {x : StructurePtr}

theorem wipeStructure_wipeStructure (st : IndexStructure) :
    wipeStructure m x (wipeStructure m x st) = wipeStructure m x st := by
  cases m with
  | handles y => by_cases hy : y = x <;> simp [wipeStructure, hy]
  | transactions y => by_cases hy : y = x <;> simp [wipeStructure, hy]
  | _ => rfl

theorem wipeStructure_of_ne (st : IndexStructure) (hh : m ≠ .handles x) (ht : m ≠ .transactions x) :
    wipeStructure m x st = st := by
  cases m with
  | handles y =>
    have hy : y ≠ x := fun hy => hh (hy ▸ rfl)
    simp [wipeStructure, hy]
  | transactions y =>
    have hy : y ≠ x := fun hy => ht (hy ▸ rfl)
    simp [wipeStructure, hy]
  | _ => rfl

namespace Shared

@[simp] theorem wipe_structureOf : (s.wipe m).structureOf h = s.structureOf h := rfl

@[simp] theorem wipe_closed : (s.wipe m).closed h = s.closed h := rfl

@[simp] theorem wipe_structures : (s.wipe m).structures x = (s.structures x).map (wipeStructure m x) :=
  rfl

theorem wipe_find (hm : m ≠ .manager) (name : String) : (s.wipe m).find name = s.find name := by
  simp [find, wipe, hm]

@[simp] theorem wipe_wipe : (s.wipe m).wipe m = s.wipe m := by
  have hstructures : ∀ y, ((s.structures y).map (wipeStructure m y)).map (wipeStructure m y) =
      (s.structures y).map (wipeStructure m y) := by
    intro y
    rw [Option.map_map]
    exact congrArg (Option.map · _) (funext wipeStructure_wipeStructure)
  simp only [wipe, hstructures]
  split <;> rfl

/-- Of the transactions of other structures nothing is seen in this one. -/
theorem wipeStructure_of_reader (hread : m ∈ guards.readers) (hm : m ≠ .transactions x)
    (st : IndexStructure) : wipeStructure m x st = st := by
  rcases hread with rfl | ⟨y, rfl⟩
  · rfl
  · exact wipeStructure_of_ne st (by simp) hm

theorem wipe_structures_of_reader (hread : m ∈ guards.readers) (hm : m ≠ .transactions x) :
    (s.wipe m).structures x = s.structures x := by
  rw [wipe_structures, funext (wipeStructure_of_reader hread hm), Option.map_id']

theorem wipe_registered {y : StructurePtr} (hm : m = .transactions y) :
    (s.wipe m).registered x = s.registered x := by
  subst hm
  simp only [registered, wipe_structures, Option.map_map]
  congr 2
  funext st
  by_cases hy : y = x <;> simp [wipeStructure, hy]

theorem Keeps.refl : Keeps m s s := by cases m <;> simp [Keeps]

/-- Handles and transactions are not what a mutex protects. -/
theorem Keeps.of_eq (hi : s'.indices = s.indices) (hs : s'.structures = s.structures) : Keeps m s s' := by
  cases m <;> simp [Keeps, hi, registered, transactions, readOnly, hs]

theorem Keeps.onStructure {g : IndexStructure → IndexStructure} (hf : s.onStructure x g = some s')
    (hhandles : m = .handles x → ∀ st, (g st).handles = st.handles)
    (htransactions : m = .transactions x →
      ∀ st, (g st).transactions = st.transactions ∧ (g st).readOnly = st.readOnly) : Keeps m s s' := by
  obtain ⟨st, hst, rfl⟩ := Option.map_eq_some_iff.mp hf
  cases m with
  | handles y =>
    rw [Keeps, setStructure_registered]
    split
    next hyx => rw [hyx, hhandles (hyx ▸ rfl) st, registered, hst]; rfl
    next => rfl
  | transactions y =>
    rw [Keeps, setStructure_transactions, setStructure_readOnly]
    split
    next hyx =>
      obtain ⟨ht, hro⟩ := htransactions (hyx ▸ rfl) st
      rw [hyx, ht, hro, Shared.transactions, Shared.readOnly, hst]
      exact ⟨rfl, rfl⟩
    next => exact ⟨rfl, rfl⟩
  | _ => simp [Keeps, setStructure]

/-- A new structure has no handles and no transactions. -/
theorem Keeps.newStructure {types : List AttributeType} (hf : s.newStructure x types = some s') :
    Keeps m s s' := by
  obtain ⟨hfresh, rfl⟩ : s.structures x = none ∧ _ = s' := by simpa [Shared.newStructure] using hf
  cases m with
  | handles y =>
    rw [Keeps, setStructure_registered]
    split
    next hyx => rw [hyx, registered, hfresh]; rfl
    next => rfl
  | transactions y =>
    rw [Keeps, setStructure_transactions, setStructure_readOnly]
    split
    next hyx => rw [hyx, Shared.transactions, Shared.readOnly, hfresh]; exact ⟨rfl, rfl⟩
    next => exact ⟨rfl, rfl⟩
  | _ => simp [Keeps, setStructure]

theorem wipe_setStructure (st : IndexStructure) :
    (s.setStructure x st).wipe m = (s.wipe m).setStructure x (wipeStructure m x st) := by
  simp only [wipe, setStructure]
  congr 1
  funext y
  by_cases hy : y = x
  · subst hy
    simp
  · simp [hy]

theorem wipe_wipe_setStructure (st : IndexStructure) :
    ((s.wipe m).setStructure x st).wipe m = (s.setStructure x st).wipe m := by
  rw [wipe_setStructure, wipe_setStructure, wipe_wipe]

theorem wipe_wipe_setHandle (idx : Index) :
    ((s.wipe m).setHandle h idx).wipe m = (s.setHandle h idx).wipe m :=
  congrArg (fun s' : Shared => s'.setHandle h idx) wipe_wipe

theorem wipe_wipe_origin (origin : TxnPtr → Option Origin) :
    ({ s.wipe m with origin := origin } : Shared).wipe m = ({ s with origin := origin } : Shared).wipe m :=
  congrArg (fun s' : Shared => { s' with origin := origin }) wipe_wipe

theorem wipe_wipe_indices (indices : List (String × StructurePtr)) :
    ({ s.wipe m with indices := indices } : Shared).wipe m =
      ({ s with indices := indices } : Shared).wipe m :=
  congrArg (fun s' : Shared => { s' with indices := if m = Mutex.manager then [] else indices }) wipe_wipe

end Shared
end

/-! ### Steps and sections -/

section
variable {m m₀ : Mutex} {held : Set Mutex} {h : IndexPtr} {x : StructurePtr} {tx : TxnPtr}
  {f : Shared → Reply → Option Shared} {rest : Proc} {rests : Shared → Reply → Proc}

/-- A thread respects the mutexes from here, with these in its hands. -/
abbrev Covered (code : Proc) (held : Set Mutex) : Prop := guards.Covered enter code held

/-- The rest of a step does not depend on what the mutexes that are not held protect. -/
def Unseen (held : Set Mutex) (rests : Shared → Reply → Proc) : Prop :=
  ∀ m ∈ guards.readers, m ∉ held → ∀ s r, rests (s.wipe m) r = rests s r

theorem respects_look (hrests : Unseen held rests) :
    guards.Respects held (fun s _ => some s) rests where
  writes m _ s r s' hs := by
    obtain rfl : s = s' := Option.some.inj hs
    exact Shared.Keeps.refl
  reads m hread hm s r := ⟨hrests m hread hm s r, by simp [guards]⟩

theorem covered_look (hrests : Unseen held rests) (hrest : ∀ s r, Covered (rests s r) held) :
    Covered (look rests) held := ⟨respects_look hrests, hrest⟩

theorem covered_berkeleyDB (hrest : Covered rest held) : Covered (berkeleyDB rest) held :=
  covered_look (fun _ _ _ _ _ => rfl) fun _ _ => hrest

theorem covered_structureOf {rest : StructurePtr → Proc} (hrest : ∀ x, Covered (rest x) held) :
    Covered (structureOf h rest) held := by
  refine ⟨⟨fun m _ s r s' hs => ?_, fun m _ _ s r => ⟨rfl, ?_⟩⟩, fun s r => ?_⟩
  · obtain ⟨_, -, rfl⟩ := Option.map_eq_some_iff.mp hs
    exact Shared.Keeps.refl
  · simp [guards, Option.map_map, Function.comp_def]
  · cases hx : s.structureOf h with
    | none => simp [hx, Guards.Covered]
    | some x => simpa [hx] using hrest x

theorem covered_find {rest : Option StructurePtr → Proc} {name : String} (hnew : .manager ∉ held)
    (hrest : ∀ found, Covered (rest found) held) : Covered (find name rest) held := by
  refine .under hnew (respects_look fun m _ hm s r => ?_) fun s _ => hrest _
  have hne : m ≠ .manager := fun h => hm (h ▸ Set.mem_insert _ _)
  rw [Shared.wipe_find hne]

theorem covered_comparisons (hnew : .manager ∉ held) (hrest : Covered rest held) (n : Nat) :
    Covered (comparisons h rest n) held := by
  induction n with
  | zero => exact hrest
  | succ n ih =>
    exact covered_look (fun _ _ _ _ _ => rfl) fun _ _ => covered_find hnew fun _ => ih

theorem covered_search {rest : Reply → Proc} (hnew : .manager ∉ held)
    (hrest : ∀ r, Covered (rest r) held) : Covered (search h rest) held :=
  covered_look (fun _ _ _ _ _ => rfl) fun _ r => covered_comparisons hnew (hrest r) _

/-- A section that changes a structure under the mutex `m₀`, and nothing that others protect. -/
theorem covered_onStructure {g : IndexStructure → IndexStructure} (hnew : m₀ ∉ held)
    (hkeeps : ∀ m ≠ m₀, ∀ s s' : Shared, s.onStructure x g = some s' → s.Keeps m s')
    (hwipe : ∀ m ∈ guards.readers, m ≠ m₀ → ∀ st,
      wipeStructure m x (g (wipeStructure m x st)) = wipeStructure m x (g st))
    (hrests : ∀ m ∈ guards.readers, m ≠ m₀ → ∀ s r, rests (s.wipe m) r = rests s r)
    (hrest : ∀ s r, Covered (rests s r) held) :
    Covered (.lock m₀ (.act (fun s _ => s.onStructure x g) fun s r => .unlock m₀ (rests s r))) held := by
  have hne : ∀ {m}, m ∉ Insert.insert m₀ held → m ≠ m₀ := fun hm h => hm (h ▸ Set.mem_insert _ _)
  refine .under hnew ⟨fun m hm s r s' hs => hkeeps m (hne hm) s s' hs, fun m hread hm s r => ?_⟩ hrest
  refine ⟨by rw [show rests (guards.wipe m s) r = rests s r from hrests m hread (hne hm) s r], ?_⟩
  have hcomm : ∀ st, ((s.wipe m).setStructure x (g (wipeStructure m x st))).wipe m =
      (s.setStructure x (g st)).wipe m := by
    intro st
    rw [Shared.wipe_wipe_setStructure, Shared.wipe_setStructure, Shared.wipe_setStructure,
      hwipe m hread (hne hm) st]
  simp only [guards, Shared.onStructure, Shared.wipe_structures, Option.map_map]
  exact congrArg (Option.map · _) (funext hcomm)

theorem covered_registerHandle (hnew : .handles x ∉ held) (hrest : Covered rest held) :
    Covered (registerHandle x h rest) held := by
  refine covered_onStructure hnew (fun m hm s s' hf => .onStructure hf (fun h => absurd h hm)
    fun _ _ => ⟨rfl, rfl⟩) (fun m hread _ st => ?_) (fun _ _ _ _ _ => rfl) fun _ _ => hrest
  rcases hread with rfl | ⟨y, rfl⟩
  · rfl
  · by_cases hy : y = x <;> simp [wipeStructure, hy]

theorem covered_unregisterHandle (hnew : .handles x ∉ held) (hrest : Covered rest held) :
    Covered (unregisterHandle x h rest) held := by
  refine covered_onStructure hnew (fun m hm s s' hf => .onStructure hf (fun h => absurd h hm)
    fun _ _ => ⟨rfl, rfl⟩) (fun m hread _ st => ?_) (fun _ _ _ _ _ => rfl) fun _ _ => hrest
  rcases hread with rfl | ⟨y, rfl⟩
  · rfl
  · by_cases hy : y = x <;> simp [wipeStructure, hy]

/-- A section that changes the transactions of a structure and reads them. -/
theorem covered_transactions {g : IndexStructure → IndexStructure}
    (rest : Option IndexStructure → Proc) (hnew : .transactions x ∉ held)
    (hg : ∀ st, (g st).handles = st.handles) (hrest : ∀ st, Covered (rest st) held) :
    Covered (.lock (.transactions x) (.act (fun s _ => s.onStructure x g) fun s _ =>
      .unlock (.transactions x) (rest (s.structures x)))) held := by
  refine covered_onStructure hnew (fun m hm s s' hf => .onStructure hf (fun _ => hg)
    fun h => absurd h hm) (fun m hread hm st => ?_) (fun m hread hm s r => ?_) fun s _ => hrest _
  · rw [Shared.wipeStructure_of_reader hread hm st]
  · rw [Shared.wipe_structures_of_reader hread hm]

theorem covered_startTransaction {rest : Bool → Proc} (hnew : .transactions x ∉ held)
    (hrest : ∀ ok, Covered (rest ok) held) : Covered (startTransaction x tx rest) held :=
  covered_transactions (fun o => rest (o.any fun st : IndexStructure => (st.startTransaction tx).1)) hnew
    (fun st => st.startTransaction_snd_handles tx) fun _ => hrest _

theorem covered_endTransaction (hnew : .transactions x ∉ held) (hrest : Covered rest held) :
    Covered (endTransaction x tx rest) held :=
  covered_transactions (fun _ => rest) hnew (fun _ => rfl) fun _ => hrest

theorem covered_makeReadOnly {rest : Bool → Proc} (hnew : .transactions x ∉ held)
    (hrest : ∀ ok, Covered (rest ok) held) : Covered (makeReadOnly x rest) held :=
  covered_transactions (fun o => rest (o.any fun st : IndexStructure => st.makeReadOnly.1)) hnew
    (fun st => st.makeReadOnly_snd_handles) fun _ => hrest _

/-- A step outside of the mutexes. -/
theorem covered_act (hkeeps : ∀ s r s', f s r = some s' → ∀ m, Shared.Keeps m s s')
    (hwipe : ∀ m ∈ guards.readers, ∀ s r, (f (s.wipe m) r).map (Shared.wipe m) =
      (f s r).map (Shared.wipe m))
    (hrests : Unseen held rests) (hrest : ∀ s r, Covered (rests s r) held) :
    Covered (.act f rests) held :=
  ⟨⟨fun m _ s r s' hs => hkeeps s r s' hs m,
    fun m hread hm s r => ⟨hrests m hread hm s r, hwipe m hread s r⟩⟩, hrest⟩

/-- The handle is not what a mutex protects. -/
theorem covered_onHandle {g : Index → Index} (hrests : Unseen held rests)
    (hrest : ∀ s r, Covered (rests s r) held) :
    Covered (.act (fun s _ => s.onHandle h g) rests) held := by
  refine covered_act (fun s r s' hs m => ?_) (fun m _ s r => ?_) hrests hrest
  · obtain ⟨idx, -, rfl⟩ := Option.map_eq_some_iff.mp hs
    exact .of_eq rfl rfl
  · simp only [Shared.onHandle, Option.map_map]
    exact congrArg (Option.map · _) (funext fun idx => Shared.wipe_wipe_setHandle (g idx))

theorem covered_newHandle {name : String} {found : Option StructurePtr} {address : Reply → IndexPtr}
    (hrests : Unseen held rests) (hrest : ∀ s r, Covered (rests s r) held) :
    Covered (.act (fun s r => s.newHandle (address r) name found) rests) held := by
  refine covered_act (fun s r s' hs m => ?_) (fun m _ s r => ?_) hrests hrest
  · obtain ⟨-, rfl⟩ : s.handles (address r) = none ∧ _ = s' := by simpa [Shared.newHandle] using hs
    exact .of_eq rfl rfl
  · have hsame : (s.wipe m).handles = s.handles := rfl
    simp only [Shared.newHandle, hsame]
    split
    · exact congrArg some (Shared.wipe_wipe_setHandle _)
    · rfl

theorem covered_newTransaction {o : Origin} {address : Reply → TxnPtr} (hrests : Unseen held rests)
    (hrest : ∀ s r, Covered (rests s r) held) :
    Covered (.act (fun s r => s.newTransaction (address r) o) rests) held := by
  refine covered_act (fun s r s' hs m => ?_) (fun m _ s r => ?_) hrests hrest
  · obtain ⟨-, rfl⟩ : s.origin (address r) = none ∧ _ = s' := by simpa [Shared.newTransaction] using hs
    exact .of_eq rfl rfl
  · have hsame : (s.wipe m).origin = s.origin := rfl
    simp only [Shared.newTransaction, hsame]
    split
    · exact congrArg some (Shared.wipe_wipe_origin _)
    · rfl

theorem covered_newStructure {types : List AttributeType} {address : Reply → StructurePtr}
    (hrests : Unseen held rests) (hrest : ∀ s r, Covered (rests s r) held) :
    Covered (.act (fun s r => s.newStructure (address r) types) rests) held := by
  refine covered_act (fun s r s' hs m => .newStructure hs) (fun m _ s r => ?_) hrests hrest
  have hsame : (s.wipe m).structures (address r) = none ↔ s.structures (address r) = none :=
    Option.map_eq_none_iff
  simp only [Shared.newStructure, hsame]
  split
  · exact congrArg some (Shared.wipe_wipe_setStructure _)
  · rfl

/-- A change of the catalogue by the holder of the manager's mutex. -/
theorem respects_indices (g : List (String × StructurePtr) → List (String × StructurePtr))
    (hheld : .manager ∈ held) :
    guards.Respects held (fun s _ => some { s with indices := g s.indices }) fun _ _ => rest where
  writes m hm s r s' hs := by
    obtain rfl : _ = s' := Option.some.inj hs
    cases m with
    | manager => exact absurd hheld hm
    | handles x => rfl
    | transactions x => exact ⟨rfl, rfl⟩
    | handle h => trivial
  reads m _ hm s r := by
    have hne : m ≠ .manager := fun h => hm (h ▸ hheld)
    have hindices : (s.wipe m).indices = s.indices := by simp [Shared.wipe, hne]
    refine ⟨rfl, ?_⟩
    simp only [guards, Option.map_some, hindices]
    exact congrArg some (Shared.wipe_wipe_indices _)

theorem covered_insert {name : String} (hnew : .manager ∉ held) (hrest : Covered rest held) :
    Covered (insert name x rest) held :=
  .under hnew (respects_indices (fun l => (name, x) :: l.filter (·.1 ≠ name)) (Set.mem_insert _ _))
    fun _ _ => hrest

end

/-! ### Operations on records -/

section
variable {c : ThreadId} {m : Modifying} {tid : TxnPtr} {held : Set Mutex} {rest : Proc}

/-- `Index::Update` holds nothing but the mutex of a handle. -/
theorem Modifying.notMem_held {n : Mutex} (hn : ∀ h, n ≠ .handle h) : n ∉ m.held := by
  intro hmem
  rw [Modifying.held] at hmem
  split at hmem
  · exact hn m.h hmem
  · exact hmem

namespace Modifying

theorem covered_leave : Covered m.leave held := by
  rw [leave]
  split <;> trivial

theorem covered_write (hrest : Covered rest m.held) : Covered (m.write rest) m.held := by
  rw [write]
  split
  · exact covered_search (notMem_held (by simp)) fun _ => hrest
  · exact covered_berkeleyDB hrest

theorem covered_join (hrest : Covered rest m.held) : Covered (m.join rest) m.held := by
  rw [join]
  split
  · exact covered_structureOf fun x => covered_startTransaction (notMem_held (by simp)) fun _ => hrest
  · exact hrest

theorem covered_finish : Covered (m.finish tid) m.held :=
  covered_berkeleyDB <| covered_structureOf fun x =>
    covered_endTransaction (notMem_held (by simp)) covered_leave

theorem covered_run : Covered (m.run c) m.held := by
  refine covered_newTransaction (fun _ _ _ _ _ => rfl) fun _ r => covered_structureOf fun x =>
    covered_startTransaction (notMem_held (by simp)) fun ok => ?_
  split
  · refine covered_search (notMem_held (by simp)) fun found => ?_
    split
    · refine covered_write (covered_join ?_)
      split
      · exact Set.Subset.refl _
      · exact covered_finish
    · exact covered_finish
  · exact covered_berkeleyDB covered_leave

theorem covered_duplicates : Covered (m.duplicates tid) m.held := by
  refine covered_search (notMem_held (by simp)) fun found => ?_
  split
  · exact covered_write (Set.Subset.refl _)
  · exact covered_finish

end Modifying

theorem covered_checked {h : IndexPtr} (hrest : Covered rest ∅) : Covered (checked h rest) ∅ := by
  refine covered_look (fun _ _ _ _ _ => rfl) fun s _ => ?_
  split
  · trivial
  · refine covered_look (fun _ _ _ _ _ => rfl) fun s r => ?_
    split
    · trivial
    · exact hrest

theorem covered_indexInsert (tx : Option TxnPtr) (h : IndexPtr) : Covered (indexInsert tx h) ∅ := by
  cases tx with
  | some t =>
    refine covered_structureOf fun x => covered_startTransaction (Set.notMem_empty _) fun ok => ?_
    split
    · exact covered_search (Set.notMem_empty _) fun _ => trivial
    · trivial
  | none => exact covered_search (Set.notMem_empty _) fun _ => trivial

theorem covered_indexUpdate (tx : Option TxnPtr) (h : IndexPtr) (flags : UInt8) :
    Covered (indexUpdate c tx h flags) ∅ := by
  have hrun : Covered (Modifying.run ⟨true, h, tx, flags⟩ c) (Insert.insert (.handle h) ∅) := by
    rw [insert_empty_eq]
    exact Modifying.covered_run
  exact hrun

theorem covered_indexDelete (tx : Option TxnPtr) (h : IndexPtr) (flags : UInt8) :
    Covered (indexDelete c tx h flags) ∅ := Modifying.covered_run

theorem covered_iteratorNext (h : IndexPtr) : Covered (iteratorNext h) ∅ := by
  refine covered_search (Set.notMem_empty _) fun r => ?_
  split
  · exact Set.Subset.refl _
  · trivial

end

/-! ### Handles, transactions, indices -/

section
variable {c : ThreadId} {held : Set Mutex} {h : IndexPtr} {x : StructurePtr} {tx : TxnPtr} {rest : Proc}

theorem covered_create (name : String) (types : List AttributeType) :
    Covered (create name types) ∅ := by
  refine covered_look (fun _ _ _ _ _ => rfl) fun _ r => ?_
  split
  · exact covered_newStructure (fun _ _ _ _ _ => rfl) fun _ _ =>
      covered_insert (Set.notMem_empty _) trivial
  · trivial

theorem covered_indexOpen (name : String) : Covered (indexOpen name) ∅ := by
  refine covered_find (Set.notMem_empty _) fun found =>
    covered_newHandle (fun _ _ _ _ _ => rfl) fun _ r => ?_
  cases found with
  | none => trivial
  | some x =>
    exact covered_registerHandle (Set.notMem_empty _) <|
      covered_onHandle (fun _ _ _ _ _ => rfl) fun _ _ =>
        covered_onHandle (fun _ _ _ _ _ => rfl) fun _ _ => trivial

/-- Closing accesses what the structure's mutex protects, and nothing that the handle's does. -/
theorem covered_indexClose (hhandle : .handle h ∉ held) (hhandles : ∀ x, .handles x ∉ held)
    (hrest : Covered rest held) : Covered (indexClose h rest) held := by
  refine covered_onHandle (fun _ _ _ _ _ => rfl) fun s _ => ?_
  rw [Covered, Guards.Covered, Set.insert_sdiff_self_of_notMem hhandle]
  split
  · exact hrest
  · refine covered_onHandle (fun _ _ _ _ _ => rfl) fun _ _ =>
      covered_look (fun _ _ _ _ _ => rfl) fun s _ => ?_
    have hmarked : Covered (.act (fun s _ => s.onHandle h fun idx => { idx with closed := true })
        fun _ _ => rest) held := covered_onHandle (fun _ _ _ _ _ => rfl) fun _ _ => hrest
    dsimp only
    split
    · exact covered_unregisterHandle (hhandles _) hmarked
    · exact hmarked

theorem covered_closing (xs : List StructurePtr) : Covered (closing tx xs) {.manager} := by
  induction xs with
  | nil => trivial
  | cons x xs ih => exact covered_endTransaction (by simp) ih

/-- The holder of the manager's mutex may look at the catalogue. -/
theorem unseen_indices (rests : List (String × StructurePtr) → Proc) :
    Unseen {.manager} fun s _ => rests s.indices := by
  intro m _ hm s r
  have hne : m ≠ .manager := hm
  simp [Shared.wipe, hne]

theorem covered_resolve : Covered (resolve tx) ∅ := by
  refine covered_berkeleyDB ?_
  rw [Covered, Guards.Covered, insert_empty_eq]
  exact covered_look (unseen_indices fun l => closing tx (l.map (·.2))) fun s _ => covered_closing _

theorem covered_closeHandles (name : String) (last : Option IndexPtr) :
    Covered (closeHandles name x last) {.manager} := by
  refine covered_look (fun m hread hm s r => ?_) fun s _ => ?_
  · have hne : m ≠ .manager := hm
    obtain ⟨y, rfl⟩ := hread.resolve_left hne
    rw [Shared.wipe_registered rfl]
  · split
    · exact covered_indexClose (by simp) (by simp) (Set.Subset.refl _)
    · exact ⟨respects_indices (fun l => l.filter (·.1 ≠ name)) rfl, fun _ _ => covered_berkeleyDB trivial⟩

theorem covered_remove (name : String) : Covered (remove name) ∅ := by
  rw [Covered, remove, Guards.Covered, insert_empty_eq]
  refine covered_look (fun m _ hm s r => ?_) fun s _ => ?_
  · have hne : m ≠ .manager := hm
    rw [Shared.wipe_find hne]
  · split
    · refine covered_makeReadOnly (by simp) fun ok => ?_
      split
      · exact Set.Subset.refl _
      · trivial
    · trivial

end

/-! ### All calls -/

/-- A call that refuses some of its arguments. -/
theorem covered_unless {code : Proc} (refused : Prop) [Decidable refused] (h : Covered code ∅) :
    Covered (if refused then .ret else code) ∅ := by
  split
  · trivial
  · exact h

theorem covers : guards.Covers procedures enter where
  entry s p hadmits := by
    cases p with
    | duplicates m tid => simp [procedures, admits] at hadmits
    | closeHandles name x last => simp [procedures, admits] at hadmits
    | _ => rfl
  body c p := by
    cases p with
    | beginTransaction => exact covered_newTransaction (fun _ _ _ _ _ => rfl) fun _ _ => trivial
    | commitTransaction tx => exact covered_resolve
    | abortTransaction tx => exact covered_resolve
    | createIndex name types => exact covered_unless (name = "" ∨ types = []) (covered_create name types)
    | openIndex name => exact covered_unless (name = "") (covered_indexOpen name)
    | closeIndex h =>
      exact covered_indexClose (Set.notMem_empty _) (fun _ => Set.notMem_empty _) trivial
    | deleteIndex name => exact covered_unless (name = "") (covered_remove name)
    | insertRecord tx h => exact covered_checked (covered_indexInsert tx h)
    | updateRecord tx h flags => exact covered_checked (covered_indexUpdate tx h flags)
    | deleteRecord tx h flags => exact covered_checked (covered_indexDelete tx h flags)
    | getNext h =>
      refine covered_look (fun _ _ _ _ _ => rfl) fun _ r => ?_
      split
      · exact Set.Subset.refl _
      · trivial
    | next h => exact covered_iteratorNext h
    | duplicates m tid => exact m.covered_duplicates
    | closeHandles name x last => exact covered_closeHandles name last

/-- CORRECT (mutexes): whatever the threads call and however their steps interleave, who writes the
    catalogue, the handles of an index or its transactions holds the mutex for it, and so does who reads
    the catalogue or the transactions. For those two no threads ever race. The end of an index, which is
    more than a write, is not among the steps. -/
theorem threads_hold_what_they_access (turns : List (Turn Reply Point))
    (t : Threads Mutex Shared Reply Point)
    (hrun : exec procedures.step (.start .initial) turns = some t) :
    (∀ c m, t.Writes guards c m → t.owner m = some c) ∧
      (∀ c m, m ∈ guards.readers → t.Reads guards c m → t.owner m = some c) ∧
      ∀ m ∈ guards.readers, ¬t.Race guards m := by
  have hkept : guards.Kept enter t := covers.kept hrun
  exact ⟨fun c m => hkept.owner_of_writes, fun c m => hkept.owner_of_reads,
    fun m hm => hkept.no_race hm⟩

/-! ### The handles of an index are raced for -/

/-- Thread 0 creates an index and opens it. Thread 2 is about to register another handle, while thread 1,
    which deletes the index, is about to look for the next handle to close. -/
def racing : List (Turn Reply Point) :=
  [.call 0 (.createIndex "orders" [.kInt])] ++ advances 0 5 ++
  [.call 0 (.openIndex "orders")] ++ advances 0 9 ++
  [.call 2 (.openIndex "orders")] ++ advances 2 3 ++ [.advance 2 { address := 1 }] ++ advances 2 1 ++
  [.call 1 (.deleteIndex "orders")] ++ advances 1 6

/-- DIVERGES (`CloseHandles`): the loop walks over the handles without their mutex. -/
theorem handles_are_raced_for :
    ∃ t, exec procedures.step (.start .initial) racing = some t ∧ t.Race guards (.handles 0) := by
  refine ⟨_, rfl, 2, 1, by decide, ?_, .inr ?_⟩
  · exact ⟨_, _, {}, _, rfl, rfl, by unfold guards Shared.Keeps; decide⟩
  · refine ⟨_, _, rfl, fun hblind => ?_⟩
    -- with a handle the loop goes on to close it, without one it comes to its end
    have hsame := (hblind ⟨[], fun _ => some { IndexStructure.new [.kInt] with handles := {0} },
      fun _ => none, fun _ => none⟩ {}).1
    have hone : Opening.nextHandle {0} none = some 0 := by simp [Opening.nextHandle]
    have hnone : Opening.nextHandle ∅ none = none := by simp [Opening.nextHandle]
    simp [guards, Shared.wipe, wipeStructure, Shared.registered, hone, hnone, indexClose] at hsame

/-- In the same state nobody races for the catalogue, whose mutex thread 1 holds. -/
theorem threads_hold_what_they_access_at :
    ∃ t, exec procedures.step (.start .initial) racing = some t ∧ t.owner .manager = some 1 ∧
      ¬t.Race guards .manager :=
  ⟨_, rfl, rfl, (threads_hold_what_they_access racing _ rfl).2.2 .manager (.inl rfl)⟩

/-! ### The end of an index -/

/-- Thread 2 is about to insert a record in a transaction when thread 0 closes the handle it uses and
    thread 1 deletes the index. -/
def destroying : List (Turn Reply Point) :=
  [.call 0 (.createIndex "orders" [.kInt])] ++ advances 0 5 ++
  [.call 0 (.openIndex "orders")] ++ advances 0 9 ++ [.call 0 .beginTransaction] ++ advances 0 1 ++
  [.call 2 (.insertRecord (some 0) 0)] ++ advances 2 3 ++ [.call 0 (.closeIndex 0)] ++ advances 0 9 ++
  [.call 1 (.deleteIndex "orders")] ++ advances 1 6 ++ advances 2 1

/-- DIVERGES (`IndexManager::Remove`): thread 1 has no handle left to close and comes to delete the
    structure, for which it takes no mutex of the structure, while thread 2 holds its
    `transaction_mutex_` and is about to read it. -/
theorem destroyed_while_locked :
    ∃ t, exec procedures.step (.start .initial) destroying = some t ∧
      t.code 1 = closeHandles "orders" 0 none ∧ Opening.nextHandle (t.shared.registered 0) none = none ∧
      t.owner (.transactions 0) = some 2 ∧ t.Reads guards 2 (.transactions 0) := by
  have hnone : Opening.nextHandle ∅ none = none := by simp [Opening.nextHandle]
  refine ⟨_, rfl, rfl, hnone, rfl, _, _, rfl, fun hblind => ?_⟩
  -- the transaction starts unless the index is read-only
  have hsame := (hblind ⟨[], fun _ => some { IndexStructure.new [.kInt] with readOnly := true },
    fun _ => none, fun _ => none⟩ {}).1
  simp [guards, Shared.wipe, wipeStructure, IndexStructure.startTransaction, search, look] at hsame

end Contest.Locks
