import ContestIndex.Results.Writers

/-! @src example/Index.cc, example/BDBImpl.cc | name:DeleteIndex and running operations
    | layer:specification

    One client works on the handles of an index while others try to delete it. A registered
    transaction keeps the index; `closed_` turns away what begins after the handle was closed. Between
    the test of `closed_` and the registration nothing does, and an insert outside of transactions, a
    range search and a scan never register. A scan does not test `closed_` either.

        closedCheck ▸ compatible │ attributeCount ▸ modifyKey ▸ modifyBegin ▸ start │ cursor ▸ …
                closed_          │                  nothing                         │ registered -/

namespace Contest.Machine
open Schemes

/-! ### Places without protection -/

/-- The handle whose `db_` the client will use, without looking at `closed_` and without being
    registered. -/
def Pc.nearDb : Pc → Option IndexPtr
  | .attributeCount (.insert none) h _ | .attributeCount .getRecords h true | .insertKey h none
  | .insertPut h none | .cursorOpen h | .nextGet h | .nextKey h => some h
  | _ => none

/-- The handle whose `structure_` it will use so. -/
def Pc.nearStructure : Pc → Option IndexPtr
  | .attributeCount _ h _ | .insertStart h _ | .insertKey h none | .cursorOpen h | .iteratorKey h
  | .nextGet h | .nextKey h | .nextValue h => some h
  | .modifyLock m | .modifyKey m | .modifyBegin m | .modify .start m _ => some m.h
  | _ => none

/-- The registration that keeps the index for the client. -/
def Pc.relies (cfg : Config) : Pc → Option (StructurePtr × TxnPtr)
  | .insertKey h (some t) | .insertPut h (some t) => some (cfg.structureOf h, t)
  | .modify stage m tid => if stage.entered then some (cfg.structureOf m.h, tid) else none
  | _ => none

/-- A place in DeleteIndex. -/
def Pc.deletes : Pc → Bool
  | .removeLock _ | .makeReadOnly _ | .closeMark .. | .closeDb .. | .dbremove _ => true
  | _ => false

section
variable {cfg : Config} {pc : Pc} {h : IndexPtr}

/-- A client that uses the database is unprotected or registered. -/
theorem Pc.usesDb_cases (hu : pc.usesDb = some h) :
    pc.nearDb = some h ∨ ∃ t, pc.relies cfg = some (cfg.structureOf h, t) := by
  cases pc
  case insertPut h' tx =>
    obtain rfl : h' = h := by simpa [usesDb] using hu
    cases tx with
    | none => exact Or.inl rfl
    | some t => exact Or.inr ⟨t, rfl⟩
  case cursorOpen | nextGet => exact Or.inl hu
  case modify stage m tid =>
    cases stage
    case cursor | get | write | loop | rewrite =>
      obtain rfl : m.h = h := by simpa [usesDb] using hu
      exact Or.inr ⟨tid, rfl⟩
    all_goals simp [usesDb] at hu
  all_goals simp [usesDb] at hu

theorem Pc.usesStructure_cases (hu : pc.usesStructure = some h) :
    pc.nearStructure = some h ∨ ∃ t, pc.relies cfg = some (cfg.structureOf h, t) := by
  cases pc
  case insertKey h' tx =>
    obtain rfl : h' = h := by simpa [usesStructure] using hu
    cases tx with
    | none => exact Or.inl rfl
    | some t => exact Or.inr ⟨t, rfl⟩
  case attributeCount | insertStart | iteratorKey | nextKey | nextValue | modifyKey =>
    exact Or.inl hu
  case modify stage m tid =>
    cases stage
    case start => exact Or.inl hu
    case key | join | cmpkey | endTransaction =>
      obtain rfl : m.h = h := by simpa [usesStructure] using hu
      exact Or.inr ⟨tid, rfl⟩
    all_goals simp [usesStructure] at hu
  all_goals simp [usesStructure] at hu

end

/-! ### The invariant -/

/-- Closed databases, destroyed structures, and the handles that are left. -/
structure Closing (cfg : Config) (s : State) : Prop where
  gated : s.Gated
  left : ∀ h, s.closed h = false → h ∈ (s.structures (cfg.structureOf h)).handles
  belongs : ∀ x h, h ∈ (s.structures x).handles → cfg.structureOf h = x
  db : ∀ h, s.db h = false →
    s.closed h = true ∧ (s.structures (cfg.structureOf h)).readOnly = true
  destroyed : ∀ x, s.destroyed x = true →
    (s.structures x).readOnly = true ∧ ∀ h, cfg.structureOf h = x → s.closed h = true

/-- What holds of the working client at its place. -/
structure At (cfg : Config) (s : State) (pc : Pc) : Prop where
  nearDb : ∀ h ∈ pc.nearDb, s.db h = true
  nearStructure : ∀ h ∈ pc.nearStructure, s.destroyed (cfg.structureOf h) = false
  relies : ∀ e ∈ pc.relies cfg, e.2 ∈ (s.structures e.1).transactions
  works : pc.deletes = false

/-- What holds of a deleting client at its place: the structure is read-only, and the handles that
    are not in its list are closed. -/
def Removing (cfg : Config) (s : State) : Pc → Prop
  | .idle | .removeLock _ | .makeReadOnly _ | .dbremove _ => True
  | .closeMark x todo => (s.structures x).readOnly = true ∧ (∀ h ∈ todo, cfg.structureOf h = x) ∧
    ∀ h, cfg.structureOf h = x → h ∈ todo ∨ s.closed h = true
  | .closeDb x h todo => (s.structures x).readOnly = true ∧
    (∀ h' ∈ h :: todo, cfg.structureOf h' = x) ∧ s.closed h = true ∧
    ∀ h', cfg.structureOf h' = x → h' ∈ todo ∨ s.closed h' = true
  | _ => False

/-- The client `c` works, all others delete. -/
structure Guarded (cfg : Config) (c : ClientId) (s : State) : Prop where
  closing : Closing cfg s
  mine : At cfg s (s.pc c)
  others : ∀ d, d ≠ c → Removing cfg s (s.pc d)

section
variable {cfg : Config} {c d : ClientId} {s s' : State} {pc pc' : Pc} {x : StructurePtr}
  {h : IndexPtr} {t : TxnPtr}

/-- An open handle has an open database and a living structure. -/
theorem Closing.open_ (hs : Closing cfg s) (hopen : s.closed h = false) :
    s.db h = true ∧ s.destroyed (cfg.structureOf h) = false := by
  constructor
  · refine Bool.eq_true_of_not_eq_false fun hdb => ?_
    simp [(hs.db h hdb).1] at hopen
  · refine Bool.eq_false_iff.mpr fun hx => ?_
    simp [(hs.destroyed _ hx).2 h rfl] at hopen

/-- So has a handle whose structure somebody is registered with. -/
theorem Closing.kept (hs : Closing cfg s)
    (ht : t ∈ (s.structures (cfg.structureOf h)).transactions) :
    s.db h = true ∧ s.destroyed (cfg.structureOf h) = false := by
  have hwritable : (s.structures (cfg.structureOf h)).readOnly ≠ true := fun hr => by
    simp [hs.gated _ hr] at ht
  constructor
  · exact Bool.eq_true_of_not_eq_false fun hdb => hwritable (hs.db h hdb).2
  · exact Bool.eq_false_iff.mpr fun hx => hwritable (hs.destroyed _ hx).1

/-- Structures stay read-only and handles stay closed. -/
theorem Removing.mono (h : Removing cfg s pc)
    (hr : ∀ x, (s.structures x).readOnly = true → (s'.structures x).readOnly = true)
    (hc : ∀ h, s.closed h = true → s'.closed h = true) : Removing cfg s' pc := by
  cases pc
  case closeMark x todo =>
    exact ⟨hr x h.1, h.2.1, fun h' hh => (h.2.2 h' hh).imp_right (hc h')⟩
  case closeDb x h' todo =>
    exact ⟨hr x h.1, h.2.1, hc h' h.2.2.1, fun h' hh => (h.2.2.2 h' hh).imp_right (hc h')⟩
  all_goals exact h

/-- The invariant gives what is claimed. -/
theorem Guarded.unharmed (hg : Guarded cfg c s) : s.harmed cfg c = false := by
  have hrelies : ∀ h t, (s.pc c).relies cfg = some (cfg.structureOf h, t) →
      s.db h = true ∧ s.destroyed (cfg.structureOf h) = false :=
    fun h t hr => hg.closing.kept (hg.mine.relies _ hr)
  have hdb : ∀ h, (s.pc c).usesDb = some h → s.db h = true := fun h hu =>
    (Pc.usesDb_cases hu).elim (hg.mine.nearDb h) fun ⟨t, hr⟩ => (hrelies h t hr).1
  have hst : ∀ h, (s.pc c).usesStructure = some h → s.destroyed (cfg.structureOf h) = false :=
    fun h hu =>
      (Pc.usesStructure_cases hu).elim (hg.mine.nearStructure h) fun ⟨t, hr⟩ => (hrelies h t hr).2
  unfold State.harmed
  cases hu : (s.pc c).usesDb <;> cases hv : (s.pc c).usesStructure <;> simp_all

/-! ### The client that works -/

/-- A step of the client `c` on transactions, registrations and mutexes. -/
structure Works (c : ClientId) (s s' : State) : Prop where
  pc : ∀ d, d ≠ c → s'.pc d = s.pc d
  closed : s'.closed = s.closed
  db : s'.db = s.db
  destroyed : s'.destroyed = s.destroyed
  readOnly : ∀ x, (s'.structures x).readOnly = (s.structures x).readOnly
  handles : ∀ x, (s'.structures x).handles = (s.structures x).handles
  gated : s.Gated → s'.Gated

namespace Works

theorem of_eq (hpc : s'.pc = s.pc) (hs : s'.structures = s.structures) (hc : s'.closed = s.closed)
    (hdb : s'.db = s.db) (hd : s'.destroyed = s.destroyed) : Works c s s' where
  pc d _ := congrFun hpc d
  closed := hc
  db := hdb
  destroyed := hd
  readOnly x := by rw [hs]
  handles x := by rw [hs]
  gated hg x := by rw [hs]; exact hg x

theorem onStructure {f : IndexStructure → IndexStructure}
    (hr : (f (s.structures x)).readOnly = (s.structures x).readOnly)
    (hh : (f (s.structures x)).handles = (s.structures x).handles)
    (hgate : ((s.structures x).readOnly = true → (s.structures x).transactions = ∅) →
      (f (s.structures x)).readOnly = true → (f (s.structures x)).transactions = ∅) :
    Works c s (s.onStructure x f) := by
  refine ⟨fun _ _ => rfl, rfl, rfl, rfl, s.onStructure_keeps x f (·.readOnly) hr,
    s.onStructure_keeps x f (·.handles) hh, ?_⟩
  intro hg y hy
  by_cases hyx : y = x
  · subst hyx
    rw [s.onStructure_structures_self] at hy ⊢
    exact hgate (hg y) hy
  · rw [s.onStructure_structures_of_ne hyx] at hy ⊢
    exact hg y hy

theorem register (s : State) (x : StructurePtr) (t : TxnPtr) : Works c s (s.register x t) := by
  refine onStructure ?_ ?_ ?_ <;> unfold IndexStructure.startTransaction
  · split <;> rfl
  · split <;> rfl
  · intro hg
    split
    · exact hg
    next hw => exact fun hr => absurd hr hw

theorem unregister (s : State) (x : StructurePtr) (t : TxnPtr) : Works c s (s.unregister x t) := by
  refine onStructure rfl rfl fun hg hr => ?_
  simp [IndexStructure.endTransaction, hg hr]

theorem write (s : State) (x : StructurePtr) (tx : Option TxnPtr) : Works c s (s.write x tx) := by
  cases tx <;> exact of_eq rfl rfl rfl rfl rfl

theorem commitNested (s : State) (t : TxnPtr) : Works c s (s.commitNested t) := by
  unfold State.commitNested
  split
  · exact of_eq rfl rfl rfl rfl rfl
  · dsimp only
    split <;> exact of_eq rfl rfl rfl rfl rfl

end Works

/-- The client may go from `s` to `s'`. -/
def Moves (cfg : Config) (c : ClientId) (s s' : State) : Prop :=
  Works c s s' ∧ At cfg s' (s'.pc c)

theorem Works.moves (hw : Works c s s') (h : At cfg s' pc) : Moves cfg c s (s'.goto c pc) := by
  refine ⟨⟨fun d hd => ?_, hw.closed, hw.db, hw.destroyed, hw.readOnly, hw.handles, hw.gated⟩, ?_⟩
  · rw [s'.goto_pc_of_ne hd, hw.pc d hd]
  · rw [s'.goto_pc_self]
    exact ⟨h.nearDb, h.nearStructure, h.relies, h.works⟩

theorem moves_goto (h : At cfg s pc) : Moves cfg c s (s.goto c pc) :=
  Works.moves (.of_eq rfl rfl rfl rfl rfl) h

theorem Guarded.moves (hg : Guarded cfg c s) (hm : Moves cfg c s s') : Guarded cfg c s' := by
  obtain ⟨hw, hat⟩ := hm
  refine ⟨⟨hw.gated hg.closing.gated, ?_, ?_, ?_, ?_⟩, hat, fun d hd => ?_⟩
  · simpa only [hw.closed, hw.handles] using hg.closing.left
  · simpa only [hw.handles] using hg.closing.belongs
  · simpa only [hw.closed, hw.db, hw.readOnly] using hg.closing.db
  · simpa only [hw.closed, hw.destroyed, hw.readOnly] using hg.closing.destroyed
  · rw [hw.pc d hd]
    exact (hg.others d hd).mono (fun x => by rw [hw.readOnly]; exact id)
      fun h => by rw [hw.closed]; exact id

/-- A step on mutexes, iterators and transactions. -/
theorem quiet_moves (hpc : s'.pc = s.pc) (hs : s'.structures = s.structures)
    (hc : s'.closed = s.closed) (hdb : s'.db = s.db) (hd : s'.destroyed = s.destroyed)
    (h : At cfg s pc) : Moves cfg c s (s'.goto c pc) :=
  Works.moves (.of_eq hpc hs hc hdb hd)
    ⟨by rw [hdb]; exact h.nearDb, by rw [hd]; exact h.nearStructure, by rw [hs]; exact h.relies,
      h.works⟩

/-- A place that needs no more than the one before. -/
theorem At.less (hat : At cfg s pc) (hdb : pc'.nearDb = none ∨ pc'.nearDb = pc.nearDb)
    (hst : pc'.nearStructure = none ∨ pc'.nearStructure = pc.nearStructure)
    (hr : pc'.relies cfg = none ∨ pc'.relies cfg = pc.relies cfg) (hw : pc'.deletes = false) :
    At cfg s pc' where
  nearDb h hh := by
    rcases hdb with hnone | hsame
    · simp [hnone] at hh
    · exact hat.nearDb h (hsame ▸ hh)
  nearStructure h hh := by
    rcases hst with hnone | hsame
    · simp [hnone] at hh
    · exact hat.nearStructure h (hsame ▸ hh)
  relies e he := by
    rcases hr with hnone | hsame
    · simp [hnone] at he
    · exact hat.relies e (hsame ▸ he)
  works := hw

/-- A place that needs nothing. -/
theorem at_free (cfg : Config) (s : State) (hdb : pc.nearDb = none) (hst : pc.nearStructure = none)
    (hr : pc.relies cfg = none) (hw : pc.deletes = false) : At cfg s pc where
  nearDb := by simp [hdb]
  nearStructure := by simp [hst]
  relies := by simp [hr]
  works := hw

theorem at_leave (cfg : Config) (s : State) (m : Modifying) : At cfg s m.leave := by
  unfold Modifying.leave
  split <;> exact at_free cfg s rfl rfl rfl rfl

/-- A stage behind the registration. -/
theorem at_stage {stage : Stage} {m : Modifying} {tid : TxnPtr} (hne : stage ≠ .start)
    (ht : tid ∈ (s.structures (cfg.structureOf m.h)).transactions) :
    At cfg s (.modify stage m tid) where
  nearDb := by simp [Pc.nearDb]
  nearStructure := by
    cases stage
    case start => exact absurd rfl hne
    all_goals simp [Pc.nearStructure]
  relies e he := by
    obtain ⟨-, rfl⟩ : stage.entered = true ∧ (cfg.structureOf m.h, tid) = e := by
      simpa [Pc.relies] using he
    exact ht
  works := rfl

theorem Modifying.written_ne_start (m : Modifying) : m.written ≠ .start := by
  unfold Modifying.written
  split
  · split <;> decide
  · decide

/-- STEP: behind the txn_begin of `Index::Update` and `Index::Delete`. -/
theorem modifying_moves {stage : Stage} {m : Modifying} {tid : TxnPtr} (r : Reply)
    (hat : At cfg s (.modify stage m tid)) :
    Moves cfg c s (m.next (cfg.structureOf m.h) s c r tid stage) := by
  have hleave : Moves cfg c s (s.goto c m.leave) := moves_goto (at_leave cfg s m)
  have hto : stage.entered = true → ∀ stage', stage' ≠ .start →
      Moves cfg c s (s.goto c (.modify stage' m tid)) := fun he stage' hne =>
    moves_goto (at_stage hne (hat.relies (_, tid) (by simp [Pc.relies, he])))
  have hwrite : stage.entered = true → ∀ stage', stage' ≠ .start →
      Moves cfg c s ((s.write (cfg.structureOf m.h) (some tid)).goto c (.modify stage' m tid)) :=
    fun he stage' hne => (Works.write s _ _).moves
      (at_stage hne (hat.relies (_, tid) (by simp [Pc.relies, he])))
  cases stage with
  | start =>
    simp only [Modifying.next]
    split
    next hr =>
      have hw := IndexStructure.startTransaction_fst_eq_true.mp hr
      refine (Works.register s _ tid).moves (at_stage (by decide) ?_)
      simp [State.register, IndexStructure.startTransaction_snd hw]
    · exact moves_goto (at_free cfg s rfl rfl rfl rfl)
  | cursor =>
    simp only [Modifying.next]
    split
    · exact hleave
    · exact hto rfl _ (by decide)
  | get =>
    simp only [Modifying.next]
    split_ifs
    · exact hleave
    · exact hto rfl _ (by simp)
    · exact hto rfl _ (by decide)
    · exact hto rfl _ (by decide)
  | key found =>
    simp only [Modifying.next]
    split <;> exact hto rfl _ (by decide)
  | write =>
    simp only [Modifying.next]
    split_ifs
    · exact hleave
    · exact hwrite rfl _ (by decide)
    · exact hwrite rfl _ m.written_ne_start
    · exact hto rfl _ (by decide)
  | join =>
    simp only [Modifying.next]
    split
    next t htx =>
      have hmem : tid ∈ ((s.register (cfg.structureOf m.h) t).structures
          (cfg.structureOf m.h)).transactions := s.mem_register t (hat.relies (_, tid) rfl)
      exact (Works.register s _ t).moves (at_stage m.written_ne_start hmem)
    · exact hto rfl _ m.written_ne_start
  | cmpkey => exact hto rfl _ (by decide)
  | loop =>
    simp only [Modifying.next]
    split_ifs
    · exact hleave
    · exact hto rfl _ (by decide)
    · exact hto rfl _ (by decide)
  | rewrite =>
    simp only [Modifying.next]
    split_ifs
    · exact hleave
    · exact hwrite rfl _ (by decide)
    · exact hto rfl _ (by decide)
  | commit =>
    simp only [Modifying.next]
    split
    · exact Works.moves (.of_eq rfl rfl rfl rfl rfl) (at_leave cfg _ m)
    · refine (Works.commitNested s tid).moves (at_stage (by decide) ?_)
      rw [s.commitNested_structures]
      exact hat.relies (_, tid) rfl
  | endTransaction => exact (Works.unregister s _ tid).moves (at_leave cfg _ m)
  | abort => exact Works.moves (.of_eq rfl rfl rfl rfl rfl) (at_leave cfg _ m)

/-- Behind a test of `closed_`. -/
theorem Closing.at_attributeCount (hs : Closing cfg s) (hopen : s.closed h = false)
    (op : Operation) (second : Bool) : At cfg s (.attributeCount op h second) where
  nearDb h' hh := by
    obtain rfl : h = h' := by
      revert hh
      unfold Pc.nearDb
      split <;> simp_all
    exact (hs.open_ hopen).1
  nearStructure h' hh := by
    obtain rfl : h = h' := Option.some.inj hh
    exact (hs.open_ hopen).2
  relies := by simp [Pc.relies]
  works := rfl

theorem at_proceed {op : Operation} {second : Bool} (hat : At cfg s (.attributeCount op h second)) :
    At cfg s (op.proceed h second) := by
  cases op with
  | insert tx =>
    cases tx with
    | none => exact hat.less (Or.inr rfl) (Or.inr rfl) (Or.inl rfl) rfl
    | some t => exact hat.less (Or.inl rfl) (Or.inr rfl) (Or.inl rfl) rfl
  | update tx flags | delete tx flags => exact hat.less (Or.inl rfl) (Or.inr rfl) (Or.inl rfl) rfl
  | getRecords =>
    cases second with
    | true => exact hat.less (Or.inr rfl) (Or.inr rfl) (Or.inl rfl) rfl
    | false => exact at_free cfg s rfl rfl rfl rfl

/-- STEP: the client that works. -/
theorem next_moves (r : Reply) (hs : Closing cfg s) (hat : At cfg s pc)
    (hnext : next cfg s c r pc = some s') : Moves cfg c s s' := by
  have hidle : At cfg s .idle := at_free cfg s rfl rfl rfl rfl
  cases pc with
  | idle => simp [next] at hnext
  | closedCheck op h =>
    obtain rfl := Option.some.inj hnext
    refine moves_goto ?_
    split
    · exact hidle
    · exact at_free cfg s rfl rfl rfl rfl
  | compatible op h second =>
    obtain rfl := Option.some.inj hnext
    refine moves_goto ?_
    split
    · exact hidle
    next hopen => exact hs.at_attributeCount (Bool.eq_false_iff.mpr hopen) op second
  | attributeCount op h second =>
    obtain rfl := Option.some.inj hnext
    refine moves_goto ?_
    split
    · exact at_proceed hat
    · exact hidle
  | insertStart h t =>
    simp only [next] at hnext
    split at hnext
    next hr =>
      obtain rfl := Option.some.inj hnext
      have hw := IndexStructure.startTransaction_fst_eq_true.mp hr
      refine (Works.register s _ t).moves ⟨by simp [Pc.nearDb], by simp [Pc.nearStructure], ?_, rfl⟩
      intro e he
      obtain rfl : (cfg.structureOf h, t) = e := Option.some.inj he
      simp [State.register, IndexStructure.startTransaction_snd hw]
    · obtain rfl := Option.some.inj hnext
      exact moves_goto hidle
  | insertKey h tx =>
    obtain rfl := Option.some.inj hnext
    refine moves_goto ?_
    cases tx with
    | none => exact hat.less (Or.inr rfl) (Or.inl rfl) (Or.inl rfl) rfl
    | some t => exact hat.less (Or.inl rfl) (Or.inl rfl) (Or.inr rfl) rfl
  | insertPut h tx =>
    simp only [next] at hnext
    split at hnext
    · obtain rfl := Option.some.inj hnext
      exact moves_goto hidle
    · obtain rfl := Option.some.inj hnext
      exact (Works.write s _ tx).moves (at_free cfg _ rfl rfl rfl rfl)
  | modifyLock m =>
    obtain ⟨-, hs'⟩ := Option.ite_none_right_eq_some.mp hnext
    obtain rfl := Option.some.inj hs'
    exact quiet_moves rfl rfl rfl rfl rfl (hat.less (Or.inl rfl) (Or.inr rfl) (Or.inl rfl) rfl)
  | modifyKey m =>
    obtain rfl := Option.some.inj hnext
    exact moves_goto (hat.less (Or.inl rfl) (Or.inr rfl) (Or.inl rfl) rfl)
  | modifyBegin m =>
    simp only [next] at hnext
    split at hnext
    · obtain rfl := Option.some.inj hnext
      exact moves_goto (at_leave cfg s m)
    · obtain ⟨-, hs'⟩ := Option.ite_none_right_eq_some.mp hnext
      obtain rfl := Option.some.inj hs'
      exact quiet_moves rfl rfl rfl rfl rfl (hat.less (Or.inl rfl) (Or.inr rfl) (Or.inl rfl) rfl)
  | modify stage m tid =>
    obtain rfl := Option.some.inj hnext
    exact modifying_moves r hat
  | unlock h | iteratorKey h =>
    obtain rfl := Option.some.inj hnext
    exact quiet_moves rfl rfl rfl rfl rfl hidle
  | cursorOpen h | nextGet h =>
    obtain rfl := Option.some.inj hnext
    refine moves_goto ?_
    split
    · exact hidle
    · exact hat.less (by simp [Pc.nearDb]) (Or.inr rfl) (Or.inl rfl) rfl
  | nextKey h =>
    obtain rfl := Option.some.inj hnext
    refine moves_goto ?_
    split_ifs
    · exact hat.less (Or.inl rfl) (Or.inr rfl) (Or.inl rfl) rfl
    · exact hat.less (Or.inr rfl) (Or.inr rfl) (Or.inl rfl) rfl
    · exact hidle
  | nextValue h =>
    obtain rfl := Option.some.inj hnext
    exact moves_goto hidle
  | closeLock t =>
    obtain ⟨-, hs'⟩ := Option.ite_none_right_eq_some.mp hnext
    obtain rfl := Option.some.inj hs'
    exact quiet_moves rfl rfl rfl rfl rfl (at_free cfg s rfl rfl rfl rfl)
  | closing t todo =>
    cases todo with
    | nil =>
      obtain rfl := Option.some.inj hnext
      exact quiet_moves rfl rfl rfl rfl rfl hidle
    | cons x xs =>
      obtain rfl := Option.some.inj hnext
      exact (Works.unregister s x t).moves (at_free cfg _ rfl rfl rfl rfl)
  | removeLock | makeReadOnly | closeMark | closeDb | dbremove =>
    exact absurd hat.works (by simp [Pc.deletes])

/-! ### The clients that delete -/

namespace Guarded

/-- A deleting client goes on. -/
theorem goto (hg : Guarded cfg c s) (hd : d ≠ c) (h : Removing cfg s pc) :
    Guarded cfg c (s.goto d pc) where
  closing := ⟨hg.closing.gated, hg.closing.left, hg.closing.belongs, hg.closing.db,
    hg.closing.destroyed⟩
  mine := by
    rw [s.goto_pc_of_ne hd.symm]
    exact ⟨hg.mine.nearDb, hg.mine.nearStructure, hg.mine.relies, hg.mine.works⟩
  others e he := by
    by_cases hed : e = d
    · subst hed
      rw [s.goto_pc_self]
      exact h.mono (fun _ => id) fun _ => id
    · rw [s.goto_pc_of_ne hed]
      exact (hg.others e he).mono (fun _ => id) fun _ => id

/-- The state changes under the clients, who stay where they are. -/
theorem changes (hg : Guarded cfg c s) (hpc : s'.pc = s.pc)
    (hr : ∀ x, (s.structures x).readOnly = true → (s'.structures x).readOnly = true)
    (hc : ∀ h, s.closed h = true → s'.closed h = true) (hs' : Closing cfg s')
    (hat : At cfg s' (s.pc c)) : Guarded cfg c s' where
  closing := hs'
  mine := by rw [hpc]; exact hat
  others d hd := by rw [hpc]; exact (hg.others d hd).mono hr hc

/-- The mutex of the IndexManager. -/
theorem manager (hg : Guarded cfg c s) (o : Option ClientId) :
    Guarded cfg c { s with manager := o } :=
  hg.changes rfl (fun _ => id) (fun _ => id)
    ⟨hg.closing.gated, hg.closing.left, hg.closing.belongs, hg.closing.db, hg.closing.destroyed⟩
    ⟨hg.mine.nearDb, hg.mine.nearStructure, hg.mine.relies, hg.mine.works⟩

/-- MakeReadOnly. -/
theorem makesReadOnly (hg : Guarded cfg c s) (hempty : (s.structures x).transactions = ∅) :
    Guarded cfg c (s.onStructure x fun st => st.makeReadOnly.2) := by
  have hmade : (s.structures x).makeReadOnly.2 = { s.structures x with readOnly := true } := by
    simp [IndexStructure.makeReadOnly, hempty]
  have htrans := s.onStructure_keeps x (fun st => st.makeReadOnly.2) (·.transactions)
    (by rw [hmade])
  have hhandles := s.onStructure_keeps x (fun st => st.makeReadOnly.2) (·.handles)
    (by rw [hmade])
  have hr : ∀ y, (s.structures y).readOnly = true →
      ((s.onStructure x fun st => st.makeReadOnly.2).structures y).readOnly = true := by
    intro y hy
    by_cases hyx : y = x
    · subst hyx
      rw [s.onStructure_structures_self, hmade]
    · rwa [s.onStructure_structures_of_ne hyx]
  refine hg.changes rfl hr (fun _ => id) ⟨fun y hy => ?_, ?_, ?_, ?_, ?_⟩
    ⟨hg.mine.nearDb, hg.mine.nearStructure, ?_, hg.mine.works⟩
  · rw [htrans]
    by_cases hyx : y = x
    · rw [hyx, hempty]
    · rw [s.onStructure_structures_of_ne hyx] at hy
      exact hg.closing.gated y hy
  · intro h hopen
    rw [hhandles]
    exact hg.closing.left h hopen
  · simpa only [hhandles] using hg.closing.belongs
  · exact fun h hdb => ⟨(hg.closing.db h hdb).1, hr _ (hg.closing.db h hdb).2⟩
  · exact fun y hy => ⟨hr y (hg.closing.destroyed y hy).1, (hg.closing.destroyed y hy).2⟩
  · simpa only [htrans] using hg.mine.relies

/-- `closed_ = true` -/
theorem marks (hg : Guarded cfg c s) (h : IndexPtr) :
    Guarded cfg c { s with closed := Function.update s.closed h true } := by
  have hgrow : ∀ h', s.closed h' = true → Function.update s.closed h true h' = true := by
    intro h' hh
    by_cases heq : h' = h
    · simp [heq]
    · simpa [heq] using hh
  refine hg.changes rfl (fun _ => id) hgrow ⟨hg.closing.gated, ?_, hg.closing.belongs, ?_, ?_⟩
    ⟨hg.mine.nearDb, hg.mine.nearStructure, hg.mine.relies, hg.mine.works⟩
  · intro h' hopen
    refine hg.closing.left h' (Bool.eq_false_iff.mpr fun hh => ?_)
    exact Bool.false_ne_true (hopen.symm.trans (hgrow h' hh))
  · exact fun h' hdb => ⟨hgrow h' (hg.closing.db h' hdb).1, (hg.closing.db h' hdb).2⟩
  · exact fun y hy => ⟨(hg.closing.destroyed y hy).1,
      fun h' hh => hgrow h' ((hg.closing.destroyed y hy).2 h' hh)⟩

/-- `db_->close` and `unregister_handle` -/
theorem closes (hg : Guarded cfg c s) (hx : (s.structures x).readOnly = true)
    (hh : cfg.structureOf h = x) (hclosed : s.closed h = true)
    (hclear : (s.pc c).nearDb ≠ some h) :
    Guarded cfg c ({ s with db := Function.update s.db h false }.onStructure x fun st =>
      { st with handles := st.handles.erase h }) := by
  let s₁ := { s with db := Function.update s.db h false }
  let f : IndexStructure → IndexStructure := fun st => { st with handles := st.handles.erase h }
  have htrans := s₁.onStructure_keeps x f (·.transactions) rfl
  have hread := s₁.onStructure_keeps x f (·.readOnly) rfl
  have hhandles : ∀ y h', h' ∈ ((s₁.onStructure x f).structures y).handles →
      h' ∈ (s.structures y).handles := by
    intro y h' hy
    by_cases hyx : y = x
    · subst hyx
      rw [s₁.onStructure_structures_self] at hy
      exact Finset.mem_of_mem_erase hy
    · rwa [s₁.onStructure_structures_of_ne hyx] at hy
  refine hg.changes rfl (fun y hy => (hread y).trans hy) (fun _ => id) ⟨?_, ?_, ?_, ?_, ?_⟩
    ⟨?_, hg.mine.nearStructure, ?_, hg.mine.works⟩
  · exact fun y hy => (htrans y).trans (hg.closing.gated y ((hread y).symm.trans hy))
  · intro h' hopen
    have hne : h' ≠ h := by rintro rfl; exact Bool.false_ne_true (hopen.symm.trans hclosed)
    have hleft := hg.closing.left h' hopen
    by_cases hyx : cfg.structureOf h' = x
    · rw [hyx] at hleft ⊢
      rw [s₁.onStructure_structures_self]
      exact Finset.mem_erase.mpr ⟨hne, hleft⟩
    · rwa [s₁.onStructure_structures_of_ne hyx]
  · exact fun y h' hy => hg.closing.belongs y h' (hhandles y h' hy)
  · intro h' hdb
    by_cases heq : h' = h
    · subst heq
      exact ⟨hclosed, (hread _).trans (hh ▸ hx)⟩
    · have hdb' : s.db h' = false := by simpa [State.onStructure, heq] using hdb
      exact ⟨(hg.closing.db h' hdb').1, (hread _).trans (hg.closing.db h' hdb').2⟩
  · exact fun y hy => ⟨(hread y).trans (hg.closing.destroyed y hy).1, (hg.closing.destroyed y hy).2⟩
  · intro h' hn
    have hne : h' ≠ h := by rintro rfl; exact hclear hn
    simpa [State.onStructure, hne] using hg.mine.nearDb h' hn
  · intro e he
    have hmem := hg.mine.relies e he
    rwa [← htrans] at hmem

/-- The structure is destroyed when all its handles are closed. -/
theorem destroys (hg : Guarded cfg c s) (hx : (s.structures x).readOnly = true)
    (hclosed : ∀ h, cfg.structureOf h = x → s.closed h = true)
    (hclear : ∀ h ∈ (s.pc c).nearStructure, cfg.structureOf h ≠ x) (o : Option ClientId)
    (xs : List StructurePtr) :
    Guarded cfg c { s with destroyed := Function.update s.destroyed x true,
                           indices := xs, manager := o } := by
  refine hg.changes rfl (fun _ => id) (fun _ => id)
    ⟨hg.closing.gated, hg.closing.left, hg.closing.belongs, hg.closing.db, ?_⟩
    ⟨hg.mine.nearDb, ?_, hg.mine.relies, hg.mine.works⟩
  · intro y hy
    by_cases hyx : y = x
    · subst hyx
      exact ⟨hx, hclosed⟩
    · exact hg.closing.destroyed y (by simpa [hyx] using hy)
  · intro h hh
    simpa [hclear h hh] using hg.mine.nearStructure h hh

end Guarded

/-- The handle whose database the step closes. -/
def Pc.closes : Pc → Option IndexPtr
  | .closeDb _ h _ => some h
  | _ => none

/-- The structure that the step destroys. -/
def Pc.destroys : Pc → Option StructurePtr
  | .closeMark x [] => some x
  | _ => none

/-- No database is closed and no structure destroyed while the client `c` is on its way to use it
    without protection, and GetNext is called only while both are there. -/
def Clear (cfg : Config) (c : ClientId) (s : State) : Action → Prop
  | .advance d _ =>
    (∀ h ∈ (s.pc d).closes, (s.pc c).nearDb ≠ some h) ∧
      ∀ x ∈ (s.pc d).destroys, ∀ h ∈ (s.pc c).nearStructure, cfg.structureOf h ≠ x
  | .getNext _ h => s.db h = true ∧ s.destroyed (cfg.structureOf h) = false
  | _ => True

/-- STEP: a client that deletes. -/
theorem next_removes (r : Reply) (hg : Guarded cfg c s) (hd : d ≠ c)
    (hclear : Clear cfg c s (.advance d r)) (hnext : next cfg s d r (s.pc d) = some s') :
    Guarded cfg c s' := by
  have hrem := hg.others d hd
  cases hpc : s.pc d with
  | idle => simp [next, hpc] at hnext
  | removeLock x =>
    rw [hpc] at hnext
    obtain ⟨-, hs'⟩ := Option.ite_none_right_eq_some.mp hnext
    obtain rfl := Option.some.inj hs'
    split
    · exact (hg.manager (some d)).goto hd trivial
    · exact hg.goto hd trivial
  | makeReadOnly x =>
    rw [hpc] at hnext
    simp only [next] at hnext
    split at hnext
    next hempty =>
      obtain rfl := Option.some.inj hnext
      have hempty' := IndexStructure.makeReadOnly_fst_eq_true.mp hempty
      refine (hg.makesReadOnly hempty').goto hd ⟨?_, fun h hh => ?_, fun h hh => ?_⟩
      · simp [IndexStructure.makeReadOnly, hempty']
      · exact hg.closing.belongs x h ((Finset.mem_sort _).mp hh)
      · cases hclosed : s.closed h with
        | true => exact Or.inr hclosed
        | false => exact Or.inl ((Finset.mem_sort _).mpr (hh ▸ hg.closing.left h hclosed))
    · obtain rfl := Option.some.inj hnext
      exact (hg.manager none).goto hd trivial
  | closeMark x todo =>
    rw [hpc] at hnext hrem
    obtain ⟨hx, htodo, hleft⟩ := hrem
    cases todo with
    | nil =>
      obtain rfl := Option.some.inj hnext
      have hnear : ∀ h ∈ (s.pc c).nearStructure, cfg.structureOf h ≠ x :=
        hclear.2 x (by simp [hpc, Pc.destroys])
      have hclosed : ∀ h, cfg.structureOf h = x → s.closed h = true := fun h hh =>
        (hleft h hh).resolve_left (by simp)
      exact (hg.destroys hx hclosed hnear none _).goto hd trivial
    | cons h hs =>
      obtain ⟨-, hs'⟩ := Option.ite_none_right_eq_some.mp hnext
      obtain rfl := Option.some.inj hs'
      split
      next hclosed =>
        refine hg.goto hd ⟨hx, fun h' hh => htodo h' (List.mem_cons_of_mem _ hh), fun h' hh => ?_⟩
        rcases hleft h' hh with hmem | hc
        · rcases List.mem_cons.mp hmem with rfl | hrest
          · exact Or.inr hclosed
          · exact Or.inl hrest
        · exact Or.inr hc
      · refine (hg.marks h).goto hd ⟨hx, htodo, by simp, fun h' hh => ?_⟩
        by_cases heq : h' = h
        · exact Or.inr (by simp [heq])
        · have hrest := hleft h' hh
          simpa [heq] using hrest
  | closeDb x h todo =>
    rw [hpc] at hnext hrem
    obtain rfl := Option.some.inj hnext
    obtain ⟨hx, htodo, hclosed, hleft⟩ := hrem
    have hnear : (s.pc c).nearDb ≠ some h := hclear.1 h (by simp [hpc, Pc.closes])
    have hh : cfg.structureOf h = x := htodo h List.mem_cons_self
    refine (hg.closes hx hh hclosed hnear).goto hd ⟨by simpa using hx, fun h' hh' => ?_, hleft⟩
    exact htodo h' (List.mem_cons_of_mem _ hh')
  | dbremove x =>
    rw [hpc] at hnext
    obtain rfl := Option.some.inj hnext
    exact hg.goto hd trivial
  | _ => rw [hpc] at hrem; exact hrem.elim

/-! ### Whole runs -/

/-- The client `c` begins and resolves transactions and works on handles and iterators; the others
    delete indices. -/
def Action.divided (c : ClientId) : Action → Bool
  | .beginTransaction d _ | .resolve d _ | .call d _ _ | .getNext d _ => d = c
  | .deleteIndex d _ => d ≠ c
  | .advance _ _ => true

theorem start_guarded (cfg : Config) (c : ClientId) : Guarded cfg c cfg.start where
  closing := {
    gated := fun x _ => cfg.transactions_eq x
    left := fun h _ => (cfg.mem_handles _ h).mpr rfl
    belongs := fun x h hh => (cfg.mem_handles x h).mp hh
    db := by simp [Config.start]
    destroyed := by simp [Config.start] }
  mine := at_free cfg _ rfl rfl rfl rfl
  others _ _ := trivial

/-- STEP: whoever the client is. -/
theorem step_guarded (act : Action) (hg : Guarded cfg c s) (hdiv : act.divided c = true)
    (hclear : Clear cfg c s act) (hstep : step cfg s act = some s') : Guarded cfg c s' := by
  cases act with
  | beginTransaction d t =>
    obtain rfl : d = c := of_decide_eq_true hdiv
    obtain ⟨-, hs'⟩ := Option.ite_none_right_eq_some.mp hstep
    obtain rfl := Option.some.inj hs'
    exact hg.moves ⟨.of_eq rfl rfl rfl rfl rfl,
      ⟨hg.mine.nearDb, hg.mine.nearStructure, hg.mine.relies, hg.mine.works⟩⟩
  | resolve d t =>
    obtain rfl : d = c := of_decide_eq_true hdiv
    obtain ⟨-, hs'⟩ := Option.ite_none_right_eq_some.mp hstep
    obtain rfl := Option.some.inj hs'
    exact hg.moves (quiet_moves rfl rfl rfl rfl rfl (at_free cfg s rfl rfl rfl rfl))
  | call d op h =>
    obtain rfl : d = c := of_decide_eq_true hdiv
    obtain ⟨-, hs'⟩ := Option.ite_none_right_eq_some.mp hstep
    obtain rfl := Option.some.inj hs'
    exact hg.moves (moves_goto (at_free cfg s rfl rfl rfl rfl))
  | getNext d h =>
    obtain rfl : d = c := of_decide_eq_true hdiv
    obtain ⟨-, hs'⟩ := Option.ite_none_right_eq_some.mp hstep
    obtain rfl := Option.some.inj hs'
    refine hg.moves (moves_goto ⟨fun h' hh => ?_, fun h' hh => ?_, by simp [Pc.relies], rfl⟩)
    · obtain rfl : h = h' := Option.some.inj hh
      exact hclear.1
    · obtain rfl : h = h' := Option.some.inj hh
      exact hclear.2
  | deleteIndex d x =>
    have hd : d ≠ c := of_decide_eq_true hdiv
    obtain ⟨-, hs'⟩ := Option.ite_none_right_eq_some.mp hstep
    obtain rfl := Option.some.inj hs'
    exact hg.goto hd trivial
  | advance d r =>
    simp only [step] at hstep
    split at hstep
    · simp at hstep
    · by_cases hd : d = c
      · subst hd
        exact hg.moves (next_moves r hg.closing hg.mine hstep)
      · exact next_removes r hg hd hclear hstep

end

instance (cfg : Config) (c : ClientId) (s : State) : ∀ act, Decidable (Clear cfg c s act)
  | .advance _ _ => inferInstanceAs (Decidable (_ ∧ _))
  | .getNext .. => inferInstanceAs (Decidable (_ ∧ _))
  | .beginTransaction .. | .resolve .. | .call .. | .deleteIndex .. => isTrue trivial

/-- A client opens an iterator and takes a record from it. DeleteIndex is refused while the client inserts
    in a transaction, and again while it deletes a record; then it succeeds, and what the first client
    tries after that is refused. -/
def patient : List Action :=
  [.call 0 .getRecords 0] ++ advances 0 7 ++ [.getNext 0 0] ++ advances 0 3 ++
  [.beginTransaction 0 7, .call 0 (.insert (some 7)) 0] ++ advances 0 4 ++
  [.deleteIndex 1 0] ++ advances 1 2 ++ advances 0 2 ++ [.resolve 0 7] ++ advances 0 3 ++
  [.call 0 (.delete none 0) 0] ++ advances 0 4 ++ [.advance 0 { address := 9 }] ++ advances 0 2 ++
  [.deleteIndex 1 0] ++ advances 1 2 ++ advances 0 4 ++ [.deleteIndex 1 0] ++ advances 1 3 ++
  [.call 0 (.insert none) 0] ++ advances 0 1 ++ advances 1 2 ++ [.call 0 .getRecords 0]

/-- The first client's DeleteRecord has begun its nested transaction, but not registered it, when
    the second deletes the index. -/
def impatient : List Action :=
  [.call 0 (.delete none 0) 0] ++ advances 0 4 ++ [.advance 0 { address := 9 }] ++
  [.deleteIndex 1 0] ++ advances 1 5

end Contest.Machine
