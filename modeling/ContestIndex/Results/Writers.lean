import ContestIndex.Model.Machine

/-! @src example/Index.cc, example/BDBImpl.cc | name:DeleteIndex and uncommitted changes
    | layer:specification

    `MakeReadOnly` succeeds when nobody is registered with the index. Whoever writes to it registers
    first, in time: the nested transaction before its first write, the transaction around it before
    the nested one commits. What can go wrong is the unregistering, which comes after the handle was
    released: Berkeley DB may have given its address to a new transaction.

        A  commit(t) ─────────────────────────────▸ CloseTransaction(t)
        B            txn_begin = t ▸ register ▸ put ─────────────────────── (unresolved)
        C                                                             MakeReadOnly = true -/

namespace Contest.Machine
open Schemes

/-! ### What the steps keep -/

namespace State

/-- Whoever has written to an index and is unresolved is registered with it. -/
def Covered (s : State) : Prop :=
  ∀ a T x, s.live a = some T → x ∈ T.wrote → a ∈ (s.structures x).transactions

/-- Nobody is registered with a read-only index. -/
def Gated (s : State) : Prop :=
  ∀ x, (s.structures x).readOnly = true → (s.structures x).transactions = ∅

end State

/-- A step of the client `c`: it leaves the others where they are, their transactions as they are,
    and the registrations of all. -/
structure Keeps (c : ClientId) (s s' : State) : Prop where
  pc : ∀ d, d ≠ c → s'.pc d = s.pc d
  live : ∀ a T, s.live a = some T → T.owner ≠ c → s'.live a = some T
  registered : ∀ a T x, s.live a = some T → T.owner ≠ c →
    a ∈ (s.structures x).transactions → a ∈ (s'.structures x).transactions
  covered : s.Covered → s'.Covered
  gated : s.Gated → s'.Gated

namespace Keeps
variable {c : ClientId} {s s' s'' : State} {t : TxnPtr} {x : StructurePtr}

theorem trans (h : Keeps c s s') (h' : Keeps c s' s'') : Keeps c s s'' where
  pc d hd := (h'.pc d hd).trans (h.pc d hd)
  live a T ha hT := h'.live a T (h.live a T ha hT) hT
  registered a T x ha hT hx := h'.registered a T x (h.live a T ha hT) hT (h.registered a T x ha hT hx)
  covered hc := h'.covered (h.covered hc)
  gated hg := h'.gated (h.gated hg)

/-- Steps on other parts of the state. -/
theorem of_eq (hpc : ∀ d, d ≠ c → s'.pc d = s.pc d) (hl : s'.live = s.live)
    (hs : s'.structures = s.structures) : Keeps c s s' where
  pc := hpc
  live a T ha _ := by rw [hl, ha]
  registered a T x _ _ hx := by rw [hs]; exact hx
  covered hc a T x ha hx := by rw [hs]; exact hc a T x (hl ▸ ha) hx
  gated hg x hx := by rw [hs] at hx ⊢; exact hg x hx

theorem goto (s : State) (pc : Pc) : Keeps c s (s.goto c pc) :=
  of_eq (fun _ hd => s.goto_pc_of_ne hd pc) rfl rfl

/-- Sections on the set of transactions that remove no unresolved one. -/
theorem onStructure {f : IndexStructure → IndexStructure}
    (hreg : ∀ a T, s.live a = some T → a ∈ (s.structures x).transactions →
      a ∈ (f (s.structures x)).transactions)
    (hgate : ((s.structures x).readOnly = true → (s.structures x).transactions = ∅) →
      (f (s.structures x)).readOnly = true → (f (s.structures x)).transactions = ∅) :
    Keeps c s (s.onStructure x f) := by
  have hall : ∀ a T y, s.live a = some T → a ∈ (s.structures y).transactions →
      a ∈ ((s.onStructure x f).structures y).transactions := by
    intro a T y ha hy
    by_cases hyx : y = x
    · subst hyx
      simpa using hreg a T ha hy
    · simpa [hyx] using hy
  refine ⟨fun _ _ => rfl, fun a T ha _ => ha, fun a T y ha _ => hall a T y ha,
    fun hc a T y ha hy => hall a T y ha (hc a T y ha hy), fun hg y hy => ?_⟩
  by_cases hyx : y = x
  · subst hyx
    simp only [State.onStructure_structures_self] at hy ⊢
    exact hgate (hg y) hy
  · simp only [State.onStructure_structures_of_ne _ hyx] at hy ⊢
    exact hg y hy

theorem register (s : State) (x : StructurePtr) (t : TxnPtr) : Keeps c s (s.register x t) := by
  refine onStructure ?_ ?_
  · intro a T _ ha
    simpa [State.register] using s.mem_register t ha
  · intro hg
    unfold IndexStructure.startTransaction
    split
    · exact hg
    next hw => exact fun h => absurd h hw

/-- The address that is unregistered is nobody's, or not registered. -/
theorem unregister (h : t ∈ (s.structures x).transactions → s.live t = none) :
    Keeps c s (s.unregister x t) := by
  refine onStructure ?_ ?_
  · intro a T ha hx
    refine Finset.mem_erase.mpr ⟨?_, hx⟩
    rintro rfl
    simp [h hx] at ha
  · intro hg hr
    simp [IndexStructure.endTransaction, hg hr]

theorem makeReadOnly (s : State) (x : StructurePtr) :
    Keeps c s (s.onStructure x fun st => st.makeReadOnly.2) := by
  refine onStructure ?_ ?_
  · intro a T _ ha
    unfold IndexStructure.makeReadOnly
    split <;> exact ha
  · intro hg
    unfold IndexStructure.makeReadOnly
    split
    · exact hg
    next he => exact fun _ => by simpa using he

/-- A new transaction has written nothing. -/
theorem begin (ht : s.live t = none) {T : Txn} (hT : T.wrote = ∅) :
    Keeps c s (s.setLive t (some T)) := by
  refine ⟨fun _ _ => rfl, ?_, fun a T x _ _ => id, ?_, id⟩
  · intro a A ha _
    have hat : a ≠ t := by rintro rfl; simp [ht] at ha
    rwa [s.setLive_live_of_ne hat]
  · intro hc a A x ha hx
    by_cases hat : a = t
    · subst hat
      obtain rfl : T = A := by simpa using ha
      simp [hT] at hx
    · rw [s.setLive_live_of_ne hat] at ha
      exact hc a A x ha hx

/-- A client ends a transaction of its own. -/
theorem drop (ht : ∀ T, s.live t = some T → T.owner = c) : Keeps c s (s.setLive t none) := by
  refine ⟨fun _ _ => rfl, ?_, fun a T x _ _ => id, ?_, id⟩
  · intro a A ha hA
    have hat : a ≠ t := by rintro rfl; exact hA (ht A ha)
    rwa [s.setLive_live_of_ne hat]
  · intro hc a A x ha hx
    have hat : a ≠ t := by rintro rfl; simp at ha
    rw [s.setLive_live_of_ne hat] at ha
    exact hc a A x ha hx

/-- A client lets a transaction of its own have written to more indices that it is registered with. -/
theorem grow {T : Txn} (ht : s.live t = some T) (hT : T.owner = c) {W : Finset StructurePtr}
    (hW : ∀ x ∈ W, x ∉ T.wrote → t ∈ (s.structures x).transactions) :
    Keeps c s (s.setLive t (some { T with wrote := W })) := by
  refine ⟨fun _ _ => rfl, ?_, fun a T x _ _ => id, ?_, id⟩
  · intro a A ha hA
    have hat : a ≠ t := by
      rintro rfl
      rw [ht] at ha
      obtain rfl : T = A := Option.some.inj ha
      exact hA hT
    rwa [s.setLive_live_of_ne hat]
  · intro hc a A x ha hx
    by_cases hat : a = t
    · subst hat
      obtain rfl : { T with wrote := W } = A := by simpa using ha
      by_cases hxT : x ∈ T.wrote
      · exact hc a T x ht hxT
      · exact hW x hx hxT
    · rw [s.setLive_live_of_ne hat] at ha
      exact hc a A x ha hx

theorem write {T : Txn} (ht : s.live t = some T) (hT : T.owner = c)
    (hx : t ∈ (s.structures x).transactions) : Keeps c s (s.write x (some t)) := by
  have hW : ∀ y ∈ Insert.insert x T.wrote, y ∉ T.wrote → t ∈ (s.structures y).transactions := by
    intro y hy hyT
    obtain rfl : y = x := by simpa [hyT] using hy
    exact hx
  simpa [State.write, ht] using grow ht hT hW

/-- The parent is registered with what the nested transaction has written to. -/
theorem commitNested {T : Txn} (ht : s.live t = some T) (hT : T.owner = c)
    (hp : ∀ p ∈ T.parent, s.owns c p = true ∧ ∀ x ∈ T.wrote, p ∈ (s.structures x).transactions)
    (hne : T.nested = true) : Keeps c s (s.commitNested t) := by
  have hdrop : Keeps c s (s.setLive t none) := drop fun A hA => by
    rw [ht] at hA
    obtain rfl : T = A := Option.some.inj hA
    exact hT
  cases hpar : T.parent with
  | none => simpa [State.commitNested, ht, hpar] using hdrop
  | some p =>
    obtain ⟨hown, hreg⟩ := hp p hpar
    obtain ⟨P, hP, hPc, hPn⟩ := (s.owns_iff).mp hown
    have hpt : p ≠ t := by
      rintro rfl
      rw [ht] at hP
      obtain rfl : T = P := Option.some.inj hP
      simp [hne] at hPn
    have hP' : (s.setLive t none).live p = some P := by rw [s.setLive_live_of_ne hpt, hP]
    have hgrow : Keeps c (s.setLive t none)
        ((s.setLive t none).setLive p (some { P with wrote := P.wrote ∪ T.wrote })) :=
      grow hP' hPc fun x hx hxP => hreg x ((Finset.mem_union.mp hx).resolve_left hxP)
    simpa [State.commitNested, ht, hpar, hP'] using hdrop.trans hgrow

theorem resolve (ht : s.owns c t = true) : Keeps c s (s.resolve c t) := by
  refine ⟨fun _ _ => rfl, ?_, fun a T x _ _ => id, ?_, id⟩
  · intro a A ha hA
    obtain ⟨T, hT, hTc, -⟩ := (s.owns_iff).mp ht
    have hat : a ≠ t := by
      rintro rfl
      rw [hT] at ha
      obtain rfl : T = A := Option.some.inj ha
      exact hA hTc
    simp [State.resolve, ha, hat, hA]
  · intro hc a A x ha hx
    exact hc a A x (Option.filter_eq_some_iff.mp ha).1 hx

end Keeps

/-! ### What a client has at its place -/

/-- Nothing was written yet. -/
def Stage.unwritten : Stage → Bool
  | .start | .cursor | .get | .key _ | .write | .abort => true
  | _ => false

/-- The nested transaction is registered. -/
def Stage.entered : Stage → Bool
  | .start | .abort => false
  | _ => true

/-- The transaction around it is registered. -/
def Stage.joined : Stage → Bool
  | .cmpkey | .loop | .rewrite => true
  | _ => false

/-- A stage before the end that relies on no more. -/
def Stage.Eases (stage stage' : Stage) : Prop :=
  stage' ≠ .endTransaction ∧ (stage'.unwritten = true → stage.unwritten = true) ∧
    (stage'.entered = true → stage.entered = true) ∧ (stage'.joined = true → stage.joined = true) ∧
    (stage' = .commit → stage.unwritten = true ∨ stage.joined = true)

instance (stage stage' : Stage) : Decidable (stage.Eases stage') :=
  inferInstanceAs (Decidable (_ ∧ _))

/-- What `Index::Update` and `Index::Delete` have on the index `x` at a stage before the end. -/
structure Running (x : StructurePtr) (s : State) (c : ClientId) (m : Modifying) (tid : TxnPtr)
    (stage : Stage) : Prop where
  parent : ∀ t ∈ m.tx, s.owns c t = true
  nested : ∃ W, s.live tid = some ⟨c, true, m.tx, W⟩ ∧ W ⊆ {x} ∧
    (stage.unwritten = true → W = ∅) ∧
    (stage = .commit → W = ∅ ∨ ∀ t ∈ m.tx, t ∈ (s.structures x).transactions)
  entered : stage.entered = true → tid ∈ (s.structures x).transactions
  joined : stage.joined = true → ∀ t ∈ m.tx, t ∈ (s.structures x).transactions

/-- What a client has: the transactions that it was passed, and its registrations. -/
def Holds (cfg : Config) (s : State) (c : ClientId) : Pc → Prop
  | .closedCheck op _ | .compatible op _ _ | .attributeCount op _ _ =>
    ∀ t ∈ op.tx, s.owns c t = true
  | .insertStart _ t => s.owns c t = true
  | .insertKey h tx | .insertPut h tx => ∀ t ∈ tx,
    s.owns c t = true ∧ t ∈ (s.structures (cfg.structureOf h)).transactions
  | .modifyLock m | .modifyKey m | .modifyBegin m => ∀ t ∈ m.tx, s.owns c t = true
  | .modify .endTransaction _ _ => True
  | .modify stage m tid => Running (cfg.structureOf m.h) s c m tid stage
  | _ => True

section
variable {cfg : Config} {c d : ClientId} {s s' : State} {m : Modifying} {tid t : TxnPtr}
  {x : StructurePtr} {stage stage' : Stage} {pc : Pc}

theorem Keeps.owns (hk : Keeps c s s') (hd : d ≠ c) (h : s.owns d t = true) :
    s'.owns d t = true := by
  obtain ⟨T, hT, rfl, hn⟩ := (s.owns_iff).mp h
  exact (s'.owns_iff).mpr ⟨T, hk.live t T hT hd, rfl, hn⟩

theorem Keeps.owned_registered (hk : Keeps c s s') (hd : d ≠ c) (h : s.owns d t = true)
    (hx : t ∈ (s.structures x).transactions) : t ∈ (s'.structures x).transactions := by
  obtain ⟨T, hT, rfl, -⟩ := (s.owns_iff).mp h
  exact hk.registered t T x hT hd hx

theorem Keeps.running (hk : Keeps c s s') (hd : d ≠ c) (h : Running x s d m tid stage) :
    Running x s' d m tid stage := by
  obtain ⟨W, hW, hWx, hun, hcommit⟩ := h.nested
  have hparents : (∀ t ∈ m.tx, t ∈ (s.structures x).transactions) →
      ∀ t ∈ m.tx, t ∈ (s'.structures x).transactions :=
    fun hreg t ht => hk.owned_registered hd (h.parent t ht) (hreg t ht)
  exact {
    parent := fun t ht => hk.owns hd (h.parent t ht)
    nested := ⟨W, hk.live tid _ hW hd, hWx, hun, fun hs => (hcommit hs).imp_right hparents⟩
    entered := fun hs => hk.registered tid _ x hW hd (h.entered hs)
    joined := fun hs => hparents (h.joined hs) }

/-- STEP: the others keep what they have. -/
theorem Keeps.holds (hk : Keeps c s s') (hd : d ≠ c) (h : Holds cfg s d pc) : Holds cfg s' d pc := by
  cases pc
  case closedCheck | compatible | attributeCount | modifyLock | modifyKey | modifyBegin =>
    exact fun t ht => hk.owns hd (h t ht)
  case insertStart => exact hk.owns hd h
  case insertKey | insertPut =>
    exact fun t ht => ⟨hk.owns hd (h t ht).1, hk.owned_registered hd (h t ht).1 (h t ht).2⟩
  case modify stage m tid =>
    cases stage
    case endTransaction => trivial
    all_goals exact hk.running hd h
  all_goals trivial

/-- What a client has does not depend on the rest of the state. -/
theorem holds_congr (hl : s'.live = s.live) (hs : s'.structures = s.structures)
    (h : Holds cfg s c pc) : Holds cfg s' c pc := by
  have howns : s'.owns = s.owns := by funext c t; rw [State.owns, State.owns, hl]
  have hrun : ∀ {x m tid stage}, Running x s c m tid stage → Running x s' c m tid stage :=
    fun h => ⟨by rw [howns]; exact h.parent, by rw [hl, hs]; exact h.nested,
      by rw [hs]; exact h.entered, by rw [hs]; exact h.joined⟩
  cases pc
  case modify stage m tid =>
    cases stage
    case endTransaction => trivial
    all_goals exact hrun h
  case insertStart => exact (congrFun (congrFun howns c) _).trans h
  case insertKey | insertPut => simpa only [Holds, howns, hs] using h
  case closedCheck | compatible | attributeCount | modifyLock | modifyKey | modifyBegin =>
    simpa only [Holds, howns] using h
  all_goals trivial

theorem holds_goto (h : Holds cfg s c pc) : Holds cfg (s.goto c pc) c ((s.goto c pc).pc c) := by
  rw [s.goto_pc_self]
  refine holds_congr ?_ ?_ h <;> rfl

theorem holds_leave (cfg : Config) (s : State) (c : ClientId) (m : Modifying) :
    Holds cfg s c m.leave := by
  unfold Modifying.leave
  split <;> trivial

/-! ### One step -/

/-- The client may go from `s` to `s'`. -/
def Goes (cfg : Config) (c : ClientId) (s s' : State) : Prop :=
  Keeps c s s' ∧ Holds cfg s' c (s'.pc c)

theorem Keeps.goes (hk : Keeps c s s') (h : Holds cfg s' c pc) : Goes cfg c s (s'.goto c pc) :=
  ⟨hk.trans (.goto s' pc), holds_goto h⟩

theorem goes_goto (h : Holds cfg s c pc) : Goes cfg c s (s.goto c pc) :=
  ⟨.goto s pc, holds_goto h⟩

theorem Modifying.written_unwritten (m : Modifying) : m.written.unwritten = false := by
  unfold Modifying.written
  split
  · split <;> rfl
  · rfl

theorem Modifying.written_ne (m : Modifying) : m.written ≠ .endTransaction := by
  unfold Modifying.written
  split
  · split <;> decide
  · decide

namespace Running

/-- A stage that relies on no more. -/
theorem mono (h : Running x s c m tid stage) (he : stage.Eases stage') :
    Running x s c m tid stage' := by
  obtain ⟨W, hW, hWx, hun, -⟩ := h.nested
  obtain ⟨-, heun, hen, hj, hc⟩ := he
  exact {
    parent := h.parent
    nested := ⟨W, hW, hWx, fun hs => hun (heun hs), fun hs => (hc hs).imp hun h.joined⟩
    entered := fun hs => h.entered (hen hs)
    joined := fun hs => h.joined (hj hs) }

theorem live (h : Running x s c m tid stage) :
    ∃ T, s.live tid = some T ∧ T.owner = c ∧ T.nested = true ∧ T.parent = m.tx := by
  obtain ⟨W, hW, -⟩ := h.nested
  exact ⟨_, hW, rfl, rfl, rfl⟩

theorem drop (h : Running x s c m tid stage) : Keeps c s (s.setLive tid none) := by
  obtain ⟨T, hT, hc, -⟩ := h.live
  refine .drop fun A hA => ?_
  rw [hT] at hA
  obtain rfl : T = A := Option.some.inj hA
  exact hc

theorem write (h : Running x s c m tid stage) (hs : stage.entered = true) :
    Keeps c s (s.write x (some tid)) := by
  obtain ⟨T, hT, hc, -⟩ := h.live
  exact .write hT hc (h.entered hs)

/-- A write, behind which the transaction around has to be registered, or is. -/
theorem wrote (h : Running x s c m tid stage) (hs : stage.entered = true)
    (hun : stage'.unwritten = false)
    (hj : stage' ≠ .join → ∀ t ∈ m.tx, t ∈ (s.structures x).transactions) :
    Running x (s.write x (some tid)) c m tid stage' := by
  obtain ⟨W, hW, hWx, -⟩ := h.nested
  have hlive : (s.write x (some tid)).live tid = some ⟨c, true, m.tx, Insert.insert x W⟩ := by
    simp [State.write, hW]
  have hstruct : (s.write x (some tid)).structures = s.structures := rfl
  refine ⟨fun t ht => ?_, ⟨_, hlive, ?_, by simp [hun], ?_⟩, ?_, ?_⟩
  · obtain ⟨T, hT, hTc, hTn⟩ := (s.owns_iff).mp (h.parent t ht)
    have hne : t ≠ tid := by
      rintro rfl
      rw [hW] at hT
      obtain rfl := Option.some.inj hT
      simp at hTn
    refine (State.owns_iff _).mpr ⟨T, ?_, hTc, hTn⟩
    rw [State.write, s.setLive_live_of_ne hne, hT]
  · exact Finset.insert_subset (Finset.mem_singleton_self x) hWx
  · rintro rfl
    exact Or.inr (hj (by decide))
  · exact fun _ => h.entered hs
  · intro hs'
    exact hj (by rintro rfl; simp [Stage.joined] at hs')

/-- `start_transaction(tid)` on an index that is not read-only. -/
theorem started (h : Running x s c m tid .start) (hr : (s.structures x).readOnly = false) :
    Running x (s.register x tid) c m tid .cursor := by
  obtain ⟨W, hW, hWx, hun, -⟩ := h.nested
  refine ⟨h.parent, ⟨W, hW, hWx, fun _ => hun rfl, by simp⟩, fun _ => ?_, by simp [Stage.joined]⟩
  simp [State.register, IndexStructure.startTransaction_snd hr]

/-- `start_transaction(tx)`, which the registration of the nested transaction lets succeed. -/
theorem joins (h : Running x s c m tid .join) (hg : s.Gated) (ht : m.tx = some t) :
    Running x (s.register x t) c m tid m.written := by
  have hr : (s.structures x).readOnly = false := by
    refine Bool.eq_false_iff.mpr fun hr => ?_
    simpa [hg x hr] using h.entered rfl
  obtain ⟨W, hW, hWx, -⟩ := h.nested
  have hmem : ∀ a, a = t ∨ a ∈ (s.structures x).transactions →
      a ∈ ((s.register x t).structures x).transactions := by
    intro a ha
    simpa [State.register, IndexStructure.startTransaction_snd hr] using ha
  have hparent : ∀ a ∈ m.tx, a ∈ ((s.register x t).structures x).transactions := by
    intro a ha
    rw [ht] at ha
    exact hmem a (Or.inl (Option.some.inj ha).symm)
  exact ⟨h.parent, ⟨W, hW, hWx, by simp [m.written_unwritten], fun _ => Or.inr hparent⟩,
    fun _ => hmem tid (Or.inr (h.entered rfl)), fun _ => hparent⟩

/-- The commit of the nested transaction. -/
theorem commits (h : Running x s c m tid .commit) : Keeps c s (s.commitNested tid) := by
  obtain ⟨W, hW, hWx, -, hcommit⟩ := h.nested
  refine .commitNested hW rfl (fun p hp => ⟨h.parent p hp, fun y hy => ?_⟩) rfl
  obtain rfl : y = x := by simpa using hWx hy
  rcases hcommit rfl with hempty | hreg
  · simp [hempty] at hy
  · exact hreg p hp

end Running

theorem holds_modify (hs : stage ≠ .endTransaction) :
    Holds cfg s c (.modify stage m tid) ↔ Running (cfg.structureOf m.h) s c m tid stage := by
  cases stage
  case endTransaction => exact absurd rfl hs
  all_goals exact Iff.rfl

theorem Running.goes (h : Running (cfg.structureOf m.h) s c m tid stage)
    (he : stage.Eases stage') : Goes cfg c s (s.goto c (.modify stage' m tid)) :=
  goes_goto ((holds_modify he.1).mpr (h.mono he))

/-- STEP: behind the txn_begin of `Index::Update` and `Index::Delete`. -/
theorem modifying_goes (r : Reply) (h : Holds cfg s c (.modify stage m tid)) (hg : s.Gated)
    (hstale : stage = .endTransaction →
      tid ∈ (s.structures (cfg.structureOf m.h)).transactions → s.live tid = none) :
    Goes cfg c s (m.next (cfg.structureOf m.h) s c r tid stage) := by
  have hleave : Goes cfg c s (s.goto c m.leave) := goes_goto (holds_leave cfg s c m)
  cases stage with
  | start =>
    have hrun : Running (cfg.structureOf m.h) s c m tid .start := h
    simp only [Modifying.next]
    split
    next hr =>
      have hcursor := hrun.started (IndexStructure.startTransaction_fst_eq_true.mp hr)
      exact (Keeps.register s _ tid).goes ((holds_modify (by decide)).mpr hcursor)
    · exact hrun.goes (by decide)
  | cursor =>
    have hrun : Running (cfg.structureOf m.h) s c m tid .cursor := h
    simp only [Modifying.next]
    split
    · exact hleave
    · exact hrun.goes (by decide)
  | get =>
    have hrun : Running (cfg.structureOf m.h) s c m tid .get := h
    simp only [Modifying.next]
    split_ifs
    · exact hleave
    · exact hrun.goes (by cases r.ok <;> decide)
    · exact hrun.goes (by decide)
    · exact hrun.goes (by decide)
  | key found =>
    have hrun : Running (cfg.structureOf m.h) s c m tid (.key found) := h
    simp only [Modifying.next]
    split
    · exact hrun.goes (by cases found <;> decide)
    · exact hrun.goes (by cases found <;> decide)
  | write =>
    have hrun : Running (cfg.structureOf m.h) s c m tid .write := h
    simp only [Modifying.next]
    split_ifs with _ _ htx
    · exact hleave
    · exact (hrun.write rfl).goes ((holds_modify (by decide)).mpr (hrun.wrote rfl rfl (by simp)))
    · have hnone : ∀ t ∈ m.tx, t ∈ (s.structures (cfg.structureOf m.h)).transactions :=
        fun t ht => absurd (Option.isSome_of_mem ht) htx
      exact (hrun.write rfl).goes ((holds_modify m.written_ne).mpr
        (hrun.wrote rfl m.written_unwritten fun _ => hnone))
    · exact hrun.goes (by decide)
  | join =>
    have hrun : Running (cfg.structureOf m.h) s c m tid .join := h
    simp only [Modifying.next]
    split
    next t htx =>
      exact (Keeps.register s _ t).goes ((holds_modify m.written_ne).mpr (hrun.joins hg htx))
    next htx =>
      obtain ⟨W, hW, hWx, -⟩ := hrun.nested
      refine goes_goto ((holds_modify m.written_ne).mpr
        ⟨hrun.parent, ⟨W, hW, hWx, ?_, ?_⟩, ?_, ?_⟩)
      · simp [m.written_unwritten]
      · simp [htx]
      · exact fun _ => hrun.entered rfl
      · simp [htx]
  | cmpkey =>
    have hrun : Running (cfg.structureOf m.h) s c m tid .cmpkey := h
    exact hrun.goes (by decide)
  | loop =>
    have hrun : Running (cfg.structureOf m.h) s c m tid .loop := h
    simp only [Modifying.next]
    split_ifs
    · exact hleave
    · exact hrun.goes (by decide)
    · exact hrun.goes (by decide)
  | rewrite =>
    have hrun : Running (cfg.structureOf m.h) s c m tid .rewrite := h
    simp only [Modifying.next]
    split_ifs
    · exact hleave
    · exact (hrun.write rfl).goes
        ((holds_modify (by decide)).mpr (hrun.wrote rfl rfl fun _ => hrun.joined rfl))
    · exact hrun.goes (by decide)
  | commit =>
    have hrun : Running (cfg.structureOf m.h) s c m tid .commit := h
    simp only [Modifying.next]
    split
    · exact hrun.drop.goes (holds_leave cfg _ c m)
    · exact hrun.commits.goes trivial
  | endTransaction => exact (Keeps.unregister (hstale rfl)).goes (holds_leave cfg _ c m)
  | abort =>
    have hrun : Running (cfg.structureOf m.h) s c m tid .abort := h
    exact hrun.drop.goes (holds_leave cfg _ c m)

/-- The registration that the step removes. -/
def Pc.unregisters (cfg : Config) : Pc → Option (StructurePtr × TxnPtr)
  | .modify .endTransaction m tid => some (cfg.structureOf m.h, tid)
  | .closing t (x :: _) => some (x, t)
  | _ => none

/-- An address that is unregistered from an index is not registered there, or belongs to no
    unresolved transaction. -/
def RemovesStale (cfg : Config) (s : State) : Action → Prop
  | .advance c _ => ∀ e ∈ (s.pc c).unregisters cfg,
    e.2 ∈ (s.structures e.1).transactions → s.live e.2 = none
  | _ => True

instance (cfg : Config) (s : State) : ∀ act, Decidable (RemovesStale cfg s act)
  | .advance c _ => inferInstanceAs (Decidable (∀ e ∈ (s.pc c).unregisters cfg, _))
  | .beginTransaction .. | .resolve .. | .call .. | .getNext .. | .deleteIndex .. => isTrue trivial

/-- A step on mutexes, handles and iterators. -/
theorem quiet_goes (hpc : s'.pc = s.pc) (hl : s'.live = s.live) (hs : s'.structures = s.structures)
    (h : Holds cfg s c pc) : Goes cfg c s (s'.goto c pc) :=
  Keeps.goes (.of_eq (fun d _ => congrFun hpc d) hl hs) (holds_congr hl hs h)

/-- What follows the checks needs no more than they do. -/
theorem holds_proceed {op : Operation} {h : IndexPtr} {second : Bool}
    (hop : ∀ t ∈ op.tx, s.owns c t = true) : Holds cfg s c (op.proceed h second) := by
  cases op with
  | insert tx =>
    cases tx with
    | none => simp [Operation.proceed, Holds]
    | some t => exact hop t rfl
  | update tx flags | delete tx flags => exact hop
  | getRecords =>
    simp only [Operation.proceed]
    split
    · trivial
    · exact hop

/-- The start of a nested transaction. -/
theorem running_begin {a : TxnPtr} (h : ∀ t ∈ m.tx, s.owns c t = true) (ha : s.live a = none) :
    Running x (s.setLive a (some ⟨c, true, m.tx, ∅⟩)) c m a .start where
  parent t ht := by
    obtain ⟨T, hT, hc, hn⟩ := (s.owns_iff).mp (h t ht)
    have hne : t ≠ a := by rintro rfl; simp [ha] at hT
    exact (State.owns_iff _).mpr ⟨T, by rwa [s.setLive_live_of_ne hne], hc, hn⟩
  nested := ⟨∅, by simp, by simp, fun _ => rfl, fun _ => Or.inl rfl⟩
  entered := by simp [Stage.entered]
  joined := by simp [Stage.joined]

/-- STEP: one step of a call. -/
theorem next_goes (r : Reply) (h : Holds cfg s c pc) (hg : s.Gated)
    (hstale : ∀ e ∈ pc.unregisters cfg, e.2 ∈ (s.structures e.1).transactions → s.live e.2 = none)
    (hnext : next cfg s c r pc = some s') : Goes cfg c s s' := by
  cases pc with
  | idle => simp [next] at hnext
  | closedCheck op h' | compatible op h' second =>
    obtain rfl := Option.some.inj hnext
    refine goes_goto ?_
    split
    · trivial
    · exact h
  | attributeCount op h' second =>
    obtain rfl := Option.some.inj hnext
    refine goes_goto ?_
    split
    · exact holds_proceed h
    · trivial
  | insertStart h' t =>
    simp only [next] at hnext
    split at hnext
    next hr =>
      obtain rfl := Option.some.inj hnext
      refine (Keeps.register s _ t).goes fun a ha => ?_
      obtain rfl : t = a := Option.some.inj ha
      have hw := IndexStructure.startTransaction_fst_eq_true.mp hr
      exact ⟨h, by simp [State.register, IndexStructure.startTransaction_snd hw]⟩
    · obtain rfl := Option.some.inj hnext
      exact goes_goto trivial
  | insertKey h' tx =>
    obtain rfl := Option.some.inj hnext
    exact goes_goto h
  | insertPut h' tx =>
    simp only [next] at hnext
    split at hnext
    · obtain rfl := Option.some.inj hnext
      exact goes_goto trivial
    · obtain rfl := Option.some.inj hnext
      refine Keeps.goes ?_ trivial
      cases tx with
      | none => exact .of_eq (fun _ _ => rfl) rfl rfl
      | some t =>
        obtain ⟨hown, hreg⟩ := h t rfl
        obtain ⟨T, hT, hc, -⟩ := (s.owns_iff).mp hown
        exact .write hT hc hreg
  | modifyLock m =>
    obtain ⟨-, hs'⟩ := Option.ite_none_right_eq_some.mp hnext
    obtain rfl := Option.some.inj hs'
    exact quiet_goes rfl rfl rfl h
  | modifyKey m =>
    obtain rfl := Option.some.inj hnext
    exact goes_goto h
  | modifyBegin m =>
    simp only [next] at hnext
    split at hnext
    · obtain rfl := Option.some.inj hnext
      exact goes_goto (holds_leave cfg s c m)
    · obtain ⟨hfree, hs'⟩ := Option.ite_none_right_eq_some.mp hnext
      obtain rfl := Option.some.inj hs'
      exact (Keeps.begin hfree rfl).goes ((holds_modify (by decide)).mpr (running_begin h hfree))
  | modify stage m tid =>
    obtain rfl := Option.some.inj hnext
    refine modifying_goes r h hg ?_
    rintro rfl
    exact hstale _ rfl
  | unlock h' | iteratorKey h' =>
    obtain rfl := Option.some.inj hnext
    exact quiet_goes rfl rfl rfl trivial
  | cursorOpen h' | nextGet h' | nextKey h' =>
    obtain rfl := Option.some.inj hnext
    refine goes_goto ?_
    split_ifs <;> trivial
  | nextValue h' | dbremove x =>
    obtain rfl := Option.some.inj hnext
    exact goes_goto trivial
  | closeLock t =>
    obtain ⟨-, hs'⟩ := Option.ite_none_right_eq_some.mp hnext
    obtain rfl := Option.some.inj hs'
    exact quiet_goes rfl rfl rfl trivial
  | closing t todo =>
    cases todo with
    | nil =>
      obtain rfl := Option.some.inj hnext
      exact quiet_goes rfl rfl rfl trivial
    | cons x xs =>
      obtain rfl := Option.some.inj hnext
      exact (Keeps.unregister (hstale _ rfl)).goes trivial
  | removeLock x =>
    obtain ⟨-, hs'⟩ := Option.ite_none_right_eq_some.mp hnext
    obtain rfl := Option.some.inj hs'
    split
    · exact quiet_goes rfl rfl rfl trivial
    · exact goes_goto trivial
  | makeReadOnly x =>
    simp only [next] at hnext
    split at hnext
    · obtain rfl := Option.some.inj hnext
      exact (Keeps.makeReadOnly s x).goes trivial
    · obtain rfl := Option.some.inj hnext
      exact quiet_goes rfl rfl rfl trivial
  | closeMark x todo =>
    cases todo with
    | nil =>
      obtain rfl := Option.some.inj hnext
      exact quiet_goes rfl rfl rfl trivial
    | cons h' hs =>
      obtain ⟨-, hs'⟩ := Option.ite_none_right_eq_some.mp hnext
      obtain rfl := Option.some.inj hs'
      split
      · exact goes_goto trivial
      · exact quiet_goes rfl rfl rfl trivial
  | closeDb x h' todo =>
    obtain rfl := Option.some.inj hnext
    have hdb : Keeps c s { s with db := Function.update s.db h' false } :=
      .of_eq (fun _ _ => rfl) rfl rfl
    exact (hdb.trans (.onStructure (fun _ _ _ ha => ha) fun hgate => hgate)).goes trivial

/-! ### Whole runs -/

/-- The invariant of the machine. -/
structure Registered (cfg : Config) (s : State) : Prop where
  covered : s.Covered
  gated : s.Gated
  holds : ∀ c, Holds cfg s c (s.pc c)

theorem start_registered (cfg : Config) : Registered cfg cfg.start where
  covered a T x ha := by simp [Config.start] at ha
  gated x _ := cfg.transactions_eq x
  holds _ := trivial

theorem Registered.goes (h : Registered cfg s) (hgo : Goes cfg c s s') : Registered cfg s' where
  covered := hgo.1.covered h.covered
  gated := hgo.1.gated h.gated
  holds d := by
    by_cases hd : d = c
    · subst hd
      exact hgo.2
    · rw [hgo.1.pc d hd]
      exact hgo.1.holds hd (h.holds d)

/-- STEP: whoever the client is and whatever it does. -/
theorem step_registered (act : Action) (h : Registered cfg s) (hstale : RemovesStale cfg s act)
    (hstep : step cfg s act = some s') : Registered cfg s' := by
  cases act with
  | beginTransaction c t =>
    obtain ⟨⟨hidle, hfree⟩, hs'⟩ := Option.ite_none_right_eq_some.mp hstep
    obtain rfl := Option.some.inj hs'
    have hplace : Holds cfg (s.setLive t (some ⟨c, false, none, ∅⟩)) c (s.pc c) := by
      rw [hidle]
      trivial
    exact h.goes ⟨.begin hfree rfl, hplace⟩
  | resolve c t =>
    obtain ⟨⟨-, howns⟩, hs'⟩ := Option.ite_none_right_eq_some.mp hstep
    obtain rfl := Option.some.inj hs'
    exact h.goes ((Keeps.resolve howns).goes trivial)
  | call c op h' =>
    obtain ⟨⟨-, howns⟩, hs'⟩ := Option.ite_none_right_eq_some.mp hstep
    obtain rfl := Option.some.inj hs'
    refine h.goes (goes_goto fun t ht => ?_)
    rw [Option.mem_def] at ht
    simpa [ht] using howns
  | getNext c h' | deleteIndex c x =>
    obtain ⟨-, hs'⟩ := Option.ite_none_right_eq_some.mp hstep
    obtain rfl := Option.some.inj hs'
    exact h.goes (goes_goto trivial)
  | advance c r =>
    simp only [step] at hstep
    split at hstep
    · simp at hstep
    · exact h.goes (next_goes r (h.holds c) h.gated hstale hstep)

end

/-- A client is about to call MakeReadOnly for the index, and it will return true. -/
def State.grants (s : State) (x : StructurePtr) : Prop :=
  ∃ c, s.pc c = .makeReadOnly x ∧ (s.structures x).makeReadOnly.1 = true

/-- No unresolved transaction, begun by a client or nested, has written to the index. -/
def State.unwritten (s : State) (x : StructurePtr) : Prop :=
  ∀ a T, s.live a = some T → x ∉ T.wrote

/-- RUN: if every address is stale when it is unregistered, no index with uncommitted changes is
    made read-only, in whatever order the clients take their steps. -/
theorem read_only_unwritten (cfg : Config) (acts : List Action) (s : State)
    (hstale : Along (RemovesStale cfg) (step cfg) cfg.start acts)
    (hrun : exec (step cfg) cfg.start acts = some s) (x : StructurePtr) (hgrants : s.grants x) :
    s.unwritten x := by
  have hinv : Registered cfg s :=
    exec_keeps (fun _ act _ h hs hstep => step_registered act h hs hstep) (start_registered cfg)
      hstale hrun
  obtain ⟨c, -, hempty⟩ := hgrants
  rw [IndexStructure.makeReadOnly_fst_eq_true] at hempty
  intro a T ha hx
  have hmem : a ∈ (s.structures x).transactions := hinv.covered a T x ha hx
  simp [hempty] at hmem

/-! ### Three clients -/

/-- Every handle is the only one of its index; the IndexManager knows one index. -/
def oneIndex : Config where
  structureOf h := h
  structures x := { IndexStructure.new [.kInt] with handles := {x} }
  indices := [0]
  mem_handles x h := by simp
  transactions_eq _ := rfl

/-- The next `n` steps of the client's call, all answered well. -/
def advances (c : ClientId) (n : Nat) : List Action := List.replicate n (.advance c {})

/-- The first client inserts in a transaction and commits, the second updates in one of its own and
    commits that too, and the third asks whether it may delete the index. -/
def orderly : List Action :=
  [.beginTransaction 0 7, .call 0 (.insert (some 7)) 0] ++ advances 0 6 ++
  [.beginTransaction 1 8, .call 1 (.update (some 8) 0) 0] ++ advances 1 5 ++
  [.advance 1 { address := 9 }] ++ advances 1 8 ++ [.resolve 0 7, .resolve 1 8] ++ advances 0 3 ++
  advances 1 3 ++ [.deleteIndex 2 0] ++ advances 2 1

theorem read_only_unwritten_at : ∃ s, exec (step oneIndex) oneIndex.start orderly = some s ∧
    s.grants 0 ∧ s.unwritten 0 := by
  have hrun : (exec (step oneIndex) oneIndex.start orderly).any fun s =>
      s.pc 2 = .makeReadOnly 0 ∧ (s.structures 0).makeReadOnly.1 = true := by decide
  obtain ⟨s, hs, hat⟩ := (Option.any_eq_true _ _).mp hrun
  have hgrants : s.grants 0 := ⟨2, of_decide_eq_true hat⟩
  exact ⟨s, hs, hgrants, read_only_unwritten oneIndex orderly s (by decide) hs 0 hgrants⟩

/-- The first client has committed its transaction but not yet unregistered it; the second client's
    new transaction has its address, and writes; the third asks whether it may delete the index. -/
def late : List Action :=
  [.beginTransaction 0 7, .resolve 0 7, .beginTransaction 1 7, .call 1 (.insert (some 7)) 0] ++
  advances 1 6 ++ advances 0 3 ++ [.deleteIndex 2 0] ++ advances 2 1

/-- No call of Berkeley DB fails. -/
def Action.succeeds : Action → Bool
  | .advance _ r => r.ok && !r.throws
  | _ => true

/-- DIVERGES: the index that the second client has written to is made read-only. -/
theorem late_unregisters_writer : ¬ ∀ (cfg : Config) (acts : List Action) (s : State),
    acts.all Action.succeeds → exec (step cfg) cfg.start acts = some s →
      ∀ x, s.grants x → s.unwritten x := by
  intro hall
  have hrun : (exec (step oneIndex) oneIndex.start late).any fun s =>
      (s.pc 2 = .makeReadOnly 0 ∧ (s.structures 0).makeReadOnly.1 = true) ∧
        s.live 7 = some ⟨1, false, none, {0}⟩ := by decide
  obtain ⟨s, hs, hat⟩ := (Option.any_eq_true _ _).mp hrun
  obtain ⟨hgrants, hlive⟩ := of_decide_eq_true hat
  exact hall oneIndex late s (by decide) hs 0 ⟨2, hgrants⟩ 7 _ hlive (by decide)

end Contest.Machine
