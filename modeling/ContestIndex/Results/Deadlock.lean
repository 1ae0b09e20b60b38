import ContestIndex.Model.Locks

/-! @src example/Index.cc, example/Util.cc | name:No deadlock of the program's own mutexes | layer:results

    `Index::Update` takes the mutex of its handle and, when Berkeley DB compares keys, the manager's.
    `IndexManager::Remove` takes the manager's and then those of the handles. They never meet, because an
    index is read-only once its handles are closed from there, and never read-only while a transaction is
    registered with it.

        handle of a writable index   <   manager   <   handle of a read-only index   <   structure
             Update, Close           ▸    keycmp
                                        Remove, Commit  ▸          Close             ▸   all four

    A handle changes its place in this order when its index becomes read-only. -/

namespace Contest.Locks
open Schemes

namespace Shared

/-- No transaction is registered with a read-only index, and handles are registered with their own. -/
structure Gated (s : Shared) : Prop where
  gate : ∀ x, s.readOnly x → s.transactions x = ∅
  registered : ∀ x, ∀ h ∈ s.registered x, s.structureOf h = some x

/-- What the other threads leave to the thread `c`. -/
structure Leaves (c : ThreadId) (s s' : Shared) : Prop where
  readOnly : ∀ x, s.readOnly x → s'.readOnly x
  structureOf : ∀ h x, s.structureOf h = some x → s'.structureOf h = some x
  origin : ∀ tx o, s.origin tx = some o → s'.origin tx = some o
  own : ∀ tx x, s.origin tx = some (.nested c) → tx ∈ s.transactions x → tx ∈ s'.transactions x

end Shared

def rank (s : Shared) : Mutex → Nat
  | .handle h => if (s.structureOf h).any s.readOnly then 2 else 0
  | .manager => 1
  | .handles _ | .transactions _ => 3

/-- What `Index::Update` holds. -/
def Modifying.held (m : Modifying) : Set Mutex := if m.locked then {.handle m.h} else ∅

/-- The nested transaction of the thread is registered with the index. -/
def Working (c : ThreadId) (m : Modifying) (tid : TxnPtr) (s : Shared) : Prop :=
  s.origin tid = some (.nested c) ∧ ∃ x, s.structureOf m.h = some x ∧ tid ∈ s.transactions x

/-- What a thread knows where it calls or goes on. -/
def known (c : ThreadId) (p : Point) (held : Set Mutex) (s : Shared) : Prop :=
  match p with
  | .duplicates m tid => held = m.held ∧ Working c m tid s
  | .closeHandles _ x _ => held = {.manager} ∧ s.readOnly x
  | .commitTransaction tx | .abortTransaction tx => held = ∅ ∧ s.origin tx = some .client
  | _ => held = ∅

/-! ### What stays as it is -/

section
variable {s s' s'' : Shared} {c : ThreadId} {x : StructurePtr} {h : IndexPtr} {tx tid : TxnPtr}
  {m : Modifying} {held : Set Mutex}

theorem Shared.Leaves.refl (c : ThreadId) (s : Shared) : s.Leaves c s :=
  ⟨fun _ h => h, fun _ _ h => h, fun _ _ h => h, fun _ _ _ h => h⟩

theorem Shared.Leaves.trans (h : s.Leaves c s') (h' : s'.Leaves c s'') : s.Leaves c s'' where
  readOnly x hx := h'.readOnly x (h.readOnly x hx)
  structureOf i x hx := h'.structureOf i x (h.structureOf i x hx)
  origin tx o ho := h'.origin tx o (h.origin tx o ho)
  own tx x ho hx := h'.own tx x (h.origin tx _ ho) (h.own tx x ho hx)

theorem Working.mono (hw : Working c m tid s) (h : s.Leaves c s') : Working c m tid s' := by
  obtain ⟨ho, x, hx, hmem⟩ := hw
  exact ⟨h.origin tid _ ho, x, h.structureOf m.h x hx, h.own tid x ho hmem⟩

theorem known_mono (p : Point) (h : s.Leaves c s') (hp : known c p held s) : known c p held s' := by
  cases p with
  | duplicates m tid => exact ⟨hp.1, hp.2.mono h⟩
  | closeHandles name x last => exact ⟨hp.1, h.readOnly x hp.2⟩
  | commitTransaction tx => exact ⟨hp.1, h.origin tx _ hp.2⟩
  | abortTransaction tx => exact ⟨hp.1, h.origin tx _ hp.2⟩
  | _ => exact hp

def discipline : Discipline Mutex Shared Point where
  inv := Shared.Gated
  rely := Shared.Leaves
  rank := rank
  pre := known
  refl := Shared.Leaves.refl
  trans _ _ _ _ h h' := h.trans h'
  pre_mono _ p _ _ _ h hp := known_mono p h hp

namespace Shared

@[simp] theorem setStructure_structureOf (st : IndexStructure) :
    (s.setStructure x st).structureOf h = s.structureOf h := rfl

theorem setStructure_readOnly (st : IndexStructure) (y : StructurePtr) :
    (s.setStructure x st).readOnly y = if y = x then st.readOnly else s.readOnly y := by
  by_cases hy : y = x <;> simp [readOnly, setStructure, hy]

theorem setStructure_transactions (st : IndexStructure) (y : StructurePtr) :
    (s.setStructure x st).transactions y = if y = x then st.transactions else s.transactions y := by
  by_cases hy : y = x <;> simp [transactions, setStructure, hy]

theorem setStructure_registered (st : IndexStructure) (y : StructurePtr) :
    (s.setStructure x st).registered y = if y = x then st.handles else s.registered y := by
  by_cases hy : y = x <;> simp [registered, setStructure, hy]

theorem setHandle_structureOf (idx : Index) (i : IndexPtr) :
    (s.setHandle h idx).structureOf i = if i = h then idx.structure_ else s.structureOf i := by
  by_cases hi : i = h <;> simp [structureOf, setHandle, hi]

theorem Gated.setStructure {st : IndexStructure} (hs : s.Gated)
    (hgate : st.readOnly → st.transactions = ∅)
    (hhandles : ∀ h ∈ st.handles, s.structureOf h = some x) : (s.setStructure x st).Gated where
  gate y hy := by
    rw [setStructure_readOnly] at hy
    rw [setStructure_transactions]
    split at hy
    next hyx => rw [if_pos hyx, hgate hy]
    next hyx => rw [if_neg hyx, hs.gate y hy]
  registered y i hi := by
    rw [setStructure_registered] at hi
    rw [setStructure_structureOf]
    split at hi
    next hyx => rw [hyx, hhandles i hi]
    next => exact hs.registered y i hi

theorem Leaves.setStructure {st : IndexStructure} (hro : s.readOnly x → st.readOnly)
    (hown : ∀ tx ∈ s.transactions x, s.origin tx = some (.nested c) → tx ∈ st.transactions) :
    s.Leaves c (s.setStructure x st) where
  readOnly y hy := by
    rw [setStructure_readOnly]
    split
    next hyx => exact hro (hyx ▸ hy)
    next => exact hy
  structureOf _ _ hi := hi
  origin _ _ ho := ho
  own tx y ho hy := by
    rw [setStructure_transactions]
    split
    next hyx => exact hown tx (hyx ▸ hy) ho
    next => exact hy

/-- Handles keep their structure. -/
theorem Leaves.setHandle {idx : Index} (hsame : ∀ x, s.structureOf h = some x → idx.structure_ = some x) :
    s.Leaves c (s.setHandle h idx) where
  readOnly _ hx := hx
  structureOf i x hi := by
    rw [setHandle_structureOf]
    split
    next hih => exact hsame x (hih ▸ hi)
    next => exact hi
  origin _ _ ho := ho
  own _ _ _ hx := hx

theorem Gated.setHandle {idx : Index} (hs : s.Gated)
    (hsame : ∀ x, s.structureOf h = some x → idx.structure_ = some x) : (s.setHandle h idx).Gated where
  gate := hs.gate
  registered x i hi := (Leaves.setHandle (c := 0) hsame).structureOf i x (hs.registered x i hi)

/-- What is true of a structure that exists. -/
theorem Gated.structure_ {st : IndexStructure} (hs : s.Gated) (hst : s.structures x = some st) :
    (st.readOnly → st.transactions = ∅) ∧ ∀ h ∈ st.handles, s.structureOf h = some x := by
  have hgate := hs.gate x
  have hhandles := hs.registered x
  simp only [Shared.readOnly, transactions, Shared.registered, hst, Option.any_some, Option.map_some,
    Option.getD_some] at hgate hhandles
  exact ⟨hgate, hhandles⟩

/-- A change of a structure that gates it and keeps its handles. -/
theorem Gated.onStructure {f : IndexStructure → IndexStructure} (hs : s.Gated)
    (hf : s.onStructure x f = some s')
    (hgate : ∀ st, (st.readOnly → st.transactions = ∅) → (f st).readOnly → (f st).transactions = ∅)
    (hhandles : ∀ st, ∀ h ∈ (f st).handles, h ∈ st.handles ∨ s.structureOf h = some x) : s'.Gated := by
  obtain ⟨st, hst, rfl⟩ := Option.map_eq_some_iff.mp hf
  obtain ⟨hgated, hown⟩ := hs.structure_ hst
  refine hs.setStructure (hgate st hgated) fun h hh => ?_
  rcases hhandles st h hh with hold | hnew
  · exact hown h hold
  · exact hnew

theorem Leaves.onStructure {f : IndexStructure → IndexStructure} (hf : s.onStructure x f = some s')
    (hro : ∀ st, st.readOnly → (f st).readOnly)
    (hown : ∀ st, ∀ tx ∈ st.transactions, s.origin tx = some (.nested c) → tx ∈ (f st).transactions) :
    s.Leaves c s' := by
  obtain ⟨st, hst, rfl⟩ := Option.map_eq_some_iff.mp hf
  refine .setStructure ?_ ?_
  · simpa [Shared.readOnly, hst] using hro st
  · simpa [transactions, hst] using hown st

theorem Leaves.onHandle {f : Index → Index} (hf : s.onHandle h f = some s')
    (hsame : ∀ idx, (f idx).structure_ = idx.structure_) : s.Leaves c s' := by
  obtain ⟨idx, hidx, rfl⟩ := Option.map_eq_some_iff.mp hf
  refine .setHandle fun x hx => ?_
  rw [hsame]
  simpa [Shared.structureOf, hidx] using hx

theorem Gated.onHandle {f : Index → Index} (hs : s.Gated) (hf : s.onHandle h f = some s')
    (hsame : ∀ idx, (f idx).structure_ = idx.structure_) : s'.Gated := by
  obtain ⟨idx, hidx, rfl⟩ := Option.map_eq_some_iff.mp hf
  refine hs.setHandle fun x hx => ?_
  rw [hsame]
  simpa [structureOf, hidx] using hx

theorem Leaves.indices (indices : List (String × StructurePtr)) :
    s.Leaves c { s with indices := indices } :=
  ⟨fun _ h => h, fun _ _ h => h, fun _ _ h => h, fun _ _ _ h => h⟩

theorem Gated.indices (hs : s.Gated) (indices : List (String × StructurePtr)) :
    ({ s with indices := indices } : Shared).Gated := ⟨hs.gate, hs.registered⟩

theorem Leaves.newTransaction {o : Origin} (hf : s.newTransaction tx o = some s') : s.Leaves c s' := by
  obtain ⟨hfresh, rfl⟩ : s.origin tx = none ∧ _ = s' := by simpa [Shared.newTransaction] using hf
  have horigin : ∀ t o', s.origin t = some o' → Function.update s.origin tx (some o) t = some o' := by
    intro t o' ho
    have hne : t ≠ tx := by
      rintro rfl
      simp [hfresh] at ho
    rwa [Function.update_of_ne hne]
  exact ⟨fun _ h => h, fun _ _ h => h, horigin, fun _ _ _ h => h⟩

theorem Leaves.newStructure {types : List AttributeType} (hf : s.newStructure x types = some s') :
    s.Leaves c s' := by
  obtain ⟨hfresh, rfl⟩ : s.structures x = none ∧ _ = s' := by simpa [Shared.newStructure] using hf
  refine .setStructure (fun hro => ?_) fun t ht _ => ?_
  · simp [Shared.readOnly, hfresh] at hro
  · simp [transactions, hfresh] at ht

theorem Gated.newStructure {types : List AttributeType} (hs : s.Gated)
    (hf : s.newStructure x types = some s') : s'.Gated := by
  obtain ⟨-, rfl⟩ : s.structures x = none ∧ _ = s' := by simpa [Shared.newStructure] using hf
  exact hs.setStructure (fun _ => rfl) fun h hh => absurd hh (Finset.notMem_empty h)

theorem Gated.newTransaction {o : Origin} (hs : s.Gated) (hf : s.newTransaction tx o = some s') :
    s'.Gated := by
  obtain ⟨-, rfl⟩ : s.origin tx = none ∧ _ = s' := by simpa [Shared.newTransaction] using hf
  exact ⟨hs.gate, hs.registered⟩

theorem origin_newTransaction {o : Origin} (hf : s.newTransaction tx o = some s') :
    s'.origin tx = some o := by
  obtain ⟨-, rfl⟩ : s.origin tx = none ∧ _ = s' := by simpa [newTransaction] using hf
  exact Function.update_self ..

theorem Leaves.newHandle {name : String} {found : Option StructurePtr}
    (hf : s.newHandle h name found = some s') : s.Leaves c s' := by
  obtain ⟨hfresh, rfl⟩ : s.handles h = none ∧ _ = s' := by simpa [Shared.newHandle] using hf
  exact .setHandle fun x hx => by simp [Shared.structureOf, hfresh] at hx

theorem Gated.newHandle {name : String} {found : Option StructurePtr} (hs : s.Gated)
    (hf : s.newHandle h name found = some s') : s'.Gated := by
  obtain ⟨hfresh, rfl⟩ : s.handles h = none ∧ _ = s' := by simpa [Shared.newHandle] using hf
  exact hs.setHandle fun x hx => by simp [Shared.structureOf, hfresh] at hx

theorem structureOf_newHandle {name : String} {found : Option StructurePtr}
    (hf : s.newHandle h name found = some s') : s'.structureOf h = found := by
  obtain ⟨-, rfl⟩ : s.handles h = none ∧ _ = s' := by simpa [newHandle] using hf
  rw [setHandle_structureOf, if_pos rfl]

end Shared
end

/-! ### Steps and sections -/

section
variable {s s' : Shared} {c : ThreadId} {x : StructurePtr} {h : IndexPtr} {tx : TxnPtr}
  {m : Mutex} {held : Set Mutex} {f : Shared → Reply → Option Shared} {rest : Proc}

theorem safe_look {rest : Shared → Reply → Proc}
    (hrest : ∀ s' r, discipline.Later c s s' → discipline.Safe c (rest s' r) held s') :
    discipline.Safe c (look rest) held s := by
  intro s' hlater r s'' hf
  obtain rfl : s' = s'' := by simpa using hf
  exact ⟨hlater.2, fun d _ => .refl d s', hrest s' r hlater⟩

/-- A step outside of the mutexes. -/
theorem safe_act {rest : Shared → Reply → Proc}
    (hf : ∀ s₁ r s₂, discipline.Later c s s₁ → f s₁ r = some s₂ →
      s₂.Gated ∧ (∀ d, s₁.Leaves d s₂))
    (hrest : ∀ s₁ r s₂, f s₁ r = some s₂ → discipline.Later c s s₂ →
      discipline.Safe c (rest s₁ r) held s₂) : discipline.Safe c (.act f rest) held s := by
  intro s₁ h₁ r s₂ hs₂
  obtain ⟨hgated, hleaves⟩ := hf s₁ r s₂ h₁ hs₂
  have hlater : discipline.Later c s s₂ := h₁.trans ⟨hleaves c, hgated⟩
  exact ⟨hgated, fun d _ => hleaves d, hrest s₁ r s₂ hs₂ hlater⟩

theorem safe_structureOf {rest : StructurePtr → Proc}
    (hrest : ∀ s' x, discipline.Later c s s' → s'.structureOf h = some x →
      discipline.Safe c (rest x) held s') : discipline.Safe c (structureOf h rest) held s := by
  intro s' hlater r s'' hf
  obtain ⟨x, hx, rfl⟩ := Option.map_eq_some_iff.mp hf
  refine ⟨hlater.2, fun d _ => .refl d s', ?_⟩
  dsimp only
  rw [hx]
  exact hrest s' x hlater hx

/-- Only the manager's mutex and those of handles are held. -/
def Low (held : Set Mutex) : Prop := ∀ n ∈ held, ∀ s, rank s n < 3

theorem Low.above (hlow : Low held) (hm : ∀ s, rank s m = 3) : discipline.Above c held s m := by
  intro s' _ n hn
  have hrank : rank s' n < 3 := hlow n hn s'
  rw [← hm s'] at hrank
  exact hrank

/-- A section under a mutex of a structure that takes nothing away. -/
theorem safe_section {rest : Shared → Reply → Proc} (hlow : Low held) (hm : ∀ s, rank s m = 3)
    (hf : ∀ s₁ r s₂, discipline.Later c s s₁ → f s₁ r = some s₂ →
      s₂.Gated ∧ (∀ d, s₁.Leaves d s₂))
    (hrest : ∀ s₁ r s₂ s₃, discipline.Later c s s₁ → f s₁ r = some s₂ → discipline.Later c s₂ s₃ →
      discipline.Later c s s₃ → discipline.Safe c (rest s₁ r) held s₃) :
    discipline.Safe c (.lock m (.act f fun s r => .unlock m (rest s r))) held s := by
  refine .under (hlow.above hm) fun s₁ h₁ r s₂ hs₂ => ?_
  obtain ⟨hgated, hleaves⟩ := hf s₁ r s₂ h₁ hs₂
  refine ⟨hgated, fun d _ => hleaves d, fun s₃ h₃ => ?_⟩
  exact hrest s₁ r s₂ s₃ h₁ hs₂ h₃ (h₁.trans (h₃.after (hleaves c)))

theorem safe_find {rest : Option StructurePtr → Proc} {name : String}
    (habove : discipline.Above c held s .manager)
    (hrest : ∀ s' found, discipline.Later c s s' → discipline.Safe c (rest found) held s') :
    discipline.Safe c (find name rest) held s := by
  refine .under habove fun s₁ h₁ r s₂ hs₂ => ?_
  obtain rfl : s₁ = s₂ := by simpa using hs₂
  exact ⟨h₁.2, fun d _ => .refl d s₁, fun s₃ h₃ => hrest s₃ _ (h₁.trans h₃)⟩

theorem safe_comparisons (habove : discipline.Above c held s .manager)
    (hrest : ∀ s', discipline.Later c s s' → discipline.Safe c rest held s') (n : Nat) :
    ∀ s', discipline.Later c s s' → discipline.Safe c (comparisons h rest n) held s' := by
  induction n with
  | zero => exact hrest
  | succ n ih =>
    intro s₁ h₁
    refine safe_look fun s₂ _ h₂ => safe_find (habove.mono (h₁.trans h₂).1) fun s₃ _ h₃ => ?_
    exact ih s₃ ((h₁.trans h₂).trans h₃)

/-- A put or a get locks nothing but the manager. -/
theorem safe_search {rest : Reply → Proc} (habove : discipline.Above c held s .manager)
    (hrest : ∀ s' r, discipline.Later c s s' → discipline.Safe c (rest r) held s') :
    discipline.Safe c (search h rest) held s :=
  safe_look fun s₁ r h₁ =>
    safe_comparisons habove (fun s₂ h₂ => hrest s₂ r h₂) r.comparisons s₁ h₁

theorem safe_registerHandle (hx : s.structureOf h = some x) (hlow : Low held)
    (hrest : ∀ s', discipline.Later c s s' → discipline.Safe c rest held s') :
    discipline.Safe c (registerHandle x h rest) held s := by
  refine safe_section hlow (fun _ => rfl) (fun s₁ _ s₂ h₁ hs₂ => ⟨?_, fun d => ?_⟩)
    fun _ _ _ s₃ _ _ _ h₃ => hrest s₃ h₃
  · refine h₁.2.onStructure hs₂ (fun _ hst => hst) fun st i hi => ?_
    rcases Finset.mem_insert.mp hi with rfl | hold
    · exact .inr (h₁.1.structureOf _ x hx)
    · exact .inl hold
  · exact .onStructure hs₂ (fun _ hst => hst) fun _ _ ht _ => ht

theorem safe_unregisterHandle (hlow : Low held)
    (hrest : ∀ s', discipline.Later c s s' → discipline.Safe c rest held s') :
    discipline.Safe c (unregisterHandle x h rest) held s := by
  refine safe_section hlow (fun _ => rfl) (fun s₁ _ s₂ h₁ hs₂ => ⟨?_, fun d => ?_⟩)
    fun _ _ _ s₃ _ _ _ h₃ => hrest s₃ h₃
  · exact h₁.2.onStructure hs₂ (fun _ hst => hst) fun st i hi => .inl (Finset.mem_of_mem_erase hi)
  · exact .onStructure hs₂ (fun _ hst => hst) fun _ _ ht _ => ht

theorem safe_startTransaction {rest : Bool → Proc} (hlow : Low held)
    (hrest : ∀ s' ok, discipline.Later c s s' →
      (ok = true → s.origin tx = some (.nested c) → tx ∈ s'.transactions x) →
      discipline.Safe c (rest ok) held s') :
    discipline.Safe c (startTransaction x tx rest) held s := by
  refine safe_section hlow (fun _ => rfl) (fun s₁ _ s₂ h₁ hs₂ => ⟨?_, fun d => ?_⟩)
    fun s₁ r s₂ s₃ h₁ hs₂ h₂ h₃ => hrest s₃ _ h₃ fun hok ho => ?_
  · refine h₁.2.onStructure hs₂ (fun st hgate hro => ?_) fun st i hi => .inl ?_
    · rw [IndexStructure.startTransaction_snd_readOnly] at hro
      rw [IndexStructure.startTransaction_of_readOnly hro]
      exact hgate hro
    · rwa [IndexStructure.startTransaction_snd_handles] at hi
  · refine .onStructure hs₂ (fun st hro => ?_) fun st t ht _ => st.subset_startTransaction tx ht
    rwa [IndexStructure.startTransaction_snd_readOnly]
  · obtain ⟨st, hst, rfl⟩ := Option.map_eq_some_iff.mp hs₂
    have hro : st.readOnly = false := by simpa [hst] using hok
    have hmem : tx ∈ (st.startTransaction tx).2.transactions := by
      rw [IndexStructure.startTransaction_snd hro]
      exact Finset.mem_insert_self tx st.transactions
    refine h₂.1.own tx x (h₁.1.origin tx _ ho) ?_
    rw [Shared.setStructure_transactions, if_pos rfl]
    exact hmem

theorem safe_makeReadOnly {rest : Bool → Proc} (hlow : Low held)
    (hrest : ∀ s' ok, discipline.Later c s s' → (ok = true → s'.readOnly x) →
      discipline.Safe c (rest ok) held s') :
    discipline.Safe c (makeReadOnly x rest) held s := by
  refine safe_section hlow (fun _ => rfl) (fun s₁ _ s₂ h₁ hs₂ => ⟨?_, fun d => ?_⟩)
    fun s₁ r s₂ s₃ _ hs₂ h₂ h₃ => hrest s₃ _ h₃ fun hok => ?_
  · refine h₁.2.onStructure hs₂ (fun st hgate hro => ?_) fun st i hi => .inl ?_
    · rw [IndexStructure.makeReadOnly_snd_transactions]
      exact (st.makeReadOnly_snd_readOnly.mp hro).elim id hgate
    · rwa [IndexStructure.makeReadOnly_snd_handles] at hi
  · refine .onStructure hs₂ (fun st hro => st.makeReadOnly_snd_readOnly.mpr (.inr hro))
      fun st t ht _ => ?_
    rwa [IndexStructure.makeReadOnly_snd_transactions]
  · obtain ⟨st, hst, rfl⟩ := Option.map_eq_some_iff.mp hs₂
    have hnone : st.transactions = ∅ := by simpa [hst] using hok
    refine h₂.1.readOnly x ?_
    rw [Shared.setStructure_readOnly, if_pos rfl]
    exact st.makeReadOnly_snd_readOnly.mpr (.inl hnone)

/-- A thread ends a transaction of a client, or its own nested one: nobody else relies on that. -/
theorem safe_endTransaction {o : Origin} (ho : s.origin tx = some o)
    (hmine : ∀ d, d ≠ c → o ≠ .nested d) (hlow : Low held)
    (hrest : ∀ s', s'.origin tx = some o → s'.Gated → discipline.Safe c rest held s') :
    discipline.Safe c (endTransaction x tx rest) held s := by
  refine .under (hlow.above fun _ => rfl) fun s₁ h₁ r s₂ hs₂ => ?_
  have ho₁ : s₁.origin tx = some o := h₁.1.origin tx o ho
  have ho₂ : s₂.origin tx = some o := by
    obtain ⟨st, -, rfl⟩ := Option.map_eq_some_iff.mp hs₂
    exact ho₁
  refine ⟨?_, fun d hd => ?_, fun s₃ h₃ => hrest s₃ (h₃.1.origin tx o ho₂) h₃.2⟩
  · refine h₁.2.onStructure hs₂ (fun st hgate hro => ?_) fun st i hi => .inl hi
    rw [IndexStructure.endTransaction, hgate hro, Finset.erase_empty]
  · refine .onStructure hs₂ (fun st hro => hro) fun st t ht hot => Finset.mem_erase.mpr ⟨?_, ht⟩
    rintro rfl
    exact hmine d hd (Option.some.inj (ho₁.symm.trans hot))

end

/-! ### Operations on records -/

theorem low_empty : Low ∅ := fun _ hn => absurd hn (Set.notMem_empty _)

theorem low_manager : Low {.manager} := by
  rintro n rfl s
  rw [rank]
  omega

theorem Modifying.low_held (m : Modifying) : Low m.held := by
  intro n hn s
  rw [held] at hn
  split at hn
  · obtain rfl : n = .handle m.h := hn
    rw [rank]
    split <;> omega
  · exact absurd hn (Set.notMem_empty n)

section
variable {s : Shared} {c : ThreadId} {m : Modifying} {tid : TxnPtr} {rest : Proc}

theorem above_empty (m : Mutex) : discipline.Above c ∅ s m :=
  fun _ _ _ hn => absurd hn (Set.notMem_empty _)

/-- The index of the handle stays writable, so its mutex is below the manager's. -/
theorem Working.above (hw : Working c m tid s) : discipline.Above c m.held s .manager := by
  intro s' hlater n hn
  rw [Modifying.held] at hn
  split at hn
  · obtain rfl : n = .handle m.h := hn
    obtain ⟨-, x, hx, hmem⟩ := hw.mono hlater.1
    have hwritable : s'.readOnly x = false := by
      by_contra hro
      rw [hlater.2.gate x (by simpa using hro)] at hmem
      exact absurd hmem (Finset.notMem_empty tid)
    have hlow : rank s' (.handle m.h) = 0 := by simp [rank, hx, hwritable]
    have hmanager : rank s' .manager = 1 := rfl
    show rank s' (.handle m.h) < rank s' .manager
    omega
  · exact absurd hn (Set.notMem_empty n)

namespace Modifying

theorem safe_leave : discipline.Safe c m.leave m.held s := by
  rw [leave, held]
  split
  · intro s' _
    exact Set.sdiff_self
  · rfl

theorem safe_write (hw : Working c m tid s)
    (hrest : ∀ s', Working c m tid s' → discipline.Safe c rest m.held s') :
    discipline.Safe c (m.write rest) m.held s := by
  rw [write]
  split
  · exact safe_search hw.above fun s' _ hlater => hrest s' (hw.mono hlater.1)
  · exact safe_look fun s' _ hlater => hrest s' (hw.mono hlater.1)

theorem safe_join (hw : Working c m tid s)
    (hrest : ∀ s', Working c m tid s' → discipline.Safe c rest m.held s') :
    discipline.Safe c (m.join rest) m.held s := by
  rw [join]
  split
  · refine safe_structureOf fun s₁ x h₁ _ => safe_startTransaction m.low_held fun s₂ _ h₂ _ => ?_
    exact hrest s₂ (hw.mono (h₁.trans h₂).1)
  · exact hrest s hw

theorem safe_finish (hw : Working c m tid s) : discipline.Safe c (m.finish tid) m.held s := by
  refine safe_look fun s₁ _ h₁ => safe_structureOf fun s₂ x h₂ _ => ?_
  have ho : s₂.origin tid = some (.nested c) := (hw.mono (h₁.trans h₂).1).1
  refine safe_endTransaction ho (fun d hd h => ?_) m.low_held fun s₃ _ _ => safe_leave
  obtain rfl : c = d := by simpa using h
  exact hd rfl

theorem safe_run : discipline.Safe c (m.run c) m.held s := by
  refine safe_act (fun s₁ r s₂ h₁ hs₂ => ⟨h₁.2.newTransaction hs₂, fun _ => .newTransaction hs₂⟩)
    fun s₁ r s₂ hs₂ _ => ?_
  · refine safe_structureOf fun s₃ x h₃ hx => safe_startTransaction m.low_held fun s₄ ok h₄ hok => ?_
    split
    next htrue =>
      have ho : s₃.origin r.address = some (.nested c) :=
        h₃.1.origin _ _ (Shared.origin_newTransaction hs₂)
      have hw : Working c m r.address s₄ :=
        ⟨h₄.1.origin _ _ ho, x, h₄.1.structureOf _ _ hx, hok htrue ho⟩
      refine safe_search hw.above fun s₅ found h₅ => ?_
      have hw₅ := hw.mono h₅.1
      split
      · refine safe_write hw₅ fun s₆ hw₆ => safe_join hw₆ fun s₇ hw₇ => ?_
        split
        · exact ⟨rfl, hw₇⟩
        · exact safe_finish hw₇
      · exact safe_finish hw₅
    next => exact safe_look fun s₅ _ _ => safe_leave

theorem safe_duplicates (hw : Working c m tid s) : discipline.Safe c (m.duplicates tid) m.held s := by
  refine safe_search hw.above fun s₁ found h₁ => ?_
  have hw₁ := hw.mono h₁.1
  split
  · exact safe_write hw₁ fun s₂ hw₂ => ⟨rfl, hw₂⟩
  · exact safe_finish hw₁

end Modifying

theorem safe_checked {h : IndexPtr}
    (hrest : ∀ s', discipline.Later c s s' → discipline.Safe c rest ∅ s') :
    discipline.Safe c (checked h rest) ∅ s := by
  refine safe_look fun s₁ _ h₁ => ?_
  split
  · rfl
  · refine safe_look fun s₂ _ h₂ => ?_
    split
    · rfl
    · exact hrest s₂ (h₁.trans h₂)

theorem safe_indexInsert (tx : Option TxnPtr) (h : IndexPtr) :
    discipline.Safe c (indexInsert tx h) ∅ s := by
  cases tx with
  | some t =>
    refine safe_structureOf fun s₁ x h₁ _ => safe_startTransaction low_empty fun s₂ ok h₂ _ => ?_
    split
    · exact safe_search (above_empty _) fun _ _ _ => rfl
    · rfl
  | none => exact safe_search (above_empty _) fun _ _ _ => rfl

theorem safe_indexUpdate (tx : Option TxnPtr) (h : IndexPtr) (flags : UInt8) :
    discipline.Safe c (indexUpdate c tx h flags) ∅ s := by
  refine ⟨above_empty _, fun s' _ => ?_⟩
  rw [insert_empty_eq]
  exact Modifying.safe_run

theorem safe_indexDelete (tx : Option TxnPtr) (h : IndexPtr) (flags : UInt8) :
    discipline.Safe c (indexDelete c tx h flags) ∅ s := Modifying.safe_run

theorem safe_iteratorNext (h : IndexPtr) : discipline.Safe c (iteratorNext h) ∅ s := by
  refine safe_search (above_empty _) fun _ r _ => ?_
  split <;> rfl

end

/-! ### Handles, transactions, indices -/

section
variable {s : Shared} {c : ThreadId} {tx : TxnPtr} {h : IndexPtr} {x : StructurePtr}
  {held : Set Mutex} {rest : Proc}

theorem safe_onHandle {f : Index → Index} (hsame : ∀ idx, (f idx).structure_ = idx.structure_)
    {rest : Shared → Reply → Proc}
    (hrest : ∀ s₁ r s₂, discipline.Later c s s₂ → discipline.Safe c (rest s₁ r) held s₂) :
    discipline.Safe c (.act (fun s _ => s.onHandle h f) rest) held s :=
  safe_act (fun _ _ _ h₁ hs₂ => ⟨h₁.2.onHandle hs₂ hsame, fun _ => .onHandle hs₂ hsame⟩)
    fun s₁ r s₂ _ h₂ => hrest s₁ r s₂ h₂

theorem safe_create (name : String) (types : List AttributeType) :
    discipline.Safe c (create name types) ∅ s := by
  refine safe_look fun s₁ r _ => ?_
  split
  · refine safe_act (fun _ _ _ h₂ hs₃ => ⟨h₂.2.newStructure hs₃, fun _ => .newStructure hs₃⟩)
      fun _ r s₃ _ _ => .under (above_empty _) fun s₄ h₄ _ s₅ hs₅ => ?_
    obtain rfl : s₄.insert name r.address = s₅ := by simpa using hs₅
    exact ⟨h₄.2.indices _, fun _ _ => .indices _, fun _ _ => rfl⟩
  · rfl

theorem safe_indexOpen (name : String) : discipline.Safe c (indexOpen name) ∅ s := by
  refine safe_find (above_empty _) fun s₁ found _ => ?_
  refine safe_act (fun _ _ _ h₂ hs₃ => ⟨h₂.2.newHandle hs₃, fun _ => .newHandle hs₃⟩)
    fun _ r s₃ hs₃ _ => ?_
  cases found with
  | none => rfl
  | some x =>
    refine safe_registerHandle (Shared.structureOf_newHandle hs₃) low_empty fun s₄ _ => ?_
    exact safe_onHandle (by intro; rfl) fun _ _ s₅ _ => safe_onHandle (by intro; rfl) fun _ _ _ _ => rfl

/-- Closing locks the handle and then, with the handle given back, the structure. -/
theorem safe_indexClose (habove : discipline.Above c held s (.handle h)) (hlow : Low held)
    (hrest : ∀ s', discipline.Later c s s' → discipline.Safe c rest held s') :
    discipline.Safe c (indexClose h rest) held s := by
  refine .under habove fun s₁ h₁ r s₂ hs₂ => ?_
  have hleaves : ∀ d, s₁.Leaves d s₂ := fun d => .onHandle hs₂ fun _ => rfl
  refine ⟨h₁.2.onHandle hs₂ fun _ => rfl, fun d _ => hleaves d, fun s₃ h₃ => ?_⟩
  have hlater := h₁.trans (h₃.after (hleaves c))
  split
  · exact hrest s₃ hlater
  · have hmarked : ∀ s₄, discipline.Later c s₃ s₄ → discipline.Safe c
        (.act (fun s _ => s.onHandle h fun idx => { idx with closed := true }) fun _ _ => rest) held s₄ :=
      fun s₄ h₄ => safe_onHandle (by intro; rfl) fun _ _ s₅ h₅ => hrest s₅ ((hlater.trans h₄).trans h₅)
    refine safe_onHandle (by intro; rfl) fun _ _ s₄ h₄ => safe_look fun s₅ _ h₅ => ?_
    dsimp only
    split
    · exact safe_unregisterHandle hlow fun s₆ h₆ => hmarked s₆ ((h₄.trans h₅).trans h₆)
    · exact hmarked s₅ (h₄.trans h₅)

theorem safe_closing (xs : List StructurePtr) : ∀ s, s.origin tx = some .client →
    discipline.Safe c (closing tx xs) {.manager} s := by
  induction xs with
  | nil =>
    intro s _ s' _
    exact Set.sdiff_self
  | cons x xs ih =>
    intro s ho
    exact safe_endTransaction ho (fun _ _ h => nomatch h) low_manager fun s' ho' _ => ih s' ho'

theorem safe_resolve (ho : s.origin tx = some .client) : discipline.Safe c (resolve tx) ∅ s := by
  refine safe_look fun s₁ _ h₁ => ⟨above_empty _, fun s₂ h₂ => ?_⟩
  rw [insert_empty_eq]
  exact safe_look fun s₃ _ h₃ => safe_closing _ s₃ (((h₁.trans h₂).trans h₃).1.origin tx _ ho)

/-- The handles of a read-only index are above the manager. -/
theorem above_handle (hx : s.structureOf h = some x) (hro : s.readOnly x) :
    discipline.Above c {.manager} s (.handle h) := by
  intro s' hlater n hn
  obtain rfl : n = .manager := hn
  have hhigh : rank s' (.handle h) = 2 := by
    simp [rank, hlater.1.structureOf h x hx, hlater.1.readOnly x hro]
  have hmanager : rank s' .manager = 1 := rfl
  show rank s' .manager < rank s' (.handle h)
  omega

theorem safe_closeHandles (name : String) (last : Option IndexPtr) (hro : s.readOnly x) :
    discipline.Safe c (closeHandles name x last) {.manager} s := by
  refine safe_look fun s₁ _ h₁ => ?_
  have hro₁ := h₁.1.readOnly x hro
  split
  next h hnext =>
    have hh : h ∈ s₁.registered x := (Opening.nextHandle_eq_some hnext).1.1
    have habove := above_handle (c := c) (h₁.2.registered x h hh) hro₁
    exact safe_indexClose habove low_manager fun s₂ h₂ => ⟨rfl, h₂.1.readOnly x hro₁⟩
  next =>
    refine safe_act (fun s₂ _ s₃ h₂ hs₃ => ?_) fun _ _ s₃ _ _ => ?_
    · obtain rfl : s₂.erase name = s₃ := by simpa using hs₃
      exact ⟨h₂.2.indices _, fun _ => .indices _⟩
    · intro s₄ _
      rw [Set.sdiff_self]
      exact safe_look fun _ _ _ => rfl

theorem safe_remove (name : String) : discipline.Safe c (remove name) ∅ s := by
  have hunlock : ∀ s, discipline.Safe (ρ := Reply) c (.unlock .manager .ret) {.manager} s :=
    fun s s' _ => Set.sdiff_self
  refine ⟨above_empty _, fun s₁ _ => ?_⟩
  rw [insert_empty_eq]
  refine safe_look fun s₂ _ _ => ?_
  split
  · refine safe_makeReadOnly low_manager fun s₃ ok _ hro => ?_
    split
    next hok => exact ⟨rfl, hro hok⟩
    next => exact hunlock s₃
  · exact hunlock s₂

end

/-! ### All calls -/

/-- A call that refuses some of its arguments. -/
theorem safe_unless {c : ThreadId} {s : Shared} {code : Proc} (refused : Prop) [Decidable refused]
    (h : discipline.Safe c code ∅ s) : discipline.Safe c (if refused then .ret else code) ∅ s := by
  split
  · rfl
  · exact h

theorem enforced : discipline.Enforced procedures where
  entry c p s _ hadmits := by
    cases p with
    | commitTransaction tx => exact ⟨rfl, by simpa [procedures, admits] using hadmits⟩
    | abortTransaction tx => exact ⟨rfl, by simpa [procedures, admits] using hadmits⟩
    | duplicates m tid => simp [procedures, admits] at hadmits
    | closeHandles name x last => simp [procedures, admits] at hadmits
    | _ => rfl
  body c p held s _ hp := by
    cases p with
    | beginTransaction =>
      obtain rfl : held = ∅ := hp
      exact safe_act (fun _ _ _ h₁ hs₂ => ⟨h₁.2.newTransaction hs₂, fun _ => .newTransaction hs₂⟩)
        fun _ _ _ _ _ => rfl
    | commitTransaction tx => exact hp.1 ▸ safe_resolve hp.2
    | abortTransaction tx => exact hp.1 ▸ safe_resolve hp.2
    | createIndex name types =>
      exact hp ▸ safe_unless (name = "" ∨ types = []) (safe_create name types)
    | openIndex name =>
      exact hp ▸ safe_unless (name = "") (safe_indexOpen name)
    | closeIndex h => exact hp ▸ safe_indexClose (above_empty _) low_empty fun _ _ => rfl
    | deleteIndex name =>
      exact hp ▸ safe_unless (name = "") (safe_remove name)
    | insertRecord tx h => exact hp ▸ safe_checked fun s' _ => safe_indexInsert tx h
    | updateRecord tx h flags => exact hp ▸ safe_checked fun s' _ => safe_indexUpdate tx h flags
    | deleteRecord tx h flags => exact hp ▸ safe_checked fun s' _ => safe_indexDelete tx h flags
    | getNext h =>
      obtain rfl : held = ∅ := hp
      refine safe_look fun _ r _ => ?_
      split <;> rfl
    | next h => exact hp ▸ safe_iteratorNext h
    | duplicates m tid => exact hp.1 ▸ m.safe_duplicates hp.2
    | closeHandles name x last => exact hp.1 ▸ safe_closeHandles name last hp.2

theorem gated_initial : Shared.initial.Gated :=
  ⟨fun _ _ => rfl, fun _ h hh => absurd hh (Finset.notMem_empty h)⟩

/-- CORRECT: whatever the threads call and however their steps interleave, no cycle of threads, each
    waiting for a mutex that the next one holds, is ever reached. -/
theorem threads_never_deadlock (turns : List (Turn Reply Point)) (t : Threads Mutex Shared Reply Point)
    (hrun : exec procedures.step (.start .initial) turns = some t) : ¬t.Deadlock :=
  enforced.no_deadlock gated_initial hrun

/-! ### Three threads that wait in a row -/

/-- The next `n` steps of the thread's call. -/
def advances (c : ThreadId) (n : Nat) : List (Turn Reply Point) := List.replicate n (.advance c {})

/-- An index is created and opened. Then thread 0 updates a record and, when Berkeley DB compares keys,
    wants the mutex of the manager; thread 1 holds that one, to delete the index; thread 2 wants to
    update a record with the handle that thread 0 has locked. -/
def crossing : List (Turn Reply Point) :=
  [.call 0 (.createIndex "orders" [.kInt])] ++ advances 0 5 ++
  [.call 0 (.openIndex "orders")] ++ advances 0 9 ++
  [.call 0 (.updateRecord none 0 0)] ++ advances 0 8 ++ [.advance 0 { comparisons := 1 }] ++
  advances 0 1 ++
  [.call 1 (.deleteIndex "orders")] ++ advances 1 1 ++
  [.call 2 (.updateRecord none 0 0)] ++ advances 2 2

theorem threads_never_deadlock_at : ∃ t, exec procedures.step (.start .initial) crossing = some t ∧
    t.WaitsFor 2 0 ∧ t.WaitsFor 0 1 ∧ ¬t.Deadlock := by
  have hrun : (exec procedures.step (.start .initial) crossing).any fun t =>
      t.wants 2 = some (.handle 0) ∧ t.owner (.handle 0) = some 0 ∧
        t.wants 0 = some .manager ∧ t.owner .manager = some 1 := by decide
  obtain ⟨t, ht, hat⟩ := (Option.any_eq_true _ _).mp hrun
  obtain ⟨hwants₂, hholds₀, hwants₀, hholds₁⟩ := of_decide_eq_true hat
  exact ⟨t, ht, ⟨.handle 0, hwants₂, hholds₀⟩, ⟨.manager, hwants₀, hholds₁⟩,
    threads_never_deadlock crossing t ht⟩

end Contest.Locks
