import ContestIndex.Results.Openings

/-! @src example/Index.cc | name:Open handles and their structures | layer:specification

    DeleteIndex destroys a structure after it has closed the handles that are registered with it. An
    OpenIndex that has found the structure but is not through yet is not held up by it: it can register
    with a structure that is gone, and it can open a handle that CloseHandles took for closed.

        OpenIndex     Find ──────────────────────────▸ register ✗
        DeleteIndex         makeReadOnly ▸ … ▸ erase

        OpenIndex     Find ▸ register ───────────────▸ dbOpen ✗
        DeleteIndex                     closeHandles -/

namespace Contest.Opening
open Schemes

/-- The name, the handle and the structure of an OpenIndex that has found the structure. -/
def Pc.opening : Pc → Option (String × IndexPtr × StructurePtr)
  | .register name h p | .dbOpen name h p => some (name, h, p)
  | .idle | .insert _ _ | .makeReadOnly _ _ | .closeHandles _ _ _ | .dbClose _ _ _
  | .unregister _ _ _ | .dbremove _ => none

/-- The handle and the structure of an OpenIndex that has registered the handle. -/
def Pc.registered : Pc → Option (IndexPtr × StructurePtr)
  | .dbOpen _ h p => some (h, p)
  | .idle | .insert _ _ | .register _ _ _ | .makeReadOnly _ _ | .closeHandles _ _ _ | .dbClose _ _ _
  | .unregister _ _ _ | .dbremove _ => none

/-- The handle that `Index::Close` is about to close. -/
def Pc.closing : Pc → Option IndexPtr
  | .dbClose _ _ h | .unregister _ _ h => some h
  | .idle | .insert _ _ | .register _ _ _ | .dbOpen _ _ _ | .makeReadOnly _ _
  | .closeHandles _ _ _ | .dbremove _ => none

/-- The structure whose handles are being closed, with the handle visited last. -/
def Pc.closedUpTo : Pc → Option (StructurePtr × IndexPtr)
  | .closeHandles _ p last => last.map fun l => (p, l)
  | .dbClose _ p l | .unregister _ p l => some (p, l)
  | .idle | .insert _ _ | .register _ _ _ | .dbOpen _ _ _ | .makeReadOnly _ _ | .dbremove _ => none

theorem Pc.opening_of_registered {pc : Pc} {h : IndexPtr} {p : StructurePtr}
    (hpc : pc.registered = some (h, p)) : ∃ name, pc.opening = some (name, h, p) := by
  cases pc <;> simp_all [Pc.registered, Pc.opening]

/-- Handles are closed by the client that removes their structure. -/
theorem Pc.removing_of_closing {pc : Pc} {h : IndexPtr} (hpc : pc.closing = some h) :
    ∃ name p, pc.removing = some (name, p) := by
  cases pc <;> simp_all [Pc.closing, Pc.removing]

theorem Pc.removing_of_closedUpTo {pc : Pc} {p : StructurePtr} {l : IndexPtr}
    (hpc : pc.closedUpTo = some (p, l)) : ∃ name, pc.removing = some (name, p) := by
  cases pc <;> simp_all [Pc.closedUpTo, Pc.removing]

namespace State

/-- `CloseHandles` has gone past the handle. -/
def passed (s : State) (p : StructurePtr) (h : IndexPtr) : Bool :=
  (s.manager.bind fun d => (s.pc d).closedUpTo).any fun at_ => at_.1 = p ∧ h ≤ at_.2

/-- The structure that a step reads or writes. -/
def touches (s : State) : Action → Option StructurePtr
  | .call _ _ _ => none
  | .advance c =>
    match s.pc c with
    | .register _ _ p | .makeReadOnly _ p | .closeHandles _ p _ => some p
    | .unregister _ _ h => (s.handles h).bind (·.structure_)
    | _ => none

/-- Every handle that is not closed has the structure that the IndexManager holds under its name. -/
def OpenLive (s : State) : Prop :=
  ∀ h idx, s.handles h = some idx → idx.closed = false →
    ∃ p st, idx.structure_ = some p ∧ s.structures p = some st ∧ s.indices idx.name = some p

/-- The step touches no destroyed structure. -/
def Harmless (s : State) (a : Action) : Prop := ∀ p ∈ s.touches a, (s.structures p).isSome

instance Harmless.decidable (s : State) : DecidablePred s.Harmless := fun a => by
  unfold Harmless
  infer_instance

/-- No DeleteIndex overtakes an OpenIndex: the IndexManager still holds the structure when the handle
    is registered, and when the database is found then `CloseHandles` is not past the handle. -/
def Orderly (s : State) : Action → Prop
  | .call _ _ _ => True
  | .advance c =>
    match s.pc c with
    | .register name _ p => s.indices name = some p
    | .dbOpen name h p => s.dbs name = true → s.indices name = some p ∧ s.passed p h = false
    | _ => True

instance Orderly.decidable (s : State) : DecidablePred s.Orderly
  | .call _ _ _ => .isTrue trivial
  | .advance c =>
    match hpc : s.pc c with
    | .register name _ p => decidable_of_iff (s.indices name = some p) (by rw [Orderly, hpc])
    | .dbOpen name h p =>
      decidable_of_iff (s.dbs name = true → s.indices name = some p ∧ s.passed p h = false)
        (by rw [Orderly, hpc])
    | .idle | .insert _ _ | .makeReadOnly _ _ | .closeHandles _ _ _ | .dbClose _ _ _
    | .unregister _ _ _ | .dbremove _ => .isTrue (by rw [Orderly, hpc]; trivial)

/-- The IndexManager holds structures that exist, each under one name. -/
structure Stored (s : State) : Prop where
  held : ∀ name p, s.indices name = some p → s.structures p ≠ none
  one : ∀ name name' p, s.indices name = some p → s.indices name' = some p → name = name'
  born : ∀ p, s.structures p ≠ none → p < s.free

/-- The handle of an OpenIndex is closed, and no one else's. -/
structure Reserved (s : State) : Prop where
  opening : ∀ c name h p, (s.pc c).opening = some (name, h, p) →
    p < s.free ∧ s.handles h = some ⟨name, some p, false, true⟩
  single : ∀ c d h name name' p p', (s.pc c).opening = some (name, h, p) →
    (s.pc d).opening = some (name', h, p') → c = d
  closing : ∀ c h, (s.pc c).closing = some h →
    s.handles h ≠ none ∧ ∀ d name p, (s.pc d).opening ≠ some (name, h, p)

/-- A handle that is about to be opened is registered with its structure. -/
def Registered (s : State) : Prop :=
  ∀ c h p st, (s.pc c).registered = some (h, p) → s.structures p = some st → h ∈ st.handles

/-- A handle that is being closed is marked as closed, and its structure exists. -/
structure Closing (s : State) : Prop where
  shut : ∀ c h idx, (s.pc c).closing = some h → s.handles h = some idx → idx.closed = true
  owned : ∀ c h idx p, (s.pc c).closing = some h → s.handles h = some idx →
    idx.structure_ = some p → s.structures p ≠ none

/-- The structure of the handle is the one held under its name, the handle is registered with it, and
    CloseHandles has it still to come. -/
def Home (s : State) (h : IndexPtr) (idx : Index) : Prop :=
  ∃ p st, idx.structure_ = some p ∧ s.indices idx.name = some p ∧ s.structures p = some st ∧
    h ∈ st.handles ∧ ∀ d l, (s.pc d).closedUpTo = some (p, l) → l < h

def Housed (s : State) : Prop :=
  ∀ h idx, s.handles h = some idx → idx.closed = false → s.Home h idx

@[simp] theorem goto_opening (s : State) (c d : ClientId) (pc : Pc) :
    ((s.goto c pc).pc d).opening = if d = c then pc.opening else (s.pc d).opening := by
  rw [goto_pc, apply_ite Pc.opening]

@[simp] theorem goto_registered (s : State) (c d : ClientId) (pc : Pc) :
    ((s.goto c pc).pc d).registered = if d = c then pc.registered else (s.pc d).registered := by
  rw [goto_pc, apply_ite Pc.registered]

@[simp] theorem goto_closing (s : State) (c d : ClientId) (pc : Pc) :
    ((s.goto c pc).pc d).closing = if d = c then pc.closing else (s.pc d).closing := by
  rw [goto_pc, apply_ite Pc.closing]

@[simp] theorem goto_closedUpTo (s : State) (c d : ClientId) (pc : Pc) :
    ((s.goto c pc).pc d).closedUpTo = if d = c then pc.closedUpTo else (s.pc d).closedUpTo := by
  rw [goto_pc, apply_ite Pc.closedUpTo]

/-- A changed structure exists if it existed. -/
@[simp] theorem update_map_eq_none (structures : StructurePtr → Option IndexStructure)
    (p q : StructurePtr) (f : IndexStructure → IndexStructure) :
    Function.update structures p ((structures p).map f) q = none ↔ structures q = none := by
  rw [Function.update_apply]
  split
  next hq => rw [Option.map_eq_none_iff, hq]
  next => rfl

/-- A structure after the change of one structure. -/
@[simp] theorem update_map_eq_some (structures : StructurePtr → Option IndexStructure)
    (p q : StructurePtr) (f : IndexStructure → IndexStructure) (st' : IndexStructure) :
    Function.update structures p ((structures p).map f) q = some st' ↔
      ∃ st, structures q = some st ∧ (if q = p then f st else st) = st' := by
  rw [Function.update_apply]
  split
  next hq => rw [hq, Option.map_eq_some_iff]
  next => simp

end State

variable {s s' : State} {a : Action} {c : ClientId} {h : IndexPtr} {p : StructurePtr}
  {code : Option ErrorCode}

namespace State.Stored

theorem start : State.start.Stored := by
  constructor <;> simp [State.start]

theorem of_eq (hs : s.Stored) (hindices : s'.indices = s.indices) (hfree : s'.free = s.free)
    (hlive : ∀ p, s'.structures p = none ↔ s.structures p = none) : s'.Stored where
  held name p hp := by rw [ne_eq, hlive]; exact hs.held name p (hindices ▸ hp)
  one name name' p := by rw [hindices]; exact hs.one name name' p
  born p hp := by rw [hfree]; exact hs.born p fun hn => hp ((hlive p).mpr hn)

/-- STEP: Insert takes a new address, and Remove erases the entry of what it destroys. -/
theorem moves (hs : s.Stored) (hcat : s.Catalogued) (hmoves : Moves s c a s' code) : s'.Stored := by
  cases hmoves
  case refused | taken | unknown => exact hs
  case insert name types hpc _ =>
    obtain ⟨hheld, hone, hborn⟩ := hs
    have hfree : s.structures s.free = none := by
      by_contra hlive
      exact absurd (hborn s.free hlive) (lt_irrefl _)
    constructor <;> simp <;> grind [Function.update_apply]
  case erase name p last st hpc _ _ =>
    have hentry := (hcat.removing c name p (by rw [hpc]; rfl)).2
    obtain ⟨hheld, hone, hborn⟩ := hs
    constructor <;> simp <;> grind [Function.update_apply]
  all_goals exact hs.of_eq rfl rfl fun q => by simp

end State.Stored

namespace State.Reserved

theorem start : State.start.Reserved := by
  constructor <;> simp [State.start, Pc.opening, Pc.closing]

/-- Steps on other parts of the state, which begin no OpenIndex and close no handle. -/
theorem of_eq (hs : s.Reserved) {t : State} {pc : Pc} (hpc : t.pc = s.pc)
    (hhandles : t.handles = s.handles) (hfree : s.free ≤ t.free)
    (hopening : pc.opening = (s.pc c).opening) (hclosing : pc.closing = none) :
    (t.goto c pc).Reserved := by
  have hkept : ∀ d, ((t.goto c pc).pc d).opening = (s.pc d).opening := by
    intro d
    rw [State.goto_opening, hpc, hopening]
    split
    next hd => rw [hd]
    next => rfl
  have hother : ∀ d h, ((t.goto c pc).pc d).closing = some h → (s.pc d).closing = some h := by
    intro d h hd
    rw [State.goto_closing, hpc, hclosing] at hd
    split at hd
    next => cases hd
    next => exact hd
  constructor
  · intro d name h p hd
    obtain ⟨hp, hh⟩ := hs.opening d name h p (hkept d ▸ hd)
    exact ⟨hp.trans_le hfree, hhandles ▸ hh⟩
  · intro d e h name name' p p' hd he
    exact hs.single d e h name name' p p' (hkept d ▸ hd) (hkept e ▸ he)
  · intro d h hd
    obtain ⟨hthere, hnone⟩ := hs.closing d h (hother d h hd)
    exact ⟨hhandles ▸ hthere, fun e name p he => hnone e name p (hkept e ▸ he)⟩

/-- STEP: a new handle is nobody's yet, and the handle that is closed was open. -/
theorem moves (hs : s.Reserved) (hst : s.Stored) (hmoves : Moves s c a s' code) : s'.Reserved := by
  cases hmoves
  case refused | taken | unknown => exact hs
  case notFound name h _ _ hfresh _ _ =>
    obtain ⟨hopening, hsingle, hclosing⟩ := hs
    constructor <;> simp <;> grind [Function.update_apply]
  case found name h p hpc _ hfresh _ hentry =>
    have hp := hst.born p (hst.held name p hentry)
    obtain ⟨hopening, hsingle, hclosing⟩ := hs
    constructor <;> simp <;>
      grind [Function.update_apply, Pc.opening, Pc.closing]
  case opened name h p hpc _ | vanished name h p hpc _ =>
    have hmine := hs.opening c name h p (by rw [hpc]; rfl)
    obtain ⟨hopening, hsingle, hclosing⟩ := hs
    constructor <;> simp <;>
      grind [Function.update_apply, Pc.opening, Pc.closing]
  case close name p last st h idx hpc _ _ hidx hopen =>
    have hnone : ∀ d name p, (s.pc d).opening ≠ some (name, h, p) := by
      intro d name p hd
      have hclosed := (hs.opening d name h p hd).2
      rw [hidx] at hclosed
      cases hclosed
      simp at hopen
    obtain ⟨hopening, hsingle, hclosing⟩ := hs
    constructor <;> simp <;>
      grind [Function.update_apply, Pc.opening, Pc.closing]
  case dbClose name p h idx hpc hidx =>
    have hnone := (hs.closing c h (by rw [hpc]; rfl)).2
    obtain ⟨hopening, hsingle, hclosing⟩ := hs
    constructor <;> simp <;>
      grind [Function.update_apply, Pc.opening, Pc.closing]
  case create hpc _ _ | remove hpc _ _ _ | insert hpc _ | register hpc | makeReadOnly hpc _ _ |
      inUse hpc _ _ | erase hpc _ _ | skip hpc _ _ _ _ | unregister hpc _ _ | dbremove hpc =>
    exact hs.of_eq rfl rfl (by simp) (by simp [hpc, Pc.opening]) rfl

end State.Reserved

namespace State.Registered

theorem start : State.start.Registered := by
  simp [State.Registered, State.start]

/-- Steps that take no handle, which somebody is about to open, out of a structure. -/
theorem of_kept (hs : s.Registered) {t : State} {pc : Pc} (hpc : t.pc = s.pc)
    (hkept : ∀ d h p st', (s.pc d).registered = some (h, p) → t.structures p = some st' →
      ∃ st, s.structures p = some st ∧ (h ∈ st.handles → h ∈ st'.handles))
    (hregistered : pc.registered = none) : (t.goto c pc).Registered := by
  intro d h p st' hd hst'
  rw [State.goto_registered, hpc] at hd
  split at hd
  next => simp [hregistered] at hd
  next =>
    obtain ⟨st, hst, hmem⟩ := hkept d h p st' hd hst'
    exact hmem (hs d h p st hd hst)

theorem of_eq (hs : s.Registered) {t : State} {pc : Pc} (hpc : t.pc = s.pc)
    (hstructures : t.structures = s.structures) (hregistered : pc.registered = none) :
    (t.goto c pc).Registered :=
  hs.of_kept hpc (fun _ _ _ st' _ hst' => ⟨st', hstructures ▸ hst', id⟩) hregistered

/-- STEP: the handle that is unregistered was open, so nobody is about to open it. -/
theorem moves (hs : s.Registered) (hres : s.Reserved) (hmoves : Moves s c a s' code) :
    s'.Registered := by
  cases hmoves
  case refused | taken | unknown | notFound => exact hs
  case create | found | opened | vanished | remove | inUse | skip | close | dbClose | dbremove =>
    exact hs.of_eq rfl rfl rfl
  case insert name types hpc hfree =>
    refine hs.of_kept rfl (fun d h p st hd hst => ?_) rfl
    obtain ⟨name', hopening⟩ := Pc.opening_of_registered hd
    have hold : p ≠ s.free := (hres.opening d name' h p hopening).1.ne
    rw [State.insert_structures, Function.update_of_ne hold] at hst
    exact ⟨st, hst, id⟩
  case register name h p hpc =>
    intro d h' p' st' hd hst'
    obtain ⟨st, hst, rfl⟩ := (State.update_map_eq_some ..).mp hst'
    rw [State.goto_registered] at hd
    split at hd
    next =>
      obtain ⟨rfl, rfl⟩ : h = h' ∧ p = p' := by simpa [Pc.registered] using hd
      simp
    next =>
      have hmem := hs d h' p' st hd hst
      split
      next => exact Finset.mem_insert_of_mem hmem
      next => exact hmem
  case makeReadOnly name p st hpc hlive hunused =>
    refine hs.of_kept rfl (fun d h p' st' hd hst' => ?_) rfl
    obtain ⟨st, hst, rfl⟩ := (State.update_map_eq_some ..).mp hst'
    refine ⟨st, hst, fun hmem => ?_⟩
    split
    next => rwa [IndexStructure.makeReadOnly_snd_handles]
    next => exact hmem
  case erase name p last st hpc hlive hdone =>
    refine hs.of_kept rfl (fun d h p' st' hd hst' => ?_) rfl
    rw [State.setManager_structures, State.erase_structures, Function.update_apply] at hst'
    split at hst'
    next => cases hst'
    next => exact ⟨st', hst', id⟩
  case unregister name p q h idx hpc hidx hq =>
    refine hs.of_kept rfl (fun d h' p' st' hd hst' => ?_) rfl
    obtain ⟨st, hst, rfl⟩ := (State.update_map_eq_some ..).mp hst'
    refine ⟨st, hst, fun hmem => ?_⟩
    have hne : h' ≠ h := by
      rintro rfl
      obtain ⟨name', hopening⟩ := Pc.opening_of_registered hd
      exact (hres.closing c h' (by rw [hpc]; rfl)).2 d name' p' hopening
    split
    next => exact Finset.mem_erase_of_ne_of_mem hne hmem
    next => exact hmem

end State.Registered

namespace State.Closing

theorem start : State.start.Closing := by
  constructor <;> simp [State.start, Pc.closing]

/-- Steps that close no handle and destroy no structure. -/
theorem of_eq (hs : s.Closing) {t : State} {pc : Pc} (hpc : t.pc = s.pc)
    (hhandles : t.handles = s.handles) (hlive : ∀ p, t.structures p = none → s.structures p = none)
    (hclosing : pc.closing = none) : (t.goto c pc).Closing := by
  have hother : ∀ d h, ((t.goto c pc).pc d).closing = some h → (s.pc d).closing = some h := by
    intro d h hd
    rw [State.goto_closing, hpc, hclosing] at hd
    split at hd
    next => cases hd
    next => exact hd
  constructor
  · intro d h idx hd hidx
    exact hs.shut d h idx (hother d h hd) (hhandles ▸ hidx)
  · intro d h idx p hd hidx hp hnone
    exact hs.owned d h idx p (hother d h hd) (hhandles ▸ hidx) hp (hlive p hnone)

/-- STEP: the one that closes handles is the one that destroys structures. -/
theorem moves (hs : s.Closing) (hcat : s.Catalogued) (hres : s.Reserved) (hhoused : s.Housed)
    (hmoves : Moves s c a s' code) : s'.Closing := by
  cases hmoves
  case refused | taken | unknown => exact hs
  case create | remove | inUse | skip | dbremove => exact hs.of_eq rfl rfl (fun _ hp => hp) rfl
  case register | makeReadOnly | unregister => exact hs.of_eq rfl rfl (by simp) rfl
  case insert =>
    refine hs.of_eq rfl rfl (fun p hp => ?_) rfl
    rw [State.insert_structures, Function.update_apply] at hp
    split at hp
    next => cases hp
    next => exact hp
  case notFound name h hpc _ hfresh _ _ =>
    have hclosing := hres.closing
    obtain ⟨hshut, howned⟩ := hs
    constructor <;> simp <;> grind [Function.update_apply]
  case found name h p hpc _ hfresh _ _ =>
    have hclosing := hres.closing
    obtain ⟨hshut, howned⟩ := hs
    constructor <;> simp <;> grind [Function.update_apply, Pc.closing]
  case opened name h p hpc _ | vanished name h p hpc _ =>
    have hnone : ∀ d, (s.pc d).closing ≠ some h := by
      intro d hd
      exact (hres.closing d h hd).2 c name p (by rw [hpc]; rfl)
    obtain ⟨hshut, howned⟩ := hs
    constructor <;> simp <;> grind [Function.update_apply, Pc.closing]
  case erase name p last st hpc hlive hdone =>
    have hmine := (hcat.removing c name p (by rw [hpc]; rfl)).1
    have halone : ∀ d h, d ≠ c → (s.pc d).closing ≠ some h := by
      intro d h hd hclosing
      obtain ⟨name', p', hremoving⟩ := Pc.removing_of_closing hclosing
      have hother := (hcat.removing d name' p' hremoving).1
      rw [hmine] at hother
      exact hd (Option.some.inj hother).symm
    constructor <;> simp <;> grind [Pc.closing]
  case close name p last st h idx hpc hlive hvisit hidx hopen =>
    obtain ⟨p', st', hp', -, hlive', -⟩ := hhoused h idx hidx hopen
    obtain ⟨hshut, howned⟩ := hs
    constructor <;> simp <;> grind [Function.update_apply, Pc.closing]
  case dbClose =>
    obtain ⟨hshut, howned⟩ := hs
    constructor <;> simp <;> grind [Function.update_apply, Pc.closing]

end State.Closing

namespace State.Housed

theorem start : State.start.Housed := by
  intro h idx hidx
  cases hidx

/-- A handle that is not open needs no home. -/
theorem setHandle (hs : s.Housed) (h : IndexPtr) {new : Option Index}
    (hnew : ∀ idx ∈ new, idx.closed = true) : (s.setHandle h new).Housed := by
  intro h' idx hidx hopen
  rw [State.setHandle_handles, Function.update_apply] at hidx
  split at hidx
  next =>
    rw [hnew idx hidx] at hopen
    cases hopen
  next => exact hs h' idx hidx hopen

/-- A change of a structure that leaves its open handles registered. -/
theorem onStructure (hs : s.Housed) (p : StructurePtr) {f : IndexStructure → IndexStructure}
    (hf : ∀ st h idx, s.handles h = some idx → idx.closed = false → h ∈ st.handles →
      h ∈ (f st).handles) : (s.onStructure p f).Housed := by
  intro h idx hidx hopen
  obtain ⟨q, st, hq, hentry, hst, hmem, hahead⟩ := hs h idx hidx hopen
  have hst' : (s.onStructure p f).structures q = some (if q = p then f st else st) := by
    rw [State.onStructure_structures, State.update_map_eq_some]
    exact ⟨st, hst, rfl⟩
  refine ⟨q, _, hq, hentry, hst', ?_, hahead⟩
  split
  next => exact hf st h idx hidx hopen hmem
  next => exact hmem

/-- A client goes on, with no open handle of the structure that it closes behind it. -/
theorem goto (hs : s.Housed) {pc : Pc}
    (hpc : ∀ p l h idx, pc.closedUpTo = some (p, l) → s.handles h = some idx → idx.closed = false →
      s.indices idx.name = some p → l < h) : (s.goto c pc).Housed := by
  intro h idx hidx hopen
  obtain ⟨p, st, hp, hentry, hst, hmem, hahead⟩ := hs h idx hidx hopen
  refine ⟨p, st, hp, hentry, hst, hmem, fun d l hd => ?_⟩
  rw [State.goto_closedUpTo] at hd
  split at hd
  next => exact hpc p l h idx hd hidx hopen hentry
  next => exact hahead d l hd

theorem goto_elsewhere (hs : s.Housed) {pc : Pc} (hpc : pc.closedUpTo = none) :
    (s.goto c pc).Housed := by
  refine hs.goto fun p l h idx hup => ?_
  rw [hpc] at hup
  cases hup

theorem goto_same (hs : s.Housed) {pc : Pc} (hpc : pc.closedUpTo = (s.pc c).closedUpTo) :
    (s.goto c pc).Housed := by
  refine hs.goto fun p l h idx hup hidx hopen hentry => ?_
  obtain ⟨q, st, -, hq, -, -, hahead⟩ := hs h idx hidx hopen
  rw [hentry] at hq
  obtain rfl := Option.some.inj hq
  exact hahead c l (hpc ▸ hup)

/-- The loop of CloseHandles goes past the handles that it visits. -/
theorem past (hs : s.Housed) {name : String} {last : Option IndexPtr} {st : IndexStructure}
    {h' : IndexPtr} {idx : Index} (hpc : s.pc c = .closeHandles name p last)
    (hlive : s.structures p = some st) (hvisit : nextHandle st.handles last = some h)
    (hidx : s.handles h' = some idx) (hopen : idx.closed = false)
    (hentry : s.indices idx.name = some p) (hne : h' ≠ h) : h < h' := by
  obtain ⟨q, st', -, hq, hst', hmem, hahead⟩ := hs h' idx hidx hopen
  rw [hentry] at hq
  obtain rfl := Option.some.inj hq
  rw [hlive] at hst'
  obtain rfl := Option.some.inj hst'
  by_contra hle
  rcases (nextHandle_eq_some hvisit).2 h' hmem (not_lt.mp hle) with heq | ⟨l, rfl, hl⟩
  · exact hne heq
  · exact absurd (hahead c l (by rw [hpc]; rfl)) (not_lt.mpr hl)

/-- STEP: CloseHandles goes past closed handles only, and destroys the structure behind the last. -/
theorem moves (hs : s.Housed) (hcat : s.Catalogued) (hst : s.Stored) (hregistered : s.Registered)
    (hclosing : s.Closing) (hgood : s.Orderly a) (hmoves : Moves s c a s' code) : s'.Housed := by
  cases hmoves
  case refused | taken | unknown => exact hs
  case create | remove | inUse | dbremove => exact goto_elsewhere hs rfl
  case notFound => exact hs.setHandle _ (by simp)
  case found => exact (hs.setHandle _ (by simp)).goto_elsewhere rfl
  case vanished => exact (hs.setHandle _ (by simp)).goto_elsewhere rfl
  case insert name types hpc hfree =>
    have hnoEntry := (hcat.apart c name (by rw [hpc]; rfl)).2
    refine goto_elsewhere (fun h idx hidx hopen => ?_) rfl
    obtain ⟨p, st, hp, hentry, hlive, hmem, hahead⟩ := hs h idx hidx hopen
    have hname : idx.name ≠ name := by
      intro he
      rw [he, hnoEntry] at hentry
      cases hentry
    have hold : p ≠ s.free := (hst.born p (by rw [hlive]; simp)).ne
    exact ⟨p, st, hp, by simp [hname, hentry], by simp [hold, hlive], hmem, hahead⟩
  case register h p _ =>
    refine (hs.onStructure p fun st h' idx _ _ hmem => ?_).goto_elsewhere rfl
    exact Finset.mem_insert_of_mem hmem
  case makeReadOnly p _ _ _ _ =>
    refine (hs.onStructure p fun st h idx _ _ hmem => ?_).goto_elsewhere rfl
    rwa [IndexStructure.makeReadOnly_snd_handles]
  case opened name h p hpc hthere =>
    obtain ⟨hentry, hpassed⟩ : s.indices name = some p ∧ s.passed p h = false := by
      simp only [Orderly, hpc] at hgood
      exact hgood hthere
    obtain ⟨st, hlive⟩ := Option.ne_none_iff_exists'.mp (hst.held name p hentry)
    refine goto_elsewhere (fun h' idx hidx hopen => ?_) rfl
    rw [State.setHandle_handles, Function.update_apply] at hidx
    split at hidx
    next heq =>
      obtain rfl := Option.some.inj hidx
      subst heq
      refine ⟨p, st, rfl, hentry, hlive, hregistered c h' p st (by rw [hpc]; rfl) hlive, fun d l hd => ?_⟩
      -- whoever closes the handles of `p` has the mutex of the IndexManager
      obtain ⟨name', hremoving⟩ := Pc.removing_of_closedUpTo hd
      have hmanager := (hcat.removing d name' p hremoving).1
      simpa [passed, hmanager, show (s.pc d).closedUpTo = some (p, l) from hd] using hpassed
    next => exact hs h' idx hidx hopen
  case erase name p last st hpc hlive hdone =>
    have hmine := (hcat.removing c name p (by rw [hpc]; rfl)).2
    refine goto_elsewhere (fun h idx hidx hopen => ?_) rfl
    obtain ⟨q, st', hq, hentry, hlive', hmem, hahead⟩ := hs h idx hidx hopen
    have hother : q ≠ p := by
      rintro rfl
      rw [hlive] at hlive'
      obtain rfl := Option.some.inj hlive'
      obtain ⟨l, rfl, hl⟩ := nextHandle_eq_none hdone hmem
      exact absurd (hahead c l (by rw [hpc]; rfl)) (not_lt.mpr hl)
    have hname : idx.name ≠ name := by
      intro he
      rw [he, hmine] at hentry
      exact hother (Option.some.inj hentry).symm
    exact ⟨q, st', hq, by simp [hname, hentry], by simp [hother, hlive'], hmem, hahead⟩
  case skip name p last st h idx hpc hlive hvisit hidx hclosed =>
    refine hs.goto fun p' l h' idx' hup hidx' hopen' hentry => ?_
    obtain ⟨rfl, rfl⟩ : p = p' ∧ h = l := by simpa [Pc.closedUpTo] using hup
    refine hs.past hpc hlive hvisit hidx' hopen' hentry ?_
    rintro rfl
    rw [hidx] at hidx'
    obtain rfl := Option.some.inj hidx'
    simp [hclosed] at hopen'
  case close name p last st h idx hpc hlive hvisit hidx hopen =>
    refine (hs.setHandle h (by simp)).goto fun p' l h' idx' hup hidx' hopen' hentry => ?_
    obtain ⟨rfl, rfl⟩ : p = p' ∧ h = l := by simpa [Pc.closedUpTo] using hup
    rw [State.setHandle_handles, Function.update_apply] at hidx'
    split at hidx'
    next =>
      obtain rfl := Option.some.inj hidx'
      cases hopen'
    next hne => exact hs.past hpc hlive hvisit hidx' hopen' hentry hne
  case dbClose name p h idx hpc hidx =>
    have hshut := hclosing.shut c h idx (by rw [hpc]; rfl) hidx
    exact (hs.setHandle h (by simpa using hshut)).goto_same (by simp [hpc, Pc.closedUpTo])
  case unregister name p q h idx hpc hidx hq =>
    have hshut := hclosing.shut c h idx (by rw [hpc]; rfl) hidx
    refine (hs.onStructure q fun st h' idx' hidx' hopen' hmem => ?_).goto_same
      (by simp [hpc, Pc.closedUpTo])
    refine Finset.mem_erase_of_ne_of_mem ?_ hmem
    rintro rfl
    rw [hidx] at hidx'
    obtain rfl := Option.some.inj hidx'
    simp [hshut] at hopen'

end State.Housed

/-! ### Runs -/

/-- The invariants together. -/
structure State.Safe (s : State) : Prop where
  catalogued : s.Catalogued
  stored : s.Stored
  reserved : s.Reserved
  registered : s.Registered
  closing : s.Closing
  housed : s.Housed

namespace State.Safe

theorem start : State.start.Safe where
  catalogued := State.Catalogued.start
  stored := State.Stored.start
  reserved := State.Reserved.start
  registered := State.Registered.start
  closing := State.Closing.start
  housed := State.Housed.start

theorem step (hs : s.Safe) (hgood : s.Orderly a) (hstep : Opening.step s a = some s') : s'.Safe := by
  obtain ⟨code, hmoves⟩ := moves_of_step hstep
  exact {
    catalogued := hs.catalogued.moves hmoves
    stored := hs.stored.moves hs.catalogued hmoves
    reserved := hs.reserved.moves hs.stored hmoves
    registered := hs.registered.moves hs.reserved hmoves
    closing := hs.closing.moves hs.catalogued hs.reserved hs.housed hmoves
    housed := hs.housed.moves hs.catalogued hs.stored hs.registered hs.closing hgood hmoves }

theorem openLive (hs : s.Safe) : s.OpenLive := by
  intro h idx hidx hopen
  obtain ⟨p, st, hp, hentry, hlive, -⟩ := hs.housed h idx hidx hopen
  exact ⟨p, st, hp, hlive, hentry⟩

/-- The structures that steps touch: those of DeleteIndex are in its hands, and OpenIndex finds its
    structure still held. -/
theorem harmless (hs : s.Safe) (hgood : s.Orderly a) : s.Harmless a := by
  intro p hp
  rw [Option.isSome_iff_ne_none]
  rcases a with ⟨c, call, h⟩ | c
  · cases hp
  · have hheld := hs.stored.held
    have hremoving := hs.catalogued.removing c
    simp only [State.touches, Option.mem_def] at hp
    split at hp
    next name h q hpc =>
      obtain rfl := Option.some.inj hp
      simp only [State.Orderly, hpc] at hgood
      exact hheld name q hgood
    next name q hpc =>
      obtain rfl := Option.some.inj hp
      exact hheld name q (hremoving name q (by rw [hpc]; rfl)).2
    next name q last hpc =>
      obtain rfl := Option.some.inj hp
      exact hheld name q (hremoving name q (by rw [hpc]; rfl)).2
    next name q h hpc =>
      obtain ⟨idx, hidx, hstructure⟩ := Option.bind_eq_some_iff.mp hp
      exact hs.closing.owned c h idx p (by rw [hpc]; rfl) hidx hstructure
    next => cases hp

end State.Safe

/-- RUN: if no DeleteIndex overtakes an OpenIndex, then every open handle has the structure that the
    IndexManager holds under its name, and no step touches a destroyed structure. -/
theorem open_handles_live (acts : List Action) (horderly : Along State.Orderly step State.start acts) :
    Along State.Harmless step State.start acts ∧
      ∀ s, exec step State.start acts = some s → s.OpenLive := by
  have hstep : ∀ (s : State) a s', s.Safe → s.Orderly a → step s a = some s' → s'.Safe :=
    fun s a s' hs => hs.step
  have hsafe : ∀ (s : State) a, s.Safe → s.Orderly a → s.Harmless a := fun s a hs => hs.harmless
  refine ⟨Along.safe hstep hsafe State.Safe.start horderly, fun s hs => ?_⟩
  exact State.Safe.openLive (exec_keeps hstep State.Safe.start horderly hs)

/-- The first client creates two indices. While the third deletes the one that was never opened, the
    second opens the other; the first one is created again and opened. -/
def inTurn : List Action :=
  [.call 0 (.createIndex "a" (some [.kInt])) 0] ++ advances 0 1 ++
  [.call 0 (.createIndex "b" (some [.kShort])) 0] ++ advances 0 1 ++
  [.call 1 (.openIndex "b") 3, .call 2 (.deleteIndex "a") 0] ++ advances 1 1 ++ advances 2 1 ++
  advances 1 1 ++ advances 2 2 ++
  [.call 0 (.createIndex "a" (some [.kVarchar])) 0] ++ advances 0 1 ++
  [.call 1 (.openIndex "a") 5] ++ advances 1 2

theorem open_handles_live_at : Along State.Harmless step State.start inTurn ∧
    ∃ s, exec step State.start inTurn = some s ∧ s.OpenLive ∧ s.structures 0 = none ∧
      (s.handles 3).any (!·.closed) ∧ (s.handles 5).any (!·.closed) := by
  have hrun : (exec step State.start inTurn).any fun s => s.structures 0 = none ∧
      (s.handles 3).any (!·.closed) ∧ (s.handles 5).any (!·.closed) := by decide +kernel
  obtain ⟨s, hs, hat⟩ := (Option.any_eq_true _ _).mp hrun
  have hall := open_handles_live inTurn (by decide +kernel)
  exact ⟨hall.1, s, hs, hall.2 s hs, of_decide_eq_true hat⟩

/-- The second client finds the structure, and the third deletes the index before it is registered
    with. -/
def foundTooEarly : List Action :=
  [.call 0 (.createIndex "a" (some [.kInt])) 0] ++ advances 0 1 ++ [.call 1 (.openIndex "a") 5] ++
  [.call 2 (.deleteIndex "a") 0] ++ advances 2 2 ++ advances 1 1

/-- The second client has registered a handle, which the third does not close for it is not open yet. -/
def openedTooLate : List Action :=
  [.call 0 (.createIndex "a" (some [.kInt])) 0] ++ advances 0 1 ++ [.call 1 (.openIndex "a") 5] ++
  advances 1 1 ++ [.call 2 (.deleteIndex "a") 0] ++ advances 2 3 ++ advances 1 1

/-- DIVERGES: a destroyed structure is written to; and a handle is opened whose structure is gone. -/
theorem overtaken_open : (¬ ∀ acts, Along State.Harmless step State.start acts) ∧
    ¬ ∀ acts s, exec step State.start acts = some s → s.OpenLive := by
  constructor
  · intro hall
    have hharmful : ¬Along State.Harmless step State.start foundTooEarly := by decide +kernel
    exact hharmful (hall foundTooEarly)
  · intro hall
    have hrun : (exec step State.start openedTooLate).any fun s =>
        s.handles 5 = some ⟨"a", some 0, true, false⟩ ∧ s.structures 0 = none := by decide +kernel
    obtain ⟨s, hs, hat⟩ := (Option.any_eq_true _ _).mp hrun
    obtain ⟨hhandle, hgone⟩ := of_decide_eq_true hat
    obtain ⟨p, st, hp, hst, -⟩ := hall openedTooLate s hs 5 _ hhandle rfl
    cases hp
    rw [hgone] at hst
    cases hst

end Contest.Opening
