import ContestIndex.Model.Opening

/-! @src example/BDBImpl.cc, example/Index.cc | name:What calls on the catalogue do to it
    | layer:specification

    Every step is one of the `Moves`; the invariants follow from them. The databases run ahead of the
    IndexManager: a name is entered after its database was created and erased before the database is
    removed, by one client at a time.

        dbs       ───────┬──────────────────────────────┬───────
        indices   ───────────────┬──────────────┬───────────────
                         └ insert┘              └ dbremove -/

namespace Contest.Opening
open Schemes

/-- The arguments that a call refuses. -/
def Call.refused : Call → Bool
  | .createIndex name types => types.all fun types => name = "" ∨ types.length = 0
  | .openIndex name | .deleteIndex name => name = ""

/-- What a step of the client `c` can do, and the status code of a call that it ends. -/
inductive Moves (s : State) (c : ClientId) : Action → State → Option ErrorCode → Prop
  | refused {call : Call} {h : IndexPtr} (idle : s.pc c = .idle) (refused : call.refused = true) :
    Moves s c (.call c call h) s (some .kErrorGenericFailure)
  | taken {name : String} {types : List AttributeType} {h : IndexPtr} (idle : s.pc c = .idle)
    (valid : (Call.createIndex name (some types)).refused = false) (there : s.dbs name = true) :
    Moves s c (.call c (.createIndex name (some types)) h) s (some .kErrorIndexExists)
  | create {name : String} {types : List AttributeType} {h : IndexPtr} (idle : s.pc c = .idle)
    (valid : (Call.createIndex name (some types)).refused = false) (absent : s.dbs name = false) :
    Moves s c (.call c (.createIndex name (some types)) h)
      ((s.setDb name true).goto c (.insert name types)) none
  | notFound {name : String} {h : IndexPtr} (idle : s.pc c = .idle)
    (valid : (Call.openIndex name).refused = false) (fresh : s.handles h = none)
    (unlocked : s.manager = none) (absent : s.indices name = none) :
    Moves s c (.call c (.openIndex name) h) (s.setHandle h (some ⟨name, none, false, true⟩))
      (some .kErrorUnknownIndex)
  | found {name : String} {h : IndexPtr} {p : StructurePtr} (idle : s.pc c = .idle)
    (valid : (Call.openIndex name).refused = false) (fresh : s.handles h = none)
    (unlocked : s.manager = none) (entry : s.indices name = some p) :
    Moves s c (.call c (.openIndex name) h)
      ((s.setHandle h (some ⟨name, some p, false, true⟩)).goto c (.register name h p)) none
  | unknown {name : String} {h : IndexPtr} (idle : s.pc c = .idle)
    (valid : (Call.deleteIndex name).refused = false) (unlocked : s.manager = none)
    (absent : s.indices name = none) :
    Moves s c (.call c (.deleteIndex name) h) s (some .kErrorUnknownIndex)
  | remove {name : String} {h : IndexPtr} {p : StructurePtr} (idle : s.pc c = .idle)
    (valid : (Call.deleteIndex name).refused = false) (unlocked : s.manager = none)
    (entry : s.indices name = some p) :
    Moves s c (.call c (.deleteIndex name) h)
      ((s.setManager (some c)).goto c (.makeReadOnly name p)) none
  | insert {name : String} {types : List AttributeType} (here : s.pc c = .insert name types)
    (unlocked : s.manager = none) :
    Moves s c (.advance c) ((s.insert name types).goto c .idle) (some .kOk)
  | register {name : String} {h : IndexPtr} {p : StructurePtr} (here : s.pc c = .register name h p) :
    Moves s c (.advance c)
      ((s.onStructure p fun st => { st with handles := Insert.insert h st.handles }).goto c
        (.dbOpen name h p)) none
  | opened {name : String} {h : IndexPtr} {p : StructurePtr} (here : s.pc c = .dbOpen name h p)
    (there : s.dbs name = true) :
    Moves s c (.advance c) ((s.setHandle h (some ⟨name, some p, true, false⟩)).goto c .idle)
      (some .kOk)
  | vanished {name : String} {h : IndexPtr} {p : StructurePtr} (here : s.pc c = .dbOpen name h p)
    (absent : s.dbs name = false) :
    Moves s c (.advance c) ((s.setHandle h none).goto c .idle) (some .kErrorUnknownIndex)
  | makeReadOnly {name : String} {p : StructurePtr} {st : IndexStructure}
    (here : s.pc c = .makeReadOnly name p) (live : s.structures p = some st)
    (unused : st.transactions = ∅) :
    Moves s c (.advance c)
      ((s.onStructure p fun st => st.makeReadOnly.2).goto c (.closeHandles name p none)) none
  | inUse {name : String} {p : StructurePtr} {st : IndexStructure}
    (here : s.pc c = .makeReadOnly name p) (live : s.structures p = some st)
    (used : st.transactions ≠ ∅) :
    Moves s c (.advance c) ((s.setManager none).goto c .idle) (some .kErrorOpenTransactions)
  | erase {name : String} {p : StructurePtr} {last : Option IndexPtr} {st : IndexStructure}
    (here : s.pc c = .closeHandles name p last) (live : s.structures p = some st)
    (done : nextHandle st.handles last = none) :
    Moves s c (.advance c) (((s.erase name p).setManager none).goto c (.dbremove name)) none
  | skip {name : String} {p : StructurePtr} {last : Option IndexPtr} {st : IndexStructure}
    {h : IndexPtr} {idx : Index} (here : s.pc c = .closeHandles name p last)
    (live : s.structures p = some st) (visit : nextHandle st.handles last = some h)
    (handle : s.handles h = some idx) (closed : idx.closed = true) :
    Moves s c (.advance c) (s.goto c (.closeHandles name p (some h))) none
  | close {name : String} {p : StructurePtr} {last : Option IndexPtr} {st : IndexStructure}
    {h : IndexPtr} {idx : Index} (here : s.pc c = .closeHandles name p last)
    (live : s.structures p = some st) (visit : nextHandle st.handles last = some h)
    (handle : s.handles h = some idx) (isOpen : idx.closed = false) :
    Moves s c (.advance c)
      ((s.setHandle h (some { idx with closed := true })).goto c (.dbClose name p h)) none
  | dbClose {name : String} {p : StructurePtr} {h : IndexPtr} {idx : Index}
    (here : s.pc c = .dbClose name p h) (handle : s.handles h = some idx) :
    Moves s c (.advance c)
      ((s.setHandle h (some { idx with db := false })).goto c (.unregister name p h)) none
  | unregister {name : String} {p q : StructurePtr} {h : IndexPtr} {idx : Index}
    (here : s.pc c = .unregister name p h) (handle : s.handles h = some idx)
    (structure_ : idx.structure_ = some q) :
    Moves s c (.advance c)
      ((s.onStructure q fun st => { st with handles := st.handles.erase h }).goto c
        (.closeHandles name p (some h))) none
  | dbremove {name : String} (here : s.pc c = .dbremove name) :
    Moves s c (.advance c) ((s.setDb name false).goto c .idle)
      (some (if s.dbs name then .kOk else .kErrorUnknownIndex))

variable {s s' : State} {a : Action} {c : ClientId} {call : Call} {h : IndexPtr}
  {code : Option ErrorCode}

theorem moves_of_begin (hidle : s.pc c = .idle) (hbegin : begin s c h call = some (s', code)) :
    Moves s c (.call c call h) s' code := by
  cases call with
  | createIndex name types =>
    rcases types with _ | types
    · cases hbegin
      exact .refused hidle rfl
    · rw [begin] at hbegin
      split at hbegin
      next hbad =>
        cases hbegin
        exact .refused hidle (by simpa [Call.refused] using hbad)
      next hgood =>
        have hvalid : (Call.createIndex name (some types)).refused = false := by
          simpa [Call.refused] using hgood
        split at hbegin
        next hthere =>
          cases hbegin
          exact .taken hidle hvalid hthere
        next habsent =>
          cases hbegin
          exact .create hidle hvalid (by simpa using habsent)
  | openIndex name =>
    rw [begin] at hbegin
    split at hbegin
    next hbad =>
      cases hbegin
      exact .refused hidle (by simpa [Call.refused] using hbad)
    next hgood =>
      have hvalid : (Call.openIndex name).refused = false := by simpa [Call.refused] using hgood
      split at hbegin
      next hfree =>
        rcases hentry : s.indices name with _ | p
        · simp only [hentry, Option.some.injEq, Prod.mk.injEq] at hbegin
          obtain ⟨rfl, rfl⟩ := hbegin
          exact .notFound hidle hvalid hfree.1 hfree.2 hentry
        · simp only [hentry, Option.some.injEq, Prod.mk.injEq] at hbegin
          obtain ⟨rfl, rfl⟩ := hbegin
          exact .found hidle hvalid hfree.1 hfree.2 hentry
      next => cases hbegin
  | deleteIndex name =>
    rw [begin] at hbegin
    split at hbegin
    next hbad =>
      cases hbegin
      exact .refused hidle (by simpa [Call.refused] using hbad)
    next hgood =>
      have hvalid : (Call.deleteIndex name).refused = false := by simpa [Call.refused] using hgood
      split at hbegin
      next hfree =>
        rcases hentry : s.indices name with _ | p
        · simp only [hentry, Option.some.injEq, Prod.mk.injEq] at hbegin
          obtain ⟨rfl, rfl⟩ := hbegin
          exact .unknown hidle hvalid hfree hentry
        · simp only [hentry, Option.some.injEq, Prod.mk.injEq] at hbegin
          obtain ⟨rfl, rfl⟩ := hbegin
          exact .remove hidle hvalid hfree hentry
      next => cases hbegin

theorem moves_of_next (hnext : next s c (s.pc c) = some (s', code)) :
    Moves s c (.advance c) s' code := by
  rcases hpc : s.pc c with _ | ⟨name, types⟩ | ⟨name, h, p⟩ | ⟨name, h, p⟩ | ⟨name, p⟩ |
    ⟨name, p, last⟩ | ⟨name, p, h⟩ | ⟨name, p, h⟩ | name
  all_goals rw [hpc] at hnext
  · cases hnext
  · rw [next] at hnext
    split at hnext
    next hfree =>
      cases hnext
      exact .insert hpc hfree
    next => cases hnext
  · cases hnext
    exact .register hpc
  · rw [next] at hnext
    split at hnext
    next hthere =>
      cases hnext
      exact .opened hpc hthere
    next habsent =>
      cases hnext
      exact .vanished hpc (by simpa using habsent)
  · obtain ⟨st, hlive, hnext⟩ := Option.bind_eq_some_iff.mp hnext
    split at hnext
    next hunused =>
      cases hnext
      exact .makeReadOnly hpc hlive (IndexStructure.makeReadOnly_fst_eq_true.mp hunused)
    next hused =>
      cases hnext
      exact .inUse hpc hlive fun he => hused (IndexStructure.makeReadOnly_fst_eq_true.mpr he)
  · obtain ⟨st, hlive, hnext⟩ := Option.bind_eq_some_iff.mp hnext
    rcases hvisit : nextHandle st.handles last with _ | h
    · simp only [hvisit, Option.some.injEq, Prod.mk.injEq] at hnext
      obtain ⟨rfl, rfl⟩ := hnext
      exact .erase hpc hlive hvisit
    · simp only [hvisit] at hnext
      obtain ⟨idx, hidx, hnext⟩ := Option.bind_eq_some_iff.mp hnext
      split at hnext
      next hclosed =>
        cases hnext
        exact .skip hpc hlive hvisit hidx hclosed
      next hopen =>
        cases hnext
        exact .close hpc hlive hvisit hidx (by simpa using hopen)
  · obtain ⟨idx, hidx, hnext⟩ := Option.bind_eq_some_iff.mp hnext
    cases hnext
    exact .dbClose hpc hidx
  · obtain ⟨idx, hidx, hnext⟩ := Option.bind_eq_some_iff.mp hnext
    obtain ⟨q, hq, hnext⟩ := Option.bind_eq_some_iff.mp hnext
    cases hnext
    exact .unregister hpc hidx hq
  · cases hnext
    exact .dbremove hpc

theorem moves_of_answer (hanswer : answer s a = some (s', code)) :
    Moves s a.client a s' code := by
  rcases a with ⟨c, call, h⟩ | c
  · rw [answer] at hanswer
    split at hanswer
    next hidle => exact moves_of_begin hidle hanswer
    next => cases hanswer
  · exact moves_of_next hanswer

theorem moves_of_step (hstep : step s a = some s') : ∃ code, Moves s a.client a s' code := by
  obtain ⟨⟨t, code⟩, hanswer, rfl⟩ := Option.map_eq_some_iff.mp hstep
  exact ⟨code, moves_of_answer hanswer⟩

/-- The next `n` steps of the client's call. -/
def advances (c : ClientId) (n : Nat) : List Action := List.replicate n (.advance c)

/-! ### The databases and the entries of the IndexManager -/

/-- The name whose database and entry the client has brought apart. -/
def Pc.apart : Pc → Option String
  | .insert name _ | .dbremove name => some name
  | .idle | .register _ _ _ | .dbOpen _ _ _ | .makeReadOnly _ _ | .closeHandles _ _ _
  | .dbClose _ _ _ | .unregister _ _ _ => none

/-- What the client is about to take from the IndexManager, whose mutex it holds. -/
def Pc.removing : Pc → Option (String × StructurePtr)
  | .makeReadOnly name p | .closeHandles name p _ | .dbClose name p _ | .unregister name p _ =>
    some (name, p)
  | .idle | .insert _ _ | .register _ _ _ | .dbOpen _ _ _ | .dbremove _ => none

structure State.Catalogued (s : State) : Prop where
  entered : ∀ name, s.dbs name = false → s.indices name = none
  apart : ∀ c name, (s.pc c).apart = some name → s.dbs name = true ∧ s.indices name = none
  alone : ∀ c d name, (s.pc c).apart = some name → (s.pc d).apart = some name → c = d
  removing : ∀ c name p, (s.pc c).removing = some (name, p) →
    s.manager = some c ∧ s.indices name = some p
  unused : ∀ p st, s.structures p = some st → st.transactions = ∅

namespace State

theorem goto_pc (s : State) (c d : ClientId) (pc : Pc) :
    (s.goto c pc).pc d = if d = c then pc else s.pc d := Function.update_apply ..

/-- What the client's new place shares with its old one. -/
theorem goto_keeps {β : Type} (s : State) (f : Pc → β) {t : State} {pc : Pc} (ht : t.pc = s.pc)
    (hsame : f pc = f (s.pc c)) (d : ClientId) : f ((t.goto c pc).pc d) = f (s.pc d) := by
  rw [goto_pc, ht]
  split
  next hd => rw [hd, hsame]
  next => rfl

@[simp] theorem goto_apart (s : State) (c d : ClientId) (pc : Pc) :
    ((s.goto c pc).pc d).apart = if d = c then pc.apart else (s.pc d).apart := by
  rw [goto_pc, apply_ite Pc.apart]

@[simp] theorem goto_removing (s : State) (c d : ClientId) (pc : Pc) :
    ((s.goto c pc).pc d).removing = if d = c then pc.removing else (s.pc d).removing := by
  rw [goto_pc, apply_ite Pc.removing]

end State

namespace State.Catalogued

theorem start : State.start.Catalogued := by
  constructor <;> simp [State.start, Pc.apart, Pc.removing]

/-- Steps on handles and on the handle sets of structures. -/
theorem of_eq (hs : s.Catalogued) (hdbs : s'.dbs = s.dbs) (hindices : s'.indices = s.indices)
    (hmanager : s'.manager = s.manager) (hpc : ∀ d, (s'.pc d).apart = (s.pc d).apart ∧
      (s'.pc d).removing = (s.pc d).removing)
    (hstructures : ∀ p st', s'.structures p = some st' →
      ∃ st, s.structures p = some st ∧ st'.transactions = st.transactions) : s'.Catalogued where
  entered name h := by rw [hindices]; exact hs.entered name (hdbs ▸ h)
  apart d name h := by rw [hdbs, hindices]; exact hs.apart d name ((hpc d).1 ▸ h)
  alone d e name hd he := hs.alone d e name ((hpc d).1 ▸ hd) ((hpc e).1 ▸ he)
  removing d name p h := by rw [hmanager, hindices]; exact hs.removing d name p ((hpc d).2 ▸ h)
  unused p st' h := by
    obtain ⟨st, hp, ht⟩ := hstructures p st' h
    rw [ht, hs.unused p st hp]

theorem goto (hs : s.Catalogued) {pc : Pc} (happart : pc.apart = (s.pc c).apart)
    (hremoving : pc.removing = (s.pc c).removing) : (s.goto c pc).Catalogued := by
  refine hs.of_eq rfl rfl rfl (fun d => ?_) fun _ st h => ⟨st, h, rfl⟩
  rw [State.goto_apart, State.goto_removing, happart, hremoving]
  constructor <;> split <;> simp_all

theorem setHandle (hs : s.Catalogued) (h : IndexPtr) (idx : Option Index) :
    (s.setHandle h idx).Catalogued :=
  hs.of_eq rfl rfl rfl (fun _ => ⟨rfl, rfl⟩) fun _ st h => ⟨st, h, rfl⟩

theorem onStructure (hs : s.Catalogued) (p : StructurePtr) {f : IndexStructure → IndexStructure}
    (hf : ∀ st, (f st).transactions = st.transactions) : (s.onStructure p f).Catalogued := by
  refine hs.of_eq rfl rfl rfl (fun _ => ⟨rfl, rfl⟩) fun q st' hq => ?_
  rw [State.onStructure_structures, Function.update_apply] at hq
  split at hq
  next hqp =>
    obtain ⟨st, hst, rfl⟩ := Option.map_eq_some_iff.mp hq
    exact ⟨st, hqp ▸ hst, hf st⟩
  next => exact ⟨st', hq, rfl⟩

/-- STEP: a database without an entry is the concern of one client, and so is an entry that goes. -/
theorem moves (hs : s.Catalogued) (hmoves : Moves s c a s' code) : s'.Catalogued := by
  cases hmoves
  case refused | taken | unknown => exact hs
  case notFound => exact hs.setHandle _ _
  case found hpc _ _ _ _ =>
    exact (hs.setHandle _ _).goto (by simp [hpc, Pc.apart]) (by simp [hpc, Pc.removing])
  case opened hpc _ | vanished hpc _ =>
    exact (hs.setHandle _ _).goto (by simp [hpc, Pc.apart]) (by simp [hpc, Pc.removing])
  case makeReadOnly hpc _ _ =>
    refine (hs.onStructure _ fun st => ?_).goto (by simp [hpc, Pc.apart]) (by simp [hpc, Pc.removing])
    exact st.makeReadOnly_snd_transactions
  case skip hpc _ _ _ _ => exact hs.goto (by simp [hpc, Pc.apart]) (by simp [hpc, Pc.removing])
  case close hpc _ _ _ _ =>
    exact (hs.setHandle _ _).goto (by simp [hpc, Pc.apart]) (by simp [hpc, Pc.removing])
  case dbClose hpc _ =>
    exact (hs.setHandle _ _).goto (by simp [hpc, Pc.apart]) (by simp [hpc, Pc.removing])
  case register hpc | unregister hpc _ _ =>
    refine (hs.onStructure _ fun st => ?_).goto (by simp [hpc, Pc.apart]) (by simp [hpc, Pc.removing])
    rfl
  case create name _ _ hpc _ habsent =>
    have hnoEntry := hs.entered name habsent
    obtain ⟨hentered, hapart, halone, hremoving, hunused⟩ := hs
    constructor <;> simp <;> grind [Function.update_apply, Pc.apart, Pc.removing]
  case remove name _ p hpc _ hfree hentry =>
    obtain ⟨hentered, hapart, halone, hremoving, hunused⟩ := hs
    constructor <;> simp <;> grind [Pc.apart, Pc.removing]
  case insert name types hpc hfree =>
    have hmine := hs.apart c name (by rw [hpc]; rfl)
    obtain ⟨hentered, hapart, halone, hremoving, hunused⟩ := hs
    constructor <;> simp <;>
      grind [Function.update_apply, Pc.apart, Pc.removing, IndexStructure.new]
  case inUse name p st hpc hlive hused => exact absurd (hs.unused p st hlive) hused
  case erase name p last st hpc hlive _ =>
    have hmine := hs.removing c name p (by rw [hpc]; rfl)
    obtain ⟨hentered, hapart, halone, hremoving, hunused⟩ := hs
    constructor <;> simp <;> grind [Function.update_apply, Pc.apart, Pc.removing]
  case dbremove name hpc =>
    have hmine := hs.apart c name (by rw [hpc]; rfl)
    obtain ⟨hentered, hapart, halone, hremoving, hunused⟩ := hs
    constructor <;> simp <;> grind [Function.update_apply, Pc.apart, Pc.removing]

end State.Catalogued

end Contest.Opening
