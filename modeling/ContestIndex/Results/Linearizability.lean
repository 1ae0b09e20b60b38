import ContestIndex.Results.Openings
import ContestIndex.Schemes.Linearization

/-! @src example/BDBImpl.cc, example/Index.cc | name:The order of calls on the catalogue
    | layer:specification

    What the calls should look like from outside: each takes effect at once on one map from names to
    key types. CreateIndex and DeleteIndex change the databases and the entries of the IndexManager in
    two steps, and in between both answers can be got: another CreateIndex goes by the database, OpenIndex
    and DeleteIndex go by the entry.

        CreateIndex   Db::open ─────────────── insert        DeleteIndex   erase ──────────── dbremove
        database      ▔▔▔▔▔▔▔▔▔▔▔▔▔▔▔▔▔▔▔▔▔▔▔▔▔▔▔▔▔▔                      ▔▔▔▔▔▔▔▔▔▔▔▔▔▔▔▔▔▔
        entry                                ▔▔▔▔▔▔▔

    There is an order as long as the answers in one such window come in the order that the window
    needs: first unknown and then exists while it is created, first exists and then unknown while it is
    deleted. -/

namespace Contest.Opening
open Schemes

/-- The calls on one map from names to key types. -/
def catalogue (m : String → Option (List AttributeType)) (call : Call) :
    ErrorCode × (String → Option (List AttributeType)) :=
  if call.refused then (.kErrorGenericFailure, m)
  else
    match call with
    | .createIndex name types =>
      if (m name).isSome then (.kErrorIndexExists, m) else (.kOk, Function.update m name types)
    | .openIndex name => (if (m name).isSome then .kOk else .kErrorUnknownIndex, m)
    | .deleteIndex name =>
      if (m name).isSome then (.kOk, Function.update m name none) else (.kErrorUnknownIndex, m)

/-- Whether database and entry of a name agree, or else who has brought them apart, and whether another
    call has gone by what is there at the end of this. -/
inductive Window where
  | shut
  | creating (noticed : Bool)
  | deleting (noticed : Bool)
  deriving DecidableEq

namespace Window

/-- A CreateIndex has found the database. -/
def sawDatabase : Window → Window
  | creating _ => creating true
  | w => w

/-- An OpenIndex or a DeleteIndex has found no entry. -/
def sawNoEntry : Window → Window
  | deleting _ => deleting true
  | w => w

def isCreating : Window → Bool
  | creating _ => true
  | shut | deleting _ => false

def isDeleting : Window → Bool
  | deleting _ => true
  | shut | creating _ => false

/-- The answer of the call that has opened the window, once the call has taken effect. -/
def taken : Window → Option ErrorCode
  | creating true | deleting true => some .kOk
  | _ => none

/-- Whether the name is in the map. -/
def there (db : Bool) : Window → Bool
  | shut => db
  | creating noticed => noticed
  | deleting noticed => !noticed

end Window

/-- The machine with what a bystander sees of it: the calls and answers so far, by their numbers, and
    who has looked at what while database and entry were apart. -/
structure Observed where
  state : State
  history : List (Event Call ErrorCode)
  calls : Nat
  current : ClientId → Nat
  window : String → Window

namespace Observed

def start : Observed where
  state := State.start
  history := []
  calls := 0
  current _ := 0
  window _ := .shut

/-- The windows after a step to the state `s'`. -/
def windowAfter (o : Observed) (s' : State) : Action → String → Window
  | .call _ call _ =>
    if call.refused then o.window
    else
      match call with
      | .createIndex name _ =>
        Function.update o.window name
          (if o.state.dbs name then (o.window name).sawDatabase else .creating false)
      | .openIndex name | .deleteIndex name =>
        Function.update o.window name
          (if o.state.indices name = none then (o.window name).sawNoEntry else o.window name)
  | .advance c =>
    match o.state.pc c, s'.pc c with
    | .insert name _, _ | .dbremove name, _ => Function.update o.window name .shut
    | .closeHandles _ _ _, .dbremove name => Function.update o.window name (.deleting false)
    | _, _ => o.window

/-- Write down that a call begins. -/
def noteCall (o : Observed) : Action → Observed
  | .call c call _ =>
    { o with history := o.history ++ [.call o.calls call], calls := o.calls + 1,
             current := Function.update o.current c o.calls }
  | .advance _ => o

def noteAnswer (o : Observed) (c : ClientId) : Option ErrorCode → Observed
  | some code => { o with history := o.history ++ [.answer (o.current c) code] }
  | none => o

/-- The step to the state `s'`, which ends a call with `code` if it ends one. -/
def after (o : Observed) (a : Action) (s' : State) (code : Option ErrorCode) : Observed :=
  { ((o.noteCall a).noteAnswer a.client code) with state := s', window := o.windowAfter s' a }

def step (o : Observed) (a : Action) : Option Observed :=
  (answer o.state a).map fun (s', code) => o.after a s' code

/-- Nobody looks at the old side of a name behind somebody who has looked at its new side: no OpenIndex
    or DeleteIndex looks for the entry of a half created index whose database another CreateIndex has
    found, and no CreateIndex looks for the database of a half deleted one whose entry was missed. -/
def Orderly (o : Observed) : Action → Prop
  | .call _ (.createIndex name types) _ =>
    (Call.createIndex name types).refused = false → o.window name ≠ .deleting true
  | .call _ (.openIndex name) _ | .call _ (.deleteIndex name) _ => o.window name ≠ .creating true
  | .advance _ => True

instance Orderly.decidable (o : Observed) : DecidablePred o.Orderly := fun a => by
  unfold Orderly
  split <;> infer_instance

end Observed

/-- The call that a client is in. -/
def Pc.call : Pc → Option Call
  | .idle => none
  | .insert name types => some (.createIndex name (some types))
  | .register name _ _ | .dbOpen name _ _ => some (.openIndex name)
  | .makeReadOnly name _ | .closeHandles name _ _ | .dbClose name _ _ | .unregister name _ _
  | .dbremove name => some (.deleteIndex name)

/-- The answer of this call, if it has taken effect. -/
def Pc.effect (window : String → Window) : Pc → Option ErrorCode
  | .insert name _ | .dbremove name => (window name).taken
  | .register _ _ _ | .dbOpen _ _ _ => some .kOk
  | .idle | .makeReadOnly _ _ | .closeHandles _ _ _ | .dbClose _ _ _ | .unregister _ _ _ => none

def Pc.creating : Pc → Option String
  | .insert name _ => some name
  | .idle | .register _ _ _ | .dbOpen _ _ _ | .makeReadOnly _ _ | .closeHandles _ _ _
  | .dbClose _ _ _ | .unregister _ _ _ | .dbremove _ => none

def Pc.deleting : Pc → Option String
  | .dbremove name => some name
  | .idle | .insert _ _ | .register _ _ _ | .dbOpen _ _ _ | .makeReadOnly _ _ | .closeHandles _ _ _
  | .dbClose _ _ _ | .unregister _ _ _ => none

theorem Pc.apart_of_creating {pc : Pc} {name : String} (h : pc.creating = some name) :
    pc.apart = some name := by
  cases pc <;> simp_all [Pc.creating, Pc.apart]

theorem Pc.apart_of_deleting {pc : Pc} {name : String} (h : pc.deleting = some name) :
    pc.apart = some name := by
  cases pc <;> simp_all [Pc.deleting, Pc.apart]

theorem Pc.call_of_creating {pc : Pc} {name : String} (h : pc.creating = some name) :
    ∃ types, pc.call = some (.createIndex name (some types)) := by
  cases pc <;> simp_all [Pc.creating, Pc.call]

theorem Pc.call_of_deleting {pc : Pc} {name : String} (h : pc.deleting = some name) :
    pc.call = some (.deleteIndex name) := by
  cases pc <;> simp_all [Pc.deleting, Pc.call]

namespace State

/-- Nobody has brought apart a name without a database, or with an entry. -/
theorem Catalogued.not_apart {s : State} {name : String} (hs : s.Catalogued)
    (hname : s.dbs name = false ∨ s.indices name ≠ none) (c : ClientId) :
    (s.pc c).creating ≠ some name ∧ (s.pc c).deleting ≠ some name := by
  have hnone : (s.pc c).apart ≠ some name := by
    intro hc
    obtain ⟨hdb, hentry⟩ := hs.apart c name hc
    rcases hname with hno | hsome
    · simp [hdb] at hno
    · exact hsome hentry
  exact ⟨fun hc => hnone (Pc.apart_of_creating hc), fun hc => hnone (Pc.apart_of_deleting hc)⟩

theorem Catalogued.only_apart {s : State} {name : String} {c : ClientId} (hs : s.Catalogued)
    (hc : (s.pc c).apart = some name) (d : ClientId)
    (hd : (s.pc d).creating = some name ∨ (s.pc d).deleting = some name) : d = c := by
  rcases hd with hd | hd
  · exact hs.alone d c name (Pc.apart_of_creating hd) hc
  · exact hs.alone d c name (Pc.apart_of_deleting hd) hc

@[simp] theorem goto_creating (s : State) (c d : ClientId) (pc : Pc) :
    ((s.goto c pc).pc d).creating = if d = c then pc.creating else (s.pc d).creating := by
  rw [goto_pc, apply_ite Pc.creating]

@[simp] theorem goto_deleting (s : State) (c d : ClientId) (pc : Pc) :
    ((s.goto c pc).pc d).deleting = if d = c then pc.deleting else (s.pc d).deleting := by
  rw [goto_pc, apply_ite Pc.deleting]

end State

namespace Observed

/-- The calls in progress, with the answers of those that have taken effect. -/
def pending (o : Observed) : ClientId → Option (Call × Option ErrorCode) :=
  fun c => (o.state.pc c).call.map fun call => (call, (o.state.pc c).effect o.window)

/-- The windows are those of the clients that have brought database and entry of a name apart. -/
structure Framed (o : Observed) : Prop where
  creating : ∀ name, (o.window name).isCreating = true ↔ ∃ c, (o.state.pc c).creating = some name
  deleting : ∀ name, (o.window name).isDeleting = true ↔ ∃ c, (o.state.pc c).deleting = some name
  shut : ∀ name, o.window name = .shut → o.state.dbs name = true → o.state.indices name ≠ none

/-- The calls so far can be explained, and the map is then what the windows say. -/
def ExplainedBy (o : Observed) (m : String → Option (List AttributeType)) : Prop :=
  Explained catalogue (fun _ => none) o.history o.calls o.current o.pending m ∧
    ∀ name, (m name).isSome = (o.window name).there (o.state.dbs name)

/-- What holds in every state of a run. -/
structure Ordered (o : Observed) : Prop where
  catalogued : o.state.Catalogued
  framed : o.Framed
  valid : ∀ c call, (o.state.pc c).call = some call → call.refused = false
  explained : ∃ m, o.ExplainedBy m

end Observed

variable {o : Observed} {a : Action} {c : ClientId} {s' : State} {code : Option ErrorCode}

namespace Observed

@[simp] theorem after_state : (o.after a s' code).state = s' := rfl
@[simp] theorem after_window : (o.after a s' code).window = o.windowAfter s' a := rfl

section
variable {name : String} {types : Option (List AttributeType)} {h : IndexPtr} {p : StructurePtr}

theorem windowAfter_refused {call : Call} (hcall : call.refused = true) :
    o.windowAfter s' (.call c call h) = o.window := by
  simp [windowAfter, hcall]

theorem windowAfter_taken (hvalid : (Call.createIndex name types).refused = false)
    (hthere : o.state.dbs name = true) : o.windowAfter s' (.call c (.createIndex name types) h) =
      Function.update o.window name (o.window name).sawDatabase := by
  simp [windowAfter, hvalid, hthere]

theorem windowAfter_create (hvalid : (Call.createIndex name types).refused = false)
    (habsent : o.state.dbs name = false) : o.windowAfter s' (.call c (.createIndex name types) h) =
      Function.update o.window name (.creating false) := by
  simp [windowAfter, hvalid, habsent]

theorem windowAfter_notFound (hvalid : (Call.openIndex name).refused = false)
    (habsent : o.state.indices name = none) : o.windowAfter s' (.call c (.openIndex name) h) =
      Function.update o.window name (o.window name).sawNoEntry := by
  simp [windowAfter, hvalid, habsent]

theorem windowAfter_unknown (hvalid : (Call.deleteIndex name).refused = false)
    (habsent : o.state.indices name = none) : o.windowAfter s' (.call c (.deleteIndex name) h) =
      Function.update o.window name (o.window name).sawNoEntry := by
  simp [windowAfter, hvalid, habsent]

theorem windowAfter_found (hvalid : (Call.openIndex name).refused = false)
    (hentry : o.state.indices name = some p) :
    o.windowAfter s' (.call c (.openIndex name) h) = o.window := by
  simp [windowAfter, hvalid, hentry]

theorem windowAfter_remove (hvalid : (Call.deleteIndex name).refused = false)
    (hentry : o.state.indices name = some p) :
    o.windowAfter s' (.call c (.deleteIndex name) h) = o.window := by
  simp [windowAfter, hvalid, hentry]

end

end Observed

namespace Window

@[simp] theorem sawDatabase_isCreating (w : Window) : w.sawDatabase.isCreating = w.isCreating := by
  cases w <;> rfl
@[simp] theorem sawDatabase_isDeleting (w : Window) : w.sawDatabase.isDeleting = w.isDeleting := by
  cases w <;> rfl
@[simp] theorem sawNoEntry_isCreating (w : Window) : w.sawNoEntry.isCreating = w.isCreating := by
  cases w <;> rfl
@[simp] theorem sawNoEntry_isDeleting (w : Window) : w.sawNoEntry.isDeleting = w.isDeleting := by
  cases w <;> rfl

theorem eq_shut_iff {w : Window} : w = .shut ↔ w.isCreating = false ∧ w.isDeleting = false := by
  cases w <;> simp [isCreating, isDeleting]

end Window

namespace Observed.Framed

theorem start : Observed.start.Framed := by
  constructor <;>
    simp [Observed.start, State.start, Window.isCreating, Window.isDeleting, Pc.creating, Pc.deleting]

/-- Steps that open and shut no window. -/
theorem of_same (ho : o.Framed) {o' : Observed} (hdbs : o'.state.dbs = o.state.dbs)
    (hindices : o'.state.indices = o.state.indices)
    (hwindow : ∀ name, (o'.window name).isCreating = (o.window name).isCreating ∧
      (o'.window name).isDeleting = (o.window name).isDeleting)
    (hpc : ∀ d, (o'.state.pc d).creating = (o.state.pc d).creating ∧
      (o'.state.pc d).deleting = (o.state.pc d).deleting) : o'.Framed where
  creating name := by simp only [hwindow, hpc, ho.creating]
  deleting name := by simp only [hwindow, hpc, ho.deleting]
  shut name hshut hdb := by
    rw [Window.eq_shut_iff, (hwindow name).1, (hwindow name).2, ← Window.eq_shut_iff] at hshut
    rw [hindices]
    exact ho.shut name hshut (hdbs ▸ hdb)

/-- STEP: a window opens with the first change of a name and shuts with the second. -/
theorem moves (ho : o.Framed) (hcat : o.state.Catalogued) (hmoves : Moves o.state c a s' code) :
    (o.after a s' code).Framed := by
  cases hmoves
  case refused call h hpc hrefused =>
    refine ho.of_same rfl rfl (fun name => ?_) fun _ => ⟨rfl, rfl⟩
    rw [after_window, windowAfter_refused hrefused]
    exact ⟨rfl, rfl⟩
  case taken name types h hpc hvalid hthere =>
    refine ho.of_same rfl rfl (fun name' => ?_) fun _ => ⟨rfl, rfl⟩
    rw [after_window, windowAfter_taken hvalid hthere, Function.update_apply]
    split
    next heq => simp [heq]
    next => exact ⟨rfl, rfl⟩
  case notFound name h hpc hvalid _ _ habsent =>
    refine ho.of_same rfl rfl (fun name' => ?_) fun _ => ⟨rfl, rfl⟩
    rw [after_window, windowAfter_notFound hvalid habsent, Function.update_apply]
    split
    next heq => simp [heq]
    next => exact ⟨rfl, rfl⟩
  case unknown name h hpc hvalid _ habsent =>
    refine ho.of_same rfl rfl (fun name' => ?_) fun _ => ⟨rfl, rfl⟩
    rw [after_window, windowAfter_unknown hvalid habsent, Function.update_apply]
    split
    next heq => simp [heq]
    next => exact ⟨rfl, rfl⟩
  case found name h p hpc hvalid _ _ hentry =>
    refine ho.of_same rfl rfl (fun _ => ?_) fun d =>
      ⟨State.goto_keeps o.state Pc.creating rfl (by rw [hpc]; rfl) d,
        State.goto_keeps o.state Pc.deleting rfl (by rw [hpc]; rfl) d⟩
    rw [after_window, windowAfter_found hvalid hentry]
    exact ⟨rfl, rfl⟩
  case remove name h p hpc hvalid _ hentry =>
    refine ho.of_same rfl rfl (fun _ => ?_) fun d =>
      ⟨State.goto_keeps o.state Pc.creating rfl (by rw [hpc]; rfl) d,
        State.goto_keeps o.state Pc.deleting rfl (by rw [hpc]; rfl) d⟩
    rw [after_window, windowAfter_remove hvalid hentry]
    exact ⟨rfl, rfl⟩
  case register hpc | opened hpc _ | vanished hpc _ | makeReadOnly hpc _ _ | inUse hpc _ _ |
      skip hpc _ _ _ _ | close hpc _ _ _ _ | dbClose hpc _ | unregister hpc _ _ =>
    refine ho.of_same rfl rfl (fun _ => ?_) fun d =>
      ⟨State.goto_keeps o.state Pc.creating rfl (by rw [hpc]; rfl) d,
        State.goto_keeps o.state Pc.deleting rfl (by rw [hpc]; rfl) d⟩
    simp [windowAfter, hpc, State.goto_pc]
  case create name types h hpc hvalid habsent =>
    have hnone := hcat.not_apart (Or.inl habsent)
    obtain ⟨hcreating, hdeleting, hshut⟩ := ho
    constructor <;> simp [windowAfter_create hvalid habsent]
    · grind [Function.update_apply, Window.isCreating, Pc.creating]
    · grind [Function.update_apply, Window.isDeleting, Pc.deleting]
    · grind [Function.update_apply]
  case erase name p last st hpc _ _ =>
    have hentry : o.state.indices name ≠ none := by
      simp [(hcat.removing c name p (by rw [hpc]; rfl)).2]
    have hnone := hcat.not_apart (Or.inr hentry)
    obtain ⟨hcreating, hdeleting, hshut⟩ := ho
    constructor <;> simp [windowAfter, hpc, State.goto_pc]
    · grind [Function.update_apply, Window.isCreating, Pc.creating]
    · grind [Function.update_apply, Window.isDeleting, Pc.deleting]
    · grind [Function.update_apply]
  case insert name types hpc _ =>
    have halone := hcat.only_apart (by rw [hpc]; rfl)
    obtain ⟨hcreating, hdeleting, hshut⟩ := ho
    constructor <;> simp [windowAfter, hpc]
    · grind [Function.update_apply, Window.isCreating, Pc.creating]
    · grind [Function.update_apply, Window.isDeleting, Pc.deleting]
    · grind [Function.update_apply]
  case dbremove name hpc =>
    have halone := hcat.only_apart (by rw [hpc]; rfl)
    obtain ⟨hcreating, hdeleting, hshut⟩ := ho
    constructor <;> simp [windowAfter, hpc]
    · grind [Function.update_apply, Window.isCreating, Pc.creating]
    · grind [Function.update_apply, Window.isDeleting, Pc.deleting]
    · grind [Function.update_apply]

end Observed.Framed

/-! ### Taking effect -/

section
variable {m : String → Option (List AttributeType)} {name : String}

theorem catalogue_of_refused {call : Call} (hcall : call.refused = true) :
    catalogue m call = (.kErrorGenericFailure, m) := by
  simp [catalogue, hcall]

theorem catalogue_createIndex {types : Option (List AttributeType)}
    (hvalid : (Call.createIndex name types).refused = false) :
    catalogue m (.createIndex name types) =
      if (m name).isSome then (.kErrorIndexExists, m) else (.kOk, Function.update m name types) := by
  simp [catalogue, hvalid]

theorem catalogue_openIndex (hvalid : (Call.openIndex name).refused = false) :
    catalogue m (.openIndex name) = (if (m name).isSome then .kOk else .kErrorUnknownIndex, m) := by
  simp [catalogue, hvalid]

theorem catalogue_deleteIndex (hvalid : (Call.deleteIndex name).refused = false) :
    catalogue m (.deleteIndex name) =
      if (m name).isSome then (.kOk, Function.update m name none) else (.kErrorUnknownIndex, m) := by
  simp [catalogue, hvalid]

end

/-- Only the client that has opened a window goes by it. -/
theorem Pc.effect_update {pc : Pc} {name : String} (hcreating : pc.creating ≠ some name)
    (hdeleting : pc.deleting ≠ some name) (window : String → Window) (w : Window) :
    pc.effect (Function.update window name w) = pc.effect window := by
  cases pc <;> simp_all [Pc.effect, Pc.creating, Pc.deleting]

theorem State.goto_call (s : State) (c d : ClientId) (pc : Pc) :
    ((s.goto c pc).pc d).call = if d = c then pc.call else (s.pc d).call := by
  rw [goto_pc, apply_ite Pc.call]

/-- STEP: every call in progress has passed the check of its arguments. -/
theorem valid_moves {s : State} (hs : ∀ c call, (s.pc c).call = some call → call.refused = false)
    (hmoves : Moves s c a s' code) (d : ClientId) (call : Call)
    (hcall : (s'.pc d).call = some call) : call.refused = false := by
  cases hmoves
  case refused | taken | notFound | unknown => exact hs d call hcall
  all_goals
    rw [State.goto_call] at hcall
    split at hcall
  case create.isTrue hvalid _ _ | found.isTrue hvalid _ _ _ _ | remove.isTrue hvalid _ _ _ =>
    obtain rfl := Option.some.inj hcall
    exact hvalid
  case insert.isTrue | opened.isTrue | vanished.isTrue | inUse.isTrue | dbremove.isTrue => cases hcall
  case register.isTrue hpc _ | makeReadOnly.isTrue hpc _ _ _ | erase.isTrue hpc _ _ _ |
      skip.isTrue hpc _ _ _ _ _ | close.isTrue hpc _ _ _ _ _ | dbClose.isTrue hpc _ _ |
      unregister.isTrue hpc _ _ _ =>
    exact hs c call (by rw [hpc]; exact hcall)
  all_goals exact hs d call hcall

namespace Observed

/-- The calls in progress after the client `c` went on. -/
theorem pending_goto {o' : Observed} {t : State} {pc : Pc} (hstate : o'.state = t.goto c pc)
    (hpc : t.pc = o.state.pc)
    (heffect : ∀ d, d ≠ c → (o.state.pc d).effect o'.window = (o.state.pc d).effect o.window) :
    o'.pending = Function.update o.pending c (pc.call.map fun call => (call, pc.effect o'.window)) := by
  funext d
  rw [pending, hstate, State.goto_pc, hpc, Function.update_apply]
  split
  next => rfl
  next hne => rw [heffect d hne]; rfl

theorem pending_idle (hpc : o.state.pc c = .idle) : o.pending c = none := by
  simp [pending, hpc, Pc.call]

/-- The same machine with another window for the name. -/
def withWindow (o : Observed) (name : String) (w : Window) : Observed :=
  { o with window := Function.update o.window name w }

variable {m : String → Option (List AttributeType)} {name : String} {w : Window}

/-- The client that has opened the window of the name takes effect. -/
theorem ExplainedBy.take (hm : o.ExplainedBy m) (hcat : o.state.Catalogued) {call : Call}
    (hcall : (o.state.pc c).call = some call)
    (hmine : (o.state.pc c).creating = some name ∨ (o.state.pc c).deleting = some name)
    (hbefore : (o.window name).taken = none) (hafter : w.taken = some .kOk)
    (hr : (catalogue m call).1 = .kOk)
    (hthere : ∀ name', ((catalogue m call).2 name').isSome =
      (Function.update o.window name w name').there (o.state.dbs name')) :
    (o.withWindow name w).ExplainedBy (catalogue m call).2 := by
  have heffect : ∀ w' : String → Window, (o.state.pc c).effect w' = (w' name).taken := by
    intro w'
    generalize o.state.pc c = pc at hmine
    cases pc <;> simp_all [Pc.creating, Pc.deleting, Pc.effect]
  have happart : (o.state.pc c).apart = some name := by
    rcases hmine with hmine | hmine
    · exact Pc.apart_of_creating hmine
    · exact Pc.apart_of_deleting hmine
  have hpending : (o.withWindow name w).pending =
      Function.update o.pending c (some (call, some .kOk)) := by
    funext d
    rw [Function.update_apply]
    split
    next hd =>
      subst hd
      simp [pending, withWindow, hcall, heffect, hafter]
    next hne =>
      have halone : ¬((o.state.pc d).creating = some name ∨ (o.state.pc d).deleting = some name) :=
        fun hd => hne (hcat.only_apart happart d hd)
      rw [not_or] at halone
      simp only [pending, withWindow, Pc.effect_update halone.1 halone.2]
  refine ⟨?_, hthere⟩
  rw [hpending]
  exact hm.1.take (by simp [pending, hcall, heffect, hbefore]) hr

/-- A change of one name, its database and its window keeps what is said about the other names. -/
theorem ExplainedBy.there_update (hm : o.ExplainedBy m) (name : String)
    {m' : String → Option (List AttributeType)} {dbs : String → Bool}
    (hother : ∀ name', name' ≠ name → m' name' = m name' ∧ dbs name' = o.state.dbs name')
    (hat : (m' name).isSome = w.there (dbs name)) (name' : String) :
    (m' name').isSome = (Function.update o.window name w name').there (dbs name') := by
  by_cases hname : name' = name
  · subst hname
    rw [Function.update_self, hat]
  · rw [Function.update_of_ne hname, (hother name' hname).1, (hother name' hname).2, hm.2]

theorem withWindow_self (h : o.window name = w) : o.withWindow name w = o := by
  rw [withWindow, ← h, Function.update_eq_self]

/-- An answer that goes by the database lets the client take effect that creates the index. -/
theorem Ordered.noticeDatabase (ho : o.Ordered) (name : String) :
    ∃ m, (o.withWindow name (o.window name).sawDatabase).ExplainedBy m := by
  obtain ⟨m, hm⟩ := ho.explained
  rcases hw : o.window name with _ | (_ | _) | b
  case creating.false =>
    obtain ⟨c, hc⟩ := (ho.framed.creating name).mp (by simp [hw, Window.isCreating])
    obtain ⟨types, hcall⟩ := Pc.call_of_creating hc
    have hvalid := ho.valid c _ hcall
    have habsent : m name = none := by simpa [hw, Window.there] using hm.2 name
    have heffect : catalogue m (.createIndex name (some types)) =
        (.kOk, Function.update m name (some types)) := by
      rw [catalogue_createIndex hvalid, habsent]
      rfl
    refine ⟨_, hm.take ho.catalogued hcall (Or.inl hc) (by rw [hw]; rfl) rfl (by rw [heffect]) ?_⟩
    rw [heffect]
    exact hm.there_update name (fun _ hname => ⟨Function.update_of_ne hname .., rfl⟩)
      (by simp [Window.there, Window.sawDatabase])
  all_goals exact ⟨m, by simpa only [Window.sawDatabase, withWindow_self hw] using hm⟩

/-- An answer that goes by the entry lets the client take effect that deletes the index. -/
theorem Ordered.noticeNoEntry (ho : o.Ordered) (name : String) :
    ∃ m, (o.withWindow name (o.window name).sawNoEntry).ExplainedBy m := by
  obtain ⟨m, hm⟩ := ho.explained
  rcases hw : o.window name with _ | b | (_ | _)
  case deleting.false =>
    obtain ⟨c, hc⟩ := (ho.framed.deleting name).mp (by simp [hw, Window.isDeleting])
    have hcall := Pc.call_of_deleting hc
    have hvalid := ho.valid c _ hcall
    have hthere : (m name).isSome = true := by simpa [hw, Window.there] using hm.2 name
    have heffect : catalogue m (.deleteIndex name) = (.kOk, Function.update m name none) := by
      rw [catalogue_deleteIndex hvalid, if_pos hthere]
    refine ⟨_, hm.take ho.catalogued hcall (Or.inr hc) (by rw [hw]; rfl) rfl (by rw [heffect]) ?_⟩
    rw [heffect]
    exact hm.there_update name (fun _ hname => ⟨Function.update_of_ne hname .., rfl⟩)
      (by simp [Window.there, Window.sawNoEntry])
  all_goals exact ⟨m, by simpa only [Window.sawNoEntry, withWindow_self hw] using hm⟩

/-- A name without a database, or with an entry, has no window. -/
theorem Ordered.window_shut (ho : o.Ordered)
    (hname : o.state.dbs name = false ∨ o.state.indices name ≠ none) : o.window name = .shut := by
  have hnone := ho.catalogued.not_apart hname
  rw [Window.eq_shut_iff]
  constructor
  · rw [Bool.eq_false_iff, ne_eq, ho.framed.creating name]
    exact fun ⟨d, hd⟩ => (hnone d).1 hd
  · rw [Bool.eq_false_iff, ne_eq, ho.framed.deleting name]
    exact fun ⟨d, hd⟩ => (hnone d).2 hd

/-- An index with an entry exists. -/
theorem Ordered.there_of_entry (ho : o.Ordered) (hm : o.ExplainedBy m)
    (hentry : o.state.indices name ≠ none) : (m name).isSome = true := by
  have hdb : o.state.dbs name = true := by
    by_contra hdb
    exact hentry (ho.catalogued.entered name (Bool.not_eq_true _ ▸ hdb))
  rw [hm.2, ho.window_shut (Or.inr hentry), Window.there, hdb]

theorem after_call_history (call : Call) (h : IndexPtr) (r : ErrorCode) :
    (o.after (.call c call h) s' (some r)).history =
      o.history ++ [.call o.calls call] ++ [.answer o.calls r] := by
  simp [after, noteCall, noteAnswer, Action.client]

/-- A call that is over in one step, which changes no database. -/
theorem ExplainedBy.atOnce (window : String → Window)
    (hm : { o with window := window }.ExplainedBy m) (hpc : o.state.pc c = .idle) {call : Call}
    {h : IndexPtr} {r : ErrorCode} (hr : catalogue m call = (r, m)) (hstate : s'.pc = o.state.pc)
    (hdbs : s'.dbs = o.state.dbs) (hwindow : o.windowAfter s' (.call c call h) = window) :
    (o.after (.call c call h) s' (some r)).ExplainedBy m := by
  have hidle : { o with window := window }.pending c = none := pending_idle hpc
  have hover := hm.1.atOnce hidle (congrArg Prod.fst hr) (congrArg Prod.snd hr)
  have hpending : (o.after (.call c call h) s' (some r)).pending =
      { o with window := window }.pending := by
    funext d
    simp only [pending, after_state, after_window, hstate, hwindow]
  refine ⟨?_, ?_⟩
  · rw [after_call_history, hpending]
    exact hover
  · intro name
    rw [after_window, hwindow, after_state, hdbs]
    exact hm.2 name

/-- The explanation after the client `c` went on. -/
theorem ExplainedBy.of_goto (o : Observed) {o' : Observed} {t : State} {pc : Pc}
    {window : String → Window} {calls : ClientId → Option (Call × Option ErrorCode)}
    (hx : Explained catalogue (fun _ => none) o'.history o'.calls o'.current calls m)
    (hstate : o'.state = t.goto c pc) (hpc : t.pc = o.state.pc) (hwindow : o'.window = window)
    (heffect : ∀ d, d ≠ c → (o.state.pc d).effect window = (o.state.pc d).effect o.window)
    (hcalls : calls = Function.update o.pending c (pc.call.map fun call => (call, pc.effect window)))
    (hthere : ∀ name, (m name).isSome = (window name).there (t.dbs name)) : o'.ExplainedBy m := by
  subst hwindow
  refine ⟨?_, fun name => ?_⟩
  · rwa [pending_goto hstate hpc heffect, ← hcalls]
  · rw [hthere, hstate]
    rfl

/-- The client that opened a window, and has taken effect by now, changes the second of the two: its call
    is over, and the window is shut. -/
theorem ExplainedBy.shut (hm : (o.withWindow name w).ExplainedBy m) (ho : o.Ordered) {call : Call}
    (happart : (o.state.pc c).apart = some name)
    (hpending : (o.withWindow name w).pending c = some (call, some .kOk)) {t : State}
    (hpc : t.pc = o.state.pc)
    (hwindow : o.windowAfter (t.goto c .idle) (.advance c) = Function.update o.window name .shut)
    (hthere : w.there (o.state.dbs name) = t.dbs name)
    (hothers : ∀ name', name' ≠ name → t.dbs name' = o.state.dbs name') :
    (o.after (.advance c) (t.goto c .idle) (some .kOk)).ExplainedBy m := by
  refine ExplainedBy.of_goto (o.withWindow name w) (hm.1.finish hpending) rfl hpc hwindow
    (fun d hne => ?_) rfl fun name' => ?_
  · have hother := not_or.mp fun hd => hne (ho.catalogued.only_apart happart d hd)
    simp only [withWindow, Pc.effect_update hother.1 hother.2]
  · rw [hm.2 name']
    by_cases hname : name' = name
    · subst hname
      simp [withWindow, Window.there, ← hthere]
    · simp [withWindow, hname, hothers name' hname]

/-- STEP: each call takes effect where it looks for the database or the entry, or where it changes the
    second of them; in a window earlier, if somebody notices. -/
theorem Ordered.explained_moves (ho : o.Ordered) (hgood : o.Orderly a)
    (hmoves : Moves o.state c a s' code) : ∃ m, (o.after a s' code).ExplainedBy m := by
  obtain ⟨m, hm⟩ := ho.explained
  cases hmoves
  case refused call h hpc hrefused =>
    exact ⟨m, ExplainedBy.atOnce o.window hm hpc (catalogue_of_refused hrefused) rfl rfl
      (windowAfter_refused hrefused)⟩
  case taken name types h hpc hvalid hthere =>
    obtain ⟨m', hm'⟩ := ho.noticeDatabase name
    have hsome : (m' name).isSome = true := by
      have hlate := hgood hvalid
      rw [hm'.2 name]
      rcases hw : o.window name with _ | b | (_ | _) <;>
        simp_all [withWindow, Window.there, Window.sawDatabase]
    have hr : catalogue m' (.createIndex name (some types)) = (.kErrorIndexExists, m') := by
      rw [catalogue_createIndex hvalid, if_pos hsome]
    exact ⟨m', hm'.atOnce _ hpc hr rfl rfl (windowAfter_taken hvalid hthere)⟩
  case notFound name h hpc hvalid _ _ habsent | unknown name h hpc hvalid _ habsent =>
    obtain ⟨m', hm'⟩ := ho.noticeNoEntry name
    have hnone : m' name = none := by
      have hdb := ho.framed.shut name
      rw [← Option.not_isSome_iff_eq_none, hm'.2 name]
      rcases hw : o.window name with _ | (_ | _) | b <;>
        simp_all [withWindow, Window.there, Window.sawNoEntry, Orderly]
    first
    | have hr : catalogue m' (.openIndex name) = (.kErrorUnknownIndex, m') := by
        rw [catalogue_openIndex hvalid, hnone]; rfl
      exact ⟨m', hm'.atOnce _ hpc hr rfl rfl (windowAfter_notFound hvalid habsent)⟩
    | have hr : catalogue m' (.deleteIndex name) = (.kErrorUnknownIndex, m') := by
        rw [catalogue_deleteIndex hvalid, hnone]; rfl
      exact ⟨m', hm'.atOnce _ hpc hr rfl rfl (windowAfter_unknown hvalid habsent)⟩
  case create name types h hpc hvalid habsent =>
    have hnone := ho.catalogued.not_apart (Or.inl habsent)
    have hno : (m name).isSome = false := by
      rw [hm.2, ho.window_shut (Or.inl habsent), Window.there, habsent]
    refine ⟨m, ExplainedBy.of_goto o (hm.1.begin c _) rfl rfl
      (by rw [after_window, windowAfter_create hvalid habsent])
      (fun d _ => Pc.effect_update (hnone d).1 (hnone d).2 o.window _) ?_ ?_⟩
    · simp [Pc.call, Pc.effect, Window.taken]
    · exact hm.there_update name (fun _ hname => ⟨rfl, by simp [hname]⟩)
        (by simpa [Window.there] using hno)
  case found name h p hpc hvalid _ _ hentry =>
    have hsome := ho.there_of_entry hm (show o.state.indices name ≠ none by simp [hentry])
    have hr : catalogue m (.openIndex name) = (.kOk, m) := by
      rw [catalogue_openIndex hvalid, if_pos hsome]
    have htaken := (hm.1.begin c (.openIndex name)).take (Function.update_self ..) (congrArg Prod.fst hr)
    rw [hr, Function.update_idem] at htaken
    exact ⟨m, ExplainedBy.of_goto o htaken rfl rfl
      (by rw [after_window, windowAfter_found hvalid hentry]) (fun _ _ => rfl) rfl hm.2⟩
  case remove name h p hpc hvalid _ hentry =>
    exact ⟨m, ExplainedBy.of_goto o (hm.1.begin c (.deleteIndex name)) rfl rfl
      (by rw [after_window, windowAfter_remove hvalid hentry]) (fun _ _ => rfl) rfl hm.2⟩
  case register hpc | makeReadOnly hpc _ _ | skip hpc _ _ _ _ | close hpc _ _ _ _ | dbClose hpc _ |
      unregister hpc _ _ =>
    refine ⟨m, ExplainedBy.of_goto o hm.1 rfl rfl
      (by simp [windowAfter, hpc, State.goto_pc]) (fun _ _ => rfl) ?_ hm.2⟩
    refine (Function.update_eq_self_iff.mpr ?_).symm
    simp [pending, hpc, Pc.call, Pc.effect]
  case opened name h p hpc _ =>
    have hpending : o.pending c = some (.openIndex name, some .kOk) := by
      simp [pending, hpc, Pc.call, Pc.effect]
    exact ⟨m, ExplainedBy.of_goto o (hm.1.finish hpending) rfl rfl (by simp [windowAfter, hpc])
      (fun _ _ => rfl) rfl hm.2⟩
  case vanished name h p hpc habsent =>
    have hpending : o.pending c = some (.openIndex name, some .kOk) := by
      simp [pending, hpc, Pc.call, Pc.effect]
    have hvalid := ho.valid c (.openIndex name) (by rw [hpc]; rfl)
    have hno : (m name).isSome = false := by
      rw [hm.2, ho.window_shut (Or.inl habsent), Window.there, habsent]
    have hr : catalogue m (.openIndex name) = (.kErrorUnknownIndex, m) := by
      rw [catalogue_openIndex hvalid, hno]
      rfl
    have hreads : ∀ m, (catalogue m (.openIndex name)).1 = .kOk →
        (catalogue m (.openIndex name)).2 = m := by
      intro m _
      rw [catalogue_openIndex hvalid]
    -- the index was found, but its database is gone: the call takes effect here, not where it was found
    have htaken := (hm.1.untake hpending hreads).take (Function.update_self ..) (congrArg Prod.fst hr)
    have hfinished := htaken.finish (Function.update_self ..)
    rw [hr, Function.update_idem, Function.update_idem] at hfinished
    exact ⟨m, ExplainedBy.of_goto o hfinished rfl rfl (by simp [windowAfter, hpc]) (fun _ _ => rfl)
      rfl hm.2⟩
  case inUse name p st hpc hlive hused => exact absurd (ho.catalogued.unused p st hlive) hused
  case erase name p last st hpc hlive _ =>
    have hentry : o.state.indices name ≠ none := by
      simp [(ho.catalogued.removing c name p (by rw [hpc]; rfl)).2]
    have hnone := ho.catalogued.not_apart (Or.inr hentry)
    have hsome := ho.there_of_entry hm hentry
    refine ⟨m, ExplainedBy.of_goto o hm.1 rfl rfl (by simp [windowAfter, hpc, State.goto_pc]; rfl)
      (fun d _ => Pc.effect_update (hnone d).1 (hnone d).2 o.window _) ?_ ?_⟩
    · refine (Function.update_eq_self_iff.mpr ?_).symm
      simp [pending, hpc, Pc.call, Pc.effect, Window.taken]
    · exact hm.there_update name (fun _ _ => ⟨rfl, rfl⟩) (by simpa [Window.there] using hsome)
  case insert name types hpc _ =>
    obtain ⟨m', hm'⟩ := ho.noticeDatabase name
    have hcreating := (ho.framed.creating name).mpr ⟨c, by rw [hpc]; rfl⟩
    obtain ⟨hdb, -⟩ := ho.catalogued.apart c name (by rw [hpc]; rfl)
    obtain ⟨b, hb⟩ : ∃ b, o.window name = .creating b := by
      rcases hw : o.window name with _ | b | b <;> simp_all [Window.isCreating]
    rw [hb] at hm'
    have hpending : (o.withWindow name (Window.creating b).sawDatabase).pending c =
        some (.createIndex name (some types), some .kOk) := by
      simp [pending, withWindow, hpc, Pc.call, Pc.effect, Window.sawDatabase, Window.taken]
    refine ⟨m', hm'.shut ho (by rw [hpc]; rfl) hpending rfl (by simp [windowAfter, hpc]) ?_ ?_⟩
    · simp [Window.sawDatabase, Window.there, hdb]
    · intro name' hname
      rfl
  case dbremove name hpc =>
    obtain ⟨m', hm'⟩ := ho.noticeNoEntry name
    have hdeleting := (ho.framed.deleting name).mpr ⟨c, by rw [hpc]; rfl⟩
    obtain ⟨hdb, -⟩ := ho.catalogued.apart c name (by rw [hpc]; rfl)
    obtain ⟨b, hb⟩ : ∃ b, o.window name = .deleting b := by
      rcases hw : o.window name with _ | b | b <;> simp_all [Window.isDeleting]
    rw [hb] at hm'
    have hpending : (o.withWindow name (Window.deleting b).sawNoEntry).pending c =
        some (.deleteIndex name, some .kOk) := by
      simp [pending, withWindow, hpc, Pc.call, Pc.effect, Window.sawNoEntry, Window.taken]
    rw [if_pos hdb]
    refine ⟨m', hm'.shut ho (by rw [hpc]; rfl) hpending rfl (by simp [windowAfter, hpc]) ?_ ?_⟩
    · simp [Window.sawNoEntry, Window.there]
    · intro name' hname
      simp [hname]

theorem Ordered.start : Observed.start.Ordered where
  catalogued := State.Catalogued.start
  framed := Framed.start
  valid c call hcall := by cases hcall
  explained := ⟨fun _ => none, Explained.initial .., fun _ => rfl⟩

theorem Ordered.step {o' : Observed} (ho : o.Ordered) (hgood : o.Orderly a)
    (hstep : Observed.step o a = some o') : o'.Ordered := by
  obtain ⟨⟨s', code⟩, hanswer, rfl⟩ := Option.map_eq_some_iff.mp hstep
  have hmoves := moves_of_answer hanswer
  exact {
    catalogued := ho.catalogued.moves hmoves
    framed := ho.framed.moves ho.catalogued hmoves
    valid := valid_moves ho.valid hmoves
    explained := ho.explained_moves hgood hmoves }

end Observed

/-! ### Runs -/

/-- RUN: if nobody looks at the old side of a name behind somebody who has looked at its new side, then
    all answers are those of the calls in some order, which keeps every call behind those that had
    answered before it began. -/
theorem calls_linearizable (acts : List Action) (o : Observed)
    (horderly : Along Observed.Orderly Observed.step Observed.start acts)
    (hrun : exec Observed.step Observed.start acts = some o) :
    Linearizable catalogue (fun _ => none) o.history := by
  have hstep : ∀ (o : Observed) a o', o.Ordered → o.Orderly a → Observed.step o a = some o' →
      o'.Ordered := fun o a o' ho => ho.step
  have hend : o.Ordered := exec_keeps hstep Observed.Ordered.start horderly hrun
  obtain ⟨m, hm⟩ := hend.explained
  exact hm.1.linearizable

/-- While the index is half created it is unknown first and exists then; while it is half deleted it
    exists first and is unknown then; and one OpenIndex has found it before it goes. -/
def eachInItsWindow : List Action :=
  [.call 0 (.createIndex "a" (some [.kInt])) 0, .call 1 (.openIndex "a") 5,
    .call 2 (.createIndex "a" (some [.kShort])) 0] ++ advances 0 1 ++
  [.call 1 (.openIndex "a") 6] ++ advances 1 1 ++ [.call 2 (.deleteIndex "a") 0] ++ advances 2 3 ++
  [.call 0 (.createIndex "a" (some [.kInt])) 0, .call 0 (.deleteIndex "a") 0] ++ advances 2 1 ++
  advances 1 1

theorem calls_linearizable_at : ∃ o, exec Observed.step Observed.start eachInItsWindow = some o ∧
    Linearizable catalogue (fun _ => none) o.history ∧
    .answer 1 .kErrorUnknownIndex ∈ o.history ∧ .answer 2 .kErrorIndexExists ∈ o.history ∧
    .answer 5 .kErrorIndexExists ∈ o.history ∧ .answer 6 .kErrorUnknownIndex ∈ o.history ∧
    .answer 3 .kErrorUnknownIndex ∈ o.history := by
  have hrun : (exec Observed.step Observed.start eachInItsWindow).any fun o =>
      .answer 1 .kErrorUnknownIndex ∈ o.history ∧ .answer 2 .kErrorIndexExists ∈ o.history ∧
      .answer 5 .kErrorIndexExists ∈ o.history ∧ .answer 6 .kErrorUnknownIndex ∈ o.history ∧
      .answer 3 .kErrorUnknownIndex ∈ o.history := by decide +kernel
  obtain ⟨o, ho, hat⟩ := (Option.any_eq_true _ _).mp hrun
  exact ⟨o, ho, calls_linearizable eachInItsWindow o (by decide +kernel) ho, of_decide_eq_true hat⟩

/-- A call that is no DeleteIndex leaves a name in the map. -/
theorem catalogue_keeps {m : String → Option (List AttributeType)} {name : String} {call : Call}
    (hcall : ∃ name' types, call = .createIndex name' (some types) ∨ call = .openIndex name')
    (hm : (m name).isSome = true) : ((catalogue m call).2 name).isSome = true := by
  obtain ⟨name', types, rfl | rfl⟩ := hcall
  · unfold catalogue
    split
    next => exact hm
    next =>
      dsimp only
      split
      next => exact hm
      next =>
        by_cases hname : name = name'
        · simp [hname]
        · simpa [hname] using hm
  · unfold catalogue
    split <;> exact hm

theorem replay_keeps {name : String} {es : List (Effect Call ErrorCode)}
    {m : String → Option (List AttributeType)}
    (hes : ∀ e ∈ es, ∃ name' types, e.op = .createIndex name' (some types) ∨ e.op = .openIndex name')
    (hm : (m name).isSome = true) : (replay catalogue m es name).isSome = true := by
  induction es generalizing m with
  | nil => exact hm
  | cons e es ih =>
    exact ih (fun f hf => hes f (List.mem_cons_of_mem _ hf))
      (catalogue_keeps (hes e List.mem_cons_self) hm)

/-- The first client has created the database; the second finds that the index exists, and cannot
    open it. -/
def halfCreated : List Action :=
  [.call 0 (.createIndex "a" (some [.kInt])) 0, .call 1 (.createIndex "a" (some [.kInt])) 0,
    .call 1 (.openIndex "a") 5]

/-- What the clients see of it. -/
def halfCreatedHistory : List (Event Call ErrorCode) :=
  [.call 0 (.createIndex "a" (some [.kInt])), .call 1 (.createIndex "a" (some [.kInt])),
    .answer 1 .kErrorIndexExists, .call 2 (.openIndex "a"), .answer 2 .kErrorUnknownIndex]

/-- DIVERGES: the index exists and, though nobody deletes it, is unknown. -/
theorem half_created_both : ¬ ∀ acts o, exec Observed.step Observed.start acts = some o →
    Linearizable catalogue (fun _ => none) o.history := by
  intro hall
  have hrun : (exec Observed.step Observed.start halfCreated).any fun o =>
      o.history = halfCreatedHistory := by decide +kernel
  obtain ⟨o, ho, hat⟩ := (Option.any_eq_true _ _).mp hrun
  obtain ⟨es, hl⟩ := hall halfCreated o ho
  rw [of_decide_eq_true hat] at hl
  have hprec : Precedes halfCreatedHistory 1 2 :=
    ⟨halfCreatedHistory.take 3, halfCreatedHistory.drop 3, .kErrorIndexExists, .openIndex "a", rfl,
      by decide, by decide⟩
  have hexists : .answer 1 .kErrorIndexExists ∈ halfCreatedHistory := by decide
  have hunknown : .answer 2 .kErrorUnknownIndex ∈ halfCreatedHistory := by decide
  obtain ⟨e, f, as, bs, cs, rfl, ⟨hid, hres⟩, hid', hres'⟩ := hl.split hprec hexists hunknown
  have hop : ∀ g ∈ as ++ e :: (bs ++ f :: cs), (g.id ≠ 2 ∧ g.op = .createIndex "a" (some [.kInt])) ∨
      (g.id = 2 ∧ g.op = .openIndex "a") := by
    intro g hg
    have hcalled := hl.called g hg
    grind [halfCreatedHistory]
  have hlegal := (legal_append.mp hl.legal).2
  generalize replay catalogue (fun _ => none) as = m at hlegal
  -- the second client's CreateIndex takes effect on a map that has the name, and its OpenIndex later
  have he : e.op = .createIndex "a" (some [.kInt]) := by
    rcases hop e (by simp) with h | h
    · exact h.2
    · simp [hid] at h
  have hf : f.op = .openIndex "a" := by
    rcases hop f (by simp) with h | h
    · exact absurd hid' h.1
    · exact h.2
  have hthere : (m "a").isSome = true := by
    by_contra hno
    have hcreated := hlegal.1
    rw [he, catalogue_createIndex rfl, if_neg hno, hres] at hcreated
    cases hcreated
  have hkept : (replay catalogue m (e :: bs) "a").isSome = true := by
    refine replay_keeps (fun g hg => ?_) hthere
    have hg' : g ∈ as ++ e :: (bs ++ f :: cs) := by
      rcases List.mem_cons.mp hg with rfl | hg
      · simp
      · simp [hg]
    rcases hop g hg' with h | h
    · exact ⟨"a", [.kInt], Or.inl h.2⟩
    · exact ⟨"a", [.kInt], Or.inr h.2⟩
  have hopened := (legal_append.mp hlegal.2).2.1
  rw [hf, catalogue_openIndex rfl, hres'] at hopened
  have hsome : (replay catalogue (catalogue m e.op).2 bs "a").isSome = true := hkept
  rw [if_pos hsome] at hopened
  cases hopened

end Contest.Opening
