import ContestIndex.Results.SameValues
import ContestIndex.Results.TidyCalls

/-! @src example/BDBImpl.cc | name:States that differ behind a terminator | layer:specification

    Two clients make the same calls, except that their varchars differ behind the first NUL. The
    garbage goes into the stored keys, so the two environments differ; everything else of the two
    states is equal, and what differs is worth the same.

        w     env: pairs and before-images, by the columns of the index they belong to
        ‖     iterators: their keys, by the columns of their handle
        w'    the rest: equal

    Here are the calls that pass no keys. -/

namespace Contest
open Schemes

/-! ### Calls that differ behind a terminator -/

theorem Record.Same.refl (r : Record) : r.Same r := ⟨.refl r.key, rfl⟩

inductive Modification.Same : Modification → Modification → Prop
  | insert {r r' : Record} (h : r.Same r') : Modification.Same (.insert r) (.insert r')
  | update {r r' : Record} (h : r.Same r') (payload : Bytes) (flags : UInt8) :
      Modification.Same (.update r payload flags) (.update r' payload flags)
  | delete {r r' : Record} (h : r.Same r') (flags : UInt8) :
      Modification.Same (.delete r flags) (.delete r' flags)

theorem Modification.Same.refl : ∀ m : Modification, m.Same m
  | .insert r => .insert (.refl r)
  | .update r payload flags => .update (.refl r) payload flags
  | .delete r flags => .delete (.refl r) flags

/-- The same call, with keys and bounds that are the same by value. -/
inductive Call.Same : Call → Call → Prop
  | modify (tx : Option TxnPtr) (idx : IndexPtr) {m m' : Modification} (h : m.Same m') :
      Call.Same (.modify tx idx m) (.modify tx idx m')
  | getRecords (tx : Option TxnPtr) (idx : Option IndexPtr)
      {minKeys minKeys' maxKeys maxKeys' : Key} (hmin : minKeys.Same minKeys')
      (hmax : maxKeys.Same maxKeys') (it : Option (Option IteratorPtr)) :
      Call.Same (.getRecords tx idx minKeys maxKeys it) (.getRecords tx idx minKeys' maxKeys' it)
  | same (c : Call) : Call.Same c c

namespace World
variable {w w' w₁ : World} {h : IndexPtr} {o : Opened} {name : String}

/-- What a call writes to `*record` (`none`: nothing). -/
def returned (B : BerkeleyDB) (F : Faults) (w : World) : Call → Option (Option Record)
  | .getNext it => (w.getNext B F it).2.1
  | _ => none

/-- A call in which some Berkeley DB calls may fail, with the record that it returns. -/
def respond (B : BerkeleyDB) (w : World) (c : Faults × Call) :
    (Answer × Option (Option Record)) × World :=
  (((w.faultyCall B c).1, returned B c.1 w c.2), (w.faultyCall B c).2)

/-- The column types of the index that a handle refers to, if it still exists. -/
def handleTypes (w : World) (h : IndexPtr) : Option (List AttributeType) :=
  (((w.handles h).bind (·.structure_)).bind w.structures).map (·.type)

/-- The column types of the index with this name. -/
def columns (w : World) (name : String) : Option (List AttributeType) := (w.known name).map (·.type)

end World

/-- Record keys are fully set, range bounds may have NULLs, and the types match the columns. -/
def Call.Fits (w : World) : Call → Prop
  | .modify _ idx m => ∀ types ∈ w.handleTypes idx, m.record.key.FullySet types
  | .getRecords _ idx minKeys maxKeys _ => ∀ h ∈ idx, ∀ types ∈ w.handleTypes h,
      minKeys.Typed types ∧ maxKeys.Typed types
  | _ => True

/-- The same return code, and records that are the same by value. -/
def SameReply (a b : Answer × Option (Option Record)) : Prop :=
  a.1 = b.1 ∧ Option.Rel (Option.Rel Record.Same) a.2 b.2

namespace World
variable {w w' w₁ : World} {h k : IndexPtr} {o : Opened} {name : String}

/-! ### States that differ in bytes -/

/-- Two contents of a database with these columns. Without columns nobody can read it. -/
def SameContent (types : Option (List AttributeType)) (content content' : Option (List Pair)) :
    Prop :=
  content.isSome = content'.isSome ∧ ∀ ts ∈ types,
    Option.Rel (List.Forall₂ (Indistinct (IndexStructure.new ts).dbKeycmp)) content content'

/-- Two iterators over an index whose columns are those of the handle, if this still exists. -/
def SameIterator (w : World) (it it' : Iterator) : Prop :=
  ∃ types, it.Alike (.new types) it' ∧ ∀ ts ∈ w.handleTypes it.index, ts = types

/-- Everything but the environment and the iterators. -/
def withData (w : World) (env : DbEnv) (iterators : IteratorPtr → Option Iterator) : World :=
  { w with env := env, iterators := iterators }

/-- Two states that differ in bytes that nobody compares. -/
structure Twins (w w' : World) : Prop where
  rest : w' = w.withData w'.env w'.iterators
  begun : w.env.begun = w'.env.begun
  content : UndoLog.Related (fun name => SameContent (w.columns name)) w.env.dbs w'.env.dbs
  iterators : ∀ i, Option.Rel (SameIterator w) (w.iterators i) (w'.iterators i)

theorem initial_twins : Twins initial initial where
  rest := rfl
  begun := rfl
  content := ⟨fun _ => ⟨rfl, fun _ _ => .none⟩, rfl, .nil⟩
  iterators := fun _ => .none

theorem SameContent.mono {types types' : Option (List AttributeType)} {c c' : Option (List Pair)}
    (h : SameContent types c c') (hle : ∀ ts ∈ types', ts ∈ types) : SameContent types' c c' :=
  ⟨h.1, fun ts hts => h.2 ts (hle ts hts)⟩

/-- From `w` to `w₁` no index that existed gets columns. -/
structure Narrows (w w₁ : World) : Prop where
  columns : ∀ name, ∀ ts ∈ w₁.columns name, ts ∈ w.columns name
  handles : ∀ h, h < w.free → ∀ ts ∈ w₁.handleTypes h, ts ∈ w.handleTypes h
  free : w.free ≤ w₁.free

namespace Narrows

theorem refl (w : World) : Narrows w w := ⟨fun _ _ h => h, fun _ _ _ h => h, le_rfl⟩

theorem trans {u v : World} (huv : Narrows u v) (hvw : Narrows v w) : Narrows u w where
  columns := fun name ts hts => huv.columns name ts (hvw.columns name ts hts)
  handles := fun h hh ts hts => huv.handles h hh ts (hvw.handles h (hh.trans_le huv.free) ts hts)
  free := huv.free.trans hvw.free

end Narrows

theorem handleTypes_eq_some {types : List AttributeType} : w.handleTypes h = some types ↔
    ∃ idx p s, w.handles h = some idx ∧ idx.structure_ = some p ∧ w.structures p = some s ∧
      s.type = types := by
  simp only [handleTypes, Option.map_eq_some_iff, Option.bind_eq_some_iff]
  constructor
  · rintro ⟨s, ⟨p, ⟨idx, hidx, hp⟩, hs⟩, htypes⟩
    exact ⟨idx, p, s, hidx, hp, hs, htypes⟩
  · rintro ⟨idx, p, s, hidx, hp, hs, htypes⟩
    exact ⟨s, ⟨p, ⟨idx, hidx, hp⟩, hs⟩, htypes⟩

theorem OnlyHandles.narrows (hk : OnlyHandles w w₁) : Narrows w w₁ where
  columns := fun name ts hts => by
    have hcore := congrArg (Option.map Prod.fst) (hk.known_core name)
    simp only [Option.map_map] at hcore
    exact (congrArg (ts ∈ ·) hcore).mp hts
  handles := fun h _ ts hts => by
    obtain ⟨idx', p, s', hidx', hp, hs', rfl⟩ := handleTypes_eq_some.mp hts
    obtain ⟨idx, hidx, -, hstructure⟩ := hk.handles h idx' hidx'
    have hcore := hk.structures p
    rw [hs', Option.map_some, eq_comm, Option.map_eq_some_iff] at hcore
    obtain ⟨s, hs, hcore⟩ := hcore
    exact handleTypes_eq_some.mpr ⟨idx, p, s, hidx, hstructure ▸ hp, hs, congrArg Prod.fst hcore⟩
  free := hk.free.ge

theorem optionRel_mono {α : Type} {R S : α → α → Prop} {a b : Option α} (h : Option.Rel R a b)
    (hmono : ∀ x ∈ a, ∀ y, R x y → S x y) : Option.Rel S a b := by
  cases h with
  | none => exact .none
  | some hxy => exact .some (hmono _ rfl _ hxy)

/-- RULE: the states stay twins while no index gets new columns. -/
theorem Twins.frame (h : Twins w w') (hw : ∀ i it, w.iterators i = some it → it.index < w.free)
    (hk : Narrows w w₁) (henv : w₁.env = w.env) (hiterators : w₁.iterators = w.iterators) :
    Twins w₁ (w₁.withData w'.env w'.iterators) where
  rest := rfl
  begun := by rw [henv]; exact h.begun
  content := by
    rw [henv]
    exact h.content.mono (fun name _ hc => hc.mono (hk.columns name)) fun e _ _ hc =>
      hc.mono (hk.columns e.2.1)
  iterators := fun i => by
    rw [hiterators]
    refine optionRel_mono (h.iterators i) fun it hit it' => ?_
    rintro ⟨types, halike, htypes⟩
    exact ⟨types, halike, fun ts hts =>
      htypes ts (hk.handles it.index (hw i it hit) ts hts)⟩

/-! ### Calls that touch neither content nor iterators -/

section WithData
variable (env : DbEnv) (iterators : IteratorPtr → Option Iterator)

theorem closeHandle_withData (F : Faults) (w : World) (h : IndexPtr) :
    (w.withData env iterators).closeHandle F h =
      ((w.closeHandle F h).1, (w.closeHandle F h).2.withData env iterators) := by
  rcases hidx : w.handles h with _ | idx
  · simp only [closeHandle, withData, hidx]
  rcases hclosed : idx.closed with _ | _
  · rcases hfailure : (if idx.db then F.thrown (.dbClose h) else none) with _ | e
    · rcases hp : idx.structure_ with _ | p
      · simp [closeHandle, withData, hidx, hclosed, hfailure, hp, setHandle]
      · rcases hs : w.structures p with _ | s <;>
          simp [closeHandle, withData, hidx, hclosed, hfailure, hp, hs, setHandle, setStructure]
    · simp [closeHandle, withData, hidx, hclosed, hfailure, setHandle]
  · simp only [closeHandle, withData, hidx, hclosed, if_true]

theorem closeHandles_withData (F : Faults) : ∀ (hs : List IndexPtr) (w : World),
    closeHandles F hs (w.withData env iterators) =
      ((closeHandles F hs w).1, (closeHandles F hs w).2.withData env iterators)
  | [], w => rfl
  | h :: hs, w => by
    have ih := closeHandles_withData F hs
    rw [closeHandles, closeHandles, closeHandle_withData]
    rcases w.closeHandle F h with ⟨_ | _ | _, v⟩
    · exact ih v
    · rfl
    · rfl

theorem destroyStructure_withData (F : Faults) (w : World) (p : StructurePtr) (s : IndexStructure) :
    (w.withData env iterators).destroyStructure F p s =
      ((w.destroyStructure F p s).1, (w.destroyStructure F p s).2.withData env iterators) := by
  simp only [destroyStructure, closeHandles_withData]
  rfl

theorem remove_withData (F : Faults) (w : World) (name : String) :
    (w.withData env iterators).remove F name =
      ((w.remove F name).1, (w.remove F name).2.withData env iterators) := by
  have hfind : (w.withData env iterators).find name = w.find name := rfl
  have hstructures : ∀ p, (w.withData env iterators).structures p = w.structures p := fun _ => rfl
  unfold remove
  rw [hfind]
  cases w.find name with
  | none => rfl
  | some p =>
    simp only [hstructures]
    cases w.structures p with
    | none => rfl
    | some s =>
      have hset : (w.withData env iterators).setStructure p s.makeReadOnly.2 =
          (w.setStructure p s.makeReadOnly.2).withData env iterators := rfl
      simp only [hset, destroyStructure_withData]
      split
      · generalize (w.setStructure p s.makeReadOnly.2).destroyStructure F p s = ended
        rcases ended with ⟨_ | _ | _, v⟩ <;> rfl
      · rfl

theorem closeIndex_withData (F : Faults) (w : World) (idx : Option IndexPtr) :
    (w.withData env iterators).closeIndex F idx =
      ((w.closeIndex F idx).1, (w.closeIndex F idx).2.1,
        (w.closeIndex F idx).2.2.withData env iterators) := by
  rcases idx with _ | h
  · rfl
  · have hhandles : (w.withData env iterators).handles h = w.handles h := rfl
    simp only [closeIndex, hhandles, closeHandle_withData]
    cases w.handles h with
    | none => rfl
    | some idx => rcases (w.closeHandle F h).1 with _ | e | _ <;> first | rfl | (cases e <;> rfl)

/-- Opening a handle only asks whether the database exists. -/
theorem openHandle_withData (F : Faults) (w : World) {name : String}
    (hexists : (env.pairs name).isSome = (w.env.pairs name).isSome) :
    (w.withData env iterators).openHandle F name =
      ((w.openHandle F name).1, (w.openHandle F name).2.1,
        (w.openHandle F name).2.2.withData env iterators) := by
  have hfind : (w.withData env iterators).find name = w.find name := rfl
  unfold openHandle
  rw [hfind]
  simp only [withData, setHandle, setStructure]
  cases w.find name with
  | none => rfl
  | some p =>
    simp only
    cases w.structures p with
    | none => rfl
    | some s =>
      simp only
      cases F.thrown .dbOpen with
      | some e => rfl
      | none =>
        simp only
        rcases hmine : env.pairs name with _ | pairs <;>
          rcases hother : w.env.pairs name with _ | pairs'
        · rfl
        · simp [hmine, hother] at hexists
        · simp [hmine, hother] at hexists
        · rfl

end WithData

/-! ### The catalogue -/

/-- The calls ended in the same way, in twin states. -/
def TwinsAfter {α : Type} (ended ended' : α × World) : Prop :=
  ended.1 = ended'.1 ∧ Twins ended.2 ended'.2

theorem Twins.pairs_isSome (h : Twins w w') (name : String) :
    (w'.env.pairs name).isSome = (w.env.pairs name).isSome := (h.content.store name).1.symm

theorem closeIndex_twins (hw : w.Tidy) (h : Twins w w') (F : Faults) (idx : Option IndexPtr) :
    (w.closeIndex F idx).1 = (w'.closeIndex F idx).1 ∧
      Twins (w.closeIndex F idx).2.2 (w'.closeIndex F idx).2.2 := by
  have hk := closeIndex_only F w idx
  rw [h.rest, closeIndex_withData]
  exact ⟨rfl, h.frame hw.iterated hk.narrows hk.env hk.iterators⟩

theorem newHandle_narrows (w : World) (idx : Index) :
    Narrows w ({ w with free := w.free + 1 }.setHandle w.free idx) where
  columns := fun _ _ hts => hts
  handles := fun h hh ts hts => by
    have hsame :
        (World.setHandle { w with free := w.free + 1 } w.free idx).handles h = w.handles h :=
      Function.update_of_ne hh.ne _ _
    rw [handleTypes, hsame] at hts
    exact hts
  free := Nat.le_succ _

/-- `OpenIndex` begins with making a handle; from then on it only changes handles. -/
theorem openHandle_only (F : Faults) (w : World) (name : String) :
    OnlyHandles ({ w with free := w.free + 1 }.setHandle w.free ⟨name, w.find name, false, true⟩)
      (w.openHandle F name).2.2 := by
  unfold openHandle
  simp only
  split
  · exact .refl _
  · split
    · exact .refl _
    · next s hs =>
      have hsame : core { s with handles := Insert.insert w.free s.handles } = core s := rfl
      have hregistered := OnlyHandles.setStructure hs hsame
      split
      · exact hregistered
      · split
        · exact hregistered
        · exact hregistered.trans (.setHandle (Function.update_self ..) rfl rfl)

theorem openIndex_twins (hw : w.Tidy) (h : Twins w w') (F : Faults) (name : String) :
    (w.openIndex F name).1 = (w'.openIndex F name).1 ∧
      Twins (w.openIndex F name).2.2 (w'.openIndex F name).2.2 := by
  have hopened := openHandle_only F w name
  have hcall := openHandle_withData w'.env w'.iterators F w (h.pairs_isSome name)
  rw [← h.rest] at hcall
  unfold openIndex
  rw [hcall]
  split
  · exact ⟨rfl, h⟩
  · have hnarrows : ∀ v, OnlyHandles (w.openHandle F name).2.2 v →
        Twins v (v.withData w'.env w'.iterators) := fun v hv =>
      h.frame hw.iterated ((newHandle_narrows w _).trans (hopened.trans hv).narrows)
        ((hopened.trans hv).env) ((hopened.trans hv).iterators)
    generalize w.openHandle F name = ended at hnarrows
    obtain ⟨outcome, k, v⟩ := ended
    rcases outcome with code | e | _
    · cases code <;> exact ⟨rfl, hnarrows v (.refl v)⟩
    · exact ⟨rfl, hnarrows _ (.dropHandle v k)⟩
    · exact ⟨rfl, hnarrows v (.refl v)⟩

theorem destroy_narrows (w : World) (p : StructurePtr) :
    Narrows w { w with structures := Function.update w.structures p none } := by
  have hlive : ∀ {q s},
      Function.update w.structures p none q = some s → w.structures q = some s := by
    intro q s hs
    rcases eq_or_ne q p with rfl | hne
    · simp at hs
    · simpa [hne] using hs
  refine ⟨fun name ts hts => ?_, fun h _ ts hts => ?_, le_rfl⟩
  · obtain ⟨s, hs, rfl⟩ := Option.map_eq_some_iff.mp hts
    obtain ⟨q, hq, hq'⟩ := known_eq_some.mp hs
    exact Option.map_eq_some_iff.mpr ⟨s, known_eq_some.mpr ⟨q, hq, hlive hq'⟩, rfl⟩
  · obtain ⟨idx, q, s, hidx, hq, hs, htypes⟩ := handleTypes_eq_some.mp hts
    exact handleTypes_eq_some.mpr ⟨idx, q, s, hidx, hq, hlive hs, htypes⟩

theorem erase_narrows (w : World) (name : String) :
    Narrows w { w with indices := w.indices.filter (·.1 ≠ name) } where
  columns := fun n ts hts => by
    obtain ⟨s, hs, rfl⟩ := Option.map_eq_some_iff.mp hts
    obtain ⟨q, hq, hq'⟩ := known_eq_some.mp hs
    rw [@find_erased w _ name rfl] at hq
    split at hq
    · contradiction
    · exact Option.map_eq_some_iff.mpr ⟨s, known_eq_some.mpr ⟨q, hq, hq'⟩, rfl⟩
  handles := fun _ _ _ hts => hts
  free := le_rfl

theorem remove_narrows (F : Faults) (w : World) (name : String) :
    Narrows w (w.remove F name).2 ∧ (w.remove F name).2.env = w.env ∧
      (w.remove F name).2.iterators = w.iterators := by
  rcases remove_cases F w name with
    ⟨-, hsame⟩ | ⟨p, s, v, -, -, -, hclosed, ⟨-, hdestroyed⟩ | ⟨-, herased⟩⟩
  · rw [hsame]
    exact ⟨.refl w, rfl, rfl⟩
  · rw [hdestroyed]
    exact ⟨hclosed.narrows.trans (destroy_narrows v p), hclosed.env, hclosed.iterators⟩
  · rw [herased]
    exact ⟨hclosed.narrows.trans ((destroy_narrows v p).trans (erase_narrows _ name)), hclosed.env,
      hclosed.iterators⟩

/-- Writes to a database that has no columns. -/
theorem Twins.put (h : Twins w w') {content content' : Option (List Pair)}
    (hc : SameContent (w.columns name) content content') :
    Twins (w.setEnv { w.env with dbs := w.env.dbs.put name content })
      (w'.setEnv { w'.env with dbs := w'.env.dbs.put name content' }) where
  rest :=
    congrArg (fun v : World => v.setEnv { w'.env with dbs := w'.env.dbs.put name content' }) h.rest
  begun := h.begun
  content := h.content.put hc
  iterators := h.iterators

theorem deleteIndex_twins (hw : w.Tidy) (h : Twins w w') (F : Faults) (name : String) :
    TwinsAfter (w.deleteIndex F name) (w'.deleteIndex F name) := by
  obtain ⟨hnarrows, henv, hiterators⟩ := remove_narrows F w name
  have hremoved := h.frame hw.iterated hnarrows henv hiterators
  have hcall := remove_withData w'.env w'.iterators F w name
  rw [← h.rest] at hcall
  unfold deleteIndex
  rw [hcall]
  split
  · exact ⟨rfl, h⟩
  · generalize w.remove F name = ended at hremoved
    obtain ⟨outcome, v⟩ := ended
    rcases outcome with code | e | _
    · cases code
      case kOk =>
        have hexists := hremoved.pairs_isSome name
        simp only [hexists]
        split
        · exact ⟨rfl, hremoved⟩
        · exact ⟨rfl, hremoved.put ⟨rfl, fun _ _ => .none⟩⟩
      all_goals exact ⟨rfl, hremoved⟩
    · exact ⟨rfl, hremoved⟩
    · exact ⟨rfl, hremoved⟩

/-- The new index is empty in both. -/
theorem created_twins (hw : w.Tidy) (h : Twins w w') (hnew : w.env.pairs name = none)
    (types : List AttributeType) : Twins (w.created name types) (w'.created name types) where
  rest := by
    have hrest := h.rest
    generalize w'.env = env, w'.iterators = iterators at hrest
    rw [hrest]
    rfl
  begun := h.begun
  content := by
    have hcolumns : ∀ {n}, n ≠ name → (w.created name types).columns n = w.columns n := fun hn =>
      congrArg (Option.map fun s : IndexStructure => s.type) (created_known types hw hn)
    refine ⟨fun n => ?_, h.content.live, UndoLog.images_mono h.content.log fun e he v hv => ?_⟩
    · rcases eq_or_ne n name with rfl | hne
      · have hempty : ∀ u : World, (u.created n types).env.dbs.store n = some [] := fun u =>
          Function.update_self ..
        rw [hempty, hempty]
        exact ⟨rfl, fun _ _ => .some .nil⟩
      · have hstore : ∀ u : World, (u.created name types).env.dbs.store n = u.env.dbs.store n :=
          fun u => Function.update_of_ne hne _ _
        rw [hstore, hstore, hcolumns hne]
        exact h.content.store n
    · -- no before-image belongs to a database that did not exist
      obtain ⟨-, s, hs, -⟩ := hw.images e he
      have hne : e.2.1 ≠ name := by
        intro hname
        rw [hname, hw.unknown hnew] at hs
        contradiction
      rw [hcolumns hne]
      exact hv
  iterators := fun i => by
    refine optionRel_mono (h.iterators i) fun it hit it' => ?_
    rintro ⟨ts, halike, htypes⟩
    refine ⟨ts, halike, fun ts' hts' => htypes ts' ?_⟩
    obtain ⟨idx, p, s, hidx, hp, hs, rfl⟩ := handleTypes_eq_some.mp hts'
    rw [created_structures types (hw.referred _ idx p hidx hp).ne] at hs
    exact handleTypes_eq_some.mpr ⟨idx, p, s, hidx, hp, hs, rfl⟩

theorem createIndex_twins (hw : w.Tidy) (h : Twins w w') (F : Faults) (name : String)
    (types : Option (List AttributeType)) :
    TwinsAfter (w.createIndex F name types) (w'.createIndex F name types) := by
  have hexists := h.pairs_isSome name
  unfold createIndex
  split
  · exact ⟨rfl, h⟩
  · next types =>
    split
    · exact ⟨rfl, h⟩
    · cases F.thrown .dbOpen with
      | some e => cases e <;> exact ⟨rfl, h⟩
      | none =>
        simp only [hexists]
        cases hpairs : w.env.pairs name with
        | some pairs => exact ⟨rfl, h⟩
        | none => exact ⟨rfl, created_twins hw h hpairs types⟩

/-! ### Transactions -/

/-- Another environment with the same columns. -/
theorem Twins.setEnv (h : Twins w w') {env env' : DbEnv} (hbegun : env.begun = env'.begun)
    (hcontent : UndoLog.Related (fun name => SameContent (w.columns name)) env.dbs env'.dbs) :
    Twins (w.setEnv env) (w'.setEnv env') where
  rest := congrArg (fun v : World => v.setEnv env') h.rest
  begun := hbegun
  content := hcontent
  iterators := h.iterators

/-- Both begin the same transaction. -/
theorem Twins.txnBegin (h : Twins w w') (B : BerkeleyDB) (tx : Option TxnPtr) :
    (w.env.txnBegin B tx).1 = (w'.env.txnBegin B tx).1 ∧
      UndoLog.Related (fun name => SameContent (w.columns name)) (w.env.txnBegin B tx).2.dbs
        (w'.env.txnBegin B tx).2.dbs := by
  have htid :
      B.txnAddress w.env.begun w.env.dbs.ids = B.txnAddress w'.env.begun w'.env.dbs.ids := by
    rw [h.begun, h.content.ids_eq]
  have hbegun := h.content.begin (B.txnAddress w.env.begun w.env.dbs.ids) tx
  refine ⟨htid, ?_⟩
  simp only [DbEnv.txnBegin, ← htid]
  exact hbegun

theorem beginTransaction_twins (h : Twins w w') (B : BerkeleyDB) (F : Faults) :
    (w.beginTransaction B F).1 = (w'.beginTransaction B F).1 ∧
      Twins (w.beginTransaction B F).2.2 (w'.beginTransaction B F).2.2 := by
  unfold beginTransaction
  cases F.thrown .txnBegin with
  | some e => cases e <;> exact ⟨rfl, h⟩
  | none => exact ⟨rfl, h.setEnv (congrArg (· + 1) h.begun) (h.txnBegin B none).2⟩

theorem closeTransaction_twins (hw : w.Tidy) (h : Twins w w') (t : TxnPtr) :
    Twins (w.closeTransaction t) (w'.closeTransaction t) := by
  have hother : w'.closeTransaction t = (w.closeTransaction t).withData w'.env w'.iterators := by
    conv_lhs => rw [h.rest]
    rw [closeTransaction_eq, closeTransaction_eq]
    rfl
  have htypes : ∀ p s, (w.closeTransaction t).structures p = some s →
      ∃ s', w.structures p = some s' ∧ s'.type = s.type := by
    intro p s hs
    rw [closeTransaction_structures] at hs
    split at hs
    · obtain ⟨s', hs', rfl⟩ := Option.map_eq_some_iff.mp hs
      exact ⟨s', hs', rfl⟩
    · exact ⟨s, hs, rfl⟩
  have hsame : (w.closeTransaction t).handles = w.handles ∧
      (w.closeTransaction t).iterators = w.iterators ∧ (w.closeTransaction t).free = w.free ∧
        ∀ n, (w.closeTransaction t).find n = w.find n := by
    rw [closeTransaction_eq]
    exact ⟨rfl, rfl, rfl, fun _ => rfl⟩
  obtain ⟨hhandles, hiterators, hfree, hfind⟩ := hsame
  have hnarrows : Narrows w (w.closeTransaction t) := by
    refine ⟨fun n ts hts => ?_, fun k _ ts hts => ?_, hfree.ge⟩
    · obtain ⟨s, hs, rfl⟩ := Option.map_eq_some_iff.mp hts
      obtain ⟨p, hp, hp'⟩ := known_eq_some.mp hs
      obtain ⟨s', hs', htype⟩ := htypes p s hp'
      exact Option.map_eq_some_iff.mpr ⟨s', known_eq_some.mpr ⟨p, hfind n ▸ hp, hs'⟩, htype⟩
    · obtain ⟨idx, p, s, hidx, hp, hs, rfl⟩ := handleTypes_eq_some.mp hts
      obtain ⟨s', hs', htype⟩ := htypes p s hs
      exact handleTypes_eq_some.mpr ⟨idx, p, s', hhandles ▸ hidx, hp, hs', htype⟩
  rw [hother]
  exact h.frame hw.iterated hnarrows (closeTransaction_env w t) hiterators

theorem abortTransaction_twins (hw : w.Tidy) (h : Twins w w') (F : Faults) (tx : Option TxnPtr) :
    (w.abortTransaction F tx).1 = (w'.abortTransaction F tx).1 ∧
      Twins (w.abortTransaction F tx).2.2 (w'.abortTransaction F tx).2.2 := by
  rcases tx with _ | t
  · exact ⟨rfl, h⟩
  · unfold abortTransaction
    simp only [← h.content.ids_eq]
    split
    · exact ⟨rfl, h⟩
    · cases F.thrown .txnAbort with
      | some e => exact ⟨rfl, h⟩
      | none =>
        have haborted : Twins (w.setEnv (w.env.abort t)) (w'.setEnv (w'.env.abort t)) :=
          h.setEnv h.begun (h.content.abort t)
        exact ⟨rfl, closeTransaction_twins (hw.abort t) haborted t⟩

theorem commitTransaction_twins (hw : w.Tidy) (hc : w.Consistent) (h : Twins w w') (F : Faults)
    {tx : Option TxnPtr} (htx : w.Passes tx) :
    (w.commitTransaction F tx).1 = (w'.commitTransaction F tx).1 ∧
      Twins (w.commitTransaction F tx).2.2 (w'.commitTransaction F tx).2.2 := by
  rcases tx with _ | t
  · exact ⟨rfl, h⟩
  · have haborted : Twins (w.setEnv (w.env.abort t)) (w'.setEnv (w'.env.abort t)) :=
      h.setEnv h.begun (h.content.abort t)
    unfold commitTransaction
    simp only [← h.content.ids_eq]
    split
    · exact ⟨rfl, h⟩
    · cases F.thrown .txnCommit with
      | some e =>
        have hagain := abortTransaction_twins (hw.abort t) haborted F (some t)
        generalize abortTransaction F (w.setEnv (w.env.abort t)) (some t) = ended,
          abortTransaction F (w'.setEnv (w'.env.abort t)) (some t) = ended' at hagain
        obtain ⟨code, tx, v⟩ := ended
        obtain ⟨code', tx', v'⟩ := ended'
        obtain ⟨hcode, hv⟩ := hagain
        obtain rfl : code = code' := hcode
        cases e
        case DbDeadlockException => exact ⟨rfl, haborted⟩
        all_goals
          rcases code with _ | code
          · exact ⟨rfl, hv⟩
          · cases code <;> exact ⟨rfl, hv⟩
      | none =>
        have hcommitted : Twins (w.setEnv (w.env.commit t)) (w'.setEnv (w'.env.commit t)) :=
          h.setEnv h.begun (h.content.commit t)
        exact ⟨rfl, closeTransaction_twins (hw.commit hc.wf (htx t rfl)) hcommitted t⟩

end World

end Contest
