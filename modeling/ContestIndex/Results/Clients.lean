import ContestIndex.Results.Memory
import ContestIndex.Results.Keystore

/-! @src benchmark/basedriver.c, example/BDBImpl.cc | name:How iterators must be used | layer:results

    A client does not see the members of an iterator, only the codes that it is given. This is enough:

        NULL ──GetRecords: kOk──▶ usable ──GetNext: kErrorNotFound──▶ ended
          ▲                        ↺ GetNext: any other code            │
          └─────CloseIterator──────┴───────────CloseIterator───────────┘

    Clients that go along the arrows, each of them with any number of iterators and in any order, free and
    touch nothing that is not there, as long as no cursor throws when it is closed. GetRecords needs a
    variable that is NULL: it closes what it finds there when it fails, open or not. The benchmark goes
    along the arrows unless GetRecords fails in a range query, whose code it does not look at. -/

namespace Contest

/-- What a client has in its variable. -/
inductive Hold where
  | nothing | usable | ended
  deriving DecidableEq, Repr

namespace Hold

/-- What `GetNext` has told. -/
def told (answer : Answer) : Hold := if answer = some .kErrorNotFound then .ended else .usable

end Hold

/-! ### Clients of the library -/

namespace Ownership
open Schemes

/-- The call goes along an arrow, which for GetRecords starts at a variable that is NULL, and no cursor
    throws when it is closed. -/
def polite (holds : Address → Hold) : Call → Bool
  | .getRecords _ _ _ var _ _ => var.isNone
  | .getNext i a => holds i = .usable && a.close.isNone
  | .closeIterator i close => holds i ≠ .nothing && close.isNone
  | _ => true

/-- What the clients have after a call. -/
def holdsAfter (holds : Address → Hold) (c : Call) (r : Reply) : Address → Hold :=
  match c with
  | .getRecords .. =>
    match r.iterator with
    | some i => if r.answer = some .kOk then Function.update holds i .usable else holds
    | none => holds
  | .getNext i _ => Function.update holds i (.told r.answer)
  | .closeIterator i _ => Function.update holds i .nothing
  | _ => holds

/-- A call, and what the clients see of it. -/
def watch (p : State × (Address → Hold)) (c : Call) : Option (State × (Address → Hold)) :=
  (perform p.1 c).map fun r => (r.2, holdsAfter p.2 c r.1)

/-- What a client may believe of an iterator. -/
def Believed (s : State) (i : Address) (hold : Hold) : Prop :=
  ∃ it, s.iterators i = some it ∧ (it.closed = false → it.Closable ∧ (it.ended ↔ hold = .ended))

/-- INVARIANT: what the clients believe is true. -/
structure Trusted (p : State × (Address → Hold)) : Prop where
  inv : ∃ lost, Inv p.1 lost
  held : ∀ i, p.2 i ≠ .nothing → Believed p.1 i (p.2 i)

theorem trusted_start : Trusted (.start, fun _ => .nothing) := ⟨⟨0, .start⟩, by simp⟩

variable {p p' : State × (Address → Hold)} {c : Call}

/-- What the clients believe is enough. -/
theorem allowed_of_polite (h : Trusted p) (hc : polite p.2 c) : allowed p.1 c := by
  cases c with
  | getRecords n minKeys maxKeys var cursor close =>
    obtain rfl : var = none := Option.isNone_iff_eq_none.mp hc
    cases cursor <;> rfl
  | getNext i a =>
    obtain ⟨hhold, -⟩ : p.2 i = .usable ∧ _ := by simpa [polite] using hc
    obtain ⟨it, hi, htold⟩ := h.held i (by simp [hhold])
    cases hclosed : it.closed with
    | true => simp [allowed, hi, hclosed]
    | false =>
      have hended : it.ended = false := by simpa [hhold] using (htold hclosed).2
      simp [allowed, hi, hended]
  | closeIterator i close =>
    obtain ⟨hhold, -⟩ : p.2 i ≠ .nothing ∧ _ := by simpa [polite] using hc
    obtain ⟨it, hi, htold⟩ := h.held i hhold
    cases hclosed : it.closed with
    | true => simp [allowed, hi, hclosed]
    | false =>
      have hclosable : it.Closable := (htold hclosed).1
      cases hended : it.ended with
      | true => simp [allowed, hi, hended, hclosable hended]
      | false => simp [allowed, hi, hended]
  | insertRecord joined put => rfl
  | updateRecord n flags a => rfl
  | deleteRecord n flags a => rfl

/-- FRAME: other calls change nothing of it. -/
theorem Believed.frame {s s' : State} {lost L : Cells} {r : Reply} {i : Address} {hold : Hold}
    (h : Believed s i hold) (hdone : Done s lost c r s' L) (hother : ¬ Concerns i c) :
    Believed s' i hold := by
  obtain ⟨it, hi, htold⟩ := h
  rcases hdone.frame i hother with hsame | ⟨hnone, -⟩
  · exact ⟨it, by rw [hsame, hi], htold⟩
  · rw [hi] at hnone
    contradiction

theorem told_ended_iff (answer : Answer) : Hold.told answer = .ended ↔ answer = some .kErrorNotFound := by
  unfold Hold.told
  split <;> simp_all

/-- STEP: after a polite call it is still true. -/
theorem watch_trusted (h : Trusted p) (hc : polite p.2 c) (hstep : watch p c = some p') : Trusted p' := by
  obtain ⟨⟨r, s'⟩, hrun, rfl⟩ := Option.map_eq_some_iff.mp hstep
  obtain ⟨lost, hinv⟩ := h.inv
  obtain ⟨L, hdone⟩ := done_of_perform hinv hrun
  refine ⟨⟨_, hdone.inv⟩, fun i hi => ?_⟩
  show Believed s' i (holdsAfter p.2 c r i)
  have hi : holdsAfter p.2 c r i ≠ .nothing := hi
  cases c with
  | getRecords n minKeys maxKeys var cursor close =>
    obtain rfl : var = none := Option.isNone_iff_eq_none.mp hc
    have hother : ¬ Concerns i (.getRecords n minKeys maxKeys none cursor close) := by simp [Concerns]
    unfold holdsAfter at hi ⊢
    cases hnew : r.iterator with
    | none =>
      simp only [hnew] at hi ⊢
      exact (h.held i hi).frame hdone hother
    | some j =>
      simp only [hnew] at hi ⊢
      by_cases hok : r.answer = some .kOk
      · simp only [hok, if_true] at hi ⊢
        by_cases hij : i = j
        · subst hij
          obtain ⟨i', it, hi', hit, hclosed, hended⟩ := hdone.seen hok
          obtain rfl : i = i' := Option.some.inj (hnew.symm.trans hi')
          rw [Function.update_self]
          exact ⟨it, hit, fun _ => ⟨by simp [Iterator.Closable, hended], by simp [hended]⟩⟩
        · rw [Function.update_of_ne hij] at hi ⊢
          exact (h.held i hi).frame hdone hother
      · simp only [hok, if_false] at hi ⊢
        exact (h.held i hi).frame hdone hother
  | getNext j a =>
    obtain ⟨-, hclose⟩ : _ ∧ a.close = none := by simpa [polite] using hc
    have hafter : holdsAfter p.2 (.getNext j a) r = Function.update p.2 j (.told r.answer) := rfl
    rw [hafter] at hi ⊢
    by_cases hij : i = j
    · subst hij
      obtain ⟨it, hit, htold⟩ := hdone.seen
      rw [Function.update_self]
      refine ⟨it, hit, fun hopen => ?_⟩
      obtain ⟨hclosable, hended⟩ := htold.quiet hclose hopen
      exact ⟨hclosable, by rw [hended, told_ended_iff]⟩
    · rw [Function.update_of_ne hij] at hi ⊢
      exact (h.held i hi).frame hdone fun hconcerns => hij hconcerns.symm
  | closeIterator j close =>
    have hafter : holdsAfter p.2 (.closeIterator j close) r = Function.update p.2 j .nothing := rfl
    rw [hafter] at hi ⊢
    by_cases hij : i = j
    · subst hij
      simp at hi
    · rw [Function.update_of_ne hij] at hi ⊢
      exact (h.held i hi).frame hdone fun hconcerns => hij hconcerns.symm
  | insertRecord joined put => exact (h.held i hi).frame hdone (by simp [Concerns])
  | updateRecord n flags a => exact (h.held i hi).frame hdone (by simp [Concerns])
  | deleteRecord n flags a => exact (h.held i hi).frame hdone (by simp [Concerns])

/-- CORRECT: any number of polite clients go right. -/
theorem polite_clients_go_right {calls : List Call}
    (h : Along (fun p c => polite p.2 c) watch (State.start, fun _ => .nothing) calls) :
    (exec watch (State.start, fun _ => .nothing) calls).isSome := by
  have hkeep : ∀ p c p', (∃ lost, Inv p.1 lost) → watch p c = some p' → ∃ lost, Inv p'.1 lost := by
    intro p c p' hinv hstep
    obtain ⟨⟨r, s'⟩, hrun, rfl⟩ := Option.map_eq_some_iff.mp hstep
    exact serve_keeps hinv (by rw [serve, hrun]; rfl)
  have hgood : ∀ p c, (∃ lost, Inv p.1 lost) → ((watch p c).isSome ↔ allowed p.1 c) := by
    rintro p c ⟨lost, hinv⟩
    rw [watch, Option.isSome_map, perform_isSome_iff hinv]
  rw [exec_isSome_iff hkeep hgood ⟨0, .start⟩]
  exact Along.safe (fun _ _ _ hp hc hstep => watch_trusted hp hc hstep)
    (fun _ _ hp hc => allowed_of_polite hp hc) trusted_start h

/-- Two clients take turns; the first one comes to the end. -/
theorem polite_clients_go_right_at : (exec watch (State.start, fun _ => .nothing)
    [.getRecords 1 [none] [none] none none none, .getRecords 1 [none] [none] none none none,
      .getNext 0 ⟨[.pair .within], none⟩, .getNext 7 ⟨[.throws .DbDeadlockException], none⟩,
      .getNext 0 ⟨[], none⟩, .getNext 7 ⟨[.pair .within], none⟩, .closeIterator 0 none,
      .closeIterator 7 none]).isSome :=
  polite_clients_go_right (by decide +kernel)

end Ownership

/-! ### The benchmark -/

namespace BaseDriver
open Schemes Prog

/-- A call and its code; `none`: the call does not go along an arrow. -/
def arrow (c : ApiCall) (code : ErrorCode) (hold : Hold) : Option Hold :=
  match c, hold with
  | .getRecords .., .nothing => some (if code = .kOk then .usable else .nothing)
  | .getRecords .., _ => none
  | .getNext, .usable => some (.told (some code))
  | .getNext, _ => none
  | .closeIterator, .nothing => none
  | .closeIterator, _ => some .nothing
  | _, hold => some hold

/-- What the thread has in its variable `it`, from what has happened. -/
def held : List Event → Option Hold
  | [] => some .nothing
  | .called c code :: log => (held log).bind (arrow c code)
  | _ :: log => held log

/-- `GetRecords` has failed. -/
def Event.failed : Event → Bool
  | .called (.getRecords ..) code => code ≠ .kOk
  | _ => false

/-- The thread has left the arrows, after a failure that it has not noticed. -/
def Off (log : List Event) : Prop := held log = none ∧ ∃ ev ∈ log.tail, ev.failed

/-- The thread has what `hold` says and nothing has failed, or it has left the arrows. -/
def Holds (hold : Hold → Prop) (log : List Event) : Prop :=
  ((∃ h, held log = some h ∧ hold h) ∧ ∀ ev ∈ log, ev.failed = false) ∨ Off log

/-- The latest event is the first failure. -/
def JustFailed (log : List Event) : Prop :=
  (∃ ev before, log = ev :: before ∧ held log = some .nothing ∧ ev.failed ∧
    ∀ ev' ∈ before, ev'.failed = false) ∨ Off log

/-- The thread has left the arrows exactly if a failure is not the latest event. -/
def Right (log : List Event) : Prop := held log = none ↔ ∃ ev ∈ log.tail, ev.failed

theorem Off.right {log : List Event} (h : Off log) : Right log := ⟨fun _ => h.2, fun _ => h.1⟩

theorem Holds.right {hold : Hold → Prop} {log : List Event} (h : Holds hold log) : Right log := by
  rcases h with ⟨⟨h, hheld, -⟩, hclean⟩ | hoff
  · refine ⟨by simp [hheld], ?_⟩
    rintro ⟨ev, hev, hfailed⟩
    rw [hclean ev (List.mem_of_mem_tail hev)] at hfailed
    contradiction
  · exact hoff.right

theorem JustFailed.right {log : List Event} (h : JustFailed log) : Right log := by
  rcases h with ⟨ev, before, rfl, hheld, -, hclean⟩ | hoff
  · refine ⟨by simp [hheld], ?_⟩
    rintro ⟨ev', hev', hfailed⟩
    rw [hclean ev' hev'] at hfailed
    contradiction
  · exact hoff.right

theorem Off.cons {log : List Event} (h : Off log) (ev : Event) : Off (ev :: log) := by
  refine ⟨?_, ?_⟩
  · cases ev with
    | called c code => rw [held, h.1, Option.bind_none]
    | stored slot key => exact h.1
    | selected draw slot key => exact h.1
  · obtain ⟨ev', hev', hfailed⟩ := h.2
    exact ⟨ev', List.mem_of_mem_tail hev', hfailed⟩

/-- STEP: a call that goes along an arrow. -/
theorem Holds.called {hold hold' : Hold → Prop} {log : List Event} {c : ApiCall} {code : ErrorCode}
    (h : Holds hold log) (hc : (Event.called c code).failed = false)
    (harrow : ∀ h, hold h → ∃ h', arrow c code h = some h' ∧ hold' h') :
    Holds hold' (.called c code :: log) := by
  rcases h with ⟨⟨h, hheld, hhold⟩, hclean⟩ | hoff
  · obtain ⟨h', hnext, hhold'⟩ := harrow h hhold
    refine .inl ⟨⟨h', by rw [held, hheld, Option.bind_some, hnext], hhold'⟩, ?_⟩
    exact List.forall_mem_cons.mpr ⟨hc, hclean⟩
  · exact .inr (hoff.cons _)

/-- STEP: an event that is no call. -/
theorem Holds.other {hold : Hold → Prop} {log : List Event} {ev : Event} (h : Holds hold log)
    (hev : ∀ c code, ev ≠ .called c code) : Holds hold (ev :: log) := by
  rcases h with ⟨⟨h, hheld, hhold⟩, hclean⟩ | hoff
  · cases ev with
    | called c code => exact absurd rfl (hev c code)
    | stored slot key => exact .inl ⟨⟨h, hheld, hhold⟩, List.forall_mem_cons.mpr ⟨rfl, hclean⟩⟩
    | selected draw slot key => exact .inl ⟨⟨h, hheld, hhold⟩, List.forall_mem_cons.mpr ⟨rfl, hclean⟩⟩
  · exact .inr (hoff.cons _)

/-- STEP: `GetNext` after a failure that was not noticed. -/
theorem JustFailed.getNext {log : List Event} (h : JustFailed log) (code : ErrorCode) :
    Off (.called .getNext code :: log) := by
  rcases h with ⟨ev, before, rfl, hheld, hfailed, -⟩ | hoff
  · exact ⟨by rw [held, hheld]; rfl, ev, List.mem_cons_self, hfailed⟩
  · exact hoff.cons _

/-- Between two operations the thread has no iterator. -/
abbrev Idle : List Event → Prop := Holds (· = .nothing)

section Branches
variable {e : Surroundings}

/-- What holds of the log. -/
abbrev On (P : List Event → Prop) : Task → Prop := fun t => P t.log

/-- At an exit everything is right. -/
abbrev Goes {α : Type} (P : List Event → Prop) (x : Prog Task α) (Q : α → List Event → Prop) : Prop :=
  Ensures (On Right) (On P) x fun a => On (Q a)

theorem call_goes {P : List Event → Prop} {Q : ErrorCode → List Event → Prop} (c : ApiCall)
    (h : ∀ log code, P log → Q code (.called c code :: log)) : Goes P (call e c) Q :=
  fun t ht => h t.log (e.answer t.answered) ht

/-- The calls that have nothing to do with iterators. -/
theorem idle_call {c : ApiCall} (hc : ∀ code, (Event.called c code).failed = false)
    (harrow : ∀ code, arrow c code .nothing = some .nothing) : Goes Idle (call e c) fun _ => Idle :=
  call_goes c fun log code h => h.called (hc code) fun _ hh => ⟨.nothing, by rw [hh, harrow], rfl⟩

theorem random_goes {P : List Event → Prop} {ri : RngInfo} (hri : ri.type ≠ .Zipf) :
    Goes P (random e ri) fun _ => P :=
  random_ensures (P := fun _ log => P log) e hri

theorem randomKey_goes {P : List Event → Prop} : Goes P (randomKey e) fun _ => P := by
  refine .bind (R := fun _ => On P) (.get fun _ ht => ht) fun t => ?_
  refine Ensures.mono (.mapM fun ri hri => ?_) (fun _ h => h) fun _ _ h => h.1
  exact random_goes (BDR_RNGS_type _ ri hri)

theorem told_ne_nothing (answer : Answer) : Hold.told answer ≠ .nothing := by
  unfold Hold.told
  split <;> simp

/-- STEP: the iterator may come to its end, but `kOk` says that it has not. -/
theorem getNexts_goes : ∀ n, Goes (Holds (· = .usable)) (getNexts e n) fun _ => Holds (· ≠ .nothing)
  | 0 => .pure fun t ht => by
    rcases ht with ⟨⟨h, hheld, rfl⟩, hclean⟩ | hoff
    · exact .inl ⟨⟨.usable, hheld, by simp⟩, hclean⟩
    · exact .inr hoff
  | n + 1 => by
    refine .bind (call_goes .getNext (Q := fun code => Holds (· = .told (some code))) ?_) fun code => ?_
    · exact fun log code h => h.called rfl fun _ hh => ⟨.told (some code), by rw [hh]; rfl, rfl⟩
    · refine .ite ?_ fun _ => .pure ?_
      · rintro rfl
        exact getNexts_goes n
      · rintro t (⟨⟨h, hheld, rfl⟩, hclean⟩ | hoff)
        · exact .inl ⟨⟨_, hheld, told_ne_nothing _⟩, hclean⟩
        · exact .inr hoff

/-- STEP: the range query asks an iterator that it has not been given. -/
theorem getNexts_after_failure (n : Nat) : Goes JustFailed (getNexts e (n + 1)) fun _ => Off := by
  have hoff : ∀ n, Goes Off (getNexts e n) fun _ => Off := by
    intro n
    induction n with
    | zero => exact .pure fun _ ht => ht
    | succ n ih =>
      refine .bind (call_goes .getNext fun log code h => h.cons _) fun code => ?_
      exact .ite (fun _ => ih) fun _ => .pure fun _ ht => ht
  refine .bind (call_goes .getNext fun log code h => h.getNext code) fun code => ?_
  exact .ite (fun _ => hoff n) fun _ => .pure fun _ ht => ht

theorem getRecords_goes (minKeys maxKeys : List (Option Int)) :
    Goes Idle (call e (.getRecords minKeys maxKeys)) fun code =>
      if code = .kOk then Holds (· = .usable) else JustFailed := by
  refine call_goes _ fun log code h => ?_
  split
  · rename_i hok
    subst hok
    exact h.called rfl fun _ hh => ⟨.usable, by rw [hh]; rfl, rfl⟩
  · rename_i hne
    rcases h with ⟨⟨h, hheld, rfl⟩, hclean⟩ | hoff
    · refine .inl ⟨_, log, rfl, ?_, by simp [Event.failed, hne], hclean⟩
      rw [held, hheld, Option.bind_some, arrow, if_neg hne]
    · exact .inr (hoff.cons _)

theorem closeIterator_goes :
    Goes (Holds (· ≠ .nothing)) (call e .closeIterator) fun _ => Idle :=
  call_goes _ fun log code h => h.called rfl fun hold hh =>
    ⟨.nothing, by cases hold <;> simp_all [arrow], rfl⟩

theorem rangeQuery_goes : Goes Idle (rangeQuery e) fun _ => Idle := by
  refine .bind (idle_call (fun _ => rfl) fun _ => rfl) fun _ => ?_
  refine .bind randomKey_goes fun key => .bind (getRecords_goes _ _) fun code => ?_
  -- the code of GetRecords is not looked at
  refine .bind (R := fun _ => On (Holds (· ≠ .nothing))) ?_ fun _ => ?_
  · by_cases hok : code = .kOk
    · simp only [hok, if_true]
      exact getNexts_goes 200
    · simp only [hok, if_false]
      exact (getNexts_after_failure 199).mono (fun _ h => h) fun _ _ h => .inr h
  · refine .bind closeIterator_goes fun _ => ?_
    exact .bind (idle_call (fun _ => rfl) fun _ => rfl) fun _ => .pure fun _ ht => ht

theorem pointKey_goes : Goes Idle (pointKey e) fun _ => Idle := by
  refine .bind (R := fun _ => On Idle) (.get fun _ ht => ht) fun t => ?_
  refine .bind (random_goes (by simp)) fun colselect => ?_
  refine Ensures.mono (.mapM fun c hc => ?_) (fun _ hs => hs) fun _ _ hs => hs.1
  refine .ite (fun _ => ?_) fun _ => .pure fun _ hs => hs
  have hri := BDR_RNGS_type _ c.1 (List.fst_mem_of_mem_zipIdx hc)
  exact .bind (random_goes hri) fun _ => .pure fun _ hs => hs

/-- STEP: the point query ends the process when GetRecords fails. -/
theorem pointQuery_goes : Goes Idle (pointQuery e) fun _ => Idle := by
  refine .bind pointKey_goes fun key => .bind (getRecords_goes _ _) fun code => .ite ?_ ?_
  · intro hne
    simp only [hne, if_false]
    exact .failure fun _ ht => ht.right
  · intro hok
    simp only [not_not.mp hok, if_true]
    refine .bind (call_goes .getNext (Q := fun _ => Holds (· ≠ .nothing)) ?_) fun _ => ?_
    · exact fun log code h => h.called rfl fun _ hh =>
        ⟨.told (some code), by rw [hh]; rfl, told_ne_nothing _⟩
    · exact .bind closeIterator_goes fun _ => .pure fun _ ht => ht

theorem selectSlot_goes : Goes Idle (selectSlot e) fun _ => Idle :=
  (selectSlot_ensures (P := fun _ log => Idle log) e).mono (fun _ h => h) fun _ _ h => h.1

theorem readKey_goes (draw : UInt64) (slot : Nat) : Goes Idle (readKey draw slot) fun _ => Idle :=
  fun _ ht => ht.other (by simp)

theorem update_goes : Goes Idle (update e) fun _ => Idle := by
  refine .bind selectSlot_goes fun p => .bind (R := fun _ => On Idle) (fun _ ht => ht) fun _ => ?_
  refine .bind (readKey_goes p.1 p.2) fun key => ?_
  exact .bind (idle_call (fun _ => rfl) fun _ => rfl) fun _ => .pure fun _ ht => ht

theorem delete_goes : Goes Idle (delete e) fun _ => Idle := by
  refine .bind selectSlot_goes fun p => .bind (readKey_goes p.1 p.2) fun key => ?_
  exact .bind (idle_call (fun _ => rfl) fun _ => rfl) fun _ => .pure fun _ ht => ht

theorem keystoreInsert_goes (key : List Int) : Goes Idle (keystoreInsert key) fun _ => Idle :=
  .update fun _ ht => ht.other (by simp)

theorem insert_goes : Goes Idle (insert e) fun _ => Idle := by
  refine .bind randomKey_goes fun key => .bind (idle_call (fun _ => rfl) fun _ => rfl) fun code => ?_
  exact .ite (fun _ => keystoreInsert_goes key) fun _ => .pure fun _ ht => ht

theorem inTransaction_goes {body : Prog Task Unit} (n : Nat) (h : Goes Idle body fun _ => Idle) :
    Goes Idle (inTransaction e n body) fun _ => Idle := by
  refine .bind (idle_call (fun _ => rfl) fun _ => rfl) fun _ => .bind (.times fun _ _ => h) fun _ => ?_
  exact .bind (idle_call (fun _ => rfl) fun _ => rfl) fun _ => .pure fun _ ht => ht

/-- STEP (one round of `BenchmarkTask`). -/
theorem operation_goes : Goes Idle (operation e) fun _ => Idle :=
  .bind (random_goes (by decide)) fun _ =>
    .ite (fun _ => rangeQuery_goes) fun _ =>
    .ite (fun _ => inTransaction_goes 20 pointQuery_goes) fun _ =>
    .ite (fun _ => inTransaction_goes 5 update_goes) fun _ =>
    .ite (fun _ => inTransaction_goes 5 insert_goes) fun _ =>
    inTransaction_goes 5 delete_goes

theorem populateRecord_goes : Goes Idle (populateRecord e) fun _ => Idle := by
  refine .bind randomKey_goes fun key => .bind (idle_call (fun _ => rfl) fun _ => rfl) fun code => ?_
  exact .ite (fun _ => .failure fun _ ht => ht.right) fun _ => keystoreInsert_goes key

theorem populateIndexTask_goes : Goes Idle (populateIndexTask e) fun _ => Idle := by
  refine .bind (R := fun _ => On Idle) (.get fun _ ht => ht) fun t => ?_
  refine .bind (idle_call (fun _ => rfl) fun _ => rfl) fun _ =>
    .ite (fun _ => .failure fun _ ht => ht.right) ?_
  intro _
  refine .bind (idle_call (fun _ => rfl) fun _ => rfl) fun _ =>
    .ite (fun _ => .failure fun _ ht => ht.right) ?_
  exact fun _ => .times fun _ _ => populateRecord_goes

end Branches

/-- RUN -/
theorem main_goes (e e' : Surroundings) (n : Nat) : Goes Idle (main e e' n) fun _ => Idle := by
  refine .bind populateIndexTask_goes fun _ => ?_
  refine .bind (R := fun _ => On Idle) (.update fun _ ht => ht) fun _ => ?_
  refine .bind (idle_call (fun _ => rfl) fun _ => rfl) fun _ => ?_
  exact .times fun _ _ => operation_goes

end BaseDriver

end Contest
