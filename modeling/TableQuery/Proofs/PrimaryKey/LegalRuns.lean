import Mathlib
import TableQuery.Proofs.PrimaryKey.Legality

namespace TableQuery

theorem Keyed.of_keysLegal {s : State} (h : Keyed (fun _ => True) s) (hlegal : s.store.KeysLegal) :
    Keyed Value.LegalKey s := by
  refine ⟨h.fresh, fun name rows hrows => ⟨fun row hrow => ?_, (h.tables name rows hrows).apart⟩⟩
  exact ⟨((h.tables name rows hrows).isRow row hrow).distinct, hlegal name rows hrows row hrow⟩

theorem Keyed.of_legalKey {s : State} (h : Keyed Value.LegalKey s) : Keyed (fun _ => True) s := by
  refine ⟨h.fresh, fun name rows hrows => ⟨fun row hrow => ?_, (h.tables name rows hrows).apart⟩⟩
  obtain ⟨id, hid, -⟩ := ((h.tables name rows hrows).isRow row hrow).keyed
  exact ⟨((h.tables name rows hrows).isRow row hrow).distinct, id, hid, trivial⟩

namespace Term

def Direct : Term → Prop
  | call _ receiver args => receiver.mutates = false ∧ anyMutates args = false
  | t => t.mutates = false

def PutsIllegal (t : Term) (s : State) : Prop :=
  ∃ receiver args e as, t = call "replace" receiver args ∧ Prepared s receiver args e as ∧
    Arity.oneOrTwo.accepts as.length = true ∧
    Mutation.PutsIllegal e.value (as[0]?.getD .undefined) ⟨e.type, e.binding, s⟩

variable {s : State} {action : String} {receiver : Term} {args : List Term} {e : Evaluated}
  {as : List Argument}

theorem not_putsIllegal_of_not_mutates {t : Term} (h : t.mutates = false) : ¬ t.PutsIllegal s := by
  rintro ⟨receiver, args, e, as, rfl, -⟩
  simp [mutates, writers] at h

/-- What a call is prepared to is determined. -/
theorem Prepared.unique {e' : Evaluated} {as' : List Argument} (h : Prepared s receiver args e as)
    (h' : Prepared s receiver args e' as') : e = e' ∧ as = as' := by
  have hreceiver := h.receiver_eq.symm.trans h'.receiver_eq
  have hargs := h.args_eq.symm.trans h'.args_eq
  cases hreceiver
  cases hargs
  exact ⟨rfl, rfl⟩

/-- Arguments that do not write leave the state as it was. -/
theorem arguments_state (h : anyMutates args = false) :
    ((args.mapM fun t : Term => t.argumentIn .builtin none).runFrom s).2 = s :=
  (arguments_leave (anyMutates_eq_false.mp h) none s rfl).1

/-- A call that does not come to its action leaves the state as it was. -/
theorem call_state (hreceiver : receiver.mutates = false) (hargs : anyMutates args = false)
    (h : ∀ e as d, Prepared s receiver args e as → Registry.builtin.describe action ≠ .ok d) :
    (((call action receiver args).run none).runFrom s).2 = s := by
  have hfails : ∃ err, ((call action receiver args).evaluate none).runFrom s = (.error err, s) := by
    have hfirst := evaluate_state hreceiver none s
    have hlast : ((args.mapM fun t : Term => t.argumentIn .builtin none).runFrom s).2 = s :=
      arguments_state hargs
    rw [evaluate, evaluateIn, evaluateArguments_eq, Eval.runFrom_bind]
    -- the receiver fails, or there is no such action, or an argument fails, each before any write
    rcases hr : (receiver.evaluate none).runFrom s with ⟨err | e, next⟩
    all_goals
      rw [hr] at hfirst
      dsimp only at hfirst
      rw [hfirst] at hr
      rw [evaluate] at hr
      rw [hr]
    · exact ⟨err, rfl⟩
    dsimp only
    rw [Eval.runFrom_bind, Eval.runFrom_ofExcept]
    rcases hd : Registry.builtin.describe action with err | d
    · exact ⟨err, rfl⟩
    dsimp only
    rw [Eval.runFrom_bind]
    rcases ha : (args.mapM fun t : Term => t.argumentIn .builtin none).runFrom s with
      ⟨err | as, last⟩
    all_goals
      rw [ha] at hlast
      dsimp only at hlast
      rw [hlast] at ha
    · rw [hlast]
      exact ⟨err, rfl⟩
    · exact absurd hd (h e as d ⟨hr, ha⟩)
  obtain ⟨err, herr⟩ := hfails
  change ((do return (← (call action receiver args).evaluate none).value :
    Eval Value).runFrom s).2 = s
  rw [Eval.runFrom_bind, herr]

/-- What a call that writes no more than once gives to its action. -/
theorem Prepared.good {admits : Value → Prop} (h : Prepared s receiver args e as)
    (hs : Keyed admits s) (hreceiver : receiver.mutates = false) (hargs : anyMutates args = false)
    (hdatums : ∀ v ∈ (call action receiver args).datums, v.Distinct) :
    e.value.Distinct ∧ ∀ a ∈ as, a.Good (Keyed admits) Value.Distinct := by
  simp only [datums, List.mem_append, mem_itemDatums] at hdatums
  have htables (state : State) (hstate : Keyed admits state) (name : String) (rows : List Value)
      (hrows : state.store.rows? name = some rows) (row : Value) (hrow : row ∈ rows) :
      row.Distinct := (hstate.tables name rows hrows).distinct row hrow
  constructor
  · have hkeeps : Keeps (Keyed admits) (fun e => e.value.Distinct) (receiver.evaluate none) :=
      evaluateIn_keeps Value.hereditary_distinct htables receiver
        (fun v hv => hdatums v (.inl hv)) (actions_keep Value.hereditary_distinct hreceiver)
        (by simp)
    exact (hkeeps s hs).2 e (congrArg Prod.fst h.receiver_eq)
  · have heach (t : Term) (ht : t ∈ args) : Keeps (Keyed admits)
        (Argument.Good (Keyed admits) Value.Distinct) (t.argumentIn .builtin none) := by
      apply argumentIn_keeps _ (by simp)
      intro row hrow
      have hreads := anyMutates_eq_false.mp hargs t ht
      exact runIn_keeps Value.hereditary_distinct htables t
        (fun v hv => hdatums v (.inr ⟨t, ht, hv⟩)) (actions_keep Value.hereditary_distinct hreads)
        hrow
    exact (Keeps.mapM heach s hs).2 as (congrArg Prod.fst h.args_eq)

theorem validate_replace (n : Nat) : Registry.builtin.arities.validate "replace" n =
    Arity.check "replace" .oneOrTwo n := rfl

/-- A call that comes to its action, by what the action does. -/
theorem Prepared.keysLegal_iff (h : Prepared s receiver args e as) {d : Descriptor}
    (hd : Registry.builtin.describe action = .ok d) (hs : Keyed Value.LegalKey s)
    (hvalue : e.value.Distinct) (hgood : ∀ a ∈ as, a.Good (Keyed Value.LegalKey) Value.Distinct) :
    (((call action receiver args).run none).runFrom s).2.store.KeysLegal ↔
      ¬ (call action receiver args).PutsIllegal s := by
  have hputs : (call action receiver args).PutsIllegal s ↔ action = "replace" ∧
      Arity.oneOrTwo.accepts as.length = true ∧
      Mutation.PutsIllegal e.value (as[0]?.getD .undefined) ⟨e.type, e.binding, s⟩ := by
    constructor
    · rintro ⟨receiver', args', e', as', heq, hprepared, haccepts, hputs⟩
      obtain ⟨hname, rfl, rfl⟩ := Term.call.inj heq
      obtain ⟨rfl, rfl⟩ := h.unique hprepared
      exact ⟨hname, haccepts, hputs⟩
    · rintro ⟨rfl, haccepts, hputs⟩
      exact ⟨receiver, args, e, as, rfl, h, haccepts, hputs⟩
  rw [h.runFrom_call hd, hputs]
  unfold Registry.invoke
  rw [Act.runFrom_bind, Act.runFrom_ofExcept, hd]
  dsimp only
  rw [Act.runFrom_bind, Act.runFrom_ofExcept]
  obtain ⟨entry, he, rfl, rfl⟩ := Registry.describe_builtin hd
  -- refused for the number of its arguments, a call writes nothing
  rcases hvalid : Registry.builtin.arities.validate entry.name as.length with err | _
  · apply iff_of_true hs.keysLegal
    rintro ⟨hname, haccepts, -⟩
    rw [hname, validate_replace, Arity.check, if_pos haccepts] at hvalid
    cases hvalid
  · have hcall := keysLegal_call_iff he (c := ⟨e.type, e.binding, s⟩) hs hvalue hgood
    dsimp only
    rw [hcall]
    apply not_congr
    constructor
    · rintro ⟨hname, hputs⟩
      refine ⟨hname, ?_, hputs⟩
      rw [hname, validate_replace, Arity.check] at hvalid
      split at hvalid
      · assumption
      · cases hvalid
    · rintro ⟨hname, -, hputs⟩
      exact ⟨hname, hputs⟩

/-- A query in which at most the outermost call writes leaves the keys of legal tables legal,
unless it puts an illegal key in. -/
theorem keysLegal_run_iff {t : Term} (hdirect : t.Direct) (hdatums : ∀ v ∈ t.datums, v.Distinct)
    (hs : Keyed Value.LegalKey s) :
    ((t.run none).runFrom s).2.store.KeysLegal ↔ ¬ t.PutsIllegal s := by
  by_cases hreads : t.mutates = false
  · rw [run_state hreads none s]
    exact iff_of_true hs.keysLegal (not_putsIllegal_of_not_mutates hreads)
  · cases t with
    | call action receiver args =>
      obtain ⟨hreceiver, hargs⟩ := hdirect
      by_cases hcalls : ∃ e as d, Prepared s receiver args e as ∧
          Registry.builtin.describe action = .ok d
      · obtain ⟨e, as, d, hprepared, hd⟩ := hcalls
        obtain ⟨hvalue, hgood⟩ := hprepared.good hs hreceiver hargs hdatums
        exact hprepared.keysLegal_iff hd hs hvalue hgood
      · rw [call_state hreceiver hargs fun e as d hp hd => hcalls ⟨e, as, d, hp, hd⟩]
        apply iff_of_true hs.keysLegal
        rintro ⟨receiver', args', e, as, heq, hprepared, -⟩
        obtain ⟨rfl, rfl, rfl⟩ := Term.call.inj heq
        exact hcalls ⟨e, as, _, hprepared, rfl⟩
    | _ => exact absurd hdirect hreads

end Term

namespace Database

def Request.Direct : Request → Prop
  | .create _ | .drop _ => True
  | .query text => ∀ t, Term.parse text = .ok t → t.Direct
  | .term t => t.Direct
  | .init _ => False

def Request.PutsIllegal (s : State) : Request → Prop
  | .query text => ∃ t, Term.parse text = .ok t ∧ t.PutsIllegal s
  | .term t => t.PutsIllegal s
  | _ => False

variable {db : Database} {request : Request} {requests : List Request}

/-- One request. -/
theorem keysLegal_perform_iff (hordinary : request.Ordinary) (hdirect : request.Direct)
    (hs : Keyed Value.LegalKey db.state) :
    (db.perform request).2.store.KeysLegal ↔ ¬ request.PutsIllegal db.state := by
  cases request with
  | create name => exact iff_of_true (keyed_create hs).keysLegal id
  | drop name => exact iff_of_true (keyed_drop hs).keysLegal id
  | init fixture => exact hordinary.elim
  | term t => exact Term.keysLegal_run_iff hdirect hordinary hs
  | query text =>
    change (db.runIn .builtin text).2.store.KeysLegal ↔
      ¬ ∃ t, Term.parse text = .ok t ∧ t.PutsIllegal db.state
    unfold runIn
    cases hparse : Term.parse text with
    | error e =>
      apply iff_of_true hs.keysLegal
      rintro ⟨t, ht, -⟩
      cases ht
    | ok t =>
      have hrun := Term.keysLegal_run_iff (hdirect t hparse) (Term.distinctKeys_of_parse hparse) hs
      simp only [Except.ok.injEq, exists_eq_left']
      exact hrun

theorem keyed_perform (hordinary : request.Ordinary) (hs : Keyed Value.LegalKey db.state)
    (hlegal : (db.perform request).2.store.KeysLegal) :
    Keyed Value.LegalKey (db.perform request).2.state := by
  have hregistry := Registry.keepsKeys_builtin admission_true fun _ => trivial
  exact (keyed_performIn hregistry hordinary hs.of_legalKey).of_keysLegal hlegal

/-- All keys are legal all along a run exactly if no request of it puts an illegal one in. The
induction is on the requests; as long as none does, the tables before the next one are legal. -/
theorem keysLegal_performAll_iff (hordinary : ∀ request ∈ requests, request.Ordinary)
    (hdirect : ∀ request ∈ requests, request.Direct) (hs : Keyed Value.LegalKey db.state) :
    (∀ done rest, requests = done ++ rest → (db.performAll done).store.KeysLegal) ↔
      ∀ done request rest, requests = done ++ request :: rest →
        ¬ request.PutsIllegal (db.performAll done).state := by
  induction requests generalizing db with
  | nil =>
    apply iff_of_true
    · intro done rest hsplit
      obtain ⟨rfl, -⟩ := List.append_eq_nil_iff.mp hsplit.symm
      exact hs.keysLegal
    · intro done request rest hsplit
      simp at hsplit
  | cons first others ih =>
    have hfirst := hordinary first List.mem_cons_self
    have hstep := keysLegal_perform_iff hfirst (hdirect first List.mem_cons_self) hs
    have hothers (hlegal : (db.perform first).2.store.KeysLegal) :=
      ih (fun r hr => hordinary r (List.mem_cons_of_mem _ hr))
        (fun r hr => hdirect r (List.mem_cons_of_mem _ hr)) (keyed_perform hfirst hs hlegal)
    constructor
    · intro h done request rest hsplit
      have hlegal : (db.perform first).2.store.KeysLegal := h [first] others rfl
      cases done with
      | nil =>
        cases hsplit
        exact hstep.mp hlegal
      | cons _ done =>
        cases hsplit
        refine (hothers hlegal).mp (fun before after hparts => ?_) done request rest rfl
        exact h (first :: before) after (congrArg (first :: ·) hparts)
    · intro h done rest hsplit
      have hlegal := hstep.mpr (h [] first others rfl)
      cases done with
      | nil => exact hs.keysLegal
      | cons _ done =>
        cases hsplit
        refine (hothers hlegal).mpr (fun before request after hparts => ?_) done rest rfl
        exact h (first :: before) request after (congrArg (first :: ·) hparts)

/-- After a run every key of every table is legal if the run ends as it does with the check. Where
every request writes at most once, all keys are legal all along exactly if no request is a
replacement that puts an illegal one in; and of any single action, however it was called, the same
holds. -/
theorem keysLegal_runs {source : KeySource} (hsource : source.Fresh)
    (hordinary : ∀ request ∈ requests, request.Ordinary) :
    ((empty source).performAll requests = (empty source).performAllIn .checked requests →
      ((empty source).performAll requests).store.KeysLegal) ∧
    ((∀ request ∈ requests, request.Direct) →
      ((∀ done rest, requests = done ++ rest →
        ((empty source).performAll done).store.KeysLegal) ↔
      ∀ done request rest, requests = done ++ request :: rest →
        ¬ request.PutsIllegal ((empty source).performAll done).state)) ∧
    ∀ e ∈ catalogue, ∀ (receiver : Value) (args : List Argument) (c : Context),
      Keyed Value.LegalKey c.state → receiver.Distinct →
      (∀ a ∈ args, a.Good (Keyed Value.LegalKey) Value.Distinct) →
      (((e.implementation.call receiver args).runFrom c).2.state.store.KeysLegal ↔
        ¬ (e.name = "replace" ∧ Mutation.PutsIllegal receiver (args[0]?.getD .undefined) c)) := by
  refine ⟨fun hsame => ?_, fun hdirect => ?_, fun e he receiver args c hc hreceiver hargs => ?_⟩
  · rw [hsame]
    exact (keyed_performAllIn Registry.keepsKeys_checked hordinary (keyed_empty hsource)).keysLegal
  · exact keysLegal_performAll_iff hordinary hdirect (keyed_empty hsource)
  · exact keysLegal_call_iff he hc hreceiver hargs

set_option maxRecDepth 4000 in
/-- A replacement that keeps the key. -/
theorem keysLegal_runs_replace :
    let requests : List Request := [.create "t", .query "r.table(\"t\").insert({id: true})",
      .query "r.table(\"t\").get(true).replace({id: true, v: 2})"]
    ((empty .repeating).performAll requests).store.KeysLegal := by
  intro requests
  have hordinary : ∀ request ∈ requests, request.Ordinary := by
    simp [requests, Request.Ordinary]
  have hsame : (empty .repeating).performAll requests =
      (empty .repeating).performAllIn .checked requests := by cbv
  exact (keysLegal_runs KeySource.repeating_fresh hordinary).1 hsame

set_option maxRecDepth 4000 in
/-- A replacement of a row that is not there puts `null` in. -/
theorem not_keysLegal_replace_missing :
    let requests : List Request :=
      [.create "t", .query "r.table(\"t\").get(true).replace({id: null})"]
    ((empty .repeating).performAll requests).store.rows? "t" = some [.object [("id", .null)]] ∧
      ¬ ((empty .repeating).performAll requests).store.KeysLegal := by
  intro requests
  have hrows : ((empty .repeating).performAll requests).store.rows? "t" =
      some [.object [("id", .null)]] := by cbv
  refine ⟨hrows, fun hlegal => ?_⟩
  obtain ⟨id, hid, hkey⟩ := hlegal "t" _ hrows _ List.mem_cons_self
  cases hid
  cases hkey

end Database

end TableQuery
