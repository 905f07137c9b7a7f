import TableQuery.Proofs.Action.Locality
import TableQuery.Proofs.Term.Frame

namespace TableQuery

theorem Assoc.lookup_eq_none {β : Type} {key : String} {pairs : List (String × β)}
    (h : key ∉ pairs.map Prod.fst) : pairs.lookup key = none := by
  rw [List.lookup_eq_none_iff]
  intro pair hpair
  have hne : key ≠ pair.1 := fun heq => h (heq ▸ List.mem_map_of_mem hpair)
  simpa using hne

/-- Lists of pairs with the same keys, all different, are known by what is found in them. -/
theorem Assoc.eq_of_lookup {β : Type} {pairs pairs' : List (String × β)}
    (hkeys : pairs.map Prod.fst = pairs'.map Prod.fst) (hnodup : (pairs.map Prod.fst).Nodup)
    (h : ∀ key, pairs.lookup key = pairs'.lookup key) : pairs = pairs' := by
  induction pairs generalizing pairs' with
  | nil =>
    symm at hkeys
    rw [List.map_nil, List.map_eq_nil_iff] at hkeys
    exact hkeys.symm
  | cons pair rest ih =>
    obtain ⟨k, v⟩ := pair
    cases pairs' with
    | nil => cases hkeys
    | cons pair' rest' =>
      obtain ⟨k', v'⟩ := pair'
      rw [List.map_cons, List.map_cons, List.cons.injEq] at hkeys
      obtain ⟨rfl, hrest⟩ := hkeys
      rw [List.map_cons, List.nodup_cons] at hnodup
      have hfirst := h k
      rw [lookup_cons, lookup_cons, if_pos rfl, if_pos rfl] at hfirst
      cases hfirst
      congr 1
      refine ih hrest hnodup.2 fun key => ?_
      by_cases heq : key = k
      · -- the first key does not occur again
        rw [heq, lookup_eq_none hnodup.1, lookup_eq_none (hrest ▸ hnodup.1)]
      · have hkey := h key
        rwa [lookup_cons, lookup_cons, if_neg heq, if_neg heq] at hkey

theorem State.eq_of_tables {s s' : State} (htables : s.store.tables = s'.store.tables)
    (hsource : s.source = s'.source) (hdrawn : s.drawn = s'.drawn) : s = s' := by
  obtain ⟨⟨tables⟩, source, drawn⟩ := s
  obtain ⟨⟨tables'⟩, source', drawn'⟩ := s'
  cases htables
  cases hsource
  cases hdrawn
  rfl

variable {source : KeySource} {names : List String}

namespace Registry

/-- The call of a local action: the receiver is the same on both sides, so the contexts agree. -/
theorem apply_uniform {action : String} {receiver : Evaluated} {args : List Argument}
    {declared : TypeTag} (hreceiver : ∀ name ∈ receiver.binding.table, name ∈ names)
    (hcall : (builtin.invoke action receiver.value args).Local source names) :
    Uniform (AgreeOn source names) (fun e => ∀ name ∈ e.binding.table, name ∈ names)
      (builtin.apply action receiver args declared) := by
  intro s s' hs
  have hrun := runFrom_apply builtin action receiver args declared s
  have hrun' := runFrom_apply builtin action receiver args declared s'
  have hboth := hcall ⟨receiver.type, receiver.binding, s⟩ ⟨receiver.type, receiver.binding, s'⟩
    ⟨rfl, rfl, hreceiver, hs⟩
  rw [Eval.runFrom] at hrun hrun'
  rw [hrun, hrun']
  dsimp only
  rcases hout : (builtin.invoke action receiver.value args).runFrom
    ⟨receiver.type, receiver.binding, s⟩ with ⟨outcome, c⟩
  rcases hout' : (builtin.invoke action receiver.value args).runFrom
    ⟨receiver.type, receiver.binding, s'⟩ with ⟨outcome', c'⟩
  rw [Act.runFrom] at hout hout'
  rw [hout, hout'] at hboth
  obtain ⟨rfl, hc, -⟩ := hboth
  refine ⟨by rw [hc.binding_eq], hc.state, fun e he => ?_⟩
  cases outcome with
  | error error => cases he
  | ok v =>
    cases he
    dsimp only
    split
    · exact hc.named
    · intro name hname
      cases hname

end Registry

namespace Term

/-- An argument is evaluated to the same value, or means the same when it is evaluated later. -/
theorem argumentIn_uniform {t : Term}
    (h : ∀ row, Uniform (AgreeOn source names) (fun _ => True) (t.runIn .builtin row))
    (current : Option Value) : Uniform (AgreeOn source names) (Argument.Uniform source names)
      (t.argumentIn .builtin current) := by
  unfold argumentIn
  split
  · exact Uniform.pure fun inner => h (inner.or current)
  · exact Uniform.map (h current) fun v _ => trivial

/-- Evaluation from states that agree on the tables of the term. The induction is on the term; what
is bound stays bound to one of its tables, so that the next call sees only these. -/
theorem evaluate_uniform (t : Term) (ht : ∀ name ∈ t.tables, name ∈ names)
    (current : Option Value) :
    Uniform (AgreeOn source names) (fun e => ∀ name ∈ e.binding.table, name ∈ names)
      (t.evaluate current) := by
  have hvalue (v : Value) : ∀ name ∈ (Evaluated.ofValue v).binding.table, name ∈ names :=
    fun name hname => nomatch hname
  unfold evaluate
  induction t using Term.induction generalizing current with
  | table name =>
    have hrows : Uniform (AgreeOn source names) (fun _ => True) (Eval.rows name) := by
      intro s s' hs
      have hrun := runFrom_rows name s
      have hrun' := runFrom_rows name s'
      rw [Eval.runFrom] at hrun hrun'
      rw [hrun, hrun']
      refine ⟨?_, hs, fun _ _ => trivial⟩
      unfold Store.rows
      rw [hs.rows_eq name (ht name (by simp [tables]))]
    rw [evaluateIn]
    refine Uniform.map hrows fun rows _ bound hbound => ?_
    obtain rfl := Option.mem_some_iff.mp hbound
    exact ht name (by simp [tables])
  | datum v =>
    rw [evaluateIn]
    exact Uniform.pure (hvalue v)
  | row =>
    cases current with
    | none =>
      rw [evaluateIn]
      exact Uniform.throw
    | some v =>
      rw [evaluateIn]
      exact Uniform.pure (hvalue v)
  | array items ih =>
    simp only [tables, mem_itemTables] at ht
    rw [evaluateIn, evaluateItems_eq]
    refine Uniform.map (Uniform.mapM (Q := fun _ => True) fun t hmem => ?_) fun _ _ => hvalue _
    exact Uniform.map (ih t hmem (fun name hname => ht name ⟨t, hmem, hname⟩) current)
      fun _ _ => trivial
  | object fields ih =>
    simp only [tables, mem_fieldTables] at ht
    rw [evaluateIn, evaluateFields_eq]
    refine Uniform.map (Uniform.mapM (Q := fun _ => True) fun pair hmem => ?_) fun _ _ => hvalue _
    refine Uniform.map (P := fun _ => True) ?_ fun _ _ => trivial
    exact Uniform.map (ih pair hmem (fun name hname => ht name ⟨pair, hmem, hname⟩) current)
      fun _ _ => trivial
  | call action receiver args ihr iha =>
    simp only [tables, List.mem_append, mem_itemTables] at ht
    rw [evaluateIn]
    refine Uniform.bind (ihr (fun name hname => ht name (.inl hname)) current) fun e he => ?_
    refine Uniform.bind (Uniform.ofExcept fun d hd => hd) fun d hd => ?_
    rw [evaluateArguments_eq]
    refine Uniform.bind (Uniform.mapM (Q := Argument.Uniform source names) fun t hmem => ?_)
      fun as has => ?_
    · refine argumentIn_uniform (fun row => ?_) current
      exact Uniform.map (iha t hmem (fun name hname => ht name (.inr ⟨t, hmem, hname⟩)) row)
        fun _ _ => trivial
    · -- the receiver is bound to one of the tables, so the action looks at no others
      apply Registry.apply_uniform he
      refine Uniform.bind (Uniform.ofExcept fun d hd => hd) fun d hd' => ?_
      obtain ⟨entry, hentry, -, rfl⟩ := Registry.describe_builtin hd'
      refine Uniform.bind (Uniform.check _) fun _ _ => ?_
      exact local_of_mem_catalogue hentry e.value as has

variable {t u : Term} {current : Option Value} {s : State}

/-- What a term gives is told by the tables that it names: a state with the same rows in these gives
the same. -/
theorem run_congr {s' : State} (hsource : s'.source = s.source) (hdrawn : s'.drawn = s.drawn)
    (hrows : ∀ name ∈ t.tables, s'.store.rows? name = s.store.rows? name)
    (current : Option Value) : ((t.run current).runFrom s').1 = ((t.run current).runFrom s).1 := by
  have hrun : Uniform (AgreeOn s.source t.tables) (fun _ => True) (t.run current) :=
    Uniform.map (evaluate_uniform t (fun _ hname => hname) current) fun _ _ => trivial
  exact (hrun s' s ⟨hsource, rfl, hdrawn, hrows⟩).1

/-- The source of keys stays what it is: a state agrees with itself. -/
theorem evaluate_source (t : Term) (current : Option Value) (s : State) :
    ((t.evaluate current).runFrom s).2.source = s.source := by
  have hself := evaluate_uniform t (fun _ hname => hname) current s s (AgreeOn.refl s)
  exact hself.2.1.source_eq

theorem evaluate_modifiesOnly (t : Term) (current : Option Value) (s : State) :
    ModifiesOnly s.store t.tables ((t.evaluate current).runFrom s).2 :=
  (modifiesOnly_keeps t current s.store s ⟨rfl, fun _ _ => rfl⟩).1

/-- A query gives the same after another one on other tables that draws no keys. -/
theorem evaluate_after (hdisjoint : ∀ name ∈ u.tables, name ∉ t.tables)
    (hdrawn : ((t.evaluate current).runFrom s).2.drawn = s.drawn) (other : Option Value) :
    let alone := (u.evaluate other).runFrom s
    let after := (u.evaluate other).runFrom ((t.evaluate current).runFrom s).2
    after.1 = alone.1 ∧ AgreeOn s.source u.tables alone.2 after.2 := by
  intro alone after
  have hframe := evaluate_modifiesOnly t current s
  have hagree : AgreeOn s.source u.tables s ((t.evaluate current).runFrom s).2 :=
    ⟨rfl, evaluate_source t current s, hdrawn.symm,
      fun name hname => (hframe.rows_eq name (hdisjoint name hname)).symm⟩
  have hboth := evaluate_uniform u (fun _ hname => hname) other _ _ hagree
  exact ⟨hboth.1.symm, hboth.2.1⟩

/-- Each table has the rows that the query which names it gives it. -/
theorem rows?_after (hdisjoint : ∀ name ∈ u.tables, name ∉ t.tables)
    (hdrawn : ((t.evaluate current).runFrom s).2.drawn = s.drawn) (other : Option Value)
    (name : String) :
    ((u.evaluate other).runFrom ((t.evaluate current).runFrom s).2).2.store.rows? name =
      if name ∈ u.tables then ((u.evaluate other).runFrom s).2.store.rows? name
      else ((t.evaluate current).runFrom s).2.store.rows? name := by
  split
  · next hname => exact ((evaluate_after hdisjoint hdrawn other).2.rows_eq name hname).symm
  · next hname =>
    exact (evaluate_modifiesOnly u other ((t.evaluate current).runFrom s).2).rows_eq name hname

/-- What a query gives, error or result, and what it leaves in the tables that it names depends only
on these tables and on the keys that are drawn. So queries on disjoint tables that draw no keys
give the same in either order and leave the same tables. -/
theorem evaluate_local (t : Term) (current : Option Value) (s : State) :
    (∀ s' : State, s'.source = s.source → s'.drawn = s.drawn →
      (∀ name ∈ t.tables, s'.store.rows? name = s.store.rows? name) →
      let out := (t.evaluate current).runFrom s
      let out' := (t.evaluate current).runFrom s'
      out'.1 = out.1 ∧ out'.2.drawn = out.2.drawn ∧
        ∀ name ∈ t.tables, out'.2.store.rows? name = out.2.store.rows? name) ∧
    (∀ (u : Term) (other : Option Value), (∀ name ∈ t.tables, name ∉ u.tables) →
      let first := (t.evaluate current).runFrom s
      let second := (u.evaluate other).runFrom s
      first.2.drawn = s.drawn → second.2.drawn = s.drawn →
      let both := (u.evaluate other).runFrom first.2
      let swapped := (t.evaluate current).runFrom second.2
      both.1 = second.1 ∧ swapped.1 = first.1 ∧ both.2.store.names = swapped.2.store.names ∧
        (∀ name, both.2.store.rows? name = swapped.2.store.rows? name) ∧
        ((s.store.tables.map Prod.fst).Nodup → both.2 = swapped.2)) := by
  constructor
  · intro s' hsource hdrawn hrows out out'
    have hboth := evaluate_uniform t (fun _ hname => hname) current s' s
      ⟨hsource, rfl, hdrawn, hrows⟩
    exact ⟨hboth.1, hboth.2.1.drawn_eq, hboth.2.1.rows_eq⟩
  · intro u other hdisjoint first second hfirst hsecond both swapped
    have hback : ∀ name ∈ u.tables, name ∉ t.tables := fun name hu ht => hdisjoint name ht hu
    have hboth := evaluate_after hback hfirst other
    have hswapped := evaluate_after hdisjoint hsecond current
    -- a table is as the one query leaves it that names it, whichever comes first
    have hrows (name : String) : both.2.store.rows? name = swapped.2.store.rows? name := by
      have hright := rows?_after hback hfirst other name
      have hleft := rows?_after hdisjoint hsecond current name
      rw [hright, hleft]
      by_cases hu : name ∈ u.tables
      · rw [if_pos hu, if_neg (hback name hu)]
      · by_cases ht : name ∈ t.tables
        · rw [if_neg hu, if_pos ht]
        · -- neither query names the table
          rw [if_neg hu, if_neg ht, (evaluate_modifiesOnly t current s).rows_eq name ht,
            (evaluate_modifiesOnly u other s).rows_eq name hu]
    have hkeys : both.2.store.tables.map Prod.fst = s.store.tables.map Prod.fst :=
      (evaluate_modifiesOnly u other first.2).keys_eq.trans
        (evaluate_modifiesOnly t current s).keys_eq
    have hkeys' : swapped.2.store.tables.map Prod.fst = s.store.tables.map Prod.fst :=
      (evaluate_modifiesOnly t current second.2).keys_eq.trans
        (evaluate_modifiesOnly u other s).keys_eq
    refine ⟨hboth.1, hswapped.1, ?_, hrows, fun hnodup => ?_⟩
    · rw [Store.names_eq, Store.names_eq, hkeys, hkeys']
    · have htables : both.2.store.tables = swapped.2.store.tables :=
        Assoc.eq_of_lookup (hkeys.trans hkeys'.symm) (hkeys ▸ hnodup) hrows
      have hsource : both.2.source = swapped.2.source :=
        hboth.2.source_eq'.trans hswapped.2.source_eq'.symm
      have hdrawn : both.2.drawn = swapped.2.drawn := by
        calc both.2.drawn = second.2.drawn := hboth.2.drawn_eq.symm
          _ = first.2.drawn := hsecond.trans hfirst.symm
          _ = swapped.2.drawn := hswapped.2.drawn_eq
      exact State.eq_of_tables htables hsource hdrawn

/-- A table is emptied and another one filled, in either order; a third table is not seen. -/
theorem evaluate_local_delete :
    let row : Value := .object [("id", .bool true)]
    let empty : Term := .call "delete" (.table "t") []
    let fill : Term := .call "insert" (.table "u") [.datum row]
    let s : State := ⟨⟨[("t", [row]), ("u", [])]⟩, ⟨fun _ _ => ""⟩, 0⟩
    let s' : State := ⟨⟨[("v", [row]), ("t", [row])]⟩, ⟨fun _ _ => ""⟩, 0⟩
    let first := (empty.evaluate none).runFrom s
    let second := (fill.evaluate none).runFrom s
    ((empty.evaluate none).runFrom s').1 = first.1 ∧
      ((fill.evaluate none).runFrom first.2).2 = ((empty.evaluate none).runFrom second.2).2 ∧
      ((fill.evaluate none).runFrom first.2).2.store.tables = [("t", []), ("u", [row])] := by
  intro row empty fill s s' first second
  have hlocal := evaluate_local empty none s
  have htables : ∀ name ∈ empty.tables, s'.store.rows? name = s.store.rows? name := by
    intro name hname
    obtain rfl : name = "t" := by simpa [empty, tables, itemTables] using hname
    rfl
  have hdisjoint : ∀ name ∈ empty.tables, name ∉ fill.tables := by decide
  obtain ⟨-, -, -, -, hstate⟩ := hlocal.2 fill none hdisjoint (by cbv) (by cbv)
  refine ⟨(hlocal.1 s' rfl rfl htables).1, hstate (by decide), by cbv⟩

end Term

end TableQuery
