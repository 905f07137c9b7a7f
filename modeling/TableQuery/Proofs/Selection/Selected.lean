import TableQuery.Proofs.PrimaryKey.Keyed
import TableQuery.Proofs.Term.Evaluation

namespace TableQuery

def selectedRows : Value → List Value
  | .array rows => rows
  | .null => []
  | row => [row]

def keysOf (rows : List Value) : List Value := rows.filterMap Value.id?

def hasKeyOf (keys : List Value) (row : Value) : Bool :=
  row.id?.any fun id => keys.any fun key => id.strictEquals key

section

variable {admits : Value → Prop} {live selected : List Value} {row : Value}

theorem selectedRows_of_isRow (h : IsRow admits row) : selectedRows row = [row] := by
  obtain ⟨fields, id, rfl, -, -⟩ := h.exists_fields
  rfl

theorem mem_keysOf {key : Value} {rows : List Value} :
    key ∈ keysOf rows ↔ ∃ row ∈ rows, row.id? = some key := List.mem_filterMap

/-- A selected row is known by its key. -/
theorem mem_selected_iff (hlive : KeyedBy admits live) (hsub : selected.Subperm live)
    (hrow : row ∈ live) : hasKeyOf (keysOf selected) row = true ↔ row ∈ selected := by
  obtain ⟨id, hid, -⟩ := (hlive.isRow row hrow).keyed
  have hany : hasKeyOf (keysOf selected) row =
      (keysOf selected).any fun key => id.strictEquals key := by
    rw [hasKeyOf, hid, Option.any_some]
  rw [hany, List.any_eq_true]
  constructor
  · rintro ⟨key, hkey, hequal⟩
    obtain ⟨other, hother, hotherId⟩ := mem_keysOf.mp hkey
    rw [Value.strictEquals_eq_equals] at hequal
    have hsame : row.sameRow other = true := by rw [sameRow_of_id hid hotherId, hequal]
    rw [hlive.eq_of_sameRow hrow (hsub.subset hother) hsame]
    exact hother
  · intro hmem
    refine ⟨id, mem_keysOf.mpr ⟨row, hmem, hid⟩, ?_⟩
    rw [Value.strictEquals_eq_equals]
    exact Value.equals_refl ((hlive.isRow row hrow).distinct_id hid)

/-- As many keys as rows. -/
theorem length_keysOf (hrows : ∀ row ∈ selected, IsRow admits row) :
    (keysOf selected).length = selected.length := by
  induction selected with
  | nil => rfl
  | cons row rest ih =>
    obtain ⟨id, hid, -⟩ := (hrows row List.mem_cons_self).keyed
    rw [keysOf, List.filterMap_cons_some hid, List.length_cons, List.length_cons]
    have hrest := ih fun r hr => hrows r (List.mem_cons_of_mem _ hr)
    rw [keysOf] at hrest
    omega

/-- The keys of selected rows are different. -/
theorem pairwise_keysOf (hlive : KeyedBy admits live) (hsub : selected.Subperm live) :
    (keysOf selected).Pairwise fun x y => x.strictEquals y = false := by
  rw [keysOf, List.pairwise_filterMap]
  apply (hlive.nodup_of_subperm hsub).pairwise_of_forall_ne
  intro a ha b hb hne x hx y hy
  by_contra hsame
  apply hne
  apply hlive.eq_of_sameRow (hsub.subset ha) (hsub.subset hb)
  rw [sameRow_of_id hx hy, ← Value.strictEquals_eq_equals]
  simpa using hsame

end

def Picks (result receiverType : TypeTag) (receiver v : Value) : Prop :=
  receiverType.isStream = true ∧ match result with
    | .selectionArray => RowsOf receiver v
    | .selection => v = .null ∨ RowOf receiver v
    | _ => False

/-- The declared types of the actions under which a result may be bound. -/
theorem entry_of_isSelection {e : Entry} (he : e ∈ catalogue) (hread : e.name ∉ Term.writers)
    {type : TypeTag} {numeric : Bool} (h : (e.type.resolve type numeric).isSelection = true) :
    e ∈ Access.entries ++ Range.entries ++ Selection.entries := by
  have hdatum : ∀ d ∈ ⟨"typeOf", .none, .datum, .nullary typeOf⟩ :: Arithmetic.entries ++
      Comparison.entries, d.type = .datum := by decide
  simp only [catalogue, List.mem_append] at he ⊢
  simp only [List.mem_append] at hdatum
  rcases he with ((((hfirst | hsecond) | haccess) | hrange) | hselection) | hmutation
  · rw [hdatum e (.inl hfirst)] at h
    cases h
  · rw [hdatum e (.inr hsecond)] at h
    cases h
  · exact .inl (.inl haccess)
  · exact .inl (.inr hrange)
  · exact .inr hselection
  · have hwrites : ∀ d ∈ Mutation.entries, d.name ∈ Term.writers := by decide
    exact absurd (hwrites e hmutation) hread

theorem resolve_sequence {type : TypeTag} {numeric : Bool}
    (h : (TypeTag.sequence.resolve type numeric).isSelection = true) :
    type.isStream = true ∧ TypeTag.sequence.resolve type numeric = .selectionArray := by
  unfold TypeTag.resolve at h ⊢
  dsimp only at h ⊢
  split at h
  · next hstream => exact ⟨hstream, if_pos hstream⟩
  · cases h

theorem resolve_bracket {type : TypeTag} {numeric : Bool}
    (h : (TypeTag.bracket.resolve type numeric).isSelection = true) :
    (numeric && type.isStream) = true ∧ TypeTag.bracket.resolve type numeric = .selection := by
  unfold TypeTag.resolve at h ⊢
  dsimp only at h ⊢
  split at h
  · next hrow => exact ⟨hrow, if_pos hrow⟩
  · cases h

section

variable {I : State → Prop} {V : Value → Prop} {type : TypeTag} {table : Option String}
  {receiver : Value} {args : List Argument}

theorem Access.hasFields_keeps (hargs : ∀ a ∈ args, a.Good I V)
    (hstream : ∃ rows, receiver = .array rows) :
    Keeps (Framed I type table) (RowsOf receiver) (named hasFields receiver args) := by
  obtain ⟨rows, rfl⟩ := hstream
  refine named_keeps (fun names w h => ?_) hargs
  obtain ⟨kept, hkept, rfl⟩ := map_array_ok h
  exact ⟨rows, kept, rfl, rfl, (Sequence.hasFields_sublist hkept).subperm⟩

/-- A result that is bound to a table is picked from the receiver. -/
theorem picks_keeps {e : Entry} (hV : Value.Hereditary V) (he : e ∈ catalogue)
    (hread : e.name ∉ Term.writers) (hreceiver : V receiver) (hargs : ∀ a ∈ args, a.Good I V)
    (hstream : type.isStream = true → ∃ rows, receiver = .array rows)
    (htype : (e.type.resolve type ((args.head?).any Argument.isNumber)).isSelection = true) :
    Keeps (Framed I type table)
      (Picks (e.type.resolve type ((args.head?).any Argument.isNumber)) type receiver)
      (e.implementation.call receiver args) := by
  have hgood := Argument.good_getD hargs 0
  have hrows {x : Act Value} (h : (TypeTag.sequence.resolve type
      ((args.head?).any Argument.isNumber)).isSelection = true)
      (hx : Keeps (Framed I type table) (RowsOf receiver) x) :
      Keeps (Framed I type table)
        (Picks (TypeTag.sequence.resolve type ((args.head?).any Argument.isNumber)) type receiver)
        x := by
    obtain ⟨hs, hresult⟩ := resolve_sequence h
    rw [hresult]
    exact hx.imp fun v hv => ⟨hs, hv⟩
  have hrow {x : Act Value} (h : (TypeTag.bracket.resolve type
      ((args.head?).any Argument.isNumber)).isSelection = true)
      (hx : (args.head?).any Argument.isNumber = true →
        Keeps (Framed I type table) (RowOf receiver) x) :
      Keeps (Framed I type table)
        (Picks (TypeTag.bracket.resolve type ((args.head?).any Argument.isNumber)) type receiver)
        x := by
    obtain ⟨hboth, hresult⟩ := resolve_bracket h
    rw [Bool.and_eq_true] at hboth
    rw [hresult]
    exact (hx hboth.1).imp fun v hv => ⟨hboth.2, .inr hv⟩
  have hentries := entry_of_isSelection he hread htype
  simp only [Access.entries, Range.entries, Selection.entries, List.cons_append, List.nil_append,
    List.mem_cons, List.not_mem_nil, or_false] at hentries
  -- the entries in the order of the catalogue: access, ranges, selections
  rcases hentries with rfl | rfl | rfl | rfl | rfl | rfl | rfl | rfl | rfl | rfl | rfl | rfl |
    rfl | rfl | rfl
  · refine hrow htype fun hnumber => ?_
    rcases args with _ | ⟨_ | v | run, rest⟩ <;> try cases hnumber
    cases v <;> cases hnumber
    exact Access.nthRow_keeps
  · exact hrow htype fun _ => Access.nth_keeps hgood
  · cases htype
  · obtain ⟨hs, -⟩ := resolve_sequence htype
    exact hrows htype (Access.hasFields_keeps hargs (hstream hs))
  · cases htype
  · cases htype
  · cases htype
  · exact hrows htype (Range.slice_keeps hargs)
  · exact hrows htype (Range.limit_keeps hgood)
  · cases htype
  · cases htype
  · exact hrows htype (Range.filter_keeps hV hreceiver hgood)
  · exact hrows htype (Range.orderBy_keeps hgood)
  · exact (Selection.get_keeps hgood).imp fun v hv => ⟨by rw [hv.1]; rfl, hv.2⟩
  · exact (Selection.getAll_keeps hargs).imp fun v hv => ⟨by rw [hv.1]; rfl, hv.2⟩

end

/-- What a result that is bound to a table holds, for the rows that the table has in a state. -/
structure Selects (s : State) (e : Evaluated) (t : String) (live : List Value) : Prop where
  table_eq : e.binding.table = some t
  rows_eq : s.store.rows? t = some live
  value : match e.type with
    | .table => e.value = .array live
    | .selectionArray => ∃ rows, e.value = .array rows ∧ rows.Subperm live
    | .selection => e.value = .null ∨ e.value ∈ live
    | _ => False

namespace Selects

variable {s : State} {e : Evaluated} {t : String} {live : List Value}

/-- A selection is a whole table, a row set, or one row or none. -/
theorem value_cases (h : Selects s e t live) :
    (e.type = .table ∧ e.value = .array live) ∨
      (e.type = .selectionArray ∧ ∃ rows, e.value = .array rows ∧ rows.Subperm live) ∨
      (e.type = .selection ∧ (e.value = .null ∨ e.value ∈ live)) := by
  have hvalue := h.value
  cases htype : e.type <;> rw [htype] at hvalue <;> try exact hvalue.elim
  · exact .inl ⟨rfl, hvalue⟩
  · exact .inr (.inr ⟨rfl, hvalue⟩)
  · exact .inr (.inl ⟨rfl, hvalue⟩)

theorem exists_of_isStream (h : Selects s e t live) (hstream : e.type.isStream = true) :
    ∃ rows, e.value = .array rows ∧ rows.Subperm live := by
  rcases h.value_cases with ⟨-, hvalue⟩ | ⟨-, hrows⟩ | ⟨htype, -⟩
  · exact ⟨live, hvalue, .refl live⟩
  · exact hrows
  · rw [htype] at hstream
    cases hstream

/-- What is selected are rows of the table, none more often than it is there. -/
theorem selectedRows_subperm {admits : Value → Prop} (h : Selects s e t live)
    (hlive : KeyedBy admits live) : (selectedRows e.value).Subperm live := by
  rcases h.value_cases with ⟨-, hvalue⟩ | ⟨-, rows, hrows, hsub⟩ | ⟨-, hnull | hmem⟩
  · rw [hvalue]
    exact .refl live
  · rw [hrows]
    exact hsub
  · rw [hnull]
    exact List.nil_subperm
  · rw [selectedRows_of_isRow (hlive.isRow _ hmem), List.singleton_subperm_iff]
    exact hmem

/-- What is picked from a selection is a selection of the same table. -/
theorem of_picks (h : Selects s e t live) {picked : Evaluated}
    (hpicks : Picks picked.type e.type e.value picked.value)
    (htable : picked.binding.table = e.binding.table) : Selects s picked t live := by
  refine ⟨htable.trans h.table_eq, h.rows_eq, ?_⟩
  obtain ⟨hstream, hpicked⟩ := hpicks
  obtain ⟨rows, hrows, hsub⟩ := h.exists_of_isStream hstream
  rw [hrows] at hpicked
  cases htype : picked.type <;> rw [htype] at hpicked <;> try exact hpicked.elim
  · rcases hpicked with hnull | ⟨rows', heq, hmem⟩
    · exact .inl hnull
    · cases heq
      exact .inr (hsub.subset hmem)
  · obtain ⟨rows', kept, heq, hkept, hsub'⟩ := hpicked
    cases heq
    exact ⟨kept, hkept, hsub'.trans hsub⟩

end Selects

namespace Term

/-- A call: the result of an action is picked from a selection, or is not bound to a table. -/
theorem apply_selects {s : State} {e : Entry} (he : e ∈ catalogue) (hread : e.name ∉ writers)
    (hd : Registry.builtin.describe e.name = .ok ⟨e.arity, e.type, e.implementation⟩)
    {ev : Evaluated} {args : List Argument}
    (hargs : ∀ a ∈ args, a.Leaves s)
    (hev : ev.type.isSelection = true → ∃ t live, Selects s ev t live) :
    Keeps (fun state => state = s) (fun e => e.type.isSelection = true →
      ∃ t live, Selects s e t live) (Registry.builtin.apply e.name ev args e.type) := by
  have hselection (hs : ev.type.isStream = true) : ev.type.isSelection = true := by
    cases htype : ev.type <;> rw [htype] at hs <;> first | rfl | cases hs
  have hstream (hs : ev.type.isStream = true) : ∃ rows, ev.value = .array rows := by
    obtain ⟨t, live, hselects⟩ := hev (hselection hs)
    obtain ⟨rows, hrows, -⟩ := hselects.exists_of_isStream hs
    exact ⟨rows, hrows⟩
  have hcall : Keeps (FramedAt s ev.type ev.binding.table)
      (fun v => (e.type.resolve ev.type ((args.head?).any Argument.isNumber)).isSelection = true →
        Picks (e.type.resolve ev.type ((args.head?).any Argument.isNumber)) ev.type ev.value v)
      (Registry.builtin.invoke e.name ev.value args) := by
    refine Registry.invoke_keeps fun d hd' => ?_
    cases hd.symm.trans hd'
    by_cases htype :
        (e.type.resolve ev.type ((args.head?).any Argument.isNumber)).isSelection = true
    · exact (picks_keeps Value.hereditary_true he hread trivial hargs hstream htype).imp
        fun _ h _ => h
    · have hkeeps := keeps_of_not_writes Value.hereditary_true he hread ev.value args ev.type
        ev.binding.table trivial hargs
      exact hkeeps.imp fun _ _ h => absurd h htype
  refine (Registry.apply_keeps hcall).imp ?_
  rintro picked ⟨hpicks, hresult, htable⟩ htype
  rw [← hresult] at hpicks
  obtain ⟨t, live, hselects⟩ := hev (hselection (hpicks htype).1)
  exact ⟨t, live, hselects.of_picks (hpicks htype) (htable.trans (if_pos htype))⟩

/-- A value that belongs to no table is no selection. -/
theorem selects_ofValue {s : State} {v : Value}
    (h : (Evaluated.ofValue v).type.isSelection = true) :
    ∃ t live, Selects s (.ofValue v) t live := by
  cases h

/-- The result of a term that does not write holds rows of its table, if it is bound to one. The
induction is on the term; only the receivers of its calls matter. -/
theorem selects_keeps (s : State) {term : Term} (h : term.mutates = false)
    (current : Option Value) :
    Keeps (fun state => state = s) (fun e => e.type.isSelection = true →
      ∃ t live, Selects s e t live) (term.evaluate current) := by
  unfold evaluate
  induction term using Term.induction generalizing current with
  | table name =>
    rw [evaluateIn]
    refine Keeps.map (rows_keeps fun state hstate rows h => hstate ▸ h) fun rows h _ => ?_
    exact ⟨name, rows, rfl, h, rfl⟩
  | datum v =>
    rw [evaluateIn]
    exact Keeps.pure selects_ofValue
  | row =>
    cases current with
    | none =>
      rw [evaluateIn]
      exact Keeps.throw
    | some v =>
      rw [evaluateIn]
      exact Keeps.pure selects_ofValue
  | array items ih =>
    rw [mutates, anyMutates_eq_false] at h
    rw [evaluateIn, evaluateItems_eq]
    refine Keeps.map (Keeps.mapM (Q := fun _ => True) fun t ht => ?_) fun _ _ => selects_ofValue
    exact Keeps.map (ih t ht (h t ht) current) fun _ _ => trivial
  | object fields ih =>
    rw [mutates, anyFieldMutates_eq_false] at h
    rw [evaluateIn, evaluateFields_eq]
    refine Keeps.map (Keeps.mapM (Q := fun _ => True) fun pair hpair => ?_)
      fun _ _ => selects_ofValue
    refine Keeps.map (P := fun _ => True) ?_ fun _ _ => trivial
    exact Keeps.map (ih pair hpair (h pair hpair) current) fun _ _ => trivial
  | call action receiver args ihr iha =>
    simp only [mutates, Bool.or_eq_false_iff, anyMutates_eq_false] at h
    rw [evaluateIn]
    refine Keeps.bind (ihr h.1.2 current) fun ev hev => ?_
    refine Keeps.bind (Keeps.ofExcept fun d hd => hd) fun d hd => ?_
    obtain ⟨e, he, rfl, rfl⟩ := Registry.describe_builtin hd
    have hread : e.name ∉ writers := by simpa using h.1.1
    -- of the arguments it matters only that they leave the state as it is
    rw [evaluateArguments_eq]
    refine Keeps.bind (arguments_leave h.2 current) fun as has => ?_
    exact apply_selects he hread hd has hev

/-- A term that does not write and gives a table, a row or a row set gives rows of its table. -/
theorem exists_selects {s : State} {term : Term} (h : term.mutates = false)
    {current : Option Value} {e : Evaluated} {next : State}
    (hrun : (term.evaluate current).runFrom s = (.ok e, next))
    (htype : e.type.isSelection = true) : ∃ t live, Selects s e t live :=
  (selects_keeps s h current s rfl).2 e (congrArg Prod.fst hrun) htype

end Term

end TableQuery
