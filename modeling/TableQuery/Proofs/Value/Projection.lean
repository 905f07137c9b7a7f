import TableQuery.Proofs.Action.Deferral
import TableQuery.Proofs.Loops
import TableQuery.Proofs.Value.Merging

namespace TableQuery

namespace Fields

variable {names : List String} {fields : Fields}

structure Named (names : List String) (fields part : Fields) : Prop where
  mem_iff : ∀ pair, pair ∈ part ↔ pair ∈ fields ∧ pair.1 ∈ names
  ordered : (keys part).Pairwise fun a b => names.idxOf a < names.idxOf b

structure Unnamed (names : List String) (fields part : Fields) : Prop where
  mem_iff : ∀ pair, pair ∈ part ↔ pair ∈ fields ∧ pair.1 ∉ names
  ordered : part.Sublist fields

theorem mem_iff_get? (h : (keys fields).Nodup) (pair : String × Value) :
    pair ∈ fields ↔ get? pair.1 fields = some pair.2 :=
  ⟨get?_of_mem h, mem_of_get?⟩

/-- A further name adds the field that it names, if there is one. -/
theorem pluck_concat (names : List String) (name : String) (fields : Fields) :
    pluck (names ++ [name]) fields = match get? name fields with
      | some v => set name v (pluck names fields)
      | none => pluck names fields := by
  rw [pluck, List.filterMap_append, ofList, List.foldl_append]
  cases hv : get? name fields with
  | none =>
    rw [List.filterMap_cons_none (by rw [hv]; rfl)]
    rfl
  | some v =>
    rw [List.filterMap_cons_some (by rw [hv]; rfl)]
    rfl

theorem get?_pluck (name : String) (names : List String) (fields : Fields) :
    get? name (pluck names fields) = if name ∈ names then get? name fields else none := by
  induction names using List.reverseRecOn with
  | nil => rfl
  | append_singleton names other ih =>
    rw [pluck_concat]
    by_cases hname : name = other
    -- the last name is the one asked for, so the earlier ones matter only if it names no field
    · subst hname
      rw [if_pos (by simp)]
      cases hv : get? name fields with
      | none =>
        dsimp only
        rw [ih, hv, ite_self]
      | some v =>
        dsimp only
        rw [get?_set, if_pos rfl]
    · have hmem : name ∈ names ++ [other] ↔ name ∈ names := by simp [hname]
      simp only [hmem, ← ih]
      cases get? other fields with
      | none => rfl
      | some v =>
        dsimp only
        rw [get?_set, if_neg hname]

theorem get?_without (name : String) (names : List String) (fields : Fields) :
    get? name (without names fields) = if name ∈ names then none else get? name fields := by
  unfold without
  induction fields with
  | nil => exact (ite_self none).symm
  | cons pair rest ih =>
    obtain ⟨k, v⟩ := pair
    by_cases hk : k ∈ names
    · rw [List.filter_cons_of_neg (by simpa using hk), ih, get?_cons]
      by_cases hname : name = k
      · rw [if_pos (hname ▸ hk), if_pos (hname ▸ hk)]
      · rw [if_neg hname]
    · rw [List.filter_cons_of_pos (by simpa using hk), get?_cons, get?_cons, ih]
      by_cases hname : name = k
      · rw [if_pos hname, if_pos hname, if_neg (hname ▸ hk)]
      · rw [if_neg hname, if_neg hname]

theorem mem_keys_pluck {name : String} :
    name ∈ keys (pluck names fields) ↔ name ∈ names ∧ name ∈ keys fields := by
  rw [← get?_isSome_iff, ← get?_isSome_iff, get?_pluck]
  split <;> simp [*]

theorem nodup_pluck (names : List String) (fields : Fields) :
    (keys (pluck names fields)).Nodup :=
  nodup_ofList _

theorem nodup_without (names : List String) (h : (keys fields).Nodup) :
    (keys (without names fields)).Nodup :=
  h.sublist (List.filter_sublist.map Prod.fst)

/-- A name that is mentioned again keeps its place, and a new one comes last. -/
theorem pairwise_keys_pluck (names : List String) (fields : Fields) :
    (keys (pluck names fields)).Pairwise fun a b => names.idxOf a < names.idxOf b := by
  induction names using List.reverseRecOn with
  | nil => exact List.Pairwise.nil
  | append_singleton names name ih =>
    -- all keys so far are among the earlier names
    have hmem : ∀ a ∈ keys (pluck names fields), a ∈ names :=
      fun a ha => (mem_keys_pluck.mp ha).1
    have hold := pairwise_idxOf_append hmem ih [name]
    rw [pluck_concat]
    cases hv : get? name fields with
    | none => exact hold
    | some v =>
      dsimp only
      rw [keys_set]
      split
      · exact hold
      · next hnew =>
        -- were the name among the earlier ones, its field would have been taken
        have hname : name ∉ names := fun hmem =>
          hnew (mem_keys_pluck.mpr ⟨hmem, get?_isSome_iff.mp (by simp [hv])⟩)
        exact pairwise_idxOf_concat hmem ih hname

theorem named_pluck (h : (keys fields).Nodup) (names : List String) :
    Named names fields (pluck names fields) where
  mem_iff pair := by
    rw [mem_iff_get? (nodup_pluck names fields), mem_iff_get? h, get?_pluck]
    split <;> simp [*]
  ordered := pairwise_keys_pluck names fields

theorem unnamed_without (names : List String) (fields : Fields) :
    Unnamed names fields (without names fields) where
  mem_iff pair := by simp [without]
  ordered := List.filter_sublist

/-- Every field is in one of the two parts, so that their merge has it with its value. -/
theorem get?_merge_projections (name : String) (names : List String) (fields : Fields) :
    get? name (merge (without names fields) (pluck names fields)) = get? name fields := by
  -- a name is in one part only, so the merge never meets a field on both sides
  rw [get?_merge name _ (nodup_pluck names fields), get?_pluck, get?_without]
  by_cases hname : name ∈ names
  · simp only [if_pos hname]
    cases get? name fields with
    | none => rfl
    | some v => exact congrArg some (Value.mergeValue_none v)
  · simp only [if_neg hname]

theorem equals_merge_projections (h : (Value.object fields).Distinct) (names : List String) :
    Value.equals ((Value.object (without names fields)).merge (.object (pluck names fields)))
      (.object fields) = true := by
  obtain ⟨hnodup, -⟩ := Value.distinctKeys_object.mp h
  have hget (name : String) := get?_merge_projections name names fields
  rw [Value.merge_object]
  refine Value.equals_object_of_get? (nodup_merge (nodup_without names hnodup) _) hnodup ?_ ?_
  · intro name hname
    rwa [← get?_isSome_iff, hget, get?_isSome_iff]
  · intro name v hv
    rw [hget] at hv
    exact ⟨v, hv, Value.equals_refl (Value.hereditary_distinct.get? h hv)⟩

theorem pluck_congr {others : Fields} (h : ∀ name ∈ names, get? name fields = get? name others) :
    pluck names fields = pluck names others := by
  have hpairs : names.filterMap (fun name => (get? name fields).map fun v => (name, v)) =
      names.filterMap fun name => (get? name others).map fun v => (name, v) :=
    List.filterMap_congr fun name hname => by rw [h name hname]
  rw [pluck, hpairs, pluck]

theorem pluck_pluck (names : List String) (fields : Fields) :
    pluck names (pluck names fields) = pluck names fields :=
  pluck_congr fun name hname => by rw [get?_pluck, if_pos hname]

theorem without_without (names : List String) (fields : Fields) :
    without names (without names fields) = without names fields := by
  simp [without, List.filter_filter]

end Fields

namespace Access

variable {values : List Value} {names : List String}

/-- Values mention names: strings, apart or in arrays however deep, from left to right. -/
inductive Mentions : List Value → List String → Prop
  | nil : Mentions [] []
  | string (name : String) {rest : List Value} {names : List String} (later : Mentions rest names) :
      Mentions (.string name :: rest) (name :: names)
  | array {items rest : List Value} {first names : List String} (inner : Mentions items first)
      (later : Mentions rest names) : Mentions (.array items :: rest) (first ++ names)

theorem mentions_strings (names : List String) : Mentions (names.map .string) names := by
  induction names with
  | nil => exact .nil
  | cons name names ih => exact .string name ih

/-- An action to which values mention the names of fields does what an operation says to an object,
or to each object of an array. A value in the array that is no object is a type error. The context
stays as it is. -/
structure Projects (action : String) (op : List String → Fields → Fields) : Prop where
  object : ∀ fields values names c, values ≠ [] → Mentions values names →
    (Registry.builtin.invoke action (.object fields) (values.map .datum)).runFrom c =
      (.ok (.object (op names fields)), c)
  array : ∀ (objects : List Fields) values names c, values ≠ [] → Mentions values names →
    (Registry.builtin.invoke action (.array (objects.map .object)) (values.map .datum)).runFrom c =
      (.ok (.array (objects.map fun fields => .object (op names fields))), c)
  refused : ∀ rows values names c, values ≠ [] → Mentions values names →
    (∃ row ∈ rows, row.isObject = false) → ∃ e, e.category = .type ∧
      (Registry.builtin.invoke action (.array rows) (values.map .datum)).runFrom c = (.error e, c)

theorem mapM_asString (h : Mentions values names) :
    (Value.flatten values).mapM Value.asString = .ok names := by
  induction h with
  | nil => rfl
  | string name later ih =>
    rw [Value.flatten, List.mapM_append, ih]
    rfl
  | array inner later ihInner ihLater =>
    rw [Value.flatten, Value.flattenItem, List.mapM_append, ihInner, ihLater]
    rfl

def projection (op : Fields → Fields) : Value → Except Error Value :=
  onRows .arrayOrObject
    (fun rows => .array <$> (do
      return (← rows.mapM Value.asFields).map fun row => .object (op row)))
    fun fields => .object (op fields)

theorem pluck_eq_projection (names : List String) :
    pluck names = projection (Fields.pluck names) := rfl

theorem without_eq_projection (names : List String) :
    without names = projection (Fields.without names) := rfl

theorem mapM_asFields_objects (objects : List Fields) :
    (objects.map Value.object).mapM Value.asFields = .ok objects := by
  induction objects with
  | nil => rfl
  | cons fields rest ih =>
    rw [List.map_cons, List.mapM_cons, ih]
    rfl

theorem projection_objects (op : Fields → Fields) (objects : List Fields) :
    projection op (.array (objects.map .object)) =
      .ok (.array (objects.map fun fields => .object (op fields))) := by
  rw [projection, onRows, mapM_asFields_objects]
  rfl

theorem projection_refused (op : Fields → Fields) {rows : List Value}
    (h : ∃ row ∈ rows, row.isObject = false) :
    ∃ e : Error, e.category = .type ∧ projection op (.array rows) = .error e := by
  obtain ⟨row, hmem, hrow⟩ := h
  rcases Sequence.mapM_asFields_cases rows with ⟨hall, -⟩ | ⟨other, -, -, herror⟩
  · rw [hall row hmem] at hrow
    cases hrow
  · refine ⟨.kindMismatch .object other.kind, rfl, ?_⟩
    rw [projection, onRows, herror]
    rfl

theorem named_datums {op : List String → Value → Except Error Value} (h : Mentions values names)
    (receiver : Value) :
    named op receiver (values.map .datum) = MonadExcept.ofExcept (op names receiver) := by
  rw [named, Act.resolveAll_datums, pure_bind, Value.fieldNames, mapM_asString h]
  rfl

theorem projects_of_describe {action : String} {op : List String → Fields → Fields}
    (h : Registry.builtin.describe action =
      .ok ⟨.oneOrMore, .datum, .variadic (named fun names => projection (op names))⟩) :
    Projects action op := by
  have hinvoke (receiver : Value) {values : List Value} {names : List String} (c : Context)
      (hvalues : values ≠ []) (hnames : Mentions values names) :
      (Registry.builtin.invoke action receiver (values.map .datum)).runFrom c =
        (projection (op names) receiver, c) := by
    obtain ⟨value, rest, rfl⟩ := List.exists_cons_of_ne_nil hvalues
    rw [Registry.invoke_oneOrMore h, List.map_cons]
    dsimp only
    rw [← List.map_cons, named_datums hnames, Act.runFrom_ofExcept]
  constructor
  · intro fields values names c hvalues hnames
    exact hinvoke _ c hvalues hnames
  · intro objects values names c hvalues hnames
    rw [hinvoke _ c hvalues hnames, projection_objects]
  · intro rows values names c hvalues hnames hrows
    obtain ⟨e, he, herror⟩ := projection_refused (op names) hrows
    exact ⟨e, he, by rw [hinvoke _ c hvalues hnames, herror]⟩

theorem projects_pluck : Projects "pluck" Fields.pluck := by
  apply projects_of_describe
  simp only [← pluck_eq_projection]
  rfl

theorem projects_without : Projects "without" Fields.without := by
  apply projects_of_describe
  simp only [← without_eq_projection]
  rfl

end Access

namespace Fields

/-- Some names, repeated and unknown ones among them, split an object into the fields that `pluck`
takes and those that `without` leaves. Both parts together are the object again, and each part stays
as it is when it is taken once more. The actions of these names take the parts of an object, and of
each object of an array; a value in the array that is no object is a type error. -/
theorem projections_split (h : (Value.object fields).Distinct) (names : List String) :
    Named names fields (pluck names fields) ∧ Unnamed names fields (without names fields) ∧
      Value.equals ((Value.object (without names fields)).merge (.object (pluck names fields)))
        (.object fields) = true ∧
      pluck names (pluck names fields) = pluck names fields ∧
      without names (without names fields) = without names fields ∧
      Access.Projects "pluck" pluck ∧ Access.Projects "without" without := by
  obtain ⟨hnodup, -⟩ := Value.distinctKeys_object.mp h
  exact ⟨named_pluck hnodup names, unnamed_without names fields, equals_merge_projections h names,
    pluck_pluck names fields, without_without names fields, Access.projects_pluck,
    Access.projects_without⟩

/-- A name that is mentioned twice, an unknown one in an array, and an object as a field. -/
theorem projections_split_repeated :
    let mentioned : List Value :=
      [.string "c", .array [.string "x", .array [.string "a"]], .string "c"]
    let fields : Fields := [("a", .null), ("b", .bool true), ("c", .object [("a", .string "y")])]
    let taken : Fields := [("c", .object [("a", .string "y")]), ("a", .null)]
    let left : Fields := [("b", .bool true)]
    let run (action : String) (receiver : Value) (c : Context) :=
      (Registry.builtin.invoke action receiver (mentioned.map .datum)).runFrom c
    (Value.object fields).Distinct ∧ Access.Mentions mentioned ["c", "x", "a", "c"] ∧
      Named ["c", "x", "a", "c"] fields taken ∧ Unnamed ["c", "x", "a", "c"] fields left ∧
      Value.equals ((Value.object left).merge (.object taken)) (.object fields) = true ∧
      ∀ c, run "pluck" (.object fields) c = (.ok (.object taken), c) ∧
        run "without" (.array [.object fields, .object []]) c =
          (.ok (.array [.object left, .object []]), c) ∧
        ∃ e, e.category = .type ∧
          run "pluck" (.array [.object fields, .null]) c = (.error e, c) := by
  intro mentioned fields taken left run
  have hdistinct : (Value.object fields).Distinct := by decide
  have hnames : Access.Mentions mentioned ["c", "x", "a", "c"] :=
    .string "c" (.array (.string "x" (.array (Access.mentions_strings ["a"]) .nil))
      (.string "c" .nil))
  have htaken : pluck ["c", "x", "a", "c"] fields = taken := rfl
  have hleft : without ["c", "x", "a", "c"] fields = left := rfl
  obtain ⟨hnamed, hunnamed, hequals, -, -, hpluck, hwithout⟩ :=
    projections_split hdistinct ["c", "x", "a", "c"]
  rw [htaken] at hnamed
  rw [hleft] at hunnamed
  rw [htaken, hleft] at hequals
  refine ⟨hdistinct, hnames, hnamed, hunnamed, hequals, fun c => ⟨?_, ?_, ?_⟩⟩
  · exact hpluck.object fields mentioned _ c (List.cons_ne_nil _ _) hnames
  · exact hwithout.array [fields, []] mentioned _ c (List.cons_ne_nil _ _) hnames
  · exact hpluck.refused _ mentioned _ c (List.cons_ne_nil _ _) hnames
      ⟨.null, .tail _ (.head _), rfl⟩

end Fields

end TableQuery
