import TableQuery.Proofs.Selection.Targets

namespace TableQuery

namespace Selection

variable {name : String} {keys : List Value}

def HasKeyIn (name : String) (keys : List Value) (row : Value) : Prop :=
  ∃ v ∈ row.field? name, ∃ key ∈ keys, key.equals v = true

instance (name : String) (keys : List Value) : DecidablePred (HasKeyIn name keys) := fun row =>
  inferInstanceAs (Decidable (∃ v ∈ row.field? name, ∃ key ∈ keys, key.equals v = true))

theorem hasKeyIn_congr {others : List Value} (h : ∀ key, key ∈ others ↔ key ∈ keys) :
    HasKeyIn name others = HasKeyIn name keys := by
  funext row
  simp only [HasKeyIn, h]

theorem withKeys_eq_filter (name : String) (keys rows : List Value) :
    withKeys name keys rows = rows.filter (HasKeyIn name keys) := by
  apply List.filter_congr
  intro row _
  apply Bool.eq_iff_iff.mpr
  rw [decide_eq_true_iff, Option.any_eq_true]
  simp only [List.any_eq_true, keyMatches_eq_equals, HasKeyIn, Option.mem_def]

theorem checkKeys_of_isValidKey (hkeys : ∀ key ∈ keys, key.isValidKey = true) :
    checkKeys name keys = .ok () := by
  induction keys with
  | nil => rfl
  | cons key rest ih =>
    rw [List.forall_mem_cons] at hkeys
    have hnull : key.isNull = false := by
      cases key <;> first | rfl | cases hkeys.1
    have hfirst : checkKey (name == primaryKey) key = .ok () := if_pos hkeys.1
    unfold checkKeys
    rw [List.forM_eq_forM, List.forM_cons, hnull, if_neg Bool.false_ne_true, hfirst]
    exact ih hkeys.2

/-- Keys that are followed by options. -/
theorem getAllKeys_options {options : Fields} (hindex : indexField (some options) = .ok name)
    (hkeys : ∀ key ∈ keys, key.isValidKey = true) :
    getAllKeys (keys ++ [.object options]) = .ok (name, keys) := by
  have hsplit : Sequence.splitOptions (keys ++ [.object options]) = (keys, some options) := by
    rw [Sequence.splitOptions, List.getLast?_concat, List.dropLast_concat]
  unfold getAllKeys
  rw [hsplit]
  dsimp only
  rw [hindex]
  change (do checkKeys name keys; return (name, keys) : Except Error (String × List Value)) = _
  rw [checkKeys_of_isValidKey hkeys]
  rfl

end Selection

namespace Term

variable {s : State} {t name : String} {rows keys : List Value}

def getAllIn (t name : String) (keys : List Value) : Term :=
  call "getAll" (table t) ((keys ++ [Value.object [("index", .string name)]]).map datum)

theorem run_getAllIn (hlive : s.store.rows? t = some rows)
    (hkeys : ∀ key ∈ keys, key.isValidKey = true) :
    ((getAllIn t name keys).run none).runFrom s =
      (.ok (.array (rows.filter (Selection.HasKeyIn name keys))), s) := by
  have hfound : Selection.getAllKeys (keys ++ [.object [("index", .string name)]]) =
    .ok (name, keys) := Selection.getAllKeys_options rfl hkeys
  -- without keys the options are still an argument
  have hsome : keys ++ [Value.object [("index", .string name)]] ≠ [] :=
    List.append_ne_nil_of_right_ne_nil keys (List.cons_ne_nil _ _)
  obtain ⟨first, rest, hargs⟩ := List.exists_cons_of_ne_nil hsome
  rw [hargs] at hfound
  have heval := evaluate_getAll_cons hlive first rest
  rw [hfound] at heval
  unfold getAllIn
  rw [hargs, ← Selection.withKeys_eq_filter, runFrom_run, heval]
  rfl

/-- `getAll` gives, in table order, the rows that have one of the keys in a field, so that only the
set of the keys matters. With one primary key its first row is the one that `get` gives. -/
theorem getAll_selects_get_first (hlive : s.store.rows? t = some rows) :
    (∀ name keys, (∀ key ∈ keys, key.isValidKey = true) →
      ((getAllIn t name keys).run none).runFrom s =
          (.ok (.array (rows.filter (Selection.HasKeyIn name keys))), s) ∧
        ∀ others, (∀ key, key ∈ others ↔ key ∈ keys) →
          ((getAllIn t name others).run none).runFrom s =
            ((getAllIn t name keys).run none).runFrom s) ∧
      ((∀ row ∈ rows, row.Distinct) → ∀ key : Value, key.isValidKey = true → key.Distinct →
        ∃ found, ((call "getAll" (table t) [datum key]).run none).runFrom s =
            (.ok (.array found), s) ∧
          ((call "get" (table t) [datum key]).run none).runFrom s =
            (.ok (found.head?.getD .null), s)) := by
  constructor
  · intro name keys hkeys
    refine ⟨run_getAllIn hlive hkeys, fun others hothers => ?_⟩
    have hlegal : ∀ key ∈ others, key.isValidKey = true :=
      fun key hkey => hkeys key ((hothers key).mp hkey)
    rw [run_getAllIn hlive hlegal, run_getAllIn hlive hkeys]
    simp only [Selection.hasKeyIn_congr hothers]
  · intro hrows key hkey hdistinct
    have hgetAll : ((call "getAll" (table t) [datum key]).run none).runFrom s =
        (.ok (.array (rows.filter (Value.hasId key))), s) := by
      rw [runFrom_run, evaluate_getAll hlive hkey, Selection.withKeys_singleton hdistinct hrows]
      rfl
    refine ⟨rows.filter (Value.hasId key), hgetAll, ?_⟩
    rw [run_get hlive hkey, List.head?_filter]

/-- Keys of two kinds, one of them given twice, in a table with an item that is no row and a row
without the field. -/
theorem getAll_selects_get_first_tags :
    let bare : Value := .object [("id", .string "a")]
    let deep : Value := .object [("id", .string "b"), ("tag", .array [.bool true])]
    let flat : Value := .object [("id", .string "c"), ("tag", .string "k")]
    let rows : List Value := [.string "k", bare, deep, flat]
    let s : State := ⟨⟨[("t", rows)]⟩, ⟨fun _ _ => ""⟩, 0⟩
    let keys : List Value := [.string "k", .array [.bool true], .string "k"]
    let others : List Value := [.array [.bool true], .string "k"]
    let id : Value := .string "c"
    (s.store.rows? "t" = some rows ∧ (∀ key ∈ keys, key.isValidKey = true) ∧
        (∀ row ∈ rows, row.Distinct) ∧ id.isValidKey = true ∧ id.Distinct) ∧
      ((getAllIn "t" "tag" others).run none).runFrom s = (.ok (.array [deep, flat]), s) ∧
      ((getAllIn "t" "tag" keys).run none).runFrom s = (.ok (.array [deep, flat]), s) ∧
      ∃ found, ((call "getAll" (table "t") [datum id]).run none).runFrom s =
          (.ok (.array found), s) ∧
        ((call "get" (table "t") [datum id]).run none).runFrom s =
          (.ok (found.head?.getD .null), s) := by
  intro bare deep flat rows s keys others id
  have hlive : s.store.rows? "t" = some rows := rfl
  have hkeys : ∀ key ∈ keys, key.isValidKey = true := by decide
  have hrows : ∀ row ∈ rows, row.Distinct := by decide
  have hothers (key : Value) : key ∈ others ↔ key ∈ keys := by
    simp only [others, keys, List.mem_cons, List.not_mem_nil, or_false]
    tauto
  have hfilter : rows.filter (Selection.HasKeyIn "tag" keys) = [deep, flat] := rfl
  obtain ⟨hgetAll, hget⟩ := getAll_selects_get_first hlive
  obtain ⟨hall, hsame⟩ := hgetAll "tag" keys hkeys
  rw [hfilter] at hall
  refine ⟨⟨hlive, hkeys, hrows, rfl, rfl⟩, (hsame others hothers).trans hall, hall, ?_⟩
  exact hget hrows id rfl rfl

end Term

end TableQuery
