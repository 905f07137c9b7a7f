import TableQuery.Proofs.Binary64.Integers
import TableQuery.Proofs.PrimaryKey.Lookup

namespace TableQuery

variable {c : Context} {s : State} {name : String} {rows live : List Value} {key receiver : Value}
  {fields : Fields} {options : Argument}

namespace Mutation

def acceptedRow : Report := { errors := some 0, inserted := some 1 }

def rejectedRow : Report :=
  { errors := some 1, inserted := some 0, firstError := some duplicateKey }

theorem acceptedRow_ne_rejectedRow : acceptedRow.toValue ≠ rejectedRow.toValue := by
  simp [acceptedRow, rejectedRow, Report.toValue]

theorem insertReport_accepted (rows : List Value) :
    insertReport 1 ⟨rows, 0, []⟩ = acceptedRow := rfl

theorem insertReport_rejected (rows : List Value) :
    insertReport 1 ⟨rows, 1, []⟩ = rejectedRow := rfl

theorem checkRow_of_key (hid : Fields.get? primaryKey fields = some key)
    (hkey : key.isValidKey = true) : checkRow (.object fields) = .ok fields := by
  have hlegal : Selection.checkKey true key = .ok () := if_pos hkey
  simp only [checkRow, Value.asFields, bind, Except.bind, hid, hlegal]
  rfl

/-- A key that is taken is counted, else the row comes last. -/
theorem runFrom_insertRow (hid : Fields.get? primaryKey fields = some key) :
    (insertRow ⟨live, 0, []⟩ fields).runFrom c = (.ok (if live.any (Value.hasId key)
      then ⟨live, 1, []⟩ else ⟨live ++ [.object fields], 0, []⟩), c) := by
  have htaken : hasKey key live = live.any (Value.hasId key) := rfl
  rw [insertRow, hid]
  dsimp only
  rw [htaken]
  split <;> rfl

theorem runFrom_insert_row (htype : c.type = .table) (hname : c.binding.table = some name)
    (hlive : c.state.store.rows? name = some live)
    (hid : Fields.get? primaryKey fields = some key) (hkey : key.isValidKey = true) :
    (insert receiver (.datum (.object fields)) options).runFrom c =
      if live.any (Value.hasId key) then
        (.ok rejectedRow.toValue, { c with state := { c.state with
          store := c.state.store.load name live } })
      else (.ok acceptedRow.toValue, { c with state := { c.state with
        store := c.state.store.load name (live ++ [.object fields]) } }) := by
  have hresolve : (Act.resolve (.datum (.object fields))).runFrom c =
      (.ok (.object fields), c) := rfl
  have hcheck : [Value.object fields].mapM checkRow = .ok [fields] := by
    rw [List.mapM_cons, checkRow_of_key hid hkey]
    rfl
  have hread : c.rows = .ok live := Context.rows_eq_ok.mpr ⟨name, hname, hlive⟩
  unfold insert
  rw [Act.runFrom_bind, Act.runFrom_ask, Context.expectType_eq htype]
  dsimp only
  rw [Act.runFrom_bind, hresolve]
  dsimp only
  rw [Act.runFrom_bind, Act.runFrom_ofExcept, hcheck]
  dsimp only
  rw [Act.runFrom_bind, Act.runFrom_ask, hread]
  dsimp only
  have hloop (next : Inserted) (h : (insertRow ⟨live, 0, []⟩ fields).runFrom c = (.ok next, c)) :
      ([fields].foldlM insertRow ⟨live, 0, []⟩).runFrom c = (.ok next, c) := by
    rw [List.foldlM_cons, Act.runFrom_bind, h]
    rfl
  rw [Act.runFrom_bind, hloop _ (runFrom_insertRow hid)]
  dsimp only
  rw [Act.runFrom_bind, Act.runFrom_setRows, hname]
  dsimp only
  rw [Act.runFrom_pure, List.length_singleton]
  -- a key that is taken is counted, and the rows are written all the same
  cases live.any (Value.hasId key) with
  | true => rw [if_pos rfl, if_pos rfl, insertReport_rejected]
  | false =>
    rw [if_neg Bool.false_ne_true, if_neg Bool.false_ne_true, insertReport_accepted]

end Mutation

namespace Term

/-- A row is inserted at the end unless its key is taken. -/
theorem run_insert_row (hlive : s.store.rows? name = some live)
    (hid : Fields.get? primaryKey fields = some key) (hkey : key.isValidKey = true) :
    ((call "insert" (table name) [datum (.object fields)]).run none).runFrom s =
      if live.any (Value.hasId key) then
        (.ok Mutation.rejectedRow.toValue, s)
      else (.ok Mutation.acceptedRow.toValue,
        { s with store := s.store.load name (live ++ [.object fields]) }) := by
  have hinvoke (c : Context) :
      (Registry.builtin.invoke "insert" (.array live) [.datum (.object fields)]).runFrom c =
        (Mutation.insert (.array live) (.datum (.object fields)) .undefined).runFrom c := rfl
  have hd : Registry.builtin.describe "insert" =
    .ok ⟨.oneOrTwo, .datum, .binary Mutation.insert⟩ := rfl
  rw [(prepared_table hlive _).runFrom_call hd]
  dsimp only [Evaluated.ofTable]
  rw [hinvoke, Mutation.runFrom_insert_row rfl rfl hlive hid hkey]
  split
  · rw [Store.load_self hlive]
  · rfl

end Term

def SameDouble (m n : Int) : Prop := (Scaled.ofInt m).toInt = (Scaled.ofInt n).toInt

instance (m n : Int) : Decidable (SameDouble m n) :=
  inferInstanceAs (Decidable ((Scaled.ofInt m).toInt = (Scaled.ofInt n).toInt))

/-- Up to `2^53` integers are told apart, and below it from all others. -/
theorem SameDouble.eq {m n : Int} (h : SameDouble m n)
    (hsmall : m.natAbs < 2 ^ 53 ∨ m.natAbs ≤ 2 ^ 53 ∧ n.natAbs ≤ 2 ^ 53) : m = n := by
  rcases hsmall with hm | ⟨hm, hn⟩
  · exact Scaled.eq_of_toInt_eq hm h
  · exact Scaled.eq_of_toInt_eq_of_le hm hn h

theorem Value.hasId_int {row : Value} {n : Int} (k : Int)
    (hrow : row.id? = some (.number (.int n))) :
    hasId (.number (.int k)) row = decide (SameDouble n k) := by
  have hequal : (number (.int n)).equals (number (.int k)) = decide (SameDouble n k) := by
    rw [equals, Number.toScaled, Number.toScaled, Bool.eq_iff_iff, beq_iff_eq,
      Scaled.compare_eq_iff, decide_eq_true_iff]
    exact Iff.rfl
  rw [hasId, hrow, Option.any_some, strictEquals_eq_equals, hequal]

def HasIds (ids : List Int) (live : List Value) : Prop :=
  live.map Value.id? = ids.map fun n => some (.number (.int n))

namespace HasIds

variable {ids : List Int} (h : HasIds ids live)

include h

theorem exists_row_iff (k : Int) :
    (∃ row ∈ live, row.id? = some (.number (.int k))) ↔ k ∈ ids := by
  have hkeys : some (Value.number (.int k)) ∈ live.map Value.id? ↔
      some (Value.number (.int k)) ∈ ids.map fun n => some (Value.number (.int n)) := by rw [h]
  rw [List.mem_map, List.mem_map] at hkeys
  rw [hkeys]
  constructor
  · rintro ⟨n, hn, heq⟩
    cases heq
    exact hn
  · intro hk
    exact ⟨k, hk, rfl⟩

theorem eq_of_id (hnodup : ids.Nodup) {row other : Value} (hrow : row ∈ live)
    (hother : other ∈ live) (hsame : row.id? = other.id?) : row = other := by
  have hkeys : (live.map Value.id?).Nodup := by
    rw [h]
    refine hnodup.map fun m n hmn => ?_
    cases hmn
    rfl
  exact List.inj_on_of_nodup_map hkeys hrow hother hsame

/-- The row that a key finds has the first key that the same number stands for. -/
theorem find?_hasId (k : Int) : (live.find? (Value.hasId (.number (.int k)))).map Value.id? =
    (ids.find? fun n => decide (SameDouble n k)).map fun n => some (.number (.int n)) := by
  let q (id : Option Value) : Bool := id.any fun id => id.strictEquals (.number (.int k))
  have hids : (fun n : Int => decide (SameDouble n k)) =
      q ∘ fun n : Int => some (Value.number (.int n)) := by
    funext n
    have hid : (Value.object [("id", .number (.int n))]).id? = some (.number (.int n)) := rfl
    rw [← Value.hasId_int k hid, Value.hasId, hid]
    rfl
  calc (live.find? (Value.hasId (.number (.int k)))).map Value.id?
      = (live.map Value.id?).find? q := List.find?_map.symm
    _ = (ids.map fun n => some (Value.number (.int n))).find? q := by rw [h]
    _ = (ids.find? fun n => decide (SameDouble n k)).map fun n => some (.number (.int n)) := by
        rw [List.find?_map, hids]

/-- A key that shares its number with no key of the table finds no row. -/
theorem find?_eq_none {k : Int} (hnone : (ids.find? fun n => decide (SameDouble n k)) = none) :
    live.find? (Value.hasId (.number (.int k))) = none := by
  have hfirst := h.find?_hasId k
  rw [hnone] at hfirst
  simpa using hfirst

/-- A key finds the row with the first key that shares its number. -/
theorem exists_find? {k n : Int} (hn : (ids.find? fun n => decide (SameDouble n k)) = some n) :
    ∃ row ∈ live, live.find? (Value.hasId (.number (.int k))) = some row ∧
      row.id? = some (.number (.int n)) := by
  have hfirst := h.find?_hasId k
  rw [hn] at hfirst
  obtain ⟨row, hrow, hid⟩ := Option.map_eq_some_iff.mp hfirst
  exact ⟨row, List.mem_of_find?_eq_some hrow, hrow, hid⟩

end HasIds

namespace Term

structure ExactKey (s : State) (name : String) (live : List Value) (k : Int) (fields : Fields) :
    Prop where
  get_of_mem : ∀ row ∈ live, row.id? = some (.number (.int k)) →
    ((call "get" (table name) [datum (.number (.int k))]).run none).runFrom s = (.ok row, s)
  get_of_absent : (¬∃ row ∈ live, row.id? = some (.number (.int k))) →
    ((call "get" (table name) [datum (.number (.int k))]).run none).runFrom s = (.ok .null, s)
  accepted_iff :
    ((call "insert" (table name) [datum (.object fields)]).run none).runFrom s =
      (.ok Mutation.acceptedRow.toValue,
        { s with store := s.store.load name (live ++ [.object fields]) }) ↔
    ¬∃ row ∈ live, row.id? = some (.number (.int k))
  rejected_iff :
    ((call "insert" (table name) [datum (.object fields)]).run none).runFrom s =
      (.ok Mutation.rejectedRow.toValue, s) ↔
    ∃ row ∈ live, row.id? = some (.number (.int k))

variable {ids : List Int} {k : Int}

/-- If the first key that shares its number with the key is the key itself, both queries treat it
so. By whether there is such a key: if not, no row has the key. -/
theorem exactKey_of_find? (hlive : s.store.rows? name = some live) (hids : HasIds ids live)
    (hnodup : ids.Nodup) (hid : Fields.get? primaryKey fields = some (.number (.int k)))
    (h : ∀ n, (ids.find? fun n => decide (SameDouble n k)) = some n → n = k) :
    ExactKey s name live k fields := by
  have hlegal : (Value.number (.int k)).isValidKey = true := rfl
  have hget := run_get hlive hlegal
  have hinsert := run_insert_row hlive hid rfl
  have hdiffer {x y : State} : ((.ok Mutation.acceptedRow.toValue : Except Error Value), x) ≠
      (.ok Mutation.rejectedRow.toValue, y) := by
    intro heq
    exact Mutation.acceptedRow_ne_rejectedRow (Except.ok.inj (Prod.ext_iff.mp heq).1)
  rw [← List.isSome_find?] at hinsert
  cases hfirst : ids.find? fun n => decide (SameDouble n k) with
  | none =>
    have habsent : ¬∃ row ∈ live, row.id? = some (.number (.int k)) := by
      rw [hids.exists_row_iff]
      intro hk
      exact List.find?_eq_none.mp hfirst k hk (decide_eq_true rfl)
    rw [hids.find?_eq_none hfirst] at hget hinsert
    exact {
      get_of_mem := fun row hrow hk => absurd ⟨row, hrow, hk⟩ habsent
      get_of_absent := fun _ => hget
      accepted_iff := ⟨fun _ => habsent, fun _ => hinsert⟩
      rejected_iff := ⟨fun heq => absurd (hinsert.symm.trans heq) hdiffer,
        fun hk => absurd hk habsent⟩ }
  | some n =>
    obtain rfl := h n hfirst
    obtain ⟨row, hrow, hfound, hrowId⟩ := hids.exists_find? hfirst
    have hthere : ∃ row ∈ live, row.id? = some (.number (.int n)) := ⟨row, hrow, hrowId⟩
    rw [hfound] at hget hinsert
    refine {
      get_of_mem := fun other hother hk => ?_
      get_of_absent := fun habsent => absurd hthere habsent
      accepted_iff := ⟨fun heq => absurd (heq.symm.trans hinsert) hdiffer,
        fun habsent => absurd hthere habsent⟩
      rejected_iff := ⟨fun _ => hthere, fun _ => hinsert⟩ }
    rw [hids.eq_of_id hnodup hother hrow (hk.trans hrowId.symm)]
    exact hget

/-- A key that finds the row of another key is confused with it. -/
theorem eq_of_exactKey (hlive : s.store.rows? name = some live) (hids : HasIds ids live)
    (h : ExactKey s name live k fields) {n : Int}
    (hn : (ids.find? fun n => decide (SameDouble n k)) = some n) : n = k := by
  obtain ⟨row, hrow, hfound, hrowId⟩ := hids.exists_find? hn
  have hlegal : (Value.number (.int k)).isValidKey = true := rfl
  have hget := run_get hlive hlegal
  rw [hfound, Option.getD_some] at hget
  by_cases hthere : ∃ other ∈ live, other.id? = some (.number (.int k))
  · obtain ⟨other, hother, hk⟩ := hthere
    cases hget.symm.trans (h.get_of_mem other hother hk)
    cases hrowId.symm.trans hk
    rfl
  · cases hget.symm.trans (h.get_of_absent hthere)
    cases hrowId

/-- Of a table with different integer keys: an integer key is treated as itself exactly if no other
key that shares its binary64 number comes first. Below `2^53` this is always so, and at `2^53` if
no key of the table is larger. -/
theorem exactKey_iff (hlive : s.store.rows? name = some live) (hids : HasIds ids live)
    (hnodup : ids.Nodup) (hid : Fields.get? primaryKey fields = some (.number (.int k))) :
    (ExactKey s name live k fields ↔
      ∀ n, (ids.find? fun n => decide (SameDouble n k)) = some n → n = k) ∧
    ((k.natAbs < 2 ^ 53 ∨ k.natAbs ≤ 2 ^ 53 ∧ ∀ n ∈ ids, n.natAbs ≤ 2 ^ 53) →
      ExactKey s name live k fields) := by
  have hexact := exactKey_of_find? hlive hids hnodup hid
  refine ⟨⟨fun h n hn => eq_of_exactKey hlive hids h hn, hexact⟩, fun hsmall => ?_⟩
  apply hexact
  intro n hn
  have hsame : SameDouble n k :=
    of_decide_eq_true (List.find?_some (p := fun n => decide (SameDouble n k)) hn)
  have hmem : n ∈ ids := List.mem_of_find?_eq_some hn
  symm
  apply SameDouble.eq hsame.symm
  rcases hsmall with hk | ⟨hk, hall⟩
  · exact .inl hk
  · exact .inr ⟨hk, hall n hmem⟩

/-- The largest integer up to which all are told apart, in a table with another key. -/
theorem exactKey_iff_largest :
    let live : List Value := [.object [("id", .number (.int 9007199254740992))],
      .object [("id", .number (.int 7))]]
    ExactKey ⟨⟨[("t", live)]⟩, ⟨fun _ _ => ""⟩, 0⟩ "t" live 9007199254740992
      [("id", .number (.int 9007199254740992))] := by
  intro live
  have hids : HasIds [9007199254740992, 7] live := rfl
  have hsmall : ∀ n ∈ [(9007199254740992 : Int), 7], n.natAbs ≤ 2 ^ 53 := by decide
  exact (exactKey_iff rfl hids (by decide) rfl).2 (.inr ⟨by decide, hsmall⟩)

/-- The next integer is confused with it: `get` finds the row and `insert` refuses the key, though
no row has it. -/
theorem not_exactKey_next :
    let row : Value := .object [("id", .number (.int 9007199254740992))]
    let fields : Fields := [("id", .number (.int 9007199254740993))]
    let s : State := ⟨⟨[("t", [row])]⟩, ⟨fun _ _ => ""⟩, 0⟩
    (¬∃ live ∈ [row], live.id? = some (.number (.int 9007199254740993))) ∧
      ((call "get" (table "t") [datum (.number (.int 9007199254740993))]).run none).runFrom s =
        (.ok row, s) ∧
      ((call "insert" (table "t") [datum (.object fields)]).run none).runFrom s =
        (.ok Mutation.rejectedRow.toValue, s) := by
  intro row fields s
  have hids : HasIds [9007199254740992] [row] := rfl
  have hshared : ([(9007199254740992 : Int)].find?
      fun n => decide (SameDouble n 9007199254740993)) = some 9007199254740992 := by decide +kernel
  obtain ⟨other, hother, hfound, -⟩ := hids.exists_find? hshared
  obtain rfl := List.mem_singleton.mp hother
  have hlive : s.store.rows? "t" = some [row] := rfl
  have hlegal : (Value.number (.int 9007199254740993)).isValidKey = true := rfl
  have hid : Fields.get? primaryKey fields = some (.number (.int 9007199254740993)) := rfl
  refine ⟨?_, ?_, ?_⟩
  · rw [hids.exists_row_iff]
    decide
  · rw [run_get hlive hlegal, hfound, Option.getD_some]
  · rw [run_insert_row hlive hid hlegal, ← List.isSome_find?, hfound]
    rfl

end Term

end TableQuery
