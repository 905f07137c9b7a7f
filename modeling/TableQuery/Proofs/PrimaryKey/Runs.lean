import Mathlib
import TableQuery.Database
import TableQuery.Proofs.PrimaryKey.Writing
import TableQuery.Proofs.Term.Reader

namespace TableQuery

namespace KeySource

/-- If even the last resort is in use then so is every candidate before it. -/
theorem inUse_of_firstFree {candidate : Nat → String} {rows : List Value} {tries n : Nat}
    (h : inUse rows (firstFree candidate rows tries n) = true) :
    ∀ i ≤ tries, inUse rows (candidate (n + i)) = true := by
  induction tries generalizing n with
  | zero =>
    intro i hi
    obtain rfl : i = 0 := by omega
    exact h
  | succ tries ih =>
    rw [firstFree] at h
    split at h
    · next hn =>
      intro i hi
      rcases i with _ | i
      · exact hn
      · have hnext := ih h i (by omega)
        rwa [show n + (i + 1) = n + 1 + i by omega]
    · next hn => exact absurd h hn

theorem inUse_iff {rows : List Value} {key : String} :
    inUse rows key = true ↔ ∃ row ∈ rows, row.id? = some (.string key) := by
  unfold inUse
  rw [List.any_eq_true]
  apply exists_congr
  intro row
  apply and_congr_right
  intro _
  rcases row.id? with _ | id
  · simp
  · cases id <;> simp

/-- There are more candidates than rows, so one of them is not in use. -/
theorem avoiding_fresh {candidate : Nat → String} (h : Function.Injective candidate) :
    (avoiding candidate).Fresh := by
  intro n rows row hrow hid
  have hused : inUse rows (firstFree candidate rows rows.length n) = true :=
    inUse_iff.mpr ⟨row, hrow, hid⟩
  have hall := inUse_of_firstFree hused
  have hsub : (List.range (rows.length + 1)).map (fun i => Value.string (candidate (n + i))) ⊆
      rows.filterMap Value.id? := by
    intro key hkey
    obtain ⟨i, hi, rfl⟩ := List.mem_map.mp hkey
    rw [List.mem_range] at hi
    exact List.mem_filterMap.mpr (inUse_iff.mp (hall i (by omega)))
  have hnodup :
      ((List.range (rows.length + 1)).map fun i => Value.string (candidate (n + i))).Nodup := by
    apply List.nodup_range.map
    intro i j hij
    have hindex := h (Value.string.inj hij)
    omega
  have hlength := (hnodup.subperm hsub).length_le
  have hle := List.length_filterMap_le Value.id? rows
  rw [List.length_map, List.length_range] at hlength
  omega

def repeating : KeySource := avoiding fun n => String.ofList (List.replicate (n + 1) 'k')

theorem repeating_fresh : repeating.Fresh := by
  apply avoiding_fresh
  intro m n h
  have hlength := congrArg List.length (String.ofList_injective h)
  simpa using hlength

end KeySource

/-- A drop takes out the table that it names and no other. -/
theorem Store.rows?_filter (store : Store) (name other : String) :
    Store.rows? ⟨store.tables.filter fun table => table.1 != name⟩ other =
      if other = name then none else store.rows? other := by
  obtain ⟨tables⟩ := store
  unfold Store.rows?
  induction tables with
  | nil => simp
  | cons table rest ih =>
    obtain ⟨k, rows⟩ := table
    simp only at ih
    by_cases hk : k = name
    · subst hk
      have hdropped : List.filter (fun table => table.1 != k) ((k, rows) :: rest) =
          List.filter (fun table => table.1 != k) rest := by simp
      rw [hdropped, ih, Assoc.lookup_cons]
      split
      · rfl
      · rfl
    · have hkept : List.filter (fun table => table.1 != name) ((k, rows) :: rest) =
          (k, rows) :: List.filter (fun table => table.1 != name) rest := by simp [hk]
      rw [hkept, Assoc.lookup_cons, Assoc.lookup_cons, ih]
      by_cases ho : other = k
      · have hne : other ≠ name := fun h => hk (ho ▸ h)
        rw [if_pos ho, if_neg hne, if_pos ho]
      · rw [if_neg ho, if_neg ho]

def Registry.KeepsKeys (admits : Value → Prop) (registry : Registry) : Prop :=
  ∀ action d, registry.describe action = .ok d →
    d.implementation.Keeps (Keyed admits) Value.Distinct

theorem Registry.keepsKeys_builtin {admits : Value → Prop} (hadmits : Admission admits)
    (hany : ∀ key, admits key) : builtin.KeepsKeys admits := by
  intro action d hd
  obtain ⟨e, he, -, rfl⟩ := describe_builtin hd
  rcases mutation_or_not_writes he with hwrites | hreads
  · exact Mutation.entries_keep hadmits hwrites fun _ => hany
  · exact keeps_of_not_writes Value.hereditary_distinct he hreads

namespace Database

def Request.Ordinary : Request → Prop
  | .create _ | .drop _ | .query _ => True
  | .term t => ∀ v ∈ t.datums, v.Distinct
  | .init _ => False

variable {admits : Value → Prop} {registry : Registry} {db : Database}

theorem keyed_empty {source : KeySource} (h : source.Fresh) : Keyed admits (empty source).state :=
  ⟨h, fun _ _ hrows => nomatch hrows⟩

theorem keyed_create {name : String} (h : Keyed admits db.state) :
    Keyed admits (db.attempt (create name)).2.state := by
  unfold attempt create Store.create
  cases db.store.rows? name with
  | none => exact h.load name .nil
  | some rows => exact h

theorem keyed_drop {name : String} (h : Keyed admits db.state) :
    Keyed admits (db.attempt (drop name)).2.state := by
  unfold attempt drop Store.drop
  cases db.store.rows? name with
  | none => exact h
  | some rows =>
    refine ⟨h.fresh, fun other found hfound => ?_⟩
    have hkept : (if other = name then none else db.store.rows? other) = some found :=
      (Store.rows?_filter db.store name other).symm.trans hfound
    split at hkept
    · cases hkept
    · exact h.tables other found hkept

theorem keyed_runTermIn (hregistry : registry.KeepsKeys admits) {t : Term}
    (ht : ∀ v ∈ t.datums, v.Distinct) (h : Keyed admits db.state) :
    Keyed admits (db.runTermIn registry t).2.state :=
  (Term.runIn_keeps Value.hereditary_distinct (fun _ hs _ _ hrows => (hs.tables _ _ hrows).distinct)
    t ht (fun action _ d hd => hregistry action d hd) (by simp) db.state h).1

/-- One request. -/
theorem keyed_performIn (hregistry : registry.KeepsKeys admits) {request : Request}
    (hrequest : request.Ordinary) (h : Keyed admits db.state) :
    Keyed admits (db.performIn registry request).2.state := by
  cases request with
  | create name => exact keyed_create h
  | drop name => exact keyed_drop h
  | init fixture => exact hrequest.elim
  | term t => exact keyed_runTermIn hregistry hrequest h
  | query text =>
    change Keyed admits (db.runIn registry text).2.state
    unfold runIn
    cases hparse : Term.parse text with
    | error e => exact h
    | ok t => exact keyed_runTermIn hregistry (Term.distinctKeys_of_parse hparse) h

/-- A run, by induction on the requests. -/
theorem keyed_performAllIn (hregistry : registry.KeepsKeys admits) {requests : List Request}
    (hrequests : ∀ request ∈ requests, request.Ordinary) (h : Keyed admits db.state) :
    Keyed admits (db.performAllIn registry requests).state := by
  induction requests generalizing db with
  | nil => exact h
  | cons request rest ih =>
    have hnext := keyed_performIn hregistry (hrequests request List.mem_cons_self) h
    exact ih (fun r hr => hrequests r (List.mem_cons_of_mem _ hr)) hnext

/-- Whatever is asked of an empty database, every row of every table is an object with a primary
key, and no two rows of one table have the same one. -/
theorem primaryKeys_unique {source : KeySource} (hsource : source.Fresh)
    {requests : List Request} (hrequests : ∀ request ∈ requests, request.Ordinary)
    {name : String} {rows : List Value}
    (hrows : ((empty source).performAll requests).store.rows? name = some rows) :
    (∀ row ∈ rows, ∃ fields id, row = .object fields ∧
      Fields.get? primaryKey fields = some id) ∧
    ∀ (i j : Nat) (a b x y : Value), i ≠ j → rows[i]? = some a → rows[j]? = some b →
      a.id? = some x → b.id? = some y → x.strictEquals y = false := by
  have hregistry := Registry.keepsKeys_builtin admission_true fun _ => trivial
  have hkeyed := keyed_performAllIn hregistry hrequests (keyed_empty hsource)
  have htable := hkeyed.tables name rows hrows
  refine ⟨fun row hrow => ?_, fun i j a b x y hij ha hb hx hy => ?_⟩
  · obtain ⟨fields, id, hfields, hid, -⟩ := (htable.isRow row hrow).exists_fields
    exact ⟨fields, id, hfields, hid⟩
  · by_contra hsame
    refine hij (htable.index_eq ha hb ?_)
    rw [sameRow_of_id hx hy, ← Value.strictEquals_eq_equals]
    simpa using hsame

set_option maxRecDepth 4000 in
/-- A row with a given key, one with a drawn key and one that is refused. -/
theorem primaryKeys_unique_insert :
    let requests : List Request := [.create "t",
      .query "r.table(\"t\").insert([{id: true}, {v: 2}])",
      .query "r.table(\"t\").insert({id: true})"]
    let rows : List Value := [.object [("id", .bool true)],
      .object [("v", .ofNat 2), ("id", .string "k")]]
    KeySource.repeating.Fresh ∧ (∀ request ∈ requests, request.Ordinary) ∧
      ((empty .repeating).performAll requests).store.rows? "t" = some rows ∧
      (∀ row ∈ rows, ∃ fields id, row = .object fields ∧
        Fields.get? primaryKey fields = some id) ∧
      ∀ (i j : Nat) (a b x y : Value), i ≠ j → rows[i]? = some a → rows[j]? = some b →
        a.id? = some x → b.id? = some y → x.strictEquals y = false := by
  intro requests rows
  have hfresh := KeySource.repeating_fresh
  have hordinary : ∀ request ∈ requests, request.Ordinary := by
    simp [requests, Request.Ordinary]
  have hrows : ((empty .repeating).performAll requests).store.rows? "t" = some rows := by cbv
  exact ⟨hfresh, hordinary, hrows, primaryKeys_unique hfresh hordinary hrows⟩

end Database

end TableQuery
