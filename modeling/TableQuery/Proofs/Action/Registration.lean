import Mathlib
import TableQuery.Action.Registry

/-!
Registration. A registry keeps the range of an action twice: with its descriptor and in the table of
arities that calls are checked against. A registration enters its range in the table before it looks
at the shape of the implementation, so one that fails there leaves the new range behind. The two
ranges are the same exactly if no such range is left (`Registry.consistent_registerAll`).
-/

namespace TableQuery

namespace Arity

variable {a b : Arity} {n : Nat}

theorem accepts_iff : a.accepts n = true ↔ a.min ≤ n ∧ ∀ m ∈ a.max, n ≤ m := by
  unfold accepts
  cases a.max <;> simp

theorem isRange_iff : a.isRange = true ↔ ∀ m ∈ a.max, a.min ≤ m := by
  unfold isRange
  cases a.max <;> simp

theorem accepts_min (h : a.isRange = true) : a.accepts a.min = true :=
  accepts_iff.mpr ⟨Nat.le_refl _, isRange_iff.mp h⟩

/-- A range that is part of another from the same count on has its upper end there, or earlier. -/
theorem exists_max_le (ha : a.isRange = true) (hmin : b.min ≤ a.min)
    (h : ∀ n, b.accepts n = true → a.accepts n = true) {m : Nat} (hm : m ∈ a.max) :
    ∃ m' ∈ b.max, m' ≤ m := by
  have hlow := isRange_iff.mp ha m hm
  by_contra hnone
  push Not at hnone
  -- otherwise the count above the upper end is accepted
  have hb : b.accepts (m + 1) = true := accepts_iff.mpr ⟨by omega, hnone⟩
  have habove := (accepts_iff.mp (h (m + 1) hb)).2 m hm
  omega

/-- A range is known by the counts that it accepts. -/
theorem eq_of_accepts (ha : a.isRange = true) (hb : b.isRange = true)
    (h : ∀ n, a.accepts n = true ↔ b.accepts n = true) : a = b := by
  have hle : a.min ≤ b.min := (accepts_iff.mp ((h _).mpr (accepts_min hb))).1
  have hge : b.min ≤ a.min := (accepts_iff.mp ((h _).mp (accepts_min ha))).1
  have hleft (m : Nat) (hm : m ∈ a.max) := exists_max_le ha hge (fun n => (h n).mpr) hm
  have hright (m : Nat) (hm : m ∈ b.max) := exists_max_le hb hle (fun n => (h n).mp) hm
  have hmax : a.max = b.max := by
    cases hx : a.max <;> cases hy : b.max <;> simp [hx, hy] at hleft hright ⊢
    exact Nat.le_antisymm hright hleft
  exact congrArg₂ Arity.mk (Nat.le_antisymm hle hge) hmax

theorem check_eq_ok_iff {action : String} : a.check action n = .ok () ↔ a.accepts n = true := by
  unfold check
  split
  · simp [*]
  · simp [*]

/-- Two ranges that let the same counts through, with the same errors for others, are the same. -/
theorem eq_of_check {action : String} (ha : a.isRange = true) (hb : b.isRange = true)
    (h : ∀ n, a.check action n = b.check action n) : a = b := by
  apply eq_of_accepts ha hb
  intro n
  have hcheck : a.check action n = .ok () ↔ b.check action n = .ok () := by rw [h n]
  rwa [check_eq_ok_iff, check_eq_ok_iff] at hcheck

end Arity

namespace Entry

def isRanged (e : Entry) : Bool := e.arity.isRange

def isSound (e : Entry) : Bool := e.arity.isRange && e.implementation.fits e.arity

def descriptor (e : Entry) : Descriptor := ⟨e.arity, e.type, e.implementation⟩

def lastOf (p : Entry → Bool) (action : String) (entries : List Entry) : Option Entry :=
  (entries.filter fun e => e.name == action && p e).getLast?

variable {p q : Entry → Bool} {action : String} {entries : List Entry} {e : Entry}

theorem isRanged_of_isSound (h : e.isSound = true) : e.isRanged = true :=
  (Bool.and_eq_true_iff.mp h).1

theorem lastOf_append (p : Entry → Bool) (action : String) (entries : List Entry) (e : Entry) :
    lastOf p action (entries ++ [e]) =
      if action = e.name ∧ p e = true then some e else lastOf p action entries := by
  unfold lastOf
  rw [List.filter_append]
  by_cases h : action = e.name ∧ p e = true
  · have hlast : [e].filter (fun e => e.name == action && p e) = [e] := by simp [h]
    rw [hlast, if_pos h, List.getLast?_concat]
  · have hlast : [e].filter (fun e => e.name == action && p e) = [] := by
      simp only [List.filter_eq_nil_iff, List.mem_singleton, forall_eq, Bool.and_eq_true,
        beq_iff_eq]
      exact fun hboth => h ⟨hboth.1.symm, hboth.2⟩
    rw [hlast, if_neg h, List.append_nil]

theorem of_lastOf (h : lastOf p action entries = some e) :
    e ∈ entries ∧ e.name = action ∧ p e = true := by
  have hmem := List.mem_filter.mp (List.mem_of_getLast? h)
  simpa using hmem

theorem exists_lastOf (hpq : ∀ e, p e = true → q e = true) (h : lastOf p action entries = some e) :
    ∃ e', lastOf q action entries = some e' := by
  obtain ⟨hmem, hname, hp⟩ := of_lastOf h
  have hin : e ∈ entries.filter fun e => e.name == action && q e :=
    List.mem_filter.mpr ⟨hmem, by simp [hname, hpq e hp]⟩
  exact Option.isSome_iff_exists.mp (List.getLast?_isSome.mpr (List.ne_nil_of_mem hin))

end Entry

namespace Registry

variable {r : Registry} {e : Entry} {action : String} {entries : List Entry}

/-- All that a registration can do. -/
theorem register_cases (e : Entry) (r : Registry) :
    (e.isRanged = false ∧ ∃ error, r.register e = (r, .error error)) ∨
    (e.isRanged = true ∧ e.isSound = false ∧ r.register e =
      (⟨⟨(e.name, e.arity) :: r.arities.ranges⟩, r.actions⟩,
        .error (.shapeMismatch e.name e.arity))) ∨
    (e.isSound = true ∧ r.register e =
      (⟨⟨(e.name, e.arity) :: r.arities.ranges⟩, (e.name, e.descriptor) :: r.actions⟩,
        .ok ())) := by
  unfold register ArityTable.register
  cases hranged : e.arity.isRange with
  | false =>
    -- without an upper end there are always counts
    have hsome : ∃ max, e.arity.max = some max := by
      cases hmax : e.arity.max with
      | none => simp [Arity.isRange, hmax] at hranged
      | some max => exact ⟨max, rfl⟩
    obtain ⟨max, hmax⟩ := hsome
    rw [hmax]
    exact .inl ⟨hranged, _, rfl⟩
  | true =>
    right
    dsimp only
    unfold fit
    cases hfits : e.implementation.fits e.arity with
    | false => exact .inl ⟨hranged, by simp [Entry.isSound, hfits], rfl⟩
    | true => exact .inr ⟨by simp [Entry.isSound, hranged, hfits], rfl⟩

/-- What is described of an action is the last registration of it that passed both checks. -/
theorem lookup_actions_register (e : Entry) (r : Registry) (action : String) :
    (r.register e).1.actions.lookup action =
      if action = e.name ∧ e.isSound = true then some e.descriptor
      else r.actions.lookup action := by
  rcases register_cases e r with ⟨hranged, error, hrun⟩ | ⟨-, hsound, hrun⟩ | ⟨hsound, hrun⟩
  · rw [hrun, if_neg fun h => by simp [Entry.isRanged_of_isSound h.2] at hranged]
  · rw [hrun, if_neg (by simp [hsound])]
  · rw [hrun, Assoc.lookup_cons]
    simp [hsound]

/-- In the table of arities is the last range that had counts. -/
theorem lookup_arities_register (e : Entry) (r : Registry) (action : String) :
    (r.register e).1.arities.lookup action =
      if action = e.name ∧ e.isRanged = true then some e.arity else r.arities.lookup action := by
  unfold ArityTable.lookup
  rcases register_cases e r with ⟨hranged, error, hrun⟩ | ⟨hranged, -, hrun⟩ | ⟨hsound, hrun⟩
  · rw [hrun, if_neg (by simp [hranged])]
  · rw [hrun, Assoc.lookup_cons]
    simp [hranged]
  · rw [hrun, Assoc.lookup_cons]
    simp [Entry.isRanged_of_isSound hsound]

theorem registerAll_append (r : Registry) (entries : List Entry) (e : Entry) :
    r.registerAll (entries ++ [e]) = ((r.registerAll entries).register e).1 := by
  rw [registerAll, List.foldl_append]
  rfl

theorem lookup_actions_registerAll (entries : List Entry) (action : String) :
    (empty.registerAll entries).actions.lookup action =
      (Entry.lastOf Entry.isSound action entries).map Entry.descriptor := by
  induction entries using List.reverseRecOn with
  | nil => rfl
  | append_singleton entries e ih =>
    rw [registerAll_append, lookup_actions_register, Entry.lastOf_append, ih]
    split <;> rfl

theorem lookup_arities_registerAll (entries : List Entry) (action : String) :
    (empty.registerAll entries).arities.lookup action =
      (Entry.lastOf Entry.isRanged action entries).map Entry.arity := by
  induction entries using List.reverseRecOn with
  | nil => rfl
  | append_singleton entries e ih =>
    rw [registerAll_append, lookup_arities_register, Entry.lastOf_append, ih]
    split <;> rfl

def gate (action : String) (count : Nat) (r : Registry) : Except Error Descriptor := do
  let d ← r.describe action
  r.arities.validate action count
  return d

theorem invoke_eq_gate (r : Registry) (action : String) (receiver : Value)
    (args : List Argument) : r.invoke action receiver args = (do
      let d ← ofExcept (r.gate action args.length)
      d.implementation.call receiver args) := by
  unfold invoke gate
  cases r.describe action with
  | error e => rfl
  | ok d =>
    cases r.arities.validate action args.length <;> rfl

def Consistent (action : String) (r : Registry) : Prop :=
  ∀ count, r.gate action count = (do
    let d ← r.describe action
    d.arity.check action count
    return d)

theorem gate_eq (r : Registry) (action : String) (count : Nat) :
    r.gate action count = match r.actions.lookup action, r.arities.lookup action with
      | none, _ => .error (.unknownAction action)
      | some _, none => .error (.unknownAction action)
      | some d, some arity => (do arity.check action count; return d) := by
  unfold gate describe ArityTable.validate
  cases r.actions.lookup action with
  | none => rfl
  | some d => cases r.arities.lookup action <;> rfl

/-- A described action has a range in the table of arities, and it has counts. -/
theorem exists_arity {entries : List Entry} {action : String} {d : Descriptor}
    (h : (empty.registerAll entries).actions.lookup action = some d) :
    ∃ last, Entry.lastOf Entry.isRanged action entries = some last ∧
      (empty.registerAll entries).arities.lookup action = some last.arity ∧
      last.arity.isRange = true ∧ d.arity.isRange = true := by
  rw [lookup_actions_registerAll] at h
  obtain ⟨e, he, rfl⟩ := Option.map_eq_some_iff.mp h
  obtain ⟨last, hlast⟩ := Entry.exists_lastOf (fun _ => Entry.isRanged_of_isSound) he
  refine ⟨last, hlast, ?_, (Entry.of_lastOf hlast).2.2,
    Entry.isRanged_of_isSound (Entry.of_lastOf he).2.2⟩
  rw [lookup_arities_registerAll, hlast]
  rfl

/-- The counts tell two ranges apart. -/
theorem check_eq_iff {a b : Arity} (ha : a.isRange = true) (hb : b.isRange = true)
    (action : String) (d : Descriptor) :
    (∀ count, (do a.check action count; return d : Except Error Descriptor) =
      (do b.check action count; return d)) ↔ a = b := by
  have hcheck {x y : Except Error Unit} (h : (do x; return d : Except Error Descriptor) =
      (do y; return d)) : x = y := by
    cases x <;> cases y <;> cases h <;> rfl
  constructor
  · exact fun h => Arity.eq_of_check ha hb fun count => hcheck (h count)
  · rintro rfl count
    rfl

/-- The range that calls are checked against is that of the last entry that has counts, whether its
implementation fits or not. -/
theorem consistent_iff (entries : List Entry) (action : String) :
    (empty.registerAll entries).Consistent action ↔
      ∀ e, Entry.lastOf Entry.isSound action entries = some e →
        (Entry.lastOf Entry.isRanged action entries).map Entry.arity = some e.arity := by
  have hactions := lookup_actions_registerAll entries action
  unfold Consistent
  simp only [gate_eq]
  unfold describe
  cases hd : (empty.registerAll entries).actions.lookup action with
  | none =>
    rw [hd] at hactions
    have hnone := Option.map_eq_none_iff.mp hactions.symm
    rw [hnone]
    exact ⟨fun _ _ he => (nomatch he), fun _ _ => rfl⟩
  | some d =>
    obtain ⟨last, hlast, harity, hranged, hsound⟩ := exists_arity hd
    rw [hd] at hactions
    obtain ⟨e, he, rfl⟩ := Option.map_eq_some_iff.mp hactions.symm
    rw [harity, hlast, he]
    refine (check_eq_iff hranged hsound action e.descriptor).trans ?_
    simp [Entry.descriptor]

theorem actions_of_error {r : Registry} {e : Entry} {error : Error}
    (h : (r.register e).2 = .error error) : (r.register e).1.actions = r.actions := by
  rcases register_cases e r with ⟨-, error', hrun⟩ | ⟨-, -, hrun⟩ | ⟨-, hrun⟩
  · rw [hrun]
  · rw [hrun]
  · rw [hrun] at h
    cases h

/-- A registration that fails does not touch the other actions. -/
theorem invoke_of_error {r : Registry} {e : Entry} {error : Error} {action : String}
    (h : (r.register e).2 = .error error) (hother : action ≠ e.name) (receiver : Value)
    (args : List Argument) :
    (r.register e).1.invoke action receiver args = r.invoke action receiver args := by
  rw [invoke_eq_gate, invoke_eq_gate, gate_eq, gate_eq, actions_of_error h,
    lookup_arities_register, if_neg fun hsame => hother hsame.1]

/-- A registration of a known action that fails leaves its calls alone exactly if it brings the
range that they are checked against already, or one without counts. -/
theorem gate_of_error_iff {entries : List Entry} {e : Entry} {error : Error}
    (h : ((empty.registerAll entries).register e).2 = .error error) :
    (∀ count, ((empty.registerAll entries).register e).1.gate e.name count =
        (empty.registerAll entries).gate e.name count) ↔
      (e.isRanged = true → Entry.lastOf Entry.isSound e.name entries ≠ none →
        (Entry.lastOf Entry.isRanged e.name entries).map Entry.arity = some e.arity) := by
  have hactions := lookup_actions_registerAll entries e.name
  simp only [gate_eq, actions_of_error h, lookup_arities_register, true_and]
  cases hd : (empty.registerAll entries).actions.lookup e.name with
  | none =>
    rw [hd] at hactions
    have hnone := Option.map_eq_none_iff.mp hactions.symm
    rw [hnone]
    exact ⟨fun _ _ hne => absurd rfl hne, fun _ _ => rfl⟩
  | some d =>
    obtain ⟨last, hlast, harity, hranged, -⟩ := exists_arity hd
    rw [hd] at hactions
    obtain ⟨sound, hsound, -⟩ := Option.map_eq_some_iff.mp hactions.symm
    rw [harity, hlast, hsound]
    by_cases hnew : e.isRanged = true
    · rw [if_pos hnew]
      refine (check_eq_iff hnew hranged e.name d).trans ?_
      simp [hnew, eq_comm]
    · rw [if_neg hnew]
      exact ⟨fun _ hranged' => absurd hranged' hnew, fun _ _ => rfl⟩

/-- After any registrations, failed ones among them, calls of an action are checked against the
range that is described exactly if the last range with counts that was brought for it is that of its
last registration that passed both checks. A registration that fails changes no description and no
call of another action; it leaves the calls of its own action alone exactly if that is not known, or
the range has no counts or is the one that the calls are checked against. -/
theorem consistent_registerAll (entries : List Entry) :
    let r := empty.registerAll entries
    (∀ action, r.Consistent action ↔
      ∀ e, Entry.lastOf Entry.isSound action entries = some e →
        (Entry.lastOf Entry.isRanged action entries).map Entry.arity = some e.arity) ∧
    ∀ (e : Entry) (error : Error), (r.register e).2 = .error error →
      (∀ action, (r.register e).1.describe action = r.describe action) ∧
      (∀ action, action ≠ e.name → ∀ receiver args,
        (r.register e).1.invoke action receiver args = r.invoke action receiver args) ∧
      ((∀ count, (r.register e).1.gate e.name count = r.gate e.name count) ↔
        (e.isRanged = true → Entry.lastOf Entry.isSound e.name entries ≠ none →
          (Entry.lastOf Entry.isRanged e.name entries).map Entry.arity = some e.arity)) := by
  intro r
  refine ⟨consistent_iff entries, fun e error h => ⟨fun action => ?_, ?_, gate_of_error_iff h⟩⟩
  · rw [describe, describe, actions_of_error h]
  · exact fun action hother => invoke_of_error h hother

/-- An action that was registered survives two faulty registrations: one range has no counts, and
the other is the one that it has. -/
theorem consistent_registerAll_same :
    let same (v : Value) (_ : Argument) : Act Value := return v
    let entries : List Entry :=
      [⟨"a", .one, .datum, .unary same⟩, ⟨"a", ⟨2, some 1⟩, .datum, .unary same⟩]
    let again : Entry := ⟨"a", .one, .datum, .nullary fun v => return v⟩
    let r := empty.registerAll entries
    (r.register again).2 = .error (.shapeMismatch "a" .one) ∧ r.Consistent "a" ∧
      ∀ count, (r.register again).1.gate "a" count = r.gate "a" count := by
  intro same entries again r
  have hsound : Entry.lastOf Entry.isSound "a" entries = entries.head? := rfl
  have hranged : Entry.lastOf Entry.isRanged "a" entries = entries.head? := rfl
  have hfails : (r.register again).2 = .error (.shapeMismatch "a" .one) := rfl
  obtain ⟨hconsistent, hfailure⟩ := consistent_registerAll entries
  refine ⟨hfails, (hconsistent "a").mpr fun e he => ?_, ?_⟩
  · rw [hranged, ← hsound, he]
    rfl
  · exact (hfailure again _ hfails).2.2.mpr fun _ _ => by rw [hranged]; rfl

/-- An action with one argument is registered again with two, but its implementation still takes
one. The registration fails; the description stays, but calls are asked for two arguments. -/
theorem not_consistent_register :
    let same : Implementation := .unary fun v _ => return v
    let first : Entry := ⟨"a", .one, .datum, same⟩
    let second : Entry := ⟨"a", ⟨2, some 2⟩, .datum, same⟩
    let r := empty.registerAll [first]
    let after := (r.register second).1
    let c : Context := ⟨.datum, {}, ⟨.empty, ⟨fun _ _ => ""⟩, 0⟩⟩
    (empty.register first).2 = .ok () ∧
      (r.register second).2 = .error (.shapeMismatch "a" ⟨2, some 2⟩) ∧
      (after.describe "a").map Descriptor.arity = .ok .one ∧
      (r.invoke "a" .null [.datum .null]).runFrom c = (.ok .null, c) ∧
      (after.invoke "a" .null [.datum .null]).runFrom c =
        (.error (.argumentCount "a" .exactly 2 1), c) ∧
      ¬ after.Consistent "a" := by
  intro same first second r after c
  refine ⟨rfl, rfl, rfl, rfl, rfl, fun hconsistent => ?_⟩
  have hone := hconsistent 1
  cases hone

end Registry

end TableQuery
