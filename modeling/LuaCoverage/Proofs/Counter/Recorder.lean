import LuaCoverage.Proofs.Counter.Reading

/-!
# What a recorder does

A recorder is called by the program under test, with arguments of any kind, and must not disturb
it. Carrying out a hit may go wrong at several points: the id or the arm is no integer, or the path
is nothing that can be looked up, be it among the modules or among the stale hits. Such a hit is an
*attempt* that ends with a mismatch; the recorder drops the mismatch and goes on with the store
that the attempt leaves.

What the store is then compared to what it was is an *effect*: nothing is changed, one counter is
greater by one, or one entry of the stale hits is, which may be new. An attempt that ends with a
mismatch changes nothing, whatever it did before.

Results:
* `Store.attempt_cases`: what an attempt ends with, and the store that it leaves.
* `Store.exists_leads_increment`: a hit that can be carried out has an effect.
* `Store.Effect.eq_of_leads`: between two stores there is one effect at most.
* `Store.recordAll_effect`: every call of a recorder.
-/

namespace LuaCoverage

namespace Value

/-- A value as a key: only scalars can be looked up. -/
def toKey : Value → Except Mismatch Scalar
  | .scalar s => .ok s
  | other => .error (.notHashable other.typeName)

/-- A value as an arm, if it is given. -/
def toArm : Option Value → Except Mismatch (Option Int)
  | none => .ok none
  | some v => if v.isNull then .ok none else v.toInt.map some

end Value

namespace Store

/-! ## Attempts -/

/-- The first step of a hit: if the kind is one of a probe, the path is looked up among the modules
and the counter is raised, if there is one. -/
def tryCount (s : Store) (path kind : Value) (id : Int) (arm : Option Int) :
    Except Mismatch Bool × Store :=
  match ProbeKind.ofCode? kind.shown with
  | none => (.ok false, s)
  | some _ =>
    match path.toKey with
    | .error e => (.error e, s)
    | .ok key =>
      match s.count? ⟨key, kind.shown, id, arm⟩ 1 with
      | some s' => (.ok true, s')
      | none => (.ok false, s)

/-- The second step of a hit: the reference is looked up among the stale hits, and tallied. -/
def tryDrop (s : Store) (path kind : Value) (id : Int) (arm : Option Int) :
    Except Mismatch Bool × Store :=
  match path.toKey with
  | .error e => (.error e, s)
  | .ok key => (.ok false, s.drop ⟨key, kind.shown, id, arm⟩ 1)

/-- Carries out a hit with arguments of any kind: whether it was counted, unless it ends with a
mismatch, and the store that it leaves. -/
def attempt (s : Store) (path kind id : Value) (arm : Option Value) :
    Except Mismatch Bool × Store :=
  match id.toInt, Value.toArm arm with
  | .error e, _ => (.error e, s)
  | .ok _, .error e => (.error e, s)
  | .ok id, .ok arm =>
    match s.tryCount path kind id arm with
    | (.ok false, s') => s'.tryDrop path kind id arm
    | (outcome, s') => (outcome, s')

section Steps
variable {s : Store} {path kind : Value} {id : Int} {arm : Option Int} {key : Scalar} {e : Mismatch}

theorem tryCount_of_ok (hkey : path.toKey = .ok key) : s.tryCount path kind id arm
    = match s.count? ⟨key, kind.shown, id, arm⟩ 1 with
      | some s' => (.ok true, s')
      | none => (.ok false, s) := by
  rw [tryCount, hkey]
  cases hkind : ProbeKind.ofCode? kind.shown with
  | none =>
    rw [count?, hkind]
    rfl
  | some _ => rfl

/-- A path that cannot be looked up ends the hit in one of its steps, with nothing changed. -/
theorem tryDrop_of_error (hkey : path.toKey = .error e) (s : Store) (kind : Value) (id : Int)
    (arm : Option Int) : s.tryDrop path kind id arm = (.error e, s)
    ∧ (s.tryCount path kind id arm = (.ok false, s)
      ∨ s.tryCount path kind id arm = (.error e, s)) := by
  rw [tryCount, tryDrop, hkey]
  cases ProbeKind.ofCode? kind.shown with
  | none => exact ⟨rfl, .inl rfl⟩
  | some _ => exact ⟨rfl, .inr rfl⟩

end Steps

/-- A hit has a reference if its id and arm are integers and its path can be looked up. -/
theorem reference?_eq (path kind id : Value) (arm : Option Value) : reference? path kind id arm
    = match id.toInt, Value.toArm arm, path.toKey with
      | .ok id, .ok arm, .ok key => some ⟨key, kind.shown, id, arm⟩
      | _, _, _ => none := by
  unfold reference? Value.toArm
  cases id.toInt with
  | error e => rfl
  | ok n =>
    cases arm with
    | none => cases path <;> rfl
    | some v =>
      by_cases hv : v.isNull = true
      · simp only [hv, if_true]
        cases path <;> rfl
      · simp only [hv]
        cases v.toInt <;> cases path <;> rfl

/-- A hit that has a reference is counted or dropped. Any other ends with a mismatch, and leaves the
store as it was. -/
theorem attempt_cases (s : Store) (path kind id : Value) (arm : Option Value) :
    (∃ r, reference? path kind id arm = some r
        ∧ s.attempt path kind id arm = (.ok (s.increment r).1, (s.increment r).2))
      ∨ reference? path kind id arm = none ∧ ∃ e, s.attempt path kind id arm = (.error e, s) := by
  rw [reference?_eq, attempt]
  cases id.toInt with
  | error e => exact .inr ⟨rfl, e, rfl⟩
  | ok id =>
    cases Value.toArm arm with
    | error e => exact .inr ⟨rfl, e, rfl⟩
    | ok arm =>
      cases hkey : path.toKey with
      | error e =>
        obtain ⟨hdrop, hcount | hcount⟩ := tryDrop_of_error hkey s kind id arm
        · exact .inr ⟨rfl, e, by simp only [hcount, hdrop]⟩
        · exact .inr ⟨rfl, e, by simp only [hcount]⟩
      | ok key =>
        refine .inl ⟨_, rfl, ?_⟩
        simp only [tryCount_of_ok hkey, increment]
        cases hcount : s.count? ⟨key, kind.shown, id, arm⟩ 1 with
        | some s' => rfl
        | none => simp only [tryDrop, hkey]

/-! ## Effects -/

/-- The count in a slot of the module at a place. -/
def counter? (s : Store) (i : Nat) (slot : Slot) : Option Int :=
  s.tallies[i]?.bind fun t => t.at? slot

/-- One entry of the stale hits has grown by one for a reference, the entry at a place: the one that
the reference had, or else a new one behind all others. -/
structure Grown (r : Reference) (stale stale' : List StaleHits) (k : Nat) : Prop where
  entry : (∃ e, stale[k]? = some e ∧ e.reference.equals r = true
      ∧ stale'[k]? = some ⟨e.reference, e.hits + 1⟩)
    ∨ k = stale.length ∧ (∀ e ∈ stale, e.reference.equals r = false) ∧ stale'[k]? = some ⟨r, 1⟩
  others : ∀ j ≠ k, stale'[j]? = stale[j]?

/-- What may become of a store: nothing, a count more in one slot of one module, or a stale hit more
in one entry. -/
inductive Effect
  | unchanged
  | counted (i : Nat) (slot : Slot)
  | dropped (k : Nat)

/-- What an effect makes of a store. -/
def Effect.Leads (s s' : Store) : Effect → Prop
  | .unchanged => s' = s
  | .counted i slot => s'.stale = s.stale ∧ s'.shapes = s.shapes
    ∧ (s.counter? i slot).isSome = true
    ∧ ∀ j other, s'.counter? j other
      = (s.counter? j other).map fun n => if (i, slot) = (j, other) then n + 1 else n
  | .dropped k => s'.tallies = s.tallies ∧ ∃ r, Grown r s.stale s'.stale k

/-- Whether an effect is that of a hit with an outcome: a mismatch, counted or not. -/
def Effect.IsOf : Effect → Except Mismatch Bool → Prop
  | .unchanged, outcome => ∃ e, outcome = .error e
  | .counted _ _, outcome => outcome = .ok true
  | .dropped _, outcome => outcome = .ok false

variable {s s' : Store}

theorem exists_grown_addStale (r : Reference) (stale : List StaleHits) :
    ∃ k, Grown r stale (addStale r 1 stale) k := by
  induction stale with
  | nil =>
    refine ⟨0, .inr ⟨rfl, by simp, rfl⟩, fun j hj => ?_⟩
    obtain ⟨j, rfl⟩ := Nat.exists_eq_succ_of_ne_zero hj
    rfl
  | cons entry rest ih =>
    rw [addStale]
    split
    · next hentry =>
      refine ⟨0, .inl ⟨entry, rfl, hentry, rfl⟩, fun j hj => ?_⟩
      obtain ⟨j, rfl⟩ := Nat.exists_eq_succ_of_ne_zero hj
      rfl
    · next hentry =>
      obtain ⟨k, hk, hothers⟩ := ih
      refine ⟨k + 1, ?_, fun j hj => ?_⟩
      · obtain hold | ⟨hlength, hnone, hnew⟩ := hk
        · exact .inl hold
        · exact .inr ⟨by simp [hlength], by simpa [hentry] using hnone, hnew⟩
      · cases j with
        | zero => rfl
        | succ j => exact hothers j fun heq => hj (by rw [heq])

theorem exists_leads_count? {r : Reference} (h : s.count? r 1 = some s') :
    ∃ i slot, (Effect.counted i slot).Leads s s' := by
  obtain ⟨kind, t, slot, -, -, ht, hslot, rfl⟩ := count?_cases h
  obtain ⟨i, hi, hset⟩ := exists_raise_eq_set ht slot 1
  obtain ⟨hlt, -⟩ := List.getElem?_eq_some_iff.1 hi
  refine ⟨i, slot, rfl, shapes_raise ht slot 1, ?_, fun j other => ?_⟩
  · rw [counter?, hi, Option.bind_some, Tally.isSome_at?_of_slotOf? hslot]
  · rw [counter?, counter?, hset, List.getElem?_set]
    by_cases hij : i = j
    · subst hij
      rw [if_pos rfl, if_pos hlt, hi, Option.bind_some, Option.bind_some, Tally.at?_raise]
      simp
    · simp [hij]

/-- A hit that can be carried out is counted in one slot, or dropped in one entry. -/
theorem exists_leads_increment (s : Store) (r : Reference) :
    ∃ effect : Effect, effect.IsOf (.ok (s.increment r).1) ∧ effect.Leads s (s.increment r).2 := by
  rw [increment]
  cases hcount : s.count? r 1 with
  | some s' =>
    obtain ⟨i, slot, hleads⟩ := exists_leads_count? hcount
    exact ⟨.counted i slot, rfl, hleads⟩
  | none =>
    obtain ⟨k, hk⟩ := exists_grown_addStale r s.stale
    exact ⟨.dropped k, rfl, rfl, r, hk⟩

/-! ## One effect at most -/

theorem counter?_ne_of_leads {i : Nat} {slot : Slot} (h : (Effect.counted i slot).Leads s s') :
    s'.counter? i slot ≠ s.counter? i slot := by
  obtain ⟨-, -, hsome, hcounter⟩ := h
  obtain ⟨n, hn⟩ := Option.isSome_iff_exists.1 hsome
  simp [hcounter, hn]

theorem tallies_ne_of_leads {i : Nat} {slot : Slot} (h : (Effect.counted i slot).Leads s s') :
    s'.tallies ≠ s.tallies := fun heq => counter?_ne_of_leads h (by rw [counter?, counter?, heq])

theorem Grown.ne {r : Reference} {stale stale' : List StaleHits} {k : Nat}
    (h : Grown r stale stale' k) : stale'[k]? ≠ stale[k]? := by
  obtain ⟨e, he, -, he'⟩ | ⟨hk, -, hnew⟩ := h.entry
  · rw [he, he']
    intro heq
    simpa using congrArg (Option.map StaleHits.hits) heq
  · rw [hnew, hk, List.getElem?_eq_none (Nat.le_refl _)]
    exact Option.some_ne_none _

theorem stale_ne_of_leads {k : Nat} (h : (Effect.dropped k).Leads s s') : s'.stale ≠ s.stale := by
  obtain ⟨-, r, hgrown⟩ := h
  exact fun heq => hgrown.ne (by rw [heq])

/-- Between two stores there is one effect at most. -/
theorem Effect.eq_of_leads {effect other : Effect} (h : effect.Leads s s') (h' : other.Leads s s') :
    effect = other := by
  cases effect with
  | unchanged =>
    cases other with
    | unchanged => rfl
    | counted j slot' => exact absurd (congrArg Store.tallies h) (tallies_ne_of_leads h')
    | dropped k' => exact absurd (congrArg Store.stale h) (stale_ne_of_leads h')
  | counted i slot =>
    cases other with
    | unchanged => exact absurd (congrArg Store.tallies h') (tallies_ne_of_leads h)
    | counted j slot' =>
      -- Were the slots not the same, the second effect would leave the count of the first alone.
      by_contra hne
      have hplace : ¬(j, slot') = (i, slot) := fun heq => hne (by cases heq; rfl)
      refine counter?_ne_of_leads h ?_
      simp only [h'.2.2.2, if_neg hplace, Option.map_id']
    | dropped k' => exact absurd h'.1 (tallies_ne_of_leads h)
  | dropped k =>
    cases other with
    | unchanged => exact absurd (congrArg Store.stale h') (stale_ne_of_leads h)
    | counted j slot' => exact absurd h'.1 (stale_ne_of_leads h)
    | dropped k' =>
      obtain ⟨-, r, hgrown⟩ := h
      obtain ⟨-, r', hgrown'⟩ := h'
      by_contra hne
      exact hgrown.ne (hgrown'.others k fun heq => hne (by rw [heq]))

/-! ## Every call -/

/-- Whatever a recorder is called with, it comes to an end with a store, and exactly one effect has
made that store of the one before. Nothing is changed if the hit cannot be carried out: the id or
the arm is no integer, or the path cannot be looked up. Otherwise it is counted in one slot or
dropped in one entry, as the hit tells. -/
theorem recordAll_effect (s : Store) (path kind id : Value) (arm : Option Value) :
    ∃ outcome s', s.attempt path kind id arm = (outcome, s')
      ∧ s.recordAll ([path, kind, id] ++ arm.toList) = .ok s'
      ∧ ∃ effect : Effect, effect.IsOf outcome ∧ effect.Leads s s'
        ∧ ∀ other : Effect, other.Leads s s' → other = effect := by
  have hrecord : s.recordAll ([path, kind, id] ++ arm.toList) = .ok (s.record path kind id arm) := by
    cases arm <;> rfl
  obtain ⟨r, hr, hattempt⟩ | ⟨hr, e, hattempt⟩ := attempt_cases s path kind id arm
  · obtain ⟨effect, hof, hleads⟩ := exists_leads_increment s r
    refine ⟨_, _, hattempt, by rw [hrecord, record, hr], effect, hof, hleads, fun other hother => ?_⟩
    exact Effect.eq_of_leads hother hleads
  · refine ⟨_, _, hattempt, by rw [hrecord, record, hr], .unchanged, ⟨e, rfl⟩, rfl,
      fun other hother => ?_⟩
    exact Effect.eq_of_leads hother rfl

end Store

end LuaCoverage
