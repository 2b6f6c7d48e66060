import LuaCoverage.Probe.ManifestFile
import LuaCoverage.Proofs.Data.Complaint
import LuaCoverage.Proofs.Dump.Stopped
import LuaCoverage.Report.Reading

/-!
# What the decoders complain about

Dumps, manifests and reports come from outside, so any JSON may stand where an integer, a list or a
mapping is expected. Each of the three decoders has errors of its own for that, which are made of
the mismatches of some groups. A decoder never fails with a mismatch of another group, with one
exception: an infinite number that stands where an integer is expected is in the group of no
decoder.

Results:
* `ProbeMap.complains_ofValue`, `Record.complains_tables`: what maps and records complain about.
* `Dump.declared_of_mem_hits`: what the counts of a dump complain about.
* `decoders_declared`: the errors of all three decoders.
-/

namespace LuaCoverage
open Mismatch (integerGroups entryGroups tableGroups)

theorem integerGroups_subset : integerGroups ⊆ entryGroups := by decide

theorem entryGroups_subset : entryGroups ⊆ tableGroups := by decide

/-! ## Maps -/

namespace Complains
variable {α β : Type} {v w : Value} {x : Except Mismatch α}

/-- An entry is read, and then what needs it. -/
theorem field {f : Value → Except Mismatch β} (key : String)
    (hf : ∀ w, (w.HoldsInfinity → v.HoldsInfinity) → Complains entryGroups v (f w)) :
    Complains entryGroups v (v.entry key >>= f) :=
  (v.complains_entry key).bind fun w hw => hf w (.of_entry hw)

/-- A part of the value is read, and then what needs it. -/
theorem within {f : α → Except Mismatch β} (hpart : w.HoldsInfinity → v.HoldsInfinity)
    (hx : Complains entryGroups w x) (hf : ∀ a, Complains entryGroups v (f a)) :
    Complains entryGroups v (x >>= f) :=
  (hx.part hpart).bind fun a _ => hf a

/-- A part of the value is read as an integer, and then what needs it. -/
theorem integer {f : Int → Except Mismatch β} (hpart : w.HoldsInfinity → v.HoldsInfinity)
    (hf : ∀ n, Complains entryGroups v (f n)) : Complains entryGroups v (w.toInt >>= f) :=
  within hpart (w.complains_toInt.mono integerGroups_subset) hf

/-- The items of a list are read one by one. -/
theorem items {f : Value → Except Mismatch α} (hf : ∀ w, Complains entryGroups w (f w)) :
    Complains entryGroups v (v.toItems >>= fun items => items.mapM f) := by
  refine (v.complains_toItems.mono integerGroups_subset).bind fun items hitems => ?_
  exact mapM fun w hw => (hf w).part (.of_toItems hitems hw)

end Complains

theorem Position.complains_ofValue (v : Value) : Complains entryGroups v (ofValue v) := by
  refine .field "line" fun w hw => .integer hw fun line => ?_
  refine .field "column" fun w hw => .integer hw fun column => ?_
  exact .ok _

theorem Location.complains_ofValue (v : Value) : Complains entryGroups v (ofValue v) := by
  refine .field "start" fun w hw => .within hw (Position.complains_ofValue w) fun start => ?_
  refine .field "end" fun w hw => .within hw (Position.complains_ofValue w) fun stop => ?_
  exact .ok _

theorem Value.complains_toLocations (v : Value) : Complains entryGroups v v.toLocations :=
  .items Location.complains_ofValue

theorem StatementProbe.complains_ofValue (v : Value) : Complains entryGroups v (ofValue v) := by
  refine .field "id" fun w hw => .integer hw fun id => ?_
  refine .field "loc" fun w hw => .within hw (Location.complains_ofValue w) fun loc => ?_
  exact .ok _

theorem FunctionProbe.complains_ofValue (v : Value) : Complains entryGroups v (ofValue v) := by
  refine .field "id" fun w hw => .integer hw fun id => ?_
  refine .field "name" fun name _ => ?_
  refine .field "decl" fun w hw => .within hw (Location.complains_ofValue w) fun decl => ?_
  refine .field "loc" fun w hw => .within hw (Location.complains_ofValue w) fun loc => ?_
  refine .field "line" fun w hw => .integer hw fun line => ?_
  exact .ok _

theorem BranchProbe.complains_ofValue (v : Value) : Complains entryGroups v (ofValue v) := by
  refine .field "id" fun w hw => .integer hw fun id => ?_
  refine .field "type" fun type _ => ?_
  refine .field "line" fun w hw => .integer hw fun line => ?_
  refine .field "loc" fun w hw => .within hw (Location.complains_ofValue w) fun loc => ?_
  refine .field "locations" fun w hw => .within hw w.complains_toLocations fun locations => ?_
  exact .ok _

section Mapping
variable {entries : List (Scalar × Value)}

theorem Value.complains_itemsAt (entries : List (Scalar × Value)) (key : String) :
    Complains entryGroups (.mapping entries) ((mapping entries).itemsAt key) := by
  simp only [itemsAt, entry?, Except.ok_bind]
  split
  · next items hitems =>
    exact (items.complains_toItems.mono integerGroups_subset).part (.of_lookup hitems)
  · exact .ok []

theorem Value.HoldsInfinity.of_itemsAt {key : String} {items : List Value} {w : Value}
    (h : (mapping entries).itemsAt key = .ok items) (hmem : w ∈ items) (hw : w.HoldsInfinity) :
    (mapping entries).HoldsInfinity := by
  simp only [itemsAt, entry?, Except.ok_bind] at h
  split at h
  · next hlookup => exact .of_lookup hlookup (.of_toItems h hmem hw)
  · cases h
    simp at hmem

/-- The items under a key that a mapping may lack are read one by one. -/
theorem Complains.eachAt {α : Type} {f : Value → Except Mismatch α} {key : String}
    {items : List Value} (h : (Value.mapping entries).itemsAt key = .ok items)
    (hf : ∀ w, Complains entryGroups w (f w)) :
    Complains entryGroups (.mapping entries) (items.mapM f) :=
  mapM fun w hw => (hf w).part (.of_itemsAt h hw)

theorem Value.complains_idBase (entries : List (Scalar × Value)) :
    Complains entryGroups (.mapping entries)
      ((lookup entries "idBase").getD (.int 0)).toInt := by
  refine (complains_toInt _).mono integerGroups_subset |>.part fun hw => ?_
  cases hlookup : lookup entries "idBase" with
  | some w =>
    rw [hlookup] at hw
    exact .of_lookup hlookup hw
  | none =>
    rw [hlookup] at hw
    cases hw

end Mapping

/-- A map has a path, so it is a mapping, and asking for what it may lack does not go wrong. -/
theorem ProbeMap.complains_ofValue (v : Value) : Complains entryGroups v (ofValue v) := by
  refine (v.complains_entry "path").bind fun path hpath => ?_
  obtain ⟨entries, rfl, -⟩ := Value.exists_of_entry hpath
  refine (Value.complains_idBase entries).bind fun idBase _ => ?_
  refine (Value.complains_itemsAt entries "statements").bind fun items hitems => ?_
  refine (Complains.eachAt hitems StatementProbe.complains_ofValue).bind fun statements _ => ?_
  refine (Value.complains_itemsAt entries "functions").bind fun items hitems => ?_
  refine (Complains.eachAt hitems FunctionProbe.complains_ofValue).bind fun functions _ => ?_
  refine (Value.complains_itemsAt entries "branches").bind fun items hitems => ?_
  refine (Complains.eachAt hitems BranchProbe.complains_ofValue).bind fun branches _ => ?_
  exact .ok _

/-! ## Records -/

theorem FunctionEntry.complains_ofValue (v : Value) : Complains entryGroups v (ofValue v) := by
  refine .field "name" fun name _ => ?_
  refine .field "decl" fun w hw => .within hw (Location.complains_ofValue w) fun decl => ?_
  refine .field "loc" fun w hw => .within hw (Location.complains_ofValue w) fun loc => ?_
  refine .field "line" fun w hw => .integer hw fun line => ?_
  exact .ok _

theorem BranchEntry.complains_ofValue (v : Value) : Complains entryGroups v (ofValue v) := by
  refine .field "type" fun type _ => ?_
  refine .field "line" fun w hw => .integer hw fun line => ?_
  refine .field "loc" fun w hw => .within hw (Location.complains_ofValue w) fun loc => ?_
  refine .field "locations" fun w hw => .within hw w.complains_toLocations fun locations => ?_
  exact .ok _

theorem Value.complains_toInts (v : Value) : Complains entryGroups v v.toInts :=
  .items fun w => w.complains_toInt.mono integerGroups_subset

/-- A table is read entry by entry, each with its key. -/
theorem Value.complains_toTable {α : Type} {decode : Value → Except Mismatch α}
    (hdecode : ∀ w, Complains entryGroups w (decode w)) (v : Value) :
    Complains tableGroups v (v.toTable decode) := by
  refine v.complains_toEntries.bind fun entries hentries => ?_
  have hv : v = .mapping entries := by
    cases v with
    | mapping _ =>
      cases hentries
      rfl
    | scalar _ | list _ | set _ | pair _ _ => cases hentries
  subst hv
  refine Complains.bind (.mapM fun entry hentry => ?_) fun pairs _ => .ok _
  have hkey := entry.1.complains_toInt.mono integerGroups_subset |>.part (.key hentry)
  have hvalue := (hdecode entry.2).part (.entry hentry)
  exact (hkey.mono entryGroups_subset).bind fun id _ =>
    (hvalue.mono entryGroups_subset).bind fun decoded _ => .ok _

/-- A table under a key is read, and then what needs it. -/
theorem Complains.table {α β : Type} {v : Value} {decode : Value → Except Mismatch α}
    {f : Table Int α → Except Mismatch β} (key : String)
    (hdecode : ∀ w, Complains entryGroups w (decode w))
    (hf : ∀ table, Complains tableGroups v (f table)) :
    Complains tableGroups v (v.entry key >>= fun w => w.toTable decode >>= f) := by
  refine ((v.complains_entry key).mono entryGroups_subset).bind fun w hw => ?_
  exact ((w.complains_toTable hdecode).part (.of_entry hw)).bind fun table _ => hf table

theorem Record.complains_tables (path : String) (v : Value) :
    Complains tableGroups v (tables path v) := by
  have hint : ∀ w : Value, Complains entryGroups w w.toInt := fun w =>
    w.complains_toInt.mono integerGroups_subset
  refine .table "statementMap" Location.complains_ofValue fun statementMap => ?_
  refine .table "fnMap" FunctionEntry.complains_ofValue fun functionMap => ?_
  refine .table "branchMap" BranchEntry.complains_ofValue fun branchMap => ?_
  refine .table "s" hint fun statements => ?_
  refine .table "f" hint fun functions => ?_
  refine .table "b" Value.complains_toInts fun branches => ?_
  exact .ok _

/-! ## Counts -/

/-- Why a count cannot be added: unless a value is missing or too small, it is no integer. -/
def CountFault.Declared (fault : CountFault) (v : Value) : Prop :=
  ∀ m, fault = .mismatch m → m.group ∈ integerGroups ∨ m = .infiniteInteger ∧ v.HoldsInfinity

namespace Dump
variable {v : Value} {fault : CountFault} {path : String} {kind : ProbeKind}

theorem declared_of_reading {α : Type} {x : Except Mismatch α} (hx : Complains integerGroups v x)
    (h : reading x = .error fault) : fault.Declared v := by
  obtain ⟨m, hm, rfl⟩ := Except.mapError_eq_error_iff.1 h
  intro m' hm'
  cases hm'
  exact hx m hm

theorem declared_of_hitsOf {id amount : Int} {arm : Option Int}
    (h : hitsOf path kind id arm amount = .error fault) : fault.Declared v := by
  unfold hitsOf at h
  split at h
  · cases h
    intro m hm
    cases hm
  · cases h

theorem declared_of_plainHits {entry : Scalar × Value}
    (hkey : (Value.scalar entry.1).HoldsInfinity → v.HoldsInfinity)
    (hvalue : entry.2.HoldsInfinity → v.HoldsInfinity)
    (h : plainHits path kind entry = .error fault) : fault.Declared v := by
  rcases Except.bind_error h with h | ⟨id, -, h⟩
  · exact declared_of_reading (entry.1.complains_toInt.part hkey) h
  rcases Except.bind_error h with h | ⟨amount, -, h⟩
  · exact declared_of_reading (entry.2.complains_toInt.part hvalue) h
  exact declared_of_hitsOf h

theorem complains_listArms (arm : Nat) {items : List Value}
    (hitems : ∀ w ∈ items, w.HoldsInfinity → v.HoldsInfinity) :
    Complains integerGroups v (listArms arm items) := by
  induction items generalizing arm with
  | nil => exact .ok []
  | cons w rest ih =>
    refine (w.complains_toInt.part (hitems w (by simp))).bind fun amount _ => ?_
    exact (ih (arm + 1) fun u hu => hitems u (by simp [hu])).bind fun more _ => .ok _

theorem declared_of_arms {w : Value} (h : arms w = .error fault) : fault.Declared w := by
  unfold arms at h
  split at h
  · next items =>
    exact declared_of_reading (complains_listArms 0 fun _ hu => .item hu) h
  · next entries =>
    refine declared_of_reading (.mapM fun entry hentry => ?_) h
    refine (entry.1.complains_toInt.part (.key hentry)).bind fun arm _ => ?_
    exact (entry.2.complains_toInt.part (.entry hentry)).bind fun amount _ => .ok _
  · cases h
    intro m hm
    cases hm

theorem declared_of_branchHits {entry : Scalar × Value}
    (hkey : (Value.scalar entry.1).HoldsInfinity → v.HoldsInfinity)
    (hvalue : entry.2.HoldsInfinity → v.HoldsInfinity)
    (h : .error fault ∈ branchHits path entry) : fault.Declared v := by
  simp only [branchHits] at h
  split at h
  · next f hf =>
    simp only [List.mem_singleton, Except.error.injEq] at h
    subst h
    intro m hm
    exact (declared_of_arms hf m hm).imp_right (And.imp_right hvalue)
  · obtain ⟨number, -, h⟩ := List.mem_map.1 h
    rcases Except.bind_error h with h | ⟨id, -, h⟩
    · exact declared_of_reading (entry.1.complains_toInt.part hkey) h
    · exact declared_of_hitsOf h

/-! ### The parts of a dump -/

theorem mem_put {entries : List (Scalar × Value)} {key : Scalar} {w : Value} {e : Scalar × Value}
    (h : e ∈ Value.put entries key w) : e ∈ entries ∨ e.2 = w := by
  induction entries with
  | nil =>
    simp only [Value.put, List.mem_singleton] at h
    exact .inr (by rw [h])
  | cons first rest ih =>
    simp only [Value.put] at h
    split at h
    all_goals rcases List.mem_cons.1 h with rfl | h
    · exact .inr rfl
    · exact .inl (by simp [h])
    · exact .inl (by simp)
    · exact (ih h).imp_left fun h => by simp [h]

/-- Checking puts nothing in but mappings without entries. -/
theorem infinity_of_checkCounts {entries checked : List (Scalar × Value)} {key : String}
    (h : checkCounts path entries key = .ok checked)
    (hentries : ∀ e ∈ entries, e.2.HoldsInfinity → v.HoldsInfinity) :
    ∀ e ∈ checked, e.2.HoldsInfinity → v.HoldsInfinity := by
  intro e he hinf
  unfold checkCounts at h
  split at h
  · cases h
    exact hentries e he hinf
  · split at h
    · cases h
      rcases mem_put he with he | he
      · exact hentries e he hinf
      · rw [he] at hinf
        cases hinf <;> contradiction
    · split at h
      · cases h
        exact hentries e he hinf
      · cases h

theorem infinity_of_moduleOf {entry : Scalar × Value} {m : DumpModule}
    (h : moduleOf entry = .ok m) : ∀ e ∈ m.entries, e.2.HoldsInfinity → entry.2.HoldsInfinity := by
  unfold moduleOf at h
  split at h
  · next entries hentries =>
    obtain ⟨first, hfirst, h⟩ := Except.bind_ok h
    obtain ⟨second, hsecond, h⟩ := Except.bind_ok h
    obtain ⟨third, hthird, h⟩ := Except.bind_ok h
    cases h
    rw [hentries]
    exact infinity_of_checkCounts hthird (infinity_of_checkCounts hsecond
      (infinity_of_checkCounts hfirst fun e he hinf => .entry he hinf))
  · cases h

theorem exists_of_mem_counts {m : DumpModule} {e : Scalar × Value} (h : e ∈ m.counts kind) :
    ∃ entry ∈ m.entries, ∃ counts, entry.2 = .mapping counts ∧ e ∈ counts := by
  unfold DumpModule.counts at h
  split at h
  · next counts hcounts =>
    obtain ⟨entry, hentry, heq⟩ := Value.exists_mem_of_lookup hcounts
    exact ⟨entry, hentry, counts, heq, h⟩
  · simp at h

theorem declared_of_mem_moduleHits {m : DumpModule} {e : LoadError}
    (hm : ∀ entry ∈ m.entries, entry.2.HoldsInfinity → v.HoldsInfinity)
    (h : .error e ∈ moduleHits m) : e.fault.Declared v := by
  have hparts : ∀ {kind} {entry}, entry ∈ m.counts kind →
      ((Value.scalar entry.1).HoldsInfinity → v.HoldsInfinity)
        ∧ (entry.2.HoldsInfinity → v.HoldsInfinity) := by
    intro kind entry hentry
    obtain ⟨field, hfield, counts, hcounts, hmem⟩ := exists_of_mem_counts hentry
    have hfield := hm field hfield
    rw [hcounts] at hfield
    exact ⟨fun hinf => hfield (.key hmem hinf), fun hinf => hfield (.entry hmem hinf)⟩
  obtain ⟨x, hx, h⟩ := List.mem_map.1 h
  obtain ⟨fault, rfl, rfl⟩ := Except.mapError_eq_error_iff.1 h
  rcases List.mem_append.1 hx with hx | hx
  · rcases List.mem_append.1 hx with hx | hx
    all_goals
      obtain ⟨entry, hentry, hx⟩ := List.mem_map.1 hx
      exact declared_of_plainHits (hparts hentry).1 (hparts hentry).2 hx
  · obtain ⟨entry, hentry, hx⟩ := List.mem_flatMap.1 hx
    exact declared_of_branchHits (hparts hentry).1 (hparts hentry).2 hx

/-- What the counts of a dump complain about. -/
theorem declared_of_mem_hits {d : Dump} {e : LoadError} (hd : ofValue v = .ok d)
    (h : .error e ∈ d.hits) : e.fault.Declared v := by
  unfold ofValue at hd
  split at hd
  · next entries =>
    obtain ⟨modules, hmodules, hd⟩ := Except.bind_ok hd
    cases hd
    obtain ⟨m, hm, h⟩ := List.mem_flatMap.1 h
    obtain ⟨entry, hentry, hm⟩ := Except.exists_of_mapM_ok hmodules hm
    exact declared_of_mem_moduleHits
      (fun field hfield hinf => .entry hentry (infinity_of_moduleOf hm field hfield hinf)) h
  · cases hd

end Dump

/-! ## The errors of the decoders -/

/-- Whether loading reports an error as one of its own: a count that is missing or too small, or a
mismatch of a group that it expects. -/
def LoadError.isDeclared (e : LoadError) : Bool :=
  match e.fault with
  | .mismatch m => integerGroups.contains m.group
  | .negative _ | .noArms _ => true

/-- Whether reading a manifest reports an error as one of its own. -/
def ManifestError.isDeclared (e : ManifestError) : Bool :=
  match e.fault with
  | .map m => entryGroups.contains m.group
  | .notJson _ | .version => true

/-- Whether reading a report reports an error as one of its own. -/
def SchemaError.isDeclared : SchemaError → Bool
  | .malformed _ m => tableGroups.contains m.group
  | _ => true

/-- A mismatch of an expected group is no overflow, and any other one is. -/
theorem contains_group_of_complaint {groups : List Mismatch.Group} {v : Value} {m : Mismatch}
    (hgroups : groups.contains .overflow = false)
    (h : m.group ∈ groups ∨ m = .infiniteInteger ∧ v.HoldsInfinity) :
    groups.contains m.group = !(m.group == .overflow)
      ∧ ((m.group == .overflow) = true → v.HoldsInfinity) := by
  rcases h with h | ⟨rfl, hinf⟩
  · have hne : m.group ≠ .overflow := by
      intro heq
      rw [heq] at h
      simp [h] at hgroups
    simp [h, hne]
  · simp only [Mismatch.group, beq_self_eq_true, Bool.not_true]
    exact ⟨hgroups, fun _ => hinf⟩

variable {v : Value}

theorem LoadError.declared {d : Dump} {s s' : Store} {e : LoadError}
    (hd : Dump.ofValue v = .ok d) (h : d.load s = (.error e, s')) :
    e.isDeclared = !e.isOverflow ∧ (e.isOverflow = true → v.HoldsInfinity) := by
  obtain ⟨front, ⟨rest, hhits⟩, -⟩ := Dump.load_eq_error_iff.1 h
  have hfault := Dump.declared_of_mem_hits hd (e := e) (by rw [hhits]; simp)
  unfold isDeclared isOverflow
  cases hm : e.fault with
  | mismatch m => exact contains_group_of_complaint (by decide) (hfault m hm)
  | negative _ | noArms _ => exact ⟨rfl, by simp⟩

theorem Manifest.declared {file : String} {fault : ManifestFault}
    (h : Manifest.ofValue v = .error fault) :
    (ManifestError.mk file fault).isDeclared = !(ManifestError.mk file fault).isOverflow
      ∧ ((ManifestError.mk file fault).isOverflow = true → v.HoldsInfinity) := by
  unfold Manifest.ofValue at h
  split at h
  · next entries =>
    split at h
    · obtain ⟨m, hm, rfl⟩ := Except.mapError_eq_error_iff.1 h
      have hcomplains := (Value.complains_itemsAt entries "modules").bind fun items hitems =>
        Complains.eachAt hitems ProbeMap.complains_ofValue
      exact contains_group_of_complaint (by decide) (hcomplains m hm)
    · cases h
      exact ⟨rfl, by simp [ManifestError.isOverflow]⟩
  · cases h
    exact ⟨rfl, by simp [ManifestError.isOverflow]⟩

theorem Record.declared_of_check {r : Record} {e : SchemaError} (h : r.check = some e) :
    e.isDeclared = true ∧ e.isOverflow = false := by
  unfold check at h
  split at h
  · cases h
    exact ⟨rfl, rfl⟩
  split at h
  · cases h
    exact ⟨rfl, rfl⟩
  split at h
  · cases h
    exact ⟨rfl, rfl⟩
  · obtain ⟨entry, -, rfl⟩ := Option.map_eq_some_iff.1 h
    exact ⟨rfl, rfl⟩

theorem Record.declared {e : SchemaError} (h : ofValue v = .error e) :
    e.isDeclared = !e.isOverflow ∧ (e.isOverflow = true → v.HoldsInfinity) := by
  unfold ofValue at h
  split at h
  · next entries =>
    simp only at h
    split at h
    · cases h
      exact ⟨rfl, by simp [SchemaError.isOverflow]⟩
    · rcases Except.bind_error h with h | ⟨r, -, h⟩
      · obtain ⟨m, hm, rfl⟩ := Except.mapError_eq_error_iff.1 h
        exact contains_group_of_complaint (by decide) (complains_tables _ _ m hm)
      · split at h
        · next hcheck =>
          cases h
          obtain ⟨hdeclared, hoverflow⟩ := declared_of_check hcheck
          simp [hdeclared, hoverflow]
        · cases h
  · cases h
    exact ⟨rfl, by simp [SchemaError.isOverflow]⟩

theorem Report.declared {e : SchemaError} (h : ofValue v = .error e) :
    e.isDeclared = !e.isOverflow ∧ (e.isOverflow = true → v.HoldsInfinity) := by
  unfold ofValue at h
  split at h
  · next entries =>
    rcases Except.bind_error h with h | ⟨_, -, h⟩
    · obtain ⟨entry, hentry, h⟩ := Except.exists_of_mapM_error h
      rcases Except.bind_error h with h | ⟨r, -, h⟩
      · obtain ⟨hdeclared, hinf⟩ := Record.declared h
        exact ⟨hdeclared, fun hoverflow => .entry hentry (hinf hoverflow)⟩
      · split at h
        · cases h
        · cases h
          exact ⟨rfl, by simp [SchemaError.isOverflow]⟩
    · cases h
  · cases h
    exact ⟨rfl, by simp [SchemaError.isOverflow]⟩

/-- The JSON of a text holds an infinite number. -/
def Json.TellsInfinity (text : String) : Prop := ∃ v, parse text = .ok v ∧ v.HoldsInfinity

/-- For every text, the decoders of dumps, manifests and reports fail with the errors that they
declare and with no others, unless an infinite number stands in the JSON of the text where an
integer is expected: that overflow is passed on as it is. -/
theorem decoders_declared (text : String) :
    (∀ d s e s', Dump.parse text = .ok d → d.load s = (.error e, s') →
      e.isDeclared = !e.isOverflow
        ∧ (e.isOverflow = true → ∃ inside, Dump.payload text.toList = .ok inside
          ∧ Json.TellsInfinity (String.ofList inside)))
    ∧ (∀ files working p q, ManifestFile.place files working p = q →
      files.readText (working.resolve q) q.text = .ok text →
      ∀ err, ManifestFile.read files working p = .error err → ∃ e, err = .content e
        ∧ e.isDeclared = !e.isOverflow ∧ (e.isOverflow = true → Json.TellsInfinity text))
    ∧ ∀ e, Report.parse text = .error e →
      e.isDeclared = !e.isOverflow ∧ (e.isOverflow = true → Json.TellsInfinity text) := by
  refine ⟨?_, ?_, ?_⟩
  · intro d s e s' hparse hload
    obtain ⟨inside, hinside, hparse⟩ := Except.bind_ok hparse
    split at hparse
    · next v hv =>
      obtain ⟨hdeclared, hinf⟩ := LoadError.declared hparse hload
      exact ⟨hdeclared, fun hoverflow => ⟨inside, hinside, v, hv, hinf hoverflow⟩⟩
    · cases hparse
  · rintro files working p _ rfl htext err herr
    unfold ManifestFile.read at herr
    simp only [htext, Except.mapError_ok, Except.ok_bind] at herr
    obtain ⟨e, he, rfl⟩ := Except.mapError_eq_error_iff.1 herr
    obtain ⟨fault, hfault, rfl⟩ := Except.mapError_eq_error_iff.1 he
    refine ⟨_, rfl, ?_⟩
    split at hfault
    · next v hv =>
      obtain ⟨hdeclared, hinf⟩ := Manifest.declared hfault
      exact ⟨hdeclared, fun hoverflow => ⟨v, hv, hinf hoverflow⟩⟩
    · cases hfault
      exact ⟨rfl, by simp [ManifestError.isOverflow]⟩
  · intro e he
    unfold Report.parse at he
    split at he
    · next v hv =>
      obtain ⟨hdeclared, hinf⟩ := Report.declared he
      exact ⟨hdeclared, fun hoverflow => ⟨v, hv, hinf hoverflow⟩⟩
    · cases he
      exact ⟨rfl, by simp [SchemaError.isOverflow]⟩

def infiniteDump : String := "\x7b\"m.lua\": \x7b\"s\": \x7b\"0\": Infinity\x7d\x7d\x7d"

def infiniteError : LoadError := ⟨"m.lua", .mismatch .infiniteInteger⟩

theorem exists_load_infiniteDump : ∃ d, Dump.parse infiniteDump = .ok d
    ∧ d.load Store.empty = (.error infiniteError, Store.empty) := by
  have hloaded : (Dump.parse infiniteDump).toOption.map (fun d => d.load Store.empty)
      = some (.error infiniteError, Store.empty) := by decide +kernel
  exact Except.exists_of_toOption hloaded

/-- The dump is neither a manifest nor a report, and both decoders say so themselves. -/
theorem decoders_declared_sample :
    (∃ d, Dump.parse infiniteDump = .ok d
      ∧ d.load Store.empty = (.error infiniteError, Store.empty)
      ∧ infiniteError.isDeclared = !infiniteError.isOverflow
      ∧ ∃ inside, Dump.payload infiniteDump.toList = .ok inside
        ∧ Json.TellsInfinity (String.ofList inside))
    ∧ (∃ e, ManifestFile.read ⟨[(Path.ofString "/m.json", .file (Text.Utf8.ofString infiniteDump))]⟩
        (Path.ofString "/") (Path.ofString "m.json") = .error (.content e)
      ∧ e.isDeclared = !e.isOverflow)
    ∧ ∃ e, Report.parse infiniteDump = .error e ∧ e.isDeclared = !e.isOverflow := by
  obtain ⟨hdump, hmanifest, hreport⟩ := decoders_declared infiniteDump
  refine ⟨?_, ?_, ?_⟩
  · obtain ⟨d, hd, hload⟩ := exists_load_infiniteDump
    obtain ⟨hdeclared, hinf⟩ := hdump d _ _ _ hd hload
    exact ⟨d, hd, hload, hdeclared, hinf (by decide)⟩
  · have hread : ManifestFile.read
        ⟨[(Path.ofString "/m.json", .file (Text.Utf8.ofString infiniteDump))]⟩
        (Path.ofString "/") (Path.ofString "m.json")
          = .error (.content ⟨"m.json", .version⟩) := by decide +kernel
    obtain ⟨e, he, hdeclared, -⟩ := hmanifest _ _ _ (Path.ofString "m.json") (by decide +kernel)
      (by decide +kernel) _ hread
    exact ⟨e, he ▸ hread, hdeclared⟩
  · have hparse : Report.parse infiniteDump
        = .error (.missingKeys ["path", "statementMap", "fnMap", "branchMap", "f", "b"]) := by
      decide +kernel
    exact ⟨_, hparse, (hreport _ hparse).1⟩

/-- An infinite number is an error that no decoder declares. -/
theorem decoders_overflow :
    (∃ d, Dump.parse infiniteDump = .ok d
      ∧ d.load Store.empty = (.error infiniteError, Store.empty)
      ∧ infiniteError.isDeclared = false
      ∧ infiniteError.message = "cannot convert float infinity to integer")
    ∧ (∃ e, Manifest.parse "m.json" ("\x7b\"version\": 1, \"modules\": "
        ++ "[\x7b\"path\": \"m.lua\", \"idBase\": Infinity\x7d]\x7d") = .error e
      ∧ e.isDeclared = false)
    ∧ ∃ e, Report.parse ("\x7b\"m.lua\": \x7b\"path\": \"m.lua\", \"statementMap\": \x7b\x7d, "
        ++ "\"fnMap\": \x7b\x7d, \"branchMap\": \x7b\x7d, \"s\": \x7b\"0\": 1e400\x7d, "
        ++ "\"f\": \x7b\x7d, \"b\": \x7b\x7d\x7d\x7d") = .error e
      ∧ e.isDeclared = false := by
  refine ⟨?_, ⟨⟨"m.json", .map .infiniteInteger⟩, ?_, by decide⟩,
    ⟨.malformed "m.lua" .infiniteInteger, ?_, by decide⟩⟩
  · obtain ⟨d, hd, hload⟩ := exists_load_infiniteDump
    exact ⟨d, hd, hload, by decide, by decide⟩
  · decide +kernel
  · decide +kernel

end LuaCoverage
