/-!
# Computations that may fail

What a computation in `Except` that succeeded went through, and where one that failed did so.

Results:
* `Except.ok_of_toOption`, `Except.exists_of_toOption`: what succeeded, by its result.
* `Except.bind_ok`: both halves of a sequence succeed.
* `Except.bind_error`, `Except.exists_of_mapM_error`: one of the parts fails.
* `Except.foldlM_keeps`: a fold keeps what its steps keep.
* `Except.mapM_eq_ok`, `Except.mapM_pair_eq_ok`: a map succeeds if every call of it does.
* `Except.exists_of_mapM_ok`, `Except.eq_map_of_mapM_ok`: what comes of a map comes of its calls.
* `Except.mapError_bind`, `Except.mapM_mapError`: errors may be renamed part by part.
* `Except.mapM_map_ok`: what is undone element by element is undone as a whole.
-/

namespace LuaCoverage.Except
variable {ε α β : Type}

@[simp] theorem ok_bind (a : α) (f : α → Except ε β) : ((.ok a : Except ε α) >>= f) = f a := rfl

@[simp] theorem mapError_ok {ε' : Type} (f : ε → ε') (a : α) :
    (.ok a : Except ε α).mapError f = .ok a := rfl

theorem mapError_eq_ok_iff {ε' : Type} {f : ε → ε'} {x : Except ε α} {a : α} :
    x.mapError f = .ok a ↔ x = .ok a := by
  cases x with
  | ok b =>
    change (.ok b : Except ε' α) = .ok a ↔ _
    simp
  | error e =>
    change (.error (f e) : Except ε' α) = .ok a ↔ _
    simp

theorem mapError_eq_error_iff {ε' : Type} {f : ε → ε'} {x : Except ε α} {e' : ε'} :
    x.mapError f = .error e' ↔ ∃ e, x = .error e ∧ f e = e' := by
  cases x with
  | ok b =>
    change (.ok b : Except ε' α) = .error e' ↔ _
    simp
  | error e =>
    change (.error (f e) : Except ε' α) = .error e' ↔ _
    simp

theorem mapError_bind {ε' : Type} (g : ε → ε') (x : Except ε α) (f : α → Except ε β) :
    (x >>= f).mapError g = x.mapError g >>= fun a => (f a).mapError g := by
  cases x <;> rfl

theorem mapM_congr {f g : α → Except ε β} {l : List α} (h : ∀ a ∈ l, f a = g a) :
    l.mapM f = l.mapM g := by
  induction l with
  | nil => rfl
  | cons a rest ih =>
    rw [List.mapM_cons, List.mapM_cons, h a (by simp), ih fun b hb => h b (by simp [hb])]

theorem mapM_mapError {ε' : Type} (g : ε → ε') (f : α → Except ε β) (l : List α) :
    (l.mapM fun a => (f a).mapError g) = (l.mapM f).mapError g := by
  induction l with
  | nil => rfl
  | cons a rest ih =>
    rw [List.mapM_cons, List.mapM_cons, ih, mapError_bind]
    congr 1
    funext b
    rw [mapError_bind]
    rfl

theorem exists_of_isOk {x : Except ε α} (h : x.isOk = true) : ∃ a, x = .ok a := by
  cases x with
  | ok a => exact ⟨a, rfl⟩
  | error e => cases h

theorem ok_of_toOption {x : Except ε α} {a : α} (h : x.toOption = some a) : x = .ok a := by
  cases x with
  | ok b => exact congrArg Except.ok (Option.some.inj h)
  | error e => cases h

/-- What succeeded, known by a part of its result. -/
theorem exists_of_toOption {x : Except ε α} {f : α → β} {b : β}
    (h : x.toOption.map f = some b) : ∃ a, x = .ok a ∧ f a = b := by
  cases x with
  | ok a => exact ⟨a, rfl, Option.some.inj h⟩
  | error e => cases h

theorem bind_ok {x : Except ε α} {f : α → Except ε β} {b : β} (h : (x >>= f) = .ok b) :
    ∃ a, x = .ok a ∧ f a = .ok b := by
  match x, h with
  | .ok a, h => exact ⟨a, rfl, h⟩

theorem bind_error {x : Except ε α} {f : α → Except ε β} {e : ε} (h : (x >>= f) = .error e) :
    x = .error e ∨ ∃ a, x = .ok a ∧ f a = .error e := by
  match x, h with
  | .error _, h => exact .inl (by cases h; rfl)
  | .ok a, h => exact .inr ⟨a, rfl, h⟩

/-- A property of what was folded so far and of the state. -/
theorem foldlM_keeps {f : β → α → Except ε β} {P : List α → β → Prop}
    (step : ∀ front a b b', P front b → f b a = .ok b' → P (front ++ [a]) b') (front : List α)
    {l : List α} {b b' : β} (hb : P front b) (h : l.foldlM f b = .ok b') : P (front ++ l) b' := by
  induction l generalizing front b with
  | nil => cases h; simpa using hb
  | cons a rest ih =>
    rw [List.foldlM_cons] at h
    obtain ⟨c, hc, h⟩ := bind_ok h
    simpa using ih _ (step front a b c hb hc) h

/-- A map all of whose calls succeed. -/
theorem mapM_eq_ok {f : α → Except ε β} {g : α → β} {l : List α} (h : ∀ a ∈ l, f a = .ok (g a)) :
    l.mapM f = .ok (l.map g) := by
  induction l with
  | nil => rfl
  | cons a rest ih =>
    rw [List.mapM_cons, h a (by simp), ih fun b hb => h b (by simp [hb])]
    rfl

theorem mapM_map_ok {f : α → β} {g : β → Except ε α} {l : List α}
    (h : ∀ a ∈ l, g (f a) = .ok a) : (l.map f).mapM g = .ok l := by
  have hmap := mapM_eq_ok (f := g ∘ f) (g := id) h
  rwa [List.map_id, ← List.mapM_map] at hmap

/-- What comes of a map comes of one of its calls. -/
theorem exists_of_mapM_ok {f : α → Except ε β} {l : List α} {bs : List β} (h : l.mapM f = .ok bs)
    {b : β} (hb : b ∈ bs) : ∃ a ∈ l, f a = .ok b := by
  induction l generalizing bs with
  | nil =>
    cases h
    simp at hb
  | cons a rest ih =>
    rw [List.mapM_cons] at h
    obtain ⟨c, hc, h⟩ := bind_ok h
    obtain ⟨cs, hcs, h⟩ := bind_ok h
    cases h
    rcases List.mem_cons.1 hb with rfl | hb
    · exact ⟨a, by simp, hc⟩
    · obtain ⟨d, hd, hfd⟩ := ih hcs hb
      exact ⟨d, by simp [hd], hfd⟩

/-- A map that succeeds does so in all its calls. -/
theorem exists_mem_of_mapM_ok {f : α → Except ε β} {l : List α} {bs : List β}
    (h : l.mapM f = .ok bs) {a : α} (ha : a ∈ l) : ∃ b ∈ bs, f a = .ok b := by
  induction l generalizing bs with
  | nil => simp at ha
  | cons c rest ih =>
    rw [List.mapM_cons] at h
    obtain ⟨b, hb, h⟩ := bind_ok h
    obtain ⟨more, hmore, h⟩ := bind_ok h
    cases h
    rcases List.mem_cons.1 ha with rfl | ha
    · exact ⟨b, by simp, hb⟩
    · obtain ⟨d, hd, had⟩ := ih hmore ha
      exact ⟨d, by simp [hd], had⟩

/-- A map that succeeds, if it is known what comes of calls that do. -/
theorem eq_map_of_mapM_ok {f : α → Except ε β} {g : α → β} (hf : ∀ a b, f a = .ok b → b = g a)
    {l : List α} {bs : List β} (h : l.mapM f = .ok bs) : bs = l.map g := by
  induction l generalizing bs with
  | nil =>
    cases h
    rfl
  | cons a rest ih =>
    rw [List.mapM_cons] at h
    obtain ⟨c, hc, h⟩ := bind_ok h
    obtain ⟨cs, hcs, h⟩ := bind_ok h
    cases h
    rw [List.map_cons, hf a c hc, ih hcs]

/-- A map that fails does so in one of its calls. -/
theorem exists_of_mapM_error {f : α → Except ε β} {l : List α} {e : ε} (h : l.mapM f = .error e) :
    ∃ a ∈ l, f a = .error e := by
  induction l with
  | nil => cases h
  | cons a rest ih =>
    rw [List.mapM_cons] at h
    rcases bind_error h with h | ⟨_, -, h⟩
    · exact ⟨a, by simp, h⟩
    · rcases bind_error h with h | ⟨_, -, h⟩
      · obtain ⟨b, hb, hfb⟩ := ih h
        exact ⟨b, by simp [hb], hfb⟩
      · cases h

/-- A map that pairs every element with its result, and all of whose calls succeed. -/
theorem mapM_pair_eq_ok {γ : Type} {f : α → Except ε β} {g : α → β} (key : α → γ) {l : List α}
    (h : ∀ a ∈ l, f a = .ok (g a)) :
    (l.mapM fun a => do
      let b ← f a
      (.ok (key a, b) : Except ε (γ × β))) = .ok (l.map fun a => (key a, g a)) :=
  mapM_eq_ok fun a ha => by rw [h a ha]; rfl

end LuaCoverage.Except
