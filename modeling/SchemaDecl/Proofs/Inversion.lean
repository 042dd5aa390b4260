/-! Inversion of computations that may fail. A bind that came out well came out
well in both parts, so a run is taken apart by `obtain` and never by unfolding
the monad. -/

namespace SchemaDecl.Inversion

variable {ε α β : Type}

theorem bind_eq_ok {x : Except ε α} {f : α → Except ε β} {b : β} :
    (x >>= f) = .ok b ↔ ∃ a, x = .ok a ∧ f a = .ok b := by
  cases x <;> simp [bind, Except.bind]

theorem pure_eq_ok {a b : α} : (pure a : Except ε α) = .ok b ↔ a = b := by
  simp [pure, Except.pure]

theorem map_eq_ok {x : Except ε α} {f : α → β} {b : β} :
    x.map f = .ok b ↔ ∃ a, x = .ok a ∧ f a = b := by
  cases x <;> simp [Except.map]

theorem mapError_eq_ok {δ : Type} {x : Except ε α} {f : ε → δ} {a : α} :
    x.mapError f = .ok a ↔ x = .ok a := by
  cases x with
  | ok b =>
    show Except.ok b = .ok a ↔ _
    rw [Except.ok.injEq, Except.ok.injEq]
  | error fault => constructor <;> (intro h; cases h)

theorem eq_ok_of_toOption {x : Except ε α} {a : α} (h : x.toOption = some a) : x = .ok a := by
  cases x with
  | ok b => exact congrArg Except.ok (Option.some.inj h)
  | error fault => cases h

theorem exists_ok_of_isSome {x : Except ε α} (h : x.toOption.isSome = true) :
    ∃ a, x = .ok a := by
  cases x with
  | ok a => exact ⟨a, rfl⟩
  | error fault => cases h

/-- Where it does not depend on the state which steps come out well, a run that comes out well is a
run of total steps. -/
theorem foldlM_eq_ok_iff {σ : Type} {step : σ → α → Except ε σ} {total : σ → α → σ}
    {Allowed : α → Prop} (hstep : ∀ s a t, step s a = .ok t ↔ Allowed a ∧ total s a = t)
    (xs : List α) (s t : σ) :
    xs.foldlM step s = .ok t ↔ (∀ a ∈ xs, Allowed a) ∧ xs.foldl total s = t := by
  induction xs generalizing s with
  | nil => simp [pure_eq_ok]
  | cons a xs ih =>
    rw [List.foldlM_cons, bind_eq_ok, List.forall_mem_cons, List.foldl_cons]
    constructor
    · rintro ⟨s', hs', hxs⟩
      obtain ⟨ha, rfl⟩ := (hstep _ _ _).1 hs'
      obtain ⟨hall, ht⟩ := (ih _).1 hxs
      exact ⟨⟨ha, hall⟩, ht⟩
    · rintro ⟨⟨ha, hall⟩, ht⟩
      exact ⟨_, (hstep _ _ _).2 ⟨ha, rfl⟩, (ih _).2 ⟨hall, ht⟩⟩

/-! The same with a state, which stays as it is when a computation fails. -/

section
variable {σ : Type}

theorem run_bind (x : ExceptT ε (StateM σ) α) (f : α → ExceptT ε (StateM σ) β) (s : σ) :
    (x >>= f).run.run s = match (x.run.run s : Except ε α × σ) with
      | (.ok a, s') => (f a).run.run s'
      | (.error fault, s') => (.error fault, s') := by
  show ExceptT.bindCont f (x.run.run s).1 (x.run.run s).2 = _
  cases (x.run.run s) with
  | mk outcome s' => cases outcome <;> rfl

theorem run_bind_eq_ok {x : ExceptT ε (StateM σ) α} {f : α → ExceptT ε (StateM σ) β} {s s'' : σ}
    {b : β} : (x >>= f).run.run s = (.ok b, s'') ↔
      ∃ a s', x.run.run s = (.ok a, s') ∧ (f a).run.run s' = (.ok b, s'') := by
  rw [run_bind]
  cases hx : (x.run.run s : Except ε α × σ) with
  | mk outcome s' =>
    cases outcome with
    | ok a =>
      constructor
      · intro h
        exact ⟨a, s', rfl, h⟩
      · rintro ⟨a', t, h, hf⟩
        cases h
        exact hf
    | error fault =>
      constructor
      · intro h
        cases h
      · rintro ⟨a, t, h, _⟩
        cases h

theorem run_pure_eq_ok {a b : α} {s s' : σ} :
    (pure a : ExceptT ε (StateM σ) α).run.run s = (.ok b, s') ↔ a = b ∧ s = s' := by
  show ((Except.ok a, s) : Except ε α × σ) = (.ok b, s') ↔ _
  rw [Prod.mk.injEq, Except.ok.injEq]

theorem run_lift_eq_ok {x : Except ε α} {b : α} {s s' : σ} :
    (liftM x : ExceptT ε (StateM σ) α).run.run s = (.ok b, s') ↔ x = .ok b ∧ s = s' := by
  show ((x, s) : Except ε α × σ) = (.ok b, s') ↔ _
  rw [Prod.mk.injEq]
end

end SchemaDecl.Inversion
