/-
Sequential code with a state that may panic.

`bind_eq_ok` takes a run apart at each semicolon, and `bind_ok` puts one together.
`Ends` is a postcondition for code that returns, beside the causes it may stop for.
`AgreesUnless` compares two pieces of code that differ only where one of them stops.
-/

import Mathlib.Logic.Basic

namespace Xv6.Library

abbrev Code (Stop State Value : Type) : Type := StateT State (Except Stop) Value

namespace Code

variable {Stop State Value Result : Type}

def stop (cause : Stop) : Code Stop State Value := fun _ => .error cause

variable {before after : State}

theorem bind_eq_ok {code : Code Stop State Value} {rest : Value → Code Stop State Result}
    {result : Result} :
    (code >>= rest) before = .ok (result, after) ↔
      ∃ value middle, code before = .ok (value, middle) ∧
        rest value middle = .ok (result, after) := by
  change (code before >>= fun pair => rest pair.1 pair.2) = .ok (result, after) ↔ _
  cases ran : code before with
  | error cause =>
    constructor
    · intro impossible
      cases impossible
    · rintro ⟨value, middle, impossible, _⟩
      cases impossible
  | ok pair =>
    obtain ⟨value, middle⟩ := pair
    constructor
    · intro continued
      exact ⟨value, middle, rfl, continued⟩
    · rintro ⟨other, state, same, continued⟩
      cases same
      exact continued

theorem bind_ok {code : Code Stop State Value} {rest : Value → Code Stop State Result}
    {middle : State} {value : Value} (first : code before = .ok (value, middle)) :
    (code >>= rest) before = rest value middle := by
  change (code before >>= fun pair => rest pair.1 pair.2) = _
  rw [first]
  rfl

theorem get_bind {rest : State → Code Stop State Result} :
    ((get : Code Stop State State) >>= rest) before = rest before before := rfl

theorem bind_error {code : Code Stop State Value} {rest : Value → Code Stop State Result}
    {cause : Stop} (stopped : code before = .error cause) :
    (code >>= rest) before = .error cause := by
  change (code before >>= fun pair => rest pair.1 pair.2) = _
  rw [stopped]
  rfl

theorem error_of_bind {code : Code Stop State Value} {rest : Value → Code Stop State Result}
    {cause : Stop} (stopped : (code >>= rest) before = .error cause) :
    code before = .error cause ∨
      ∃ value middle, code before = .ok (value, middle) ∧ rest value middle = .error cause := by
  cases ran : code before with
  | error other =>
    rw [bind_error ran] at stopped
    cases stopped
    exact Or.inl rfl
  | ok pair =>
    rw [bind_ok ran] at stopped
    exact Or.inr ⟨pair.1, pair.2, rfl, stopped⟩

theorem pure_eq_ok {value result : Value} :
    (pure value : Code Stop State Value) before = .ok (result, after) ↔
      value = result ∧ before = after := by
  change Except.ok (value, before) = Except.ok (result, after) ↔ _
  constructor
  · intro same
    cases same
    exact ⟨rfl, rfl⟩
  · rintro ⟨rfl, rfl⟩
    rfl

theorem stop_ne_ok {cause : Stop} {result : Value} :
    (stop cause : Code Stop State Value) before ≠ .ok (result, after) := by
  intro impossible
  cases impossible

/-- The code returns with the postcondition or stops for one of the causes. -/
def Ends (code : Code Stop State Value) (before : State) (causes : Stop → Prop)
    (post : Value → State → Prop) : Prop :=
  match code before with
  | .ok (value, after) => post value after
  | .error cause => causes cause

namespace Ends

variable {code : Code Stop State Value} {before : State} {causes : Stop → Prop}
  {post : Value → State → Prop}

variable {value : Value} {cause : Stop} {rest : Value → Code Stop State Result}
  {final : Result → State → Prop}

theorem of_ok {after : State} (ran : code before = .ok (value, after)) (holds : post value after) :
    code.Ends before causes post := by
  unfold Ends
  rw [ran]
  exact holds

theorem of_stop (allowed : causes cause) :
    (stop cause : Code Stop State Value).Ends before causes post := allowed

theorem of_pure (holds : post value before) :
    (pure value : Code Stop State Value).Ends before causes post := holds

theorem bind (first : code.Ends before causes post)
    (second : ∀ value middle, post value middle → (rest value).Ends middle causes final) :
    (code >>= rest).Ends before causes final := by
  unfold Ends at first ⊢
  cases ran : code before with
  | error cause =>
    rw [ran] at first
    change (match (code before >>= fun pair => rest pair.1 pair.2) with
      | .ok (value, after) => final value after
      | .error cause => causes cause)
    rw [ran]
    exact first
  | ok pair =>
    obtain ⟨value, middle⟩ := pair
    rw [ran] at first
    rw [bind_ok ran]
    exact second value middle first

theorem bind_of_ok {middle : State} (ran : code before = .ok (value, middle))
    (second : (rest value).Ends middle causes final) :
    (code >>= rest).Ends before causes final := by
  unfold Ends at second ⊢
  rw [bind_ok ran]
  exact second

theorem bind_of_error (ran : code before = .error cause) (allowed : causes cause) :
    (code >>= rest).Ends before causes final := by
  have first : code.Ends before causes (fun _ _ => False) := by
    unfold Ends
    rw [ran]
    exact allowed
  exact bind first (fun _ _ impossible => impossible.elim)

/-- The causes and the postcondition may be replaced by what is known of the run itself. -/
theorem of_ran {more : Stop → Prop} {other : Value → State → Prop}
    (ends : code.Ends before causes post)
    (stopped : ∀ cause, code before = .error cause → causes cause → more cause)
    (returned : ∀ value after, code before = .ok (value, after) → post value after →
      other value after) : code.Ends before more other := by
  unfold Ends at ends ⊢
  cases ran : code before with
  | error cause =>
    rw [ran] at ends
    exact stopped cause ran ends
  | ok pair =>
    rw [ran] at ends
    exact returned pair.1 pair.2 ran ends

theorem mono {weaker : Value → State → Prop} (ends : code.Ends before causes post)
    (implies : ∀ value after, post value after → weaker value after) :
    code.Ends before causes weaker :=
  ends.of_ran (fun _ _ allowed => allowed) (fun value after _ => implies value after)

theorem excuse {more : Stop → Prop} (ends : code.Ends before causes post)
    (implies : ∀ cause, causes cause → more cause) : code.Ends before more post :=
  ends.of_ran (fun cause _ => implies cause) (fun _ _ _ holds => holds)

theorem post_of_ok {after : State} (ends : code.Ends before causes post)
    (ran : code before = .ok (value, after)) : post value after := by
  unfold Ends at ends
  rw [ran] at ends
  exact ends

theorem exists_ok (ends : code.Ends before causes post) (none : ∀ cause, ¬causes cause) :
    ∃ value after, code before = .ok (value, after) ∧ post value after := by
  unfold Ends at ends
  cases ran : code before with
  | error cause =>
    rw [ran] at ends
    exact absurd ends (none cause)
  | ok pair =>
    rw [ran] at ends
    exact ⟨pair.1, pair.2, rfl, ends⟩

theorem cause_of_error (ends : code.Ends before causes post) (ran : code before = .error cause) :
    causes cause := by
  unfold Ends at ends
  rw [ran] at ends
  exact ends

end Ends

/-- The two pieces of code agree wherever the first one does not stop for the cause. -/
def AgreesUnless (cause : Stop) (strict real : Code Stop State Value) : Prop :=
  ∀ state, strict state ≠ .error cause → real state = strict state

namespace AgreesUnless

variable {cause : Stop} {strict real : Code Stop State Value}

theorem refl (code : Code Stop State Value) : AgreesUnless cause code code :=
  fun _ _ => rfl

theorem stop (code : Code Stop State Value) : AgreesUnless cause (Code.stop cause) code :=
  fun _ goes => absurd rfl goes

theorem bind (agrees : AgreesUnless cause strict real)
    {strictRest realRest : Value → Code Stop State Result}
    (rest : ∀ value, AgreesUnless cause (strictRest value) (realRest value)) :
    AgreesUnless cause (strict >>= strictRest) (real >>= realRest) := by
  intro state goes
  change (strict state >>= fun pair => strictRest pair.1 pair.2) ≠ _ at goes
  change (real state >>= fun pair => realRest pair.1 pair.2) =
    (strict state >>= fun pair => strictRest pair.1 pair.2)
  cases ran : strict state with
  | error other =>
    have different : strict state ≠ .error cause := by
      intro same
      rw [same] at goes
      exact goes rfl
    rw [agrees state different, ran]
    rfl
  | ok pair =>
    have continues : strict state ≠ .error cause := by
      rw [ran]
      intro impossible
      cases impossible
    rw [agrees state continues, ran]
    rw [ran] at goes
    exact rest pair.1 pair.2 goes

end AgreesUnless

end Code

end Xv6.Library
