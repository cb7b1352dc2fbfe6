/-! What a computation that may stop with an error has come to, told from what its parts have come
to. -/
namespace ByteMachine

variable {ε α β : Type} {value : Except ε α} {next : α → Except ε β}

theorem bind_eq_ok {result : β} :
    value >>= next = .ok result ↔
      ∃ produced, value = .ok produced ∧ next produced = .ok result := by
  cases value <;> simp [bind, Except.bind]

theorem bind_eq_error {fault : ε} :
    value >>= next = .error fault ↔
      value = .error fault ∨ ∃ produced, value = .ok produced ∧ next produced = .error fault := by
  cases value <;> simp [bind, Except.bind]

theorem map_eq_ok {f : α → β} {result : β} :
    value.map f = .ok result ↔ ∃ produced, value = .ok produced ∧ f produced = result := by
  cases value <;> simp [Except.map]

theorem mapError_eq_ok {f : ε → β} {result : α} :
    value.mapError f = .ok result ↔ value = .ok result := by
  cases value with
  | ok produced =>
    change Except.ok produced = Except.ok result ↔ _
    simp only [Except.ok.injEq]
  | error cause =>
    change Except.error (f cause) = Except.ok result ↔ _
    simp only [reduceCtorEq]

theorem mapError_eq_error {f : ε → β} {fault : β} :
    value.mapError f = .error fault ↔ ∃ cause, value = .error cause ∧ f cause = fault := by
  cases value with
  | ok produced =>
    change Except.ok produced = Except.error fault ↔ _
    simp only [reduceCtorEq, false_and, exists_false]
  | error cause =>
    change Except.error (f cause) = Except.error fault ↔ _
    simp only [Except.error.injEq, exists_eq_left']

end ByteMachine
