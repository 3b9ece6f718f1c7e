import Univariate.Quadrature.Summary

/-!
# Summaries

What a summary of the classic rules lists, and which of its results are errors.
-/

namespace Univariate.Quadrature

variable {α : Type} [Scalar α] {f : α → α} {a b : α} {n : Nat} {rule : Rule} {rules : List Rule}
  {summary : Summary α}

theorem isFinite_of_fault?_eq_none (h : fault? a b n = none) :
    Scalar.isFinite a = true ∧ Scalar.isFinite b = true := by
  unfold fault? at h
  split at h
  · cases h
  · split at h
    · cases h
    · next hlimits =>
        simp only [Bool.or_eq_true, not_or, Bool.not_eq_true', Bool.not_eq_false] at hlimits
        exact hlimits.1

theorem summarize_eq_error_iff {error : Error α} :
    summarize f a b n = .error error ↔ fault? a b n = some error := by
  unfold summarize
  cases fault? a b n with
  | none => simp
  | some error => simp

theorem summarize_eq_ok_iff :
    summarize f a b n = .ok summary ↔
      fault? a b n = none ∧ summarizeRules Rule.classic f a b n = summary := by
  unfold summarize
  cases fault? a b n with
  | none => simp
  | some error => simp

/-! ### Results of rules -/

theorem integrate_of_fault?_eq_none (h : fault? a b n = none) :
    integrate rule f a b n = rule.apply f a b n := by
  unfold integrate
  rw [h]

theorem endpoints_eq_ok (ha : Scalar.isFinite (f a) = true) (hb : Scalar.isFinite (f b) = true) :
    endpoints f a b = .ok (f a, f b) := by
  simp [endpoints, ha, hb]

theorem endpoints_of_not_finite_lower (ha : Scalar.isFinite (f a) = false) :
    endpoints f a b = .error (.nonFiniteEndpoint a) := by
  simp [endpoints, ha]

theorem endpoints_of_not_finite_upper (ha : Scalar.isFinite (f a) = true)
    (hb : Scalar.isFinite (f b) = false) : endpoints f a b = .error (.nonFiniteEndpoint b) := by
  simp [endpoints, ha, hb]

namespace Rule

/-- The Riemann sums, which leave out every sample that is not finite. -/
def sums : List Rule := [left, right, midpoint]

/-- The rules that need finite values at both limits. -/
def closed : List Rule := [trapezoid, simpson]

theorem classic_eq : classic = sums ++ closed := rfl

theorem exists_apply_of_mem_sums (hrule : rule ∈ sums) :
    ∃ value, rule.apply f a b n = .ok value := by
  simp only [sums, List.mem_cons, List.not_mem_nil, or_false] at hrule
  rcases hrule with rfl | rfl | rfl <;> exact ⟨_, rfl⟩

theorem exists_apply_of_endpoints_eq_ok {values : α × α} (h : endpoints f a b = .ok values)
    (hrule : rule ∈ closed) : ∃ value, rule.apply f a b n = .ok value := by
  simp only [closed, List.mem_cons, List.not_mem_nil, or_false] at hrule
  rcases hrule with rfl | rfl <;>
    simp only [apply, Quadrature.trapezoid, Quadrature.simpson, h] <;>
    exact ⟨_, rfl⟩

theorem apply_of_endpoints_eq_error {error : Error α} (h : endpoints f a b = .error error)
    (hrule : rule ∈ closed) : rule.apply f a b n = .error error := by
  simp only [closed, List.mem_cons, List.not_mem_nil, or_false] at hrule
  rcases hrule with rfl | rfl <;>
    simp only [apply, Quadrature.trapezoid, Quadrature.simpson, h] <;>
    rfl

end Rule

/-! ### The list of results -/

theorem Summary.get?_summarizeRules (hrule : rule ∈ rules) :
    (summarizeRules rules f a b n).get? rule = some (integrate rule f a b n) := by
  unfold get? summarizeRules
  induction rules with
  | nil => cases hrule
  | cons first rest ih =>
      rw [List.map_cons, List.find?_cons]
      cases hfirst : first == rule with
      | true =>
          obtain rfl : first = rule := by simpa using hfirst
          rfl
      | false =>
          have hne : rule ≠ first := fun heq => by simp [heq] at hfirst
          exact ih ((List.mem_cons.mp hrule).resolve_left hne)

theorem Summary.get?_classic (h : fault? a b n = none) (hrule : rule ∈ Rule.classic) :
    (summarizeRules Rule.classic f a b n).get? rule = some (rule.apply f a b n) := by
  rw [get?_summarizeRules hrule, integrate_of_fault?_eq_none h]

/-- What a summary says of a function between two limits. -/
structure Summary.Describes (s : Summary α) (f : α → α) (a b : α) (n : Nat) : Prop where
  limits : s.a = a ∧ s.b = b ∧ s.n = n
  order : s.results.map Prod.fst = [.left, .right, .midpoint, .trapezoid, .simpson]
  sums : ∀ rule ∈ Rule.sums, ∃ value, s.get? rule = some (.ok value)
  finite : Scalar.isFinite (f a) = true → Scalar.isFinite (f b) = true →
    ∀ rule ∈ Rule.closed, ∃ value, s.get? rule = some (.ok value)
  lower : Scalar.isFinite (f a) = false →
    ∀ rule ∈ Rule.closed, s.get? rule = some (.error (.nonFiniteEndpoint a))
  upper : Scalar.isFinite (f a) = true → Scalar.isFinite (f b) = false →
    ∀ rule ∈ Rule.closed, s.get? rule = some (.error (.nonFiniteEndpoint b))

theorem describes_summarizeRules (h : fault? a b n = none) :
    (summarizeRules Rule.classic f a b n).Describes f a b n := by
  have hsums : ∀ rule ∈ Rule.sums, rule ∈ Rule.classic := fun rule hrule =>
    Rule.classic_eq ▸ List.mem_append_left _ hrule
  have hclosed : ∀ rule ∈ Rule.closed, rule ∈ Rule.classic := fun rule hrule =>
    Rule.classic_eq ▸ List.mem_append_right _ hrule
  constructor
  case limits => exact ⟨rfl, rfl, rfl⟩
  case order => rfl
  case sums =>
    intro rule hrule
    obtain ⟨value, hvalue⟩ := Rule.exists_apply_of_mem_sums (f := f) (a := a) (b := b) (n := n) hrule
    exact ⟨value, by rw [Summary.get?_classic h (hsums rule hrule), hvalue]⟩
  case finite =>
    intro ha hb rule hrule
    obtain ⟨value, hvalue⟩ :=
      Rule.exists_apply_of_endpoints_eq_ok (n := n) (endpoints_eq_ok ha hb) hrule
    exact ⟨value, by rw [Summary.get?_classic h (hclosed rule hrule), hvalue]⟩
  case lower =>
    intro ha rule hrule
    rw [Summary.get?_classic h (hclosed rule hrule),
      Rule.apply_of_endpoints_eq_error (endpoints_of_not_finite_lower ha) hrule]
  case upper =>
    intro ha hb rule hrule
    rw [Summary.get?_classic h (hclosed rule hrule),
      Rule.apply_of_endpoints_eq_error (endpoints_of_not_finite_upper ha hb) hrule]

end Univariate.Quadrature
