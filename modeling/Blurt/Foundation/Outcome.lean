import Mathlib.Data.List.Basic
import Mathlib.Data.List.Forall2
import Mathlib.Logic.Basic

/-! # Computations that may throw

A throwing procedure is a value of `Except String`. The rules below invert a
successful sequence of statements into its successful parts, so that callers
never unfold the monad.
-/

namespace Outcome

universe u

variable {α β σ : Type u}

/-- An assertion with its message. -/
def ensure (condition : Prop) [Decidable condition] (message : String) : Except String Unit :=
  if condition then .ok () else .error message

@[simp] theorem ensure_eq_ok {condition : Prop} [Decidable condition] {message : String} {u : Unit} :
    ensure condition message = .ok u ↔ condition := by
  unfold ensure
  split <;> simp_all

theorem ensure_eq_error {condition : Prop} [Decidable condition] {message error : String} :
    ensure condition message = .error error ↔ ¬ condition ∧ error = message := by
  unfold ensure
  split <;> simp_all [eq_comm]

/-- The value of an optional lookup, or the message of the failed lookup. -/
def require (value : Option α) (message : String) : Except String α :=
  match value with
  | some a => .ok a
  | none => .error message

@[simp] theorem require_eq_ok {value : Option α} {message : String} {a : α} :
    require value message = .ok a ↔ value = some a := by
  unfold require
  split <;> simp_all

@[simp] theorem bind_eq_ok {first : Except String α} {rest : α → Except String β} {b : β} :
    (first >>= rest) = .ok b ↔ ∃ a, first = .ok a ∧ rest a = .ok b := by
  cases first <;> simp [bind, Except.bind]

theorem bind_eq_error {first : Except String α} {rest : α → Except String β} {message : String} :
    (first >>= rest) = .error message ↔
      first = .error message ∨ ∃ a, first = .ok a ∧ rest a = .error message := by
  cases first <;> simp [bind, Except.bind]

@[simp] theorem pure_eq_ok {a b : α} :
    (pure a : Except String α) = .ok b ↔ a = b := by
  simp [pure, Except.pure]

@[simp] theorem ok_bind (a : α) (rest : α → Except String β) :
    ((Except.ok a : Except String α) >>= rest) = rest a := rfl

@[simp] theorem error_bind (message : String) (rest : α → Except String β) :
    ((Except.error message : Except String α) >>= rest) = .error message := rfl

theorem require_eq_error {value : Option α} {message error : String} :
    require value message = .error error ↔ value = none ∧ error = message := by
  unfold require
  split <;> simp_all [eq_comm]

theorem eq_ok_of_toOption {first : Except String α} {a : α} (h : first.toOption = some a) :
    first = .ok a := by
  cases first with
  | ok b =>
      cases h
      rfl
  | error message => cases h

/-- A loop over a list whose body may throw. -/
def forEach (body : σ → α → Except String σ) : σ → List α → Except String σ
  | state, [] => .ok state
  | state, a :: rest =>
      match body state a with
      | .ok next => forEach body next rest
      | .error message => .error message

@[simp] theorem forEach_nil (body : σ → α → Except String σ) (state : σ) :
    forEach body state [] = .ok state := rfl

theorem forEach_cons_eq_ok {body : σ → α → Except String σ} {state final : σ} {a : α}
    {rest : List α} : forEach body state (a :: rest) = .ok final ↔
      ∃ next, body state a = .ok next ∧ forEach body next rest = .ok final := by
  simp only [forEach]
  cases body state a <;> simp

theorem forEach_append_eq_ok {body : σ → α → Except String σ} {state final : σ}
    {first second : List α} : forEach body state (first ++ second) = .ok final ↔
      ∃ middle, forEach body state first = .ok middle ∧
        forEach body middle second = .ok final := by
  induction first generalizing state with
  | nil => simp
  | cons a rest ih =>
      simp only [List.cons_append, forEach_cons_eq_ok, ih]
      constructor
      · rintro ⟨next, hnext, middle, hmiddle, hfinal⟩
        exact ⟨middle, ⟨next, hnext, hmiddle⟩, hfinal⟩
      · rintro ⟨middle, ⟨next, hnext, hmiddle⟩, hfinal⟩
        exact ⟨next, hnext, middle, hmiddle, hfinal⟩

/-- The loop rule: what each turn preserves, the whole loop preserves. -/
theorem forEach_invariant {body : σ → α → Except String σ} (invariant : σ → Prop)
    {items : List α}
    (hbody : ∀ state a next, a ∈ items → invariant state → body state a = .ok next →
      invariant next)
    {state final : σ} (hstate : invariant state)
    (hfinal : forEach body state items = .ok final) : invariant final := by
  induction items generalizing state with
  | nil =>
      cases hfinal
      exact hstate
  | cons a rest ih =>
      obtain ⟨next, hnext, hrest⟩ := forEach_cons_eq_ok.mp hfinal
      exact ih (fun state b next hb => hbody state b next (List.mem_cons_of_mem _ hb))
        (hbody state a next List.mem_cons_self hstate hnext) hrest

/-- A loop of turns that do not fail does not fail. -/
theorem forEach_ok {body : σ → α → Except String σ} {items : List α}
    (hbody : ∀ state, ∀ a ∈ items, ∃ next, body state a = .ok next) (state : σ) :
    ∃ final, forEach body state items = .ok final := by
  induction items generalizing state with
  | nil => exact ⟨state, rfl⟩
  | cons a rest ih =>
      obtain ⟨next, hnext⟩ := hbody state a List.mem_cons_self
      obtain ⟨final, hfinal⟩ := ih (fun state a ha => hbody state a (List.mem_cons_of_mem _ ha)) next
      exact ⟨final, forEach_cons_eq_ok.mpr ⟨next, hnext, hfinal⟩⟩

/-- A loop of checked updates completes when every check holds at its turn. -/
theorem forEach_checked {σ α : Type} {check : σ → α → Prop} [∀ state a, Decidable (check state a)]
    {message : String} {update : σ → α → σ} {state final : σ} {items : List α} :
    forEach (fun state a => do
        ensure (check state a) message
        return update state a) state items = .ok final ↔
      final = items.foldl update state ∧
        ∀ before a after, items = before ++ a :: after → check (before.foldl update state) a := by
  induction items generalizing state with
  | nil => simp [eq_comm]
  | cons item rest ih =>
      simp only [forEach_cons_eq_ok, bind_eq_ok, ensure_eq_ok, pure_eq_ok, List.foldl_cons]
      constructor
      · rintro ⟨_, ⟨_, hcheck, rfl⟩, hrest⟩
        obtain ⟨hfinal, hchecks⟩ := ih.mp hrest
        refine ⟨hfinal, ?_⟩
        intro before a after hsplit
        cases before with
        | nil =>
            obtain ⟨rfl, -⟩ := List.cons.inj hsplit
            exact hcheck
        | cons first before =>
            obtain ⟨hfirst, htail⟩ := List.cons.inj hsplit
            rw [← hfirst]
            exact hchecks before a after htail
      · rintro ⟨hfinal, hchecks⟩
        refine ⟨update state item, ⟨(), hchecks [] item rest rfl, rfl⟩, ih.mpr ⟨hfinal, ?_⟩⟩
        intro before a after hsplit
        exact hchecks (item :: before) a after (by rw [hsplit, List.cons_append])

/-- A loop that collects what it computes of each item. -/
theorem forEach_collect {ι : Type u} {compute : ι → Except String α} {items : List ι}
    {collected final : List α} :
    forEach (fun collected i => do
        let a ← compute i
        return collected ++ [a]) collected items = .ok final ↔
      ∃ as, final = collected ++ as ∧ List.Forall₂ (fun i a => compute i = .ok a) items as := by
  induction items generalizing collected with
  | nil => simp [eq_comm]
  | cons i rest ih =>
      simp only [forEach_cons_eq_ok, bind_eq_ok, pure_eq_ok, ih, List.forall₂_cons_left_iff]
      constructor
      · rintro ⟨_, ⟨a, ha, rfl⟩, as, rfl, has⟩
        exact ⟨a :: as, by simp, a, as, ha, has, rfl⟩
      · rintro ⟨_, rfl, a, as, ha, has, rfl⟩
        exact ⟨_, ⟨a, ha, rfl⟩, as, by simp, has⟩

/-- A loop that asks the state for its next item until there is none, for at most
`turns` turns. -/
def drain {ι : Type u} (next : σ → Option ι) (body : σ → ι → Except String σ) :
    (turns : Nat) → σ → Except String σ
  | 0, _ => .error "the loop does not end"
  | turns + 1, state =>
      match next state with
      | none => .ok state
      | some item => body state item >>= drain next body turns

/-- The rule of a draining loop: what each turn preserves, the whole loop preserves. -/
theorem drain_invariant {ι : Type u} {next : σ → Option ι} {body : σ → ι → Except String σ}
    (invariant : σ → Prop)
    (hbody : ∀ state item state', invariant state → next state = some item →
      body state item = .ok state' → invariant state')
    {turns : Nat} {state final : σ} (hstate : invariant state)
    (hfinal : drain next body turns state = .ok final) : invariant final := by
  induction turns generalizing state with
  | zero => cases hfinal
  | succ turns ih =>
      rw [drain] at hfinal
      split at hfinal
      · cases hfinal
        exact hstate
      · rename_i item hitem
        obtain ⟨state', hstate', hrest⟩ := bind_eq_ok.mp hfinal
        exact ih (hbody state item state' hstate hitem hstate') hrest

/-- A loop ends where there is no next item. -/
theorem drain_done {ι : Type u} {next : σ → Option ι} {body : σ → ι → Except String σ}
    {turns : Nat} {state final : σ} (h : drain next body turns state = .ok final) :
    next final = none := by
  induction turns generalizing state with
  | zero => cases h
  | succ turns ih =>
      rw [drain] at h
      split at h
      · rename_i hnone
        cases h
        exact hnone
      · obtain ⟨state', -, hrest⟩ := bind_eq_ok.mp h
        exact ih hrest

/-! ## Postconditions -/

/-- Every result of a computation satisfies `post`. -/
def Always (first : Except String α) (post : α → Prop) : Prop := ∀ a, first = .ok a → post a

namespace Always

variable {first : Except String α} {post after : α → Prop}

theorem ok {a : α} (h : post a) : Always (.ok a) post := by
  rintro _ ⟨⟩
  exact h

theorem pure {a : α} (h : post a) : Always (Pure.pure a) post := Always.ok h

theorem error (message : String) : Always (.error message) post := by
  rintro _ ⟨⟩

theorem mono (h : Always first post) (himp : ∀ a, post a → after a) : Always first after :=
  fun a ha => himp a (h a ha)

/-- What follows a computation may use its postcondition. -/
theorem bind {rest : α → Except String β} {last : β → Prop} (h : Always first post)
    (hrest : ∀ a, post a → Always (rest a) last) : Always (first >>= rest) last := by
  intro b hb
  obtain ⟨a, ha, hb⟩ := bind_eq_ok.mp hb
  exact hrest a (h a ha) b hb

/-- A computation whose result is of no interest. -/
theorem skip {rest : α → Except String β} {last : β → Prop}
    (hrest : ∀ a, Always (rest a) last) : Always (first >>= rest) last := by
  have htrue : Always first fun _ => True := fun _ _ => trivial
  exact htrue.bind fun a _ => hrest a

/-- What follows both branches of a choice, which may use its condition. -/
theorem choice {condition : Prop} [Decidable condition] {second : Except String α}
    {rest : α → Except String β} {last : β → Prop} (h : condition → Always first post)
    (hsecond : ¬ condition → Always second post) (hrest : ∀ a, post a → Always (rest a) last) :
    Always (if condition then first >>= rest else second >>= rest) last := by
  split
  · rename_i hcondition
    exact (h hcondition).bind hrest
  · rename_i hcondition
    exact (hsecond hcondition).bind hrest

/-- What follows both branches of a choice. -/
theorem branch {condition : Prop} [Decidable condition] {second : Except String α}
    {rest : α → Except String β} {last : β → Prop} (h : Always first post)
    (hsecond : Always second post) (hrest : ∀ a, post a → Always (rest a) last) :
    Always (if condition then first >>= rest else second >>= rest) last :=
  choice (fun _ => h) (fun _ => hsecond) hrest

/-- What follows an assertion may use it. -/
theorem ensure {β : Type} {condition : Prop} [Decidable condition] {message : String}
    {rest : Unit → Except String β} {last : β → Prop}
    (hrest : condition → Always (rest ()) last) :
    Always (Outcome.ensure condition message >>= rest) last := by
  intro b hb
  obtain ⟨⟨⟩, hcondition, hb⟩ := bind_eq_ok.mp hb
  exact hrest (ensure_eq_ok.mp hcondition) b hb

theorem forEach {body : σ → α → Except String σ} {state : σ} {items : List α} {invariant : σ → Prop}
    (hstate : invariant state)
    (hbody : ∀ state a, a ∈ items → invariant state → Always (body state a) invariant) :
    Always (forEach body state items) invariant := fun _ hfinal =>
  forEach_invariant invariant (fun state a next ha hstate hnext => hbody state a ha hstate next hnext)
    hstate hfinal

theorem drain {ι : Type u} {next : σ → Option ι} {body : σ → ι → Except String σ} {turns : Nat}
    {state : σ} {invariant : σ → Prop} (hstate : invariant state)
    (hbody : ∀ state item, invariant state → next state = some item →
      Always (body state item) invariant) :
    Always (drain next body turns state) invariant := fun _ hfinal =>
  drain_invariant invariant (fun state item state' hstate hitem => hbody state item hstate hitem state')
    hstate hfinal

end Always

end Outcome
