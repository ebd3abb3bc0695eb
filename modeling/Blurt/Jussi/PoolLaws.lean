import Blurt.Jussi.Pool
import Mathlib.Data.List.FinRange

/-! # Who has a holder

A holder is in the queue or with one request, as long as no request acts on a holder that it has
released, and no release finds its connection closed.
-/

namespace Blurt.Jussi

variable {n : Nat}

namespace Phase

/-- The holder that a request has. A release that found the connection closed has kept it. -/
def holder : Phase n → Option (Fin n)
  | .connecting ch | .sending ch | .receiving ch => some ch
  | .releasing ch _ .pending | .releasing ch _ (.returned false) => some ch
  | _ => none

/-- The holder that a request has with a connection. -/
def user : Phase n → Option (Fin n)
  | .sending ch | .receiving ch => some ch
  | .releasing ch _ .pending | .releasing ch _ (.returned false) => some ch
  | _ => none

end Phase

namespace Pool

variable {p q : Pool n} {r : Nat} {ch : Fin n} {own : Fin n → Option Nat}

@[simp] theorem setPhase_holders (phase : Phase n) : (p.setPhase r phase).holders = p.holders := rfl

@[simp] theorem put_holders : (p.put ch).holders = p.holders := rfl

@[simp] theorem setHolder_holders_self (holder : Holder) :
    (p.setHolder ch holder).holders ch = holder := Function.update_self ..

def Holds (p : Pool n) (r : Nat) (ch : Fin n) : Prop := (p.requests r).holder = some ch

/-- Each holder is in the queue once, or one request has it. -/
def Exclusive (p : Pool n) : Prop :=
  ∀ ch, (p.queue.count ch = 1 ∧ ∀ r, ¬ p.Holds r ch) ∨ (p.queue.count ch = 0 ∧ ∃! r, p.Holds r ch)

/-- A step by one request leaves the holders of the others alone. -/
def Undisturbed (p : Pool n) (e : Event n) (q : Pool n) : Prop :=
  ∀ r, e.request = some r → ∀ other ≠ r, ∀ ch, p.Holds other ch →
    q.holders ch = p.holders ch ∧ q.queue.count ch = p.queue.count ch

/-! ## The invariant -/

/-- Who has each holder, with what this says of its fields. -/
structure Owned (own : Fin n → Option Nat) (p : Pool n) : Prop where
  holds : ∀ r ch, p.Holds r ch ↔ own ch = some r
  queued : ∀ ch, p.queue.count ch = if own ch = none then 1 else 0
  inUse : ∀ ch, (p.holders ch).inUse = true ↔ ∃ r, (p.requests r).user = some ch
  con : ∀ ch, (p.holders ch).inUse = true → (p.holders ch).con ≠ none
  unconnected : ∀ r ch, p.requests r = .connecting ch → (p.holders ch).con = none
  returned : ∀ r ch idMatches, p.requests r ≠ .releasing ch idMatches .raised
  queries : ∀ ch, (p.holders ch).queries = 0

theorem Phase.holder_of_user {phase : Phase n} (h : phase.user = some ch) :
    phase.holder = some ch := by
  cases phase with
  | releasing ch idMatches release =>
    cases release with
    | returned freed => cases freed <;> simp_all [Phase.user, Phase.holder]
    | _ => simp_all [Phase.user, Phase.holder]
  | _ => simp_all [Phase.user, Phase.holder]

theorem Owned.exclusive (h : Owned own p) : p.Exclusive := by
  intro ch
  rw [h.queued]
  cases hown : own ch with
  | none =>
    refine .inl ⟨if_pos rfl, fun r hr => ?_⟩
    rw [h.holds, hown] at hr
    cases hr
  | some r =>
    refine .inr ⟨if_neg (by simp), r, (h.holds r ch).mpr hown, fun other hother => ?_⟩
    have hother := (h.holds other ch).mp hother
    exact Option.some.inj (hother.symm.trans hown)

theorem owned_initial (maxQueries : Nat) (con : Fin n → Option ConState) :
    Owned (fun _ => none) (initial maxQueries con) := by
  refine ⟨fun r ch => ?_, fun ch => ?_, fun ch => ?_, ?_, ?_, ?_, fun _ => rfl⟩
  · simp [Holds, initial, Phase.holder]
  · exact List.count_eq_one_of_mem (List.nodup_finRange n) (List.mem_finRange ch)
  · simp [initial, Phase.user]
  · intro ch h
    cases h
  · intro r ch h
    cases h
  · intro r ch idMatches h
    cases h

/-! ## One request and one holder -/

/-- The invariant is kept, and so are the holders of the requests other than one. -/
def Kept (r : Nat) (p q : Pool n) : Prop :=
  (∃ own, Owned own q) ∧ ∀ other ≠ r, ∀ ch, p.Holds other ch →
    q.holders ch = p.holders ch ∧ q.queue.count ch = p.queue.count ch

theorem Owned.other_not_holds (h : Owned own p) (hr : p.Holds r ch) {other : Nat}
    (hother : other ≠ r) : ¬ p.Holds other ch := by
  intro hholds
  exact hother (Option.some.inj (((h.holds _ _).mp hholds).symm.trans ((h.holds _ _).mp hr)))

/-- A request moves on with a holder that no other request has. -/
theorem Owned.update {phase : Phase n} {con : Option ConState} {inUse : Bool} (h : Owned own p)
    (keeps : Bool)
    (hothers : ∀ other ≠ r, ¬ p.Holds other ch)
    (honly : ∀ other ≠ ch, ¬ p.Holds r other)
    (hrequests : q.requests = Function.update p.requests r phase)
    (hholders : q.holders = Function.update p.holders ch ⟨con, inUse, 0⟩)
    (hqueue : ∀ other, q.queue.count other =
      if other = ch then (if keeps then 0 else 1) else p.queue.count other)
    (hholder : phase.holder = if keeps then some ch else none)
    (huser : phase.user = some ch ↔ inUse = true)
    (hcon : inUse = true → con ≠ none)
    (hunconnected : phase = .connecting ch → con = none)
    (hraised : ∀ other idMatches, phase ≠ .releasing other idMatches .raised) :
    Kept r p q := by
  have hself : q.requests r = phase := by rw [hrequests, Function.update_self]
  have hrest : ∀ other ≠ r, q.requests other = p.requests other := by
    intro other hother
    rw [hrequests, Function.update_of_ne hother]
  have hch : q.holders ch = ⟨con, inUse, 0⟩ := by rw [hholders, Function.update_self]
  have hsame : ∀ other ≠ ch, q.holders other = p.holders other := by
    intro other hother
    rw [hholders, Function.update_of_ne hother]
  refine ⟨⟨Function.update own ch (if keeps then some r else none), ?_, ?_, ?_, ?_, ?_, ?_, ?_⟩, ?_⟩
  · -- holds
    intro other c
    by_cases hother : other = r
    · subst hother
      rw [Holds, hself, hholder]
      by_cases hc : c = ch
      · subst hc
        cases keeps <;> simp
      · have hnot := honly c hc
        rw [h.holds] at hnot
        cases keeps <;> simp [Function.update_of_ne hc, hnot, Ne.symm hc]
    · rw [Holds, hrest other hother]
      by_cases hc : c = ch
      · subst hc
        have hnot : (p.requests other).holder ≠ some c := hothers other hother
        cases keeps <;> simp [hnot, Ne.symm hother]
      · rw [Function.update_of_ne hc]
        exact h.holds other c
  · -- queued
    intro c
    rw [hqueue]
    by_cases hc : c = ch
    · subst hc
      cases keeps <;> simp
    · rw [if_neg hc, h.queued, Function.update_of_ne hc]
  · -- inUse
    intro c
    by_cases hc : c = ch
    · subst hc
      rw [hch]
      constructor
      · intro huse
        exact ⟨r, by rw [hself]; exact huser.mpr huse⟩
      · rintro ⟨other, hother⟩
        by_cases hr : other = r
        · subst hr
          rw [hself] at hother
          exact huser.mp hother
        · rw [hrest other hr] at hother
          exact absurd (Phase.holder_of_user hother) (hothers other hr)
    · rw [hsame c hc, h.inUse]
      constructor
      · rintro ⟨other, hother⟩
        by_cases hr : other = r
        · subst hr
          exact absurd (Phase.holder_of_user hother) (honly c hc)
        · exact ⟨other, by rw [hrest other hr]; exact hother⟩
      · rintro ⟨other, hother⟩
        by_cases hr : other = r
        · subst hr
          rw [hself] at hother
          have hboth := Phase.holder_of_user hother
          rw [hholder] at hboth
          cases keeps with
          | true => exact absurd (Option.some.inj hboth).symm hc
          | false => cases hboth
        · exact ⟨other, by rw [← hrest other hr]; exact hother⟩
  · -- con
    intro c
    by_cases hc : c = ch
    · subst hc
      rw [hch]
      exact hcon
    · rw [hsame c hc]
      exact h.con c
  · -- unconnected
    intro other c hother
    by_cases hr : other = r
    · subst hr
      rw [hself] at hother
      subst hother
      have hc : c = ch := by
        cases keeps with
        | true => exact Option.some.inj hholder
        | false => cases hholder
      subst hc
      rw [hch]
      exact hunconnected rfl
    · rw [hrest other hr] at hother
      have hc : c ≠ ch := by
        rintro rfl
        exact hothers other hr (by rw [Holds, hother]; rfl)
      rw [hsame c hc]
      exact h.unconnected other c hother
  · -- returned
    intro other c idMatches hother
    by_cases hr : other = r
    · subst hr
      exact hraised c idMatches (hself.symm.trans hother)
    · exact h.returned other c idMatches ((hrest other hr).symm.trans hother)
  · -- queries
    intro c
    by_cases hc : c = ch
    · subst hc
      rw [hch]
    · rw [hsame c hc]
      exact h.queries c
  · -- the others
    intro other hother c hholds
    have hc : c ≠ ch := by
      rintro rfl
      exact hothers other hother hholds
    exact ⟨hsame c hc, (hqueue c).trans (if_neg hc)⟩

/-- A request moves on with what it has. -/
theorem Owned.setPhase {phase : Phase n} (h : Owned own p)
    (hholder : phase.holder = (p.requests r).holder) (huser : phase.user = (p.requests r).user)
    (hunconnected : ∀ ch, phase ≠ .connecting ch)
    (hraised : ∀ ch idMatches, phase ≠ .releasing ch idMatches .raised) :
    Kept r p (p.setPhase r phase) := by
  have hself : (p.setPhase r phase).requests r = phase := Function.update_self ..
  have hrest : ∀ other ≠ r, (p.setPhase r phase).requests other = p.requests other :=
    fun other hother => Function.update_of_ne hother ..
  have hholders : ∀ other, ((p.setPhase r phase).requests other).holder =
      (p.requests other).holder := by
    intro other
    by_cases hother : other = r
    · rw [hother, hself, hholder]
    · rw [hrest other hother]
  have husers : ∀ other, ((p.setPhase r phase).requests other).user = (p.requests other).user := by
    intro other
    by_cases hother : other = r
    · rw [hother, hself, huser]
    · rw [hrest other hother]
  refine ⟨⟨own, ?_, h.queued, ?_, h.con, ?_, ?_, h.queries⟩, fun _ _ _ _ => ⟨rfl, rfl⟩⟩
  · intro other ch
    rw [Holds, hholders]
    exact h.holds other ch
  · intro ch
    simp only [husers]
    exact h.inUse ch
  · intro other ch hother
    by_cases hr : other = r
    · subst hr
      exact absurd (hself.symm.trans hother) (hunconnected ch)
    · exact h.unconnected other ch ((hrest other hr).symm.trans hother)
  · intro other ch idMatches hother
    by_cases hr : other = r
    · subst hr
      exact hraised ch idMatches (hself.symm.trans hother)
    · exact h.returned other ch idMatches ((hrest other hr).symm.trans hother)

theorem only_of_holds (hr : p.Holds r ch) : ∀ other ≠ ch, ¬ p.Holds r other := by
  intro other hother hholds
  exact hother (Option.some.inj (hholds.symm.trans hr))

theorem Owned.own_of_mem_queue (h : Owned own p) (hch : ch ∈ p.queue) : own ch = none := by
  by_contra hown
  have hcount := h.queued ch
  rw [if_neg hown] at hcount
  exact List.count_eq_zero.mp hcount hch

/-- A holder in the queue is nobody's. -/
theorem Owned.not_holds_of_mem_queue (h : Owned own p) (hch : ch ∈ p.queue) (other : Nat) :
    ¬ p.Holds other ch := by
  rw [h.holds, h.own_of_mem_queue hch]
  exact Option.some_ne_none _ |>.symm

theorem Owned.not_inUse_of_mem_queue (h : Owned own p) (hch : ch ∈ p.queue) :
    (p.holders ch).inUse = false := by
  rw [Bool.eq_false_iff]
  intro huse
  obtain ⟨r, hr⟩ := (h.inUse ch).mp huse
  exact h.not_holds_of_mem_queue hch r (Phase.holder_of_user hr)

theorem Owned.count_of_holds (h : Owned own p) (hr : p.Holds r ch) : p.queue.count ch = 0 := by
  rw [h.queued, (h.holds r ch).mp hr]
  rfl

theorem count_put (queue : List (Fin n)) (hqueue : queue.count ch = 0) (other : Fin n) :
    (queue ++ [ch]).count other =
      if other = ch then (if false = true then 0 else 1) else queue.count other := by
  rw [List.count_append, List.count_singleton]
  by_cases hother : other = ch
  · subst hother
    simp [hqueue]
  · simp [hother, Ne.symm hother]

theorem holder_eq_of_queries {holder : Holder} (h : holder.queries = 0) :
    holder = ⟨holder.con, holder.inUse, 0⟩ := by
  cases holder
  cases h
  rfl

/-! ## The steps -/

/-- A request gives up a holder that has a connection. -/
theorem Owned.fail (h : Owned own p) (hr : (p.requests r).user = some ch) (left : Option (Fin n)) :
    Kept r p (p.fail r ch left) := by
  have hholds : p.Holds r ch := Phase.holder_of_user hr
  have huse : (p.holders ch).inUse = true := (h.inUse ch).mpr ⟨r, hr⟩
  have hterminate : p.terminate ch =
      ((p.setHolder ch ⟨none, false, 0⟩).put ch) := by
    unfold terminate free
    rw [if_neg (h.con ch huse), if_pos huse]
    simp [setHolder, put, h.queries]
  rw [Pool.fail, hterminate]
  exact h.update false (fun other => h.other_not_holds hholds) (only_of_holds hholds) rfl rfl
    (count_put _ (h.count_of_holds hholds)) rfl (by simp [Phase.user]) (by simp) (by simp) (by simp)

/-- A request terminates a holder that it has released, and that is in the queue. -/
theorem Owned.fail_of_mem_queue (h : Owned own p) (hr : (p.requests r).holder = none)
    (hch : ch ∈ p.queue) : Kept r p (p.fail r ch none) := by
  have huser : (p.requests r).user = none := by
    cases hu : (p.requests r).user with
    | none => rfl
    | some c => rw [Phase.holder_of_user hu] at hr; cases hr
  by_cases hcon : (p.holders ch).con = none
  · have hterminate : p.terminate ch = p := if_pos hcon
    rw [Pool.fail, hterminate]
    exact h.setPhase hr.symm huser.symm (by simp) (by simp)
  · have hterminate : p.terminate ch = p.setHolder ch ⟨none, false, 0⟩ := by
      have huse := h.not_inUse_of_mem_queue hch
      unfold terminate free
      rw [if_neg hcon, huse, if_neg Bool.false_ne_true]
      rw [holder_eq_of_queries (h.queries ch), huse]
    rw [Pool.fail, hterminate]
    refine h.update false (fun other _ => h.not_holds_of_mem_queue hch other)
      (fun other _ => by simp [Holds, hr]) rfl rfl ?_ rfl (by simp [Phase.user]) (by simp)
      (by simp) (by simp)
    intro other
    by_cases hother : other = ch
    · subst hother
      rw [if_pos rfl]
      exact (h.queued other).trans (if_pos (h.own_of_mem_queue hch))
    · exact (if_neg hother).symm

/-- A request whose connection could not be made puts the holder back. -/
theorem Owned.putBack (h : Owned own p) (hr : p.requests r = .connecting ch) :
    Kept r p ((p.put ch).setPhase r (.finished none)) := by
  have hholds : p.Holds r ch := by rw [Holds, hr]; rfl
  have huse : (p.holders ch).inUse = false := by
    rw [Bool.eq_false_iff]
    intro huse
    obtain ⟨other, hother⟩ := (h.inUse ch).mp huse
    by_cases hsame : other = r
    · rw [hsame, hr] at hother
      cases hother
    · exact h.other_not_holds hholds hsame (Phase.holder_of_user hother)
  have hholder : p.holders ch = ⟨none, false, 0⟩ := by
    rw [holder_eq_of_queries (h.queries ch), h.unconnected r ch hr, huse]
  have hholders : p.holders = Function.update p.holders ch ⟨none, false, 0⟩ := by
    rw [← hholder, Function.update_eq_self]
  exact h.update false (fun other => h.other_not_holds hholds) (only_of_holds hholds) rfl hholders
    (count_put _ (h.count_of_holds hholds)) rfl (by simp [Phase.user]) (by simp) (by simp)
    (by simp)

/-- A request takes the holder on top of the queue. -/
theorem Owned.acquire (h : Owned own p) (hr : p.requests r = .waiting)
    (hch : p.queue.getLast? = some ch) :
    Kept r p ({ p with queue := p.queue.dropLast }.acquire r ch) := by
  have hsplit : p.queue = p.queue.dropLast ++ [ch] := by
    obtain ⟨init, hinit⟩ := List.getLast?_eq_some_iff.mp hch
    rw [hinit, List.dropLast_concat]
  have hmem : ch ∈ p.queue := List.mem_of_getLast? hch
  have hcount : ∀ other, p.queue.dropLast.count other =
      if other = ch then (if true = true then 0 else 1) else p.queue.count other := by
    intro other
    have htotal := congrArg (List.count other) hsplit
    rw [List.count_append, List.count_singleton] at htotal
    by_cases hother : other = ch
    · subst hother
      have hone := (h.queued other).trans (if_pos (h.own_of_mem_queue hmem))
      simp at htotal ⊢
      omega
    · simp [Ne.symm hother] at htotal
      simp [hother, htotal]
  have hnone : ∀ other ≠ ch, ¬ p.Holds r other := by
    intro other _
    simp [Holds, hr, Phase.holder]
  have hothers : ∀ other ≠ r, ¬ p.Holds other ch :=
    fun other _ => h.not_holds_of_mem_queue hmem other
  unfold Pool.acquire
  split
  · rename_i hopened
    have hopened : (p.holders ch).con = some .opened := hopened
    have hholder : { p.holders ch with inUse := true } = (⟨some .opened, true, 0⟩ : Holder) := by
      dsimp only
      rw [hopened, h.queries]
    exact h.update true hothers hnone rfl (congrArg (Function.update p.holders ch) hholder) hcount
      rfl (by simp [Phase.user]) (by simp) (by simp) (by simp)
  · have hholder : { p.holders ch with con := none } = (⟨none, false, 0⟩ : Holder) := by
      dsimp only
      rw [h.not_inUse_of_mem_queue hmem, h.queries]
    exact h.update true hothers hnone rfl (congrArg (Function.update p.holders ch) hholder) hcount
      rfl (by simp [Phase.user]) (by simp) (by simp) (by simp)

/-- A new connection is there. -/
theorem Owned.connected (h : Owned own p) (hr : p.requests r = .connecting ch) :
    Kept r p ((p.setHolder ch { p.holders ch with con := some .opened, inUse := true }).setPhase r
      (.sending ch)) := by
  have hholds : p.Holds r ch := by rw [Holds, hr]; rfl
  have hholder : { p.holders ch with con := some .opened, inUse := true } =
      (⟨some .opened, true, 0⟩ : Holder) := by
    dsimp only
    rw [h.queries]
  refine h.update true (fun other => h.other_not_holds hholds) (only_of_holds hholds) rfl
    (congrArg (Function.update p.holders ch) hholder) ?_ rfl (by simp [Phase.user]) (by simp)
    (by simp) (by simp)
  intro other
  by_cases hother : other = ch
  · subst hother
    exact (h.count_of_holds hholds).trans (by simp)
  · exact (if_neg hother).symm

/-- A request's own release keeps the holder of a closed connection, and frees it otherwise. -/
theorem Owned.release (h : Owned own p) {idMatches : Bool}
    (hr : p.requests r = .releasing ch idMatches .pending) :
    Kept r p ((p.release ch).1.setPhase r (.releasing ch idMatches (p.release ch).2)) := by
  have huser : (p.requests r).user = some ch := by rw [hr]; rfl
  have hholds : p.Holds r ch := Phase.holder_of_user huser
  have huse : (p.holders ch).inUse = true := (h.inUse ch).mpr ⟨r, huser⟩
  have hqueries : ¬ (p.maxQueries ≠ 0 ∧ p.maxQueries ≤ (p.holders ch).queries) := by
    rw [h.queries]
    omega
  have hfreed : ∀ state, (p.holders ch).con = some state → p.release ch = (p.free ch, .returned true) →
      Kept r p ((p.release ch).1.setPhase r (.releasing ch idMatches (p.release ch).2)) := by
    intro state hstate hrelease
    have hfree : p.free ch = (p.setHolder ch ⟨some state, false, 0⟩).put ch := by
      rw [free, if_pos huse]
      dsimp only
      rw [hstate, h.queries]
    rw [hrelease, hfree]
    exact h.update false (fun other => h.other_not_holds hholds) (only_of_holds hholds) rfl rfl
      (count_put _ (h.count_of_holds hholds)) rfl (by simp [Phase.user]) (by simp) (by simp)
      (by simp)
  cases hcon : (p.holders ch).con with
  | none => exact absurd hcon (h.con ch huse)
  | some state =>
    cases state with
    | closed =>
      have hrelease : p.release ch = (p, .returned false) := by
        simp [Pool.release, huse, hcon]
      rw [hrelease]
      exact h.setPhase (by rw [hr]; rfl) (by rw [hr]; rfl) (by simp) (by simp)
    | opened =>
      exact hfreed _ hcon (by
        rw [Pool.release, huse, if_neg (by simp), hcon]
        exact if_neg hqueries)
    | closing =>
      exact hfreed _ hcon (by
        rw [Pool.release, huse, if_neg (by simp), hcon]
        exact if_neg hqueries)

/-- A release of a holder that is not in use, or whose connection is closed, does nothing. -/
theorem release_fst_of_idle (hidle : (p.holders ch).inUse = false ∨
    (p.holders ch).con = some .closed) : (p.release ch).1 = p := by
  unfold Pool.release
  split
  · rfl
  · rename_i huse
    rw [hidle.resolve_left huse]

/-- The upstream closes a connection. -/
theorem Owned.upstream (h : Owned own p) (state : ConState) (hcon : (p.holders ch).con ≠ none) :
    Owned own (p.setHolder ch { p.holders ch with con := some state }) := by
  have hch : (p.setHolder ch { p.holders ch with con := some state }).holders ch =
      { p.holders ch with con := some state } := Function.update_self ..
  have hsame : ∀ other ≠ ch, (p.setHolder ch { p.holders ch with con := some state }).holders other =
      p.holders other := fun other hother => Function.update_of_ne hother ..
  refine ⟨h.holds, h.queued, ?_, ?_, ?_, h.returned, ?_⟩
  · intro c
    by_cases hc : c = ch
    · subst hc
      rw [hch]
      exact h.inUse c
    · rw [hsame c hc]
      exact h.inUse c
  · intro c
    by_cases hc : c = ch
    · subst hc
      rw [hch]
      simp
    · rw [hsame c hc]
      exact h.con c
  · intro r c hr
    by_cases hc : c = ch
    · subst hc
      exact absurd (h.unconnected r c hr) hcon
    · rw [hsame c hc]
      exact h.unconnected r c hr
  · intro c
    by_cases hc : c = ch
    · subst hc
      rw [hch]
      exact h.queries c
    · rw [hsame c hc]
      exact h.queries c

/-! ## Runs -/

/-- A step acts on no holder that its request has released, unless that is idle or back in the queue,
and a request does not end well after a release that found its connection closed. -/
def Meets (p : Pool n) : Event n → Prop
  | .runRelease r => ∀ ch, p.requests r = .finished (some ch) →
      (p.holders ch).inUse = false ∨ (p.holders ch).con = some .closed
  | .resume r => (∀ ch, p.requests r ≠ .releasing ch true (.returned false)) ∧
      ∀ ch, p.requests r = .releasing ch false (.returned true) →
        ch ∈ p.queue ∨ (p.holders ch).con = none
  | .cancel r => ∀ ch idMatches, p.requests r = .releasing ch idMatches (.returned true) →
      ch ∈ p.queue ∨ (p.holders ch).con = none
  | _ => True

/-- What a step keeps: the invariant, and the holders of others. -/
def StepKept (p : Pool n) (e : Event n) (q : Pool n) : Prop :=
  (∃ own, Owned own q) ∧ p.Undisturbed e q

theorem Kept.stepKept {e : Event n} (h : Kept r p q) (he : e.request = some r) :
    p.StepKept e q := by
  refine ⟨h.1, fun other hother => ?_⟩
  obtain rfl := Option.some.inj (he.symm.trans hother)
  exact h.2

theorem terminate_of_con_none (hcon : (p.holders ch).con = none) : p.terminate ch = p := if_pos hcon

/-- A request that has released its holder ends with an error. -/
theorem Owned.fail_after_release (h : Owned own p) {idMatches : Bool}
    (hr : p.requests r = .releasing ch idMatches (.returned true))
    (hch : ch ∈ p.queue ∨ (p.holders ch).con = none) : Kept r p (p.fail r ch none) := by
  rcases hch with hch | hcon
  · exact h.fail_of_mem_queue (by rw [hr]; rfl) hch
  · rw [Pool.fail, terminate_of_con_none hcon]
    exact h.setPhase (by rw [hr]; rfl) (by rw [hr]; rfl) (by simp) (by simp)

theorem Owned.step (h : Owned own p) {e : Event n} (hmeets : p.Meets e) (hstep : p.step e = some q) :
    p.StepKept e q := by
  cases e with
  | begin r =>
    simp only [Pool.step] at hstep
    split at hstep
    · rename_i hr
      cases hstep
      exact (h.setPhase (by rw [hr]; rfl) (by rw [hr]; rfl) (by simp) (by simp)).stepKept rfl
    · cases hstep
  | take r =>
    simp only [Pool.step] at hstep
    split at hstep
    · rename_i hr hch
      cases hstep
      exact (h.acquire hr hch).stepKept rfl
    · cases hstep
  | connected r =>
    simp only [Pool.step] at hstep
    split at hstep
    · rename_i hr
      cases hstep
      exact (h.connected hr).stepKept rfl
    · cases hstep
  | connectFailed r =>
    simp only [Pool.step] at hstep
    split at hstep
    · rename_i hr
      cases hstep
      exact (h.putBack hr).stepKept rfl
    · cases hstep
  | sent r =>
    simp only [Pool.step] at hstep
    split at hstep
    · rename_i hr
      cases hstep
      exact (h.setPhase (by rw [hr]; rfl) (by rw [hr]; rfl) (by simp) (by simp)).stepKept rfl
    · cases hstep
  | received r idMatches =>
    simp only [Pool.step] at hstep
    split at hstep
    · rename_i hr
      cases hstep
      exact (h.setPhase (by rw [hr]; rfl) (by rw [hr]; rfl) (by simp) (by simp)).stepKept rfl
    · cases hstep
  | fail r =>
    simp only [Pool.step] at hstep
    split at hstep
    · rename_i hr
      cases hstep
      exact (h.fail (by rw [hr]; rfl) none).stepKept rfl
    · rename_i hr
      cases hstep
      exact (h.fail (by rw [hr]; rfl) none).stepKept rfl
    · cases hstep
  | runRelease r =>
    simp only [Pool.step] at hstep
    split at hstep
    · rename_i hr
      cases hstep
      exact (h.release hr).stepKept rfl
    · rename_i hr
      cases hstep
      rw [release_fst_of_idle (hmeets _ hr)]
      exact (h.setPhase (by rw [hr]; rfl) (by rw [hr]; rfl) (by simp) (by simp)).stepKept rfl
    · cases hstep
  | resume r =>
    simp only [Pool.step] at hstep
    split at hstep
    · rename_i ch freed hr
      cases hstep
      cases freed with
      | true =>
        exact (h.setPhase (by rw [hr]; rfl) (by rw [hr]; rfl) (by simp) (by simp)).stepKept rfl
      | false => exact absurd hr (hmeets.1 ch)
    · rename_i ch freed hr
      cases hstep
      cases freed with
      | true => exact (h.fail_after_release hr (hmeets.2 ch hr)).stepKept rfl
      | false => exact (h.fail (by rw [hr]; rfl) none).stepKept rfl
    · rename_i hr
      exact absurd hr (h.returned _ _ _)
    · cases hstep
  | cancel r =>
    simp only [Pool.step] at hstep
    split at hstep
    · rename_i hr
      cases hstep
      exact (h.setPhase (by rw [hr]; rfl) (by rw [hr]; rfl) (by simp) (by simp)).stepKept rfl
    · rename_i hr
      cases hstep
      exact (h.putBack hr).stepKept rfl
    · rename_i hr
      cases hstep
      exact (h.fail (by rw [hr]; rfl) none).stepKept rfl
    · rename_i hr
      cases hstep
      exact (h.fail (by rw [hr]; rfl) none).stepKept rfl
    · rename_i hr
      cases hstep
      exact (h.fail (by rw [hr]; rfl) _).stepKept rfl
    · rename_i ch idMatches release hpending hr
      cases hstep
      cases release with
      | pending => exact (hpending rfl).elim
      | raised => exact absurd hr (h.returned _ _ _)
      | returned freed =>
        cases freed with
        | true => exact (h.fail_after_release hr (hmeets ch idMatches hr)).stepKept rfl
        | false => exact (h.fail (by rw [hr]; rfl) none).stepKept rfl
    · cases hstep
  | upstream ch state =>
    simp only [Pool.step] at hstep
    split at hstep
    · cases hstep
    · rename_i hcon
      cases hstep
      refine ⟨⟨own, h.upstream state fun hnone => hcon (.inl hnone)⟩, fun r hr => ?_⟩
      cases hr

/-- A holder outside the queue is some request's. -/
theorem Owned.exists_holds (h : Owned own p) (hch : ch ∉ p.queue) : ∃ other, p.Holds other ch := by
  cases hown : own ch with
  | none =>
    have hcount := (h.queued ch).trans (if_pos hown)
    rw [List.count_eq_zero.mpr hch] at hcount
    cases hcount
  | some other => exact ⟨other, (h.holds other ch).mpr hown⟩

theorem fail_con (hcon : (p.holders ch).con ≠ none) (left : Option (Fin n)) :
    ((p.fail r ch left).holders ch).con = none := by
  rw [Pool.fail, terminate, if_neg hcon]
  simp [setPhase, setHolder]

/-- Terminating a connection that another request has disturbs it. -/
theorem Owned.not_undisturbed_fail (h : Owned own p) {e : Event n} (he : e.request = some r)
    (hr : ¬ p.Holds r ch) (hch : ch ∉ p.queue) (hcon : (p.holders ch).con ≠ none)
    (left : Option (Fin n)) : ¬ p.Undisturbed e (p.fail r ch left) := by
  intro hkept
  obtain ⟨other, hother⟩ := h.exists_holds hch
  have hne : other ≠ r := by
    rintro rfl
    exact hr hother
  have hsame := (hkept r he other hne ch hother).1
  exact hcon (by rw [← hsame, fail_con hcon])

/-- A step that does not meet the condition loses a holder or disturbs another request. -/
theorem Owned.meets_of_step (h : Owned own p) {e : Event n} (hstep : p.step e = some q)
    (hexclusive : q.Exclusive) (hkept : p.Undisturbed e q) : p.Meets e := by
  cases e with
  | runRelease r =>
    intro ch hr
    simp only [Pool.step, hr, Option.some.injEq] at hstep
    subst hstep
    by_contra hboth
    push Not at hboth
    obtain ⟨huse, hclosed⟩ := hboth
    have huse : (p.holders ch).inUse = true := by simpa using huse
    obtain ⟨other, hother⟩ := (h.inUse ch).mp huse
    have hne : other ≠ r := by
      rintro rfl
      rw [hr] at hother
      cases hother
    have hsame := (hkept r rfl other hne ch (Phase.holder_of_user hother)).1
    have hfree : (p.release ch).1 = p.free ch := by
      have hqueries : ¬ (p.maxQueries ≠ 0 ∧ p.maxQueries ≤ (p.holders ch).queries) := by
        rw [h.queries]
        omega
      unfold Pool.release
      rw [huse, if_neg (by simp)]
      split
      · rename_i hnone
        exact absurd hnone (h.con ch huse)
      · rename_i hclosed'
        exact absurd hclosed' hclosed
      · rw [if_neg hqueries]
    rw [hfree, free, if_pos huse] at hsame
    have huse' := congrArg Holder.inUse hsame
    simp [huse] at huse'
  | resume r =>
    refine ⟨fun ch hr => ?_, fun ch hr => ?_⟩
    · simp only [Pool.step, hr, Option.some.injEq] at hstep
      subst hstep
      -- nobody has the holder any more
      have hholds : p.Holds r ch := by rw [Holds, hr]; rfl
      rcases hexclusive ch with ⟨hcount, -⟩ | ⟨-, other, hother, -⟩
      · have hzero : (p.setPhase r (.finished none)).queue.count ch = 0 := h.count_of_holds hholds
        rw [hzero] at hcount
        cases hcount
      · by_cases hsame : other = r
        · subst hsame
          have hnone : (p.setPhase other (.finished none)).requests other = .finished none :=
            Function.update_self ..
          rw [Holds, hnone] at hother
          cases hother
        · have hphase : (p.setPhase r (.finished none)).requests other = p.requests other :=
            Function.update_of_ne hsame ..
          rw [Holds, hphase] at hother
          exact h.other_not_holds hholds hsame hother
    · simp only [Pool.step, hr, Option.some.injEq] at hstep
      subst hstep
      by_contra hboth
      push Not at hboth
      exact h.not_undisturbed_fail rfl (by rw [Holds, hr]; simp [Phase.holder]) hboth.1 hboth.2 none
        hkept
  | cancel r =>
    intro ch idMatches hr
    simp only [Pool.step, hr, Option.some.injEq] at hstep
    subst hstep
    by_contra hboth
    push Not at hboth
    exact h.not_undisturbed_fail rfl (by rw [Holds, hr]; simp [Phase.holder]) hboth.1 hboth.2 none
      hkept
  | _ => trivial

/-- Each holder is in the queue or with one request, and in the queue once no request is live. -/
structure Sound (p : Pool n) : Prop where
  exclusive : p.Exclusive
  returned : (∀ r, p.requests r = .absent ∨ ∃ left, p.requests r = .finished left) →
    ∀ ch, p.queue.count ch = 1

/-- A run through sound states, whose steps leave the holders of other requests alone. -/
def SafeRun (p : Pool n) : List (Event n) → Prop
  | [] => p.Sound
  | e :: events => p.Sound ∧ ∀ q, p.step e = some q → p.Undisturbed e q ∧ q.SafeRun events

/-- A run all of whose steps meet the condition. -/
def MeetsRun (p : Pool n) : List (Event n) → Prop
  | [] => True
  | e :: events => ∀ q, p.step e = some q → p.Meets e ∧ q.MeetsRun events

/-- The state after a run. -/
def run (p : Pool n) : List (Event n) → Option (Pool n)
  | [] => some p
  | e :: events => (p.step e).bind fun q => q.run events

theorem SafeRun.sound {events : List (Event n)} (h : p.SafeRun events)
    (hrun : p.run events = some q) : q.Sound := by
  induction events generalizing p with
  | nil =>
    cases hrun
    exact h
  | cons e events ih =>
    obtain ⟨next, hstep, hrest⟩ := Option.bind_eq_some_iff.mp hrun
    exact ih (h.2 next hstep).2 hrest

theorem Owned.sound (h : Owned own p) : p.Sound := by
  refine ⟨h.exclusive, fun hdone ch => ?_⟩
  rcases h.exclusive ch with ⟨hcount, -⟩ | ⟨-, r, hr, -⟩
  · exact hcount
  · have hr : (p.requests r).holder = some ch := hr
    rcases hdone r with hphase | ⟨left, hphase⟩ <;> rw [hphase] at hr <;> cases hr

theorem Owned.safeRun_iff (h : Owned own p) (events : List (Event n)) :
    p.SafeRun events ↔ p.MeetsRun events := by
  induction events generalizing p own with
  | nil => exact iff_of_true h.sound trivial
  | cons e events ih =>
    constructor
    · intro hsafe q hstep
      obtain ⟨hkept, hrest⟩ := hsafe.2 q hstep
      have hsound : q.Sound := by
        cases events with
        | nil => exact hrest
        | cons _ _ => exact hrest.1
      have hmeets := h.meets_of_step hstep hsound.exclusive hkept
      obtain ⟨⟨own', h'⟩, -⟩ := h.step hmeets hstep
      exact ⟨hmeets, (ih h').mp hrest⟩
    · intro hmeets
      refine ⟨h.sound, fun q hstep => ?_⟩
      obtain ⟨hcond, hrest⟩ := hmeets q hstep
      obtain ⟨⟨own', h'⟩, hkept⟩ := h.step hcond hstep
      exact ⟨hkept, (ih h').mpr hrest⟩

/-- The pool loses and shares no holder in exactly the runs whose steps meet the condition. -/
theorem safeRun_initial_iff (maxQueries : Nat) (con : Fin n → Option ConState)
    (events : List (Event n)) :
    (initial maxQueries con).SafeRun events ↔ (initial maxQueries con).MeetsRun events :=
  (owned_initial maxQueries con).safeRun_iff events

end Pool

end Blurt.Jussi

namespace Blurt.Sample

open Jussi Pool

/-- A request is answered, the upstream closes the connection, and the request releases it. -/
def closedAfterAnswer : List (Event 1) :=
  [.begin 0, .take 0, .connected 0, .sent 0, .received 0 true, .upstream 0 .closed, .runRelease 0,
    .resume 0]

/-- The one holder is lost, with the request finished. -/
theorem closedAfterAnswer_loses : ¬ (initial 0 fun _ : Fin 1 => none).SafeRun closedAfterAnswer := by
  intro hsafe
  have hrun : ∃ q, (initial 0 fun _ : Fin 1 => none).run closedAfterAnswer = some q ∧
      q.queue = [] ∧ q.requests 0 = .finished none ∧ ∀ r, q.requests (r + 1) = .absent :=
    ⟨_, rfl, rfl, rfl, fun _ => rfl⟩
  obtain ⟨q, hrun, hqueue, hfirst, hrest⟩ := hrun
  have hdone : ∀ r, q.requests r = .absent ∨ ∃ left, q.requests r = .finished left := by
    intro r
    cases r with
    | zero => exact .inr ⟨none, hfirst⟩
    | succ r => exact .inl (hrest r)
  have hcount := (hsafe.sound hrun).returned hdone 0
  rw [hqueue] at hcount
  cases hcount

/-- An answer with another id comes in, and another request takes the holder before the first request
goes on and terminates it. -/
def wrongAnswer : List (Event 1) :=
  [.begin 0, .begin 1, .take 0, .connected 0, .sent 0, .received 0 false, .runRelease 0, .take 1,
    .resume 0]

example : ((initial 0 fun _ : Fin 1 => none).run wrongAnswer).map
    (fun p => (p.queue, p.requests 1)) = some ([0], .sending 0) := by decide

end Blurt.Sample
