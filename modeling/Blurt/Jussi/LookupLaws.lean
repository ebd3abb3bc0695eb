import Blurt.Jussi.CacheGroup

/-! # Looking up one request and many

A batch takes, for each key, the first answer that Python calls true. A single lookup takes the first
answer that is not `None`. They agree where the two are the same.
-/

namespace Blurt.Jussi

open Json

namespace CacheGroup

/-! ## The lookup of many keys -/

/-- Filling in the answers for the missing results, key by key. -/
theorem fill_map {α : Type} (xs : List α) (result answer : α → Json) :
    fill (xs.map result) ((xs.filter fun x => !(result x).truthy).map answer) =
      xs.map fun x => if (result x).truthy then result x else answer x := by
  induction xs with
  | nil => rfl
  | cons x xs ih =>
    cases htruthy : (result x).truthy with
    | true =>
      have hfilter : (x :: xs).filter (fun x => !(result x).truthy) =
          xs.filter fun x => !(result x).truthy := List.filter_cons_of_neg (by simp [htruthy])
      rw [hfilter, List.map_cons, List.map_cons, htruthy, if_pos rfl, fill.eq_def]
      simp only [htruthy, if_true, ih]
    | false =>
      have hfilter : (x :: xs).filter (fun x => !(result x).truthy) =
          x :: xs.filter fun x => !(result x).truthy := List.filter_cons_of_pos (by simp [htruthy])
      rw [hfilter, List.map_cons, List.map_cons, List.map_cons, htruthy,
        if_neg Bool.false_ne_true, fill.eq_def]
      simp only [htruthy, Bool.false_eq_true, if_false, ih]

/-- The result for a key after asking the caches. -/
def lookupFrom (key : Text) : List (Text → Json) → Json → Json
  | [], result => result
  | cache :: caches, result =>
    lookupFrom key caches (if result.truthy then result else cache key)

theorem lookupFrom_of_truthy {key : Text} {result : Json} (h : result.truthy = true)
    (caches : List (Text → Json)) : lookupFrom key caches result = result := by
  induction caches with
  | nil => rfl
  | cons cache caches ih => rw [lookupFrom, if_pos h, ih]

theorem map_lookupFrom_of_all {keys : List Text} {result : Text → Json}
    (h : (keys.map result).all Json.truthy = true) (caches : List (Text → Json)) :
    keys.map (fun key => lookupFrom key caches (result key)) = keys.map result := by
  apply List.map_congr_left
  intro key hkey
  exact lookupFrom_of_truthy (List.all_eq_true.mp h _ (List.mem_map_of_mem hkey)) caches

theorem missing_eq (keys : List Text) (result : Text → Json) :
    ((keys.zip (keys.map result)).filter fun entry => !entry.2.truthy).map Prod.fst =
      keys.filter fun key => !(result key).truthy := by
  induction keys with
  | nil => rfl
  | cons key keys ih =>
    rw [List.map_cons, List.zip_cons_cons, List.filter_cons, List.filter_cons]
    split <;> simp [ih]

theorem mgetFrom_eq (keys : List Text) (caches : List (Text → Json)) (result : Text → Json) :
    mgetFrom keys caches (keys.map result) =
      keys.map fun key => lookupFrom key caches (result key) := by
  induction caches generalizing result with
  | nil => rfl
  | cons cache caches ih =>
    simp only [mgetFrom, lookupFrom]
    rw [missing_eq, fill_map]
    split
    · rename_i hall
      exact (map_lookupFrom_of_all hall caches).symm
    · exact ih _

/-- What the memory and then the caches answer. -/
def answers (group : CacheGroup) (key : Text) : List Json :=
  group.memory key :: group.readCaches.map fun cache => cache key

variable (group : CacheGroup)

theorem mget_eq (keys : List Text) :
    group.mget keys = keys.map fun key => lookupFrom key group.readCaches (group.memory key) := by
  have hmemory : fill (keys.map fun _ => .null) (keys.map group.memory) =
      keys.map group.memory := by
    have h := fill_map keys (fun _ => .null) group.memory
    simpa [truthy] using h
  simp only [mget, hmemory]
  split
  · rename_i hall
    exact (map_lookupFrom_of_all hall _).symm
  · exact mgetFrom_eq _ _ _

/-! ## One position -/

section

variable {dumps pyStr : Json → Text} {request : JSONRPCRequest dumps pyStr}

theorem mergeCachedResponse_of_not_truthy {cached : Json} (h : cached.truthy = false) :
    mergeCachedResponse request cached = .ok none := by
  simp [mergeCachedResponse, h]

/-- A lookup in a batch finds the first answer that is true. -/
theorem mergeCachedResponse_lookupFrom (key : Text) (caches : List (Text → Json)) (result : Json) :
    mergeCachedResponse request (lookupFrom key caches result) =
      (((result :: caches.map fun cache => cache key).find? truthy).elim (.ok none)
        (mergeCachedResponse request)) := by
  induction caches generalizing result with
  | nil =>
    cases h : result.truthy <;> simp [lookupFrom, h, mergeCachedResponse_of_not_truthy]
  | cons cache caches ih =>
    cases h : result.truthy with
    | true =>
      rw [lookupFrom_of_truthy h, List.find?_cons_of_pos h]
      rfl
    | false =>
      have hfind : (result :: (cache :: caches).map fun cache => cache key).find? truthy =
          ((cache :: caches).map fun cache => cache key).find? truthy :=
        List.find?_cons_of_neg (by simp [h])
      rw [lookupFrom, h, if_neg Bool.false_ne_true, ih, hfind, List.map_cons]

/-- A single lookup finds the first answer that is not `None`. -/
theorem getSingleJsonrpcResponse_eq (upstreamTtl : Text → TTL) :
    group.getSingleJsonrpcResponse upstreamTtl request =
      if upstreamTtl request.key = .noCache then .ok none
      else ((group.answers request.key).find? fun answer => !answer.isNull).elim (.ok none)
        (mergeCachedResponse request) := by
  unfold getSingleJsonrpcResponse answers
  split
  · rfl
  · cases hmemory : (group.memory request.key).isNull with
    | false =>
      rw [List.find?_cons_of_pos (by simp [hmemory])]
      rfl
    | true =>
      rw [List.find?_cons_of_neg (by simp [hmemory]), get]
      cases hfind : (group.readCaches.map fun cache => cache request.key).find?
          fun answer => !answer.isNull with
      | none => rfl
      | some answer =>
        have hanswer : answer.isNull = false := by simpa using List.find?_some hfind
        simp [hanswer]

theorem truthy_of_isNull {value : Json} (h : value.isNull = true) : value.truthy = false := by
  cases value with
  | null => rfl
  | _ => cases h

/-- What the caches may hold for a request so that both lookups find it: the first answer that is true
is the first that is not `None`, it has a result, and the request may be cached. -/
def LookupFits (upstreamTtl : Text → TTL) (request : JSONRPCRequest dumps pyStr) : Prop :=
  ∀ answer, (group.answers request.key).find? truthy = some answer →
    upstreamTtl request.key ≠ .noCache ∧ (answer.field "result".toList).isSome = true ∧
      (group.answers request.key).find? (fun answer => !answer.isNull) = some answer

theorem mergeCachedResponse_ok_some {cached : Json} {merged : MergedResponse}
    (h : mergeCachedResponse request cached = .ok (some merged)) :
    cached.truthy = true ∧ (cached.field "result".toList).isSome = true := by
  unfold mergeCachedResponse at h
  split at h
  · cases h
  · rename_i htruthy
    split at h
    · rename_i hresult
      exact ⟨by simpa using htruthy, by rw [hresult]; rfl⟩
    · cases h

theorem mergeCachedResponse_of_result (request : JSONRPCRequest dumps pyStr) {cached : Json}
    (htruthy : cached.truthy = true)
    (hresult : (cached.field "result".toList).isSome = true) :
    ∃ merged, mergeCachedResponse request cached = .ok (some merged) := by
  obtain ⟨result, hfield⟩ := Option.isSome_iff_exists.mp hresult
  exact ⟨⟨request.id, "2.0".toList, result⟩, by rw [mergeCachedResponse, htruthy, hfield]; rfl⟩

/-- One position of a batch lookup agrees with the single lookup. -/
theorem position_iff (upstreamTtl : Text → TTL) :
    (∃ response, mergeCachedResponse request
        (lookupFrom request.key group.readCaches (group.memory request.key)) = .ok response ∧
      group.getSingleJsonrpcResponse upstreamTtl request = .ok response) ↔
      group.LookupFits upstreamTtl request := by
  rw [mergeCachedResponse_lookupFrom, getSingleJsonrpcResponse_eq, LookupFits]
  change (∃ response, ((group.answers request.key).find? truthy).elim _ _ = _ ∧ _) ↔ _
  cases hfirst : (group.answers request.key).find? truthy with
  | none =>
    -- nothing is true, and what is not `None` is no response either
    have hsingle : ((group.answers request.key).find? fun answer => !answer.isNull).elim
        (.ok none) (mergeCachedResponse request) = .ok none := by
      cases hfind : (group.answers request.key).find? fun answer => !answer.isNull with
      | none => rfl
      | some answer =>
        have hnot := List.find?_eq_none.mp hfirst answer (List.mem_of_find?_eq_some hfind)
        exact mergeCachedResponse_of_not_truthy (by simpa using hnot)
    rw [hsingle, ite_self]
    exact iff_of_true ⟨none, rfl, rfl⟩ (by simp)
  | some answer =>
    have htruthy : answer.truthy = true := List.find?_some hfirst
    simp only [Option.elim_some, Option.some.injEq, forall_eq']
    constructor
    · rintro ⟨response, hbatch, hsingle⟩
      cases response with
      | none =>
        unfold mergeCachedResponse at hbatch
        rw [htruthy] at hbatch
        simp only [Bool.not_true, Bool.false_eq_true, if_false] at hbatch
        split at hbatch <;> cases hbatch
      | some merged =>
        refine ⟨fun hnoCache => ?_, (mergeCachedResponse_ok_some hbatch).2, ?_⟩
        · rw [if_pos hnoCache] at hsingle
          cases hsingle
        · split at hsingle
          · cases hsingle
          · cases hfind : (group.answers request.key).find? fun answer => !answer.isNull with
            | none => rw [hfind] at hsingle; cases hsingle
            | some other =>
              rw [hfind] at hsingle
              -- the first that is not `None` is true, so it is the first that is true
              have hother := (mergeCachedResponse_ok_some hsingle).1
              have hsame := List.find?_eq_some_iff_append.mp hfind
              obtain ⟨-, before, after, hanswers, hbefore⟩ := hsame
              have hfind' : (group.answers request.key).find? truthy = some other := by
                refine List.find?_eq_some_iff_append.mpr ⟨hother, before, after, hanswers, ?_⟩
                intro earlier hearlier
                have hnull : earlier.isNull = true := by simpa using hbefore earlier hearlier
                simp [truthy_of_isNull hnull]
              exact congrArg some (Option.some.inj (hfind'.symm.trans hfirst))
    · rintro ⟨hcache, hresult, hfind⟩
      obtain ⟨merged, hmerged⟩ := mergeCachedResponse_of_result request htruthy hresult
      exact ⟨some merged, hmerged, by rw [if_neg hcache, hfind]; exact hmerged⟩

end

/-! ## All positions -/

theorem mapM_ok_iff {α β ε : Type} (f g : α → Except ε β) (xs : List α) :
    (∃ ys, xs.mapM f = .ok ys ∧ xs.map g = ys.map .ok) ↔
      ∀ x ∈ xs, ∃ y, f x = .ok y ∧ g x = .ok y := by
  induction xs with
  | nil => exact iff_of_true ⟨[], rfl, rfl⟩ (by simp)
  | cons x xs ih =>
    rw [List.forall_mem_cons, ← ih]
    constructor
    · rintro ⟨ys, hf, hg⟩
      rw [List.mapM_cons] at hf
      cases hx : f x with
      | error e => rw [hx] at hf; cases hf
      | ok y =>
        cases hxs : xs.mapM f with
        | error e => rw [hx, hxs] at hf; cases hf
        | ok ys' =>
          rw [hx, hxs] at hf
          cases hf
          obtain ⟨hgx, hgxs⟩ := List.cons.inj hg
          exact ⟨⟨y, rfl, hgx⟩, ys', rfl, hgxs⟩
    · rintro ⟨⟨y, hfx, hgx⟩, ys, hf, hg⟩
      refine ⟨y :: ys, ?_, ?_⟩
      · rw [List.mapM_cons, hfx, hf]
        rfl
      · rw [List.map_cons, List.map_cons, hgx, hg]

/-- A batch lookup returns at each position what a single lookup returns exactly when the caches fit
each of the requests. -/
theorem getBatchJsonrpcResponses_iff {dumps pyStr : Json → Text} (upstreamTtl : Text → TTL)
    (requests : List (JSONRPCRequest dumps pyStr)) :
    (∃ responses, group.getBatchJsonrpcResponses requests = .ok responses ∧
      requests.map (group.getSingleJsonrpcResponse upstreamTtl) = responses.map .ok) ↔
      ∀ request ∈ requests, group.LookupFits upstreamTtl request := by
  have hpairs : group.getBatchJsonrpcResponses requests = requests.mapM fun request =>
      mergeCachedResponse request
        (lookupFrom request.key group.readCaches (group.memory request.key)) := by
    rw [getBatchJsonrpcResponses, mget_eq, List.map_map, ← List.map_prod_left_eq_zip,
      List.mapM_map]
    rfl
  rw [hpairs, mapM_ok_iff]
  exact forall₂_congr fun request _ => group.position_iff upstreamTtl

end CacheGroup

end Blurt.Jussi
