import Blurt.Jussi.LookupLaws
import Blurt.Jussi.UrnLaws

/-! # Caching a batch and caching one by one

A batch keeps the last response for each key and does not look whether a response may be cached. It
agrees with the single calls where all that it keeps would be cached by them.
-/

namespace Blurt.Jussi

open CacheGroup

/-- A response that says an error. -/
def isErrorResponse (response : Json) : Bool := (response.field "error".toList).isSome

section

variable {pyStr : Json → Text} {urn : URN} {response : Json}

/-- The responses that `prepare_response_for_cache` lets pass. -/
def isCacheable (pyStr : Json → Text) (urn : URN) (response : Json) : Bool :=
  isValidNonErrorSingleJsonrpcResponse response &&
    (!isGetBlockRequest urn || isValidGetBlockResponse pyStr urn response)

theorem prepareResponseForCache_eq_ok {value : Json} :
    prepareResponseForCache pyStr urn response = .ok value ↔
      isCacheable pyStr urn response = true ∧ value = response := by
  unfold prepareResponseForCache isCacheable
  cases isValidNonErrorSingleJsonrpcResponse response <;> cases isGetBlockRequest urn <;>
    cases isValidGetBlockResponse pyStr urn response <;> simp [eq_comm]

theorem truthy_of_isCacheable (h : isCacheable pyStr urn response = true) :
    response.truthy = true := by
  unfold isCacheable at h
  cases response with
  | object fields =>
    cases fields with
    | nil => cases h
    | cons field fields => rfl
  | _ => cases h

/-- An error is never cacheable. -/
theorem not_isErrorResponse_of_isCacheable (h : isCacheable pyStr urn response = true) :
    isErrorResponse response = false := by
  unfold isCacheable at h
  cases response with
  | object fields =>
    have hvalid : isValidNonErrorSingleJsonrpcResponse (.object fields) = true :=
      (Bool.and_eq_true_iff.mp h).1
    have hkeys := (Bool.and_eq_true_iff.mp hvalid).2
    rw [isErrorResponse, Json.field, Option.isSome_map, Bool.eq_false_iff]
    intro herror
    obtain ⟨field, hfield⟩ := Option.isSome_iff_exists.mp herror
    have hkey : field.1 = "error".toList := by simpa using List.find?_some hfield
    have hmem := List.all_eq_true.mp hkeys field (List.mem_of_find?_eq_some hfield)
    rw [hkey] at hmem
    exact absurd hmem (by decide)
  | _ => cases h

end

/-! ## What a batch keeps -/

section

variable {dumps pyStr : Json → Text} {upstreamTtl : Text → TTL}

/-- A request with its response. -/
abbrev Answered (dumps pyStr : Json → Text) := JSONRPCRequest dumps pyStr × Json

namespace Answered

def key (p : Answered dumps pyStr) : Text := p.1.key

def ttl (upstreamTtl : Text → TTL) (p : Answered dumps pyStr) : TTL := upstreamTtl p.1.key

def Cacheable (p : Answered dumps pyStr) : Prop := isCacheable pyStr p.1.urn p.2 = true

/-- A response whose block number can be read, or that has none, with a last irreversible block number
at hand. -/
def datable (last : Json) (p : Answered dumps pyStr) : Bool :=
  p.2.truthy && last.asInt.isSome && blockNumFromJsonrpcResponse pyStr p.2 != .malformed

/-- What a batch of one kind keeps: what is not barred from the cache, blocks only when datable. -/
def kept (upstreamTtl : Text → TTL) (last : Json) (p : Answered dumps pyStr) : Bool :=
  p.ttl upstreamTtl != .noCache &&
    (p.ttl upstreamTtl != .defaultExpireIfIrreversible || p.datable last)

/-- A response with a block number that is at most the last irreversible one. -/
def Irreversible (last : Json) (p : Answered dumps pyStr) : Prop :=
  ∃ lastNum blockNum, last.asInt = some lastNum ∧
    blockNumFromJsonrpcResponse pyStr p.2 = .number blockNum ∧ blockNum ≤ lastNum

end Answered

theorem irreversibleTtl_cases (last response : Json) :
    irreversibleTtl pyStr response last = .noCache ∨
      irreversibleTtl pyStr response last = .defaultTtl := by
  unfold irreversibleTtl
  split
  · exact .inl rfl
  · split
    · exact .inl rfl
    · split
      · exact .inl rfl
      · exact .inr rfl

theorem irreversibleTtl_eq_default {p : Answered dumps pyStr} {last : Json} :
    irreversibleTtl pyStr p.2 last = .defaultTtl ↔ p.datable last = true := by
  unfold irreversibleTtl Answered.datable
  cases p.2.truthy with
  | false => simp [TTL.noCache, TTL.defaultTtl]
  | true =>
    cases last.asInt with
    | none => simp [TTL.noCache, TTL.defaultTtl]
    | some n =>
      cases blockNumFromJsonrpcResponse pyStr p.2 <;> simp [TTL.noCache, TTL.defaultTtl]

variable {group : CacheGroup} {requests : List (JSONRPCRequest dumps pyStr)}
  {responses : List Json} {lastNum : Json} {w : Write}

/-- The pairs of a batch whose time to live is not to keep them out. -/
def keptOf (ttl : Answered dumps pyStr → TTL) (pairs : List (Answered dumps pyStr)) :
    List (Answered dumps pyStr) :=
  pairs.filter fun p => ttl p != .noCache

theorem zip_filter_noCache (ttl : Answered dumps pyStr → TTL)
    (pairs : List (Answered dumps pyStr)) :
    ((pairs.map ttl).zip pairs).filter (fun triplet => triplet.1 != .noCache) =
      (keptOf ttl pairs).map fun p => (ttl p, p) := by
  induction pairs with
  | nil => rfl
  | cons p pairs ih =>
    rw [List.map_cons, List.zip_cons_cons, List.filter_cons, ih, keptOf, keptOf, List.filter_cons]
    split <;> rfl

/-- The time to live of each pair of a batch: blocks are dated when the whole batch is of blocks. -/
def batchTtl (upstreamTtl : Text → TTL) (last : Json) (requests : List (JSONRPCRequest dumps pyStr))
    (p : Answered dumps pyStr) : TTL :=
  if requests ≠ [] ∧ ∀ r ∈ requests, upstreamTtl r.key = .defaultExpireIfIrreversible then
    irreversibleTtl pyStr p.2 last
  else p.ttl upstreamTtl

theorem batchTriplets_eq (hlen : requests.length = responses.length) :
    group.batchTriplets upstreamTtl requests responses lastNum =
      (keptOf (batchTtl upstreamTtl (group.lastIrreversible lastNum) requests)
        (requests.zip responses)).map fun p =>
          (batchTtl upstreamTtl (group.lastIrreversible lastNum) requests p, p) := by
  have hguard : (!(requests.map fun request => upstreamTtl request.key).isEmpty &&
      (requests.map fun request => upstreamTtl request.key).all
        (· == .defaultExpireIfIrreversible)) = true ↔
      requests ≠ [] ∧ ∀ r ∈ requests, upstreamTtl r.key = .defaultExpireIfIrreversible := by
    simp
  simp only [batchTriplets]
  split
  · rename_i hall
    have hbatch : batchTtl upstreamTtl (group.lastIrreversible lastNum) requests =
        fun p => irreversibleTtl pyStr p.2 (group.lastIrreversible lastNum) :=
      funext fun p => if_pos (hguard.mp hall)
    rw [hbatch, ← zip_filter_noCache]
    congr 2
    conv_lhs => rw [← List.map_snd_zip hlen.ge, List.map_map]
    rfl
  · rename_i hall
    have hbatch : batchTtl upstreamTtl (group.lastIrreversible lastNum) requests =
        fun p => p.ttl upstreamTtl := funext fun p => if_neg (fun h => hall (hguard.mpr h))
    rw [hbatch, ← zip_filter_noCache]
    congr 2
    conv_lhs => rw [← List.map_fst_zip hlen.le, List.map_map]
    rfl

theorem mem_pairsOf {ttl : Answered dumps pyStr → TTL} {expire : Text → TTL}
    {kept : List (Answered dumps pyStr)} (hexpire : ∀ p ∈ kept, ttl p = expire p.key) {time : TTL}
    {entry : Text × Json} :
    (pairsOf (kept.map fun p => (ttl p, p)) time).IsLastOf Prod.fst entry ↔
      ∃ p, kept.IsLastOf Answered.key p ∧ ttl p = time ∧ (p.key, p.2) = entry := by
  have hfilter : (kept.map fun p => (ttl p, p)).filter (fun triplet => triplet.1 == time) =
      (kept.filter fun p => expire p.key == time).map fun p => (ttl p, p) := by
    rw [List.filter_map]
    congr 1
    apply List.filter_congr
    intro p hp
    rw [← hexpire p hp]
    rfl
  rw [pairsOf, hfilter, List.map_map, List.isLastOf_map]
  constructor
  · rintro ⟨p, hp, rfl⟩
    obtain ⟨htime, hp⟩ := (List.isLastOf_filter (p := fun key => expire key == time)).mp hp
    exact ⟨p, hp, (hexpire p hp.mem).trans (beq_iff_eq.mp htime), rfl⟩
  · rintro ⟨p, hp, rfl, rfl⟩
    exact ⟨p, (List.isLastOf_filter (p := fun key => expire key == _)).mpr
      ⟨beq_iff_eq.mpr (hexpire p hp.mem).symm, hp⟩, rfl⟩

/-- The time to live of what a batch keeps goes by its key. -/
theorem exists_batchTtl_eq (upstreamTtl : Text → TTL) (last : Json)
    (requests : List (JSONRPCRequest dumps pyStr)) (pairs : List (Answered dumps pyStr)) :
    ∃ expire : Text → TTL, ∀ p ∈ keptOf (batchTtl upstreamTtl last requests) pairs,
      batchTtl upstreamTtl last requests p = expire p.key := by
  by_cases hall : requests ≠ [] ∧
      ∀ r ∈ requests, upstreamTtl r.key = .defaultExpireIfIrreversible
  · refine ⟨fun _ => .defaultTtl, fun p hp => ?_⟩
    have hkept := (List.mem_filter.mp hp).2
    rw [batchTtl, if_pos hall] at hkept ⊢
    exact (irreversibleTtl_cases last p.2).resolve_left (by simpa using hkept)
  · exact ⟨upstreamTtl, fun p _ => if_neg hall⟩

/-- A batch writes the last response that it keeps for each key. -/
theorem mem_cacheBatch (hlen : requests.length = responses.length) :
    w ∈ group.cacheBatchJsonrpcResponse upstreamTtl requests responses lastNum ↔
      ∃ p, (keptOf (batchTtl upstreamTtl (group.lastIrreversible lastNum) requests)
          (requests.zip responses)).IsLastOf Answered.key p ∧
        w = ⟨p.key, p.2, batchTtl upstreamTtl (group.lastIrreversible lastNum) requests p⟩ := by
  obtain ⟨expire, hexpire⟩ := exists_batchTtl_eq upstreamTtl (group.lastIrreversible lastNum)
    requests (requests.zip responses)
  rw [cacheBatchJsonrpcResponse, batchTriplets_eq hlen]
  constructor
  · intro hw
    obtain ⟨time, -, hw⟩ := List.mem_flatMap.mp hw
    obtain ⟨entry, hentry, rfl⟩ := List.mem_map.mp hw
    obtain ⟨p, hp, rfl, rfl⟩ := (mem_pairsOf hexpire).mp (List.mem_toDict.mp hentry)
    exact ⟨p, hp, rfl⟩
  · rintro ⟨p, hp, rfl⟩
    refine List.mem_flatMap.mpr ⟨_, List.mem_eraseDups.mpr (List.mem_map.mpr
      ⟨_, List.mem_map_of_mem hp.mem, rfl⟩), List.mem_map.mpr ⟨(p.key, p.2), ?_, rfl⟩⟩
    exact List.mem_toDict.mpr ((mem_pairsOf hexpire).mpr ⟨p, hp, rfl, rfl⟩)

/-! ## One by one -/

/-- The writes of the single calls for the pairs of a batch. -/
def SingleWrite (upstreamTtl : Text → TTL) (group : CacheGroup) (lastNum : Json)
    (p : Answered dumps pyStr) (w : Write) : Prop :=
  ∃ writes, group.cacheSingleJsonrpcResponse upstreamTtl p.1 p.2 none lastNum = .ok writes ∧
    w ∈ writes

/-- The time to live of a single call. -/
def singleTtl (upstreamTtl : Text → TTL) (last : Json) (p : Answered dumps pyStr) : TTL :=
  if p.ttl upstreamTtl = .defaultExpireIfIrreversible then irreversibleTtl pyStr p.2 last
  else p.ttl upstreamTtl

theorem singleWrite_iff {p : Answered dumps pyStr} :
    SingleWrite upstreamTtl group lastNum p w ↔
      p.ttl upstreamTtl ≠ .noCache ∧ p.Cacheable ∧
        w = ⟨p.key, p.2, singleTtl upstreamTtl (group.lastIrreversible lastNum) p⟩ := by
  unfold SingleWrite cacheSingleJsonrpcResponse singleTtl Answered.ttl Answered.Cacheable
  simp only [true_or, if_true]
  have hprepare : ∀ time : TTL, (∃ writes, (do
      let value ← prepareResponseForCache pyStr p.1.urn p.2
      return [(⟨p.1.key, value, time⟩ : Write)]) = Except.ok writes ∧ w ∈ writes) ↔
        isCacheable pyStr p.1.urn p.2 = true ∧ w = ⟨p.key, p.2, time⟩ := by
    intro time
    constructor
    · rintro ⟨writes, hwrites, hw⟩
      cases hvalue : prepareResponseForCache pyStr p.1.urn p.2 with
      | error e => rw [hvalue] at hwrites; cases hwrites
      | ok value =>
        obtain ⟨hcacheable, rfl⟩ := prepareResponseForCache_eq_ok.mp hvalue
        rw [hvalue] at hwrites
        cases hwrites
        exact ⟨hcacheable, List.mem_singleton.mp hw⟩
    · rintro ⟨hcacheable, rfl⟩
      rw [prepareResponseForCache_eq_ok.mpr ⟨hcacheable, rfl⟩]
      exact ⟨_, rfl, List.mem_singleton_self _⟩
  by_cases hblock : upstreamTtl p.1.key = .defaultExpireIfIrreversible
  · have hcache : TTL.defaultExpireIfIrreversible ≠ .noCache := by decide
    rw [hblock, if_pos rfl, if_pos rfl, hprepare]
    simp [hcache]
  · rw [if_neg hblock, if_neg hblock]
    by_cases hnoCache : upstreamTtl p.1.key = .noCache
    · rw [if_pos hnoCache]
      simp [hnoCache]
    · rw [if_neg hnoCache, hprepare]
      simp [hnoCache]

theorem singleTtl_ne_noCache {last : Json} {p : Answered dumps pyStr} :
    singleTtl upstreamTtl last p ≠ .noCache ↔ p.kept upstreamTtl last = true := by
  unfold singleTtl Answered.kept
  by_cases hblock : p.ttl upstreamTtl = .defaultExpireIfIrreversible
  · have hcache : (TTL.defaultExpireIfIrreversible != .noCache) = true := by decide
    have hdatable : irreversibleTtl pyStr p.2 last = .defaultTtl ↔ p.datable last = true :=
      irreversibleTtl_eq_default
    rw [if_pos hblock, hblock, hcache, bne_self_eq_false, Bool.true_and, Bool.false_or, ← hdatable]
    rcases irreversibleTtl_cases last p.2 with h | h <;> rw [h] <;> decide
  · rw [if_neg hblock, bne_iff_ne.mpr hblock, Bool.true_or, Bool.and_true, bne_iff_ne]

/-! ## The whole batch -/

/-- Caching and looking up a batch agrees with caching and looking up one by one, no errors are cached,
and blocks are cached when they are irreversible only. -/
structure BatchAgrees (upstreamTtl : Text → TTL) (group : CacheGroup)
    (requests : List (JSONRPCRequest dumps pyStr)) (responses : List Json) (lastNum : Json) : Prop where
  writes : ∀ w, w ∈ group.cacheBatchJsonrpcResponse upstreamTtl requests responses lastNum ↔
    ∃ p ∈ requests.zip responses, SingleWrite upstreamTtl group lastNum p w
  noErrors : ∀ w, (w ∈ group.cacheBatchJsonrpcResponse upstreamTtl requests responses lastNum ∨
    ∃ p ∈ requests.zip responses, SingleWrite upstreamTtl group lastNum p w) →
      isErrorResponse w.value = false
  irreversible : ∀ w, (w ∈ group.cacheBatchJsonrpcResponse upstreamTtl requests responses lastNum ∨
    ∃ p ∈ requests.zip responses, SingleWrite upstreamTtl group lastNum p w) →
      upstreamTtl w.key = .defaultExpireIfIrreversible →
        w.expireTime = .defaultTtl ∧ ∃ last blockNum,
          (group.lastIrreversible lastNum).asInt = some last ∧
            blockNumFromJsonrpcResponse pyStr w.value = .number blockNum ∧ blockNum ≤ last
  lookups : ∃ found, group.getBatchJsonrpcResponses requests = .ok found ∧
    requests.map (group.getSingleJsonrpcResponse upstreamTtl) = found.map .ok

/-- What a batch must be like for this. -/
structure BatchFits (upstreamTtl : Text → TTL) (group : CacheGroup)
    (requests : List (JSONRPCRequest dumps pyStr)) (responses : List Json) (lastNum : Json) : Prop where
  -- blocks and other requests are not mixed
  uniform : (∀ p ∈ requests.zip responses,
      Answered.ttl upstreamTtl p ≠ .defaultExpireIfIrreversible) ∨
    ∀ p ∈ requests.zip responses, Answered.ttl upstreamTtl p = .defaultExpireIfIrreversible
  irreversible : ∀ p ∈ requests.zip responses,
    Answered.ttl upstreamTtl p = .defaultExpireIfIrreversible → Answered.Cacheable p →
      Answered.Irreversible (group.lastIrreversible lastNum) p
  -- the last response kept for a key is a cacheable one
  last : ∀ p, ((requests.zip responses).filter
      (Answered.kept upstreamTtl (group.lastIrreversible lastNum))).IsLastOf Answered.key p →
    ∃ q ∈ requests.zip responses, Answered.Cacheable q ∧ q.1.key = p.1.key ∧ q.2 = p.2
  -- and so are equal all cacheable ones
  sole : ∀ p ∈ requests.zip responses, ∀ q ∈ requests.zip responses,
    Answered.ttl upstreamTtl p ≠ .noCache → Answered.Cacheable p → Answered.Cacheable q →
      p.1.key = q.1.key → p.2 = q.2
  lookups : ∀ request ∈ requests, group.LookupFits upstreamTtl request

theorem ne_noCache_of_kept {last : Json} {p : Answered dumps pyStr}
    (h : p.kept upstreamTtl last = true) : p.ttl upstreamTtl ≠ .noCache :=
  bne_iff_ne.mp (Bool.and_eq_true_iff.mp h).1

theorem Answered.Irreversible.datable {last : Json} {p : Answered dumps pyStr}
    (h : p.Irreversible last) (hcacheable : p.Cacheable) : p.datable last = true := by
  obtain ⟨lastNum, blockNum, hlast, hnum, -⟩ := h
  rw [Answered.datable, truthy_of_isCacheable hcacheable, hlast, hnum]
  rfl

theorem kept_of_irreversible {last : Json} {p : Answered dumps pyStr}
    (hcache : p.ttl upstreamTtl ≠ .noCache) (hcacheable : p.Cacheable)
    (h : p.ttl upstreamTtl = .defaultExpireIfIrreversible → p.Irreversible last) :
    p.kept upstreamTtl last = true := by
  rw [Answered.kept, bne_iff_ne.mpr hcache, Bool.true_and, Bool.or_eq_true]
  by_cases hblock : p.ttl upstreamTtl = .defaultExpireIfIrreversible
  · exact .inr ((h hblock).datable hcacheable)
  · exact .inl (bne_iff_ne.mpr hblock)

section

variable (hlen : requests.length = responses.length)

include hlen

/-- A batch of one kind gives each response the time to live of a single call. -/
theorem batchTtl_eq_singleTtl (last : Json)
    (huniform : (∀ p ∈ requests.zip responses,
        Answered.ttl upstreamTtl p ≠ .defaultExpireIfIrreversible) ∨
      ∀ p ∈ requests.zip responses, Answered.ttl upstreamTtl p = .defaultExpireIfIrreversible)
    {p : Answered dumps pyStr} (hp : p ∈ requests.zip responses) :
    batchTtl upstreamTtl last requests p = singleTtl upstreamTtl last p := by
  have hmem : p.1 ∈ requests := (List.of_mem_zip hp).1
  unfold batchTtl singleTtl
  rcases huniform with hnone | hall
  · have hnot : ¬ (requests ≠ [] ∧
        ∀ r ∈ requests, upstreamTtl r.key = .defaultExpireIfIrreversible) :=
      fun h => hnone p hp (h.2 p.1 hmem)
    rw [if_neg hnot, if_neg (hnone p hp)]
  · have hboth : requests ≠ [] ∧
        ∀ r ∈ requests, upstreamTtl r.key = .defaultExpireIfIrreversible := by
      refine ⟨List.ne_nil_of_mem hmem, fun r hr => ?_⟩
      rw [← List.map_fst_zip hlen.le] at hr
      obtain ⟨q, hq, rfl⟩ := List.mem_map.mp hr
      exact hall q hq
    rw [if_pos hboth, if_pos (hall p hp)]

/-- The writes of a batch of one kind. -/
theorem mem_cacheBatch_of_uniform
    (huniform : (∀ p ∈ requests.zip responses,
        Answered.ttl upstreamTtl p ≠ .defaultExpireIfIrreversible) ∨
      ∀ p ∈ requests.zip responses, Answered.ttl upstreamTtl p = .defaultExpireIfIrreversible) :
    w ∈ group.cacheBatchJsonrpcResponse upstreamTtl requests responses lastNum ↔
      ∃ p, ((requests.zip responses).filter
          (Answered.kept upstreamTtl (group.lastIrreversible lastNum))).IsLastOf Answered.key p ∧
        w = ⟨p.1.key, p.2, singleTtl upstreamTtl (group.lastIrreversible lastNum) p⟩ := by
  have hkept : keptOf (batchTtl upstreamTtl (group.lastIrreversible lastNum) requests)
      (requests.zip responses) = (requests.zip responses).filter
        (Answered.kept upstreamTtl (group.lastIrreversible lastNum)) := by
    apply List.filter_congr
    intro p hp
    rw [batchTtl_eq_singleTtl hlen _ huniform hp, Bool.eq_iff_iff, bne_iff_ne,
      singleTtl_ne_noCache]
  rw [mem_cacheBatch hlen, hkept]
  refine exists_congr fun p => and_congr_right fun hp => ?_
  rw [batchTtl_eq_singleTtl hlen _ huniform (List.mem_filter.mp hp.mem).1]
  rfl

/-- A batch that mixes blocks and other requests writes with a time to live that no single call has. -/
theorem BatchAgrees.uniform (h : BatchAgrees upstreamTtl group requests responses lastNum) :
    (∀ p ∈ requests.zip responses, Answered.ttl upstreamTtl p ≠ .defaultExpireIfIrreversible) ∨
      ∀ p ∈ requests.zip responses,
        Answered.ttl upstreamTtl p = .defaultExpireIfIrreversible := by
  by_contra hmixed
  push Not at hmixed
  obtain ⟨⟨p, hp, hblock⟩, q, hq, hother⟩ := hmixed
  have hnot : ¬ (requests ≠ [] ∧
      ∀ r ∈ requests, upstreamTtl r.key = .defaultExpireIfIrreversible) :=
    fun h => hother (h.2 q.1 (List.of_mem_zip hq).1)
  have hbatch : ∀ p : Answered dumps pyStr,
      batchTtl upstreamTtl (group.lastIrreversible lastNum) requests p = p.ttl upstreamTtl :=
    fun p => if_neg hnot
  have hkept : p ∈ keptOf (batchTtl upstreamTtl (group.lastIrreversible lastNum) requests)
      (requests.zip responses) := by
    refine List.mem_filter.mpr ⟨hp, ?_⟩
    rw [hbatch, hblock]
    decide
  obtain ⟨last, hlast, hkey⟩ := List.exists_isLastOf Answered.key hkept
  have hlastBlock : Answered.ttl upstreamTtl last = .defaultExpireIfIrreversible :=
    (congrArg upstreamTtl hkey).trans hblock
  obtain ⟨single, -, hsingle⟩ := (h.writes _).mp ((mem_cacheBatch hlen).mpr ⟨last, hlast, rfl⟩)
  obtain ⟨-, -, hwrite⟩ := singleWrite_iff.mp hsingle
  have htime : Answered.ttl upstreamTtl last =
      singleTtl upstreamTtl (group.lastIrreversible lastNum) single := by
    rw [← hbatch]
    exact congrArg Write.expireTime hwrite
  rw [hlastBlock, singleTtl] at htime
  split at htime
  · have hcases : irreversibleTtl pyStr single.2 (group.lastIrreversible lastNum) = .noCache ∨ _ :=
      irreversibleTtl_cases (group.lastIrreversible lastNum) single.2
    rcases hcases with h | h <;> rw [h] at htime <;> exact absurd htime (by decide)
  · exact absurd htime.symm (by assumption)

theorem batchAgrees_iff :
    BatchAgrees upstreamTtl group requests responses lastNum ↔
      BatchFits upstreamTtl group requests responses lastNum := by
  constructor
  · intro h
    have huniform := h.uniform hlen
    refine ⟨huniform, ?_, ?_, ?_, (group.getBatchJsonrpcResponses_iff upstreamTtl _).mp h.lookups⟩
    · intro p hp hblock hcacheable
      have hwrite : SingleWrite upstreamTtl group lastNum p _ :=
        singleWrite_iff.mpr ⟨by rw [hblock]; decide, hcacheable, rfl⟩
      obtain ⟨-, last, blockNum, hlast, hnum, hle⟩ :=
        h.irreversible _ (.inr ⟨p, hp, hwrite⟩) hblock
      exact ⟨last, blockNum, hlast, hnum, hle⟩
    · intro p hp
      obtain ⟨q, hq, hsingle⟩ := (h.writes _).mp
        ((mem_cacheBatch_of_uniform hlen huniform).mpr ⟨p, hp, rfl⟩)
      obtain ⟨-, hcacheable, hwrite⟩ := singleWrite_iff.mp hsingle
      exact ⟨q, hq, hcacheable, (congrArg Write.key hwrite).symm, (congrArg Write.value hwrite).symm⟩
    · -- both are what the batch keeps for the key
      have hlast : ∀ p ∈ requests.zip responses, Answered.ttl upstreamTtl p ≠ .noCache →
          Answered.Cacheable p → ∃ q, ((requests.zip responses).filter (Answered.kept upstreamTtl
            (group.lastIrreversible lastNum))).IsLastOf Answered.key q ∧
              p.1.key = q.1.key ∧ p.2 = q.2 := by
        intro p hp hcache hcacheable
        have hwrite := (h.writes _).mpr
          ⟨p, hp, singleWrite_iff.mpr ⟨hcache, hcacheable, rfl⟩⟩
        obtain ⟨q, hq, heq⟩ := (mem_cacheBatch_of_uniform hlen huniform).mp hwrite
        exact ⟨q, hq, congrArg Write.key heq, congrArg Write.value heq⟩
      intro p hp q hq hcache hcacheablep hcacheableq hkey
      obtain ⟨p', hp', hkeyp, hvaluep⟩ := hlast p hp hcache hcacheablep
      have hcacheq : Answered.ttl upstreamTtl q ≠ .noCache := by
        rw [Answered.ttl, ← hkey]
        exact hcache
      obtain ⟨q', hq', hkeyq, hvalueq⟩ := hlast q hq hcacheq hcacheableq
      obtain rfl := hp'.eq hq' (hkeyp.symm.trans (hkey.trans hkeyq))
      exact hvaluep.trans hvalueq.symm
  · intro h
    have hsub : ∀ w ∈ group.cacheBatchJsonrpcResponse upstreamTtl requests responses lastNum,
        ∃ p ∈ requests.zip responses, SingleWrite upstreamTtl group lastNum p w := by
      intro w hw
      obtain ⟨p, hp, rfl⟩ := (mem_cacheBatch_of_uniform hlen h.uniform).mp hw
      obtain ⟨q, hq, hcacheable, hkey, hvalue⟩ := h.last p hp
      refine ⟨q, hq, singleWrite_iff.mpr ⟨?_, hcacheable, ?_⟩⟩
      · rw [Answered.ttl, hkey]
        exact ne_noCache_of_kept (List.mem_filter.mp hp.mem).2
      · rw [singleTtl, singleTtl, Answered.ttl, Answered.ttl, Answered.key, hkey, hvalue]
    have hsup : ∀ w, ∀ p ∈ requests.zip responses, SingleWrite upstreamTtl group lastNum p w →
        w ∈ group.cacheBatchJsonrpcResponse upstreamTtl requests responses lastNum := by
      intro w p hp hw
      obtain ⟨hcache, hcacheable, rfl⟩ := singleWrite_iff.mp hw
      have hkept := kept_of_irreversible hcache hcacheable (h.irreversible p hp · hcacheable)
      obtain ⟨q, hq, hkey⟩ :=
        List.exists_isLastOf Answered.key (List.mem_filter.mpr ⟨hp, hkept⟩)
      obtain ⟨q', hq', hcacheable', hkey', hvalue'⟩ := h.last q hq
      have hvalue : p.2 = q.2 :=
        (h.sole p hp q' hq' hcache hcacheable hcacheable' (hkey'.trans hkey).symm).trans hvalue'
      refine (mem_cacheBatch_of_uniform hlen h.uniform).mpr ⟨q, hq, ?_⟩
      have hkey : q.1.key = p.1.key := hkey
      rw [singleTtl, singleTtl, Answered.ttl, Answered.ttl, Answered.key, hkey, hvalue]
    have hsingle : ∀ w, (w ∈ group.cacheBatchJsonrpcResponse upstreamTtl requests responses lastNum ∨
        ∃ p ∈ requests.zip responses, SingleWrite upstreamTtl group lastNum p w) →
          ∃ p ∈ requests.zip responses, SingleWrite upstreamTtl group lastNum p w :=
      fun w hw => hw.elim (hsub w) id
    refine ⟨fun w => ⟨hsub w, fun ⟨p, hp, hw⟩ => hsup w p hp hw⟩, ?_, ?_,
      (group.getBatchJsonrpcResponses_iff upstreamTtl _).mpr h.lookups⟩
    · intro w hw
      obtain ⟨p, -, hw⟩ := hsingle w hw
      obtain ⟨-, hcacheable, rfl⟩ := singleWrite_iff.mp hw
      exact not_isErrorResponse_of_isCacheable hcacheable
    · intro w hw hblock
      obtain ⟨p, hp, hw⟩ := hsingle w hw
      obtain ⟨-, hcacheable, rfl⟩ := singleWrite_iff.mp hw
      have hirreversible := h.irreversible p hp hblock hcacheable
      refine ⟨?_, hirreversible⟩
      exact (if_pos hblock).trans
        (irreversibleTtl_eq_default.mpr (hirreversible.datable hcacheable))

end

end

end Blurt.Jussi

namespace Blurt.Sample

open Jussi CacheGroup

/-- A node with empty caches. -/
def emptyGroup : CacheGroup := ⟨fun _ => .null, []⟩

/-- Everything is cached when its block is irreversible. -/
def blockTtl (_ : Text) : TTL := .defaultExpireIfIrreversible

def blockRequest : JSONRPCRequest dumps dumps :=
  ⟨some (.int 1), getBlock, "steemd.database_api.get_block.params=[5]".toList, by decide⟩

def nextRequest : JSONRPCRequest dumps dumps :=
  ⟨some (.int 2), { getBlock with params := some (.array [.int 6]) },
    "steemd.database_api.get_block.params=[6]".toList, by decide⟩

def blockResponse : Json :=
  .object [("result".toList, .object [("block_id".toList, .string "00000005ab".toList)])]

def nextResponse : Json :=
  .object [("result".toList, .object [("block_id".toList, .string "00000006cd".toList)])]

/-- A node that has the block 5 in its memory. -/
def blockGroup : CacheGroup :=
  ⟨fun key => if key = blockRequest.key then blockResponse else .null, []⟩

/-- Two irreversible blocks, one of which is asked for twice. -/
theorem blockResponses_agree :
    BatchAgrees blockTtl blockGroup [blockRequest, nextRequest, blockRequest]
      [blockResponse, nextResponse, blockResponse] (.int 6) := by
  have hanswered : ∀ p ∈ [(blockRequest, blockResponse), (nextRequest, nextResponse),
      (blockRequest, blockResponse)],
      p = (blockRequest, blockResponse) ∨ p = (nextRequest, nextResponse) := by simp
  have hkeys : blockRequest.key ≠ nextRequest.key := by decide
  refine (batchAgrees_iff rfl).mpr ⟨.inr fun _ _ => rfl, ?_, ?_, ?_, ?_⟩
  · intro p hp _ _
    rcases hanswered p hp with rfl | rfl
    · exact ⟨6, 5, rfl, rfl, by decide⟩
    · exact ⟨6, 6, rfl, rfl, le_rfl⟩
  · intro p hp
    have hmem := (List.mem_filter.mp hp.mem).1
    refine ⟨p, hmem, ?_, rfl, rfl⟩
    rcases hanswered p hmem with rfl | rfl <;> rfl
  · intro p hp q hq _ _ _ hkey
    rcases hanswered p hp with rfl | rfl <;> rcases hanswered q hq with rfl | rfl
    · rfl
    · exact absurd hkey hkeys
    · exact absurd hkey.symm hkeys
    · rfl
  · intro request hrequest answer hanswer
    have hasked : request = blockRequest ∨ request = nextRequest := by
      simpa [or_comm, or_left_comm] using hrequest
    rcases hasked with rfl | rfl
    · cases hanswer
      exact ⟨by decide, rfl, rfl⟩
    · cases hanswer

/-- Only blocks are cached when they are irreversible. -/
def mixedTtl (key : Text) : TTL :=
  if key = blockRequest.key then .defaultExpireIfIrreversible else .defaultTtl

/-- The block 5 is cached as well while only the block 4 is irreversible; and with an expiry that
no single request has where a request with another one stands in the batch. -/
theorem blockResponse_cached_early :
    ¬ BatchAgrees blockTtl emptyGroup [blockRequest] [blockResponse] (.int 4) ∧
      ¬ BatchAgrees mixedTtl emptyGroup [blockRequest, nextRequest] [blockResponse, nextResponse]
        (.int 6) := by
  constructor
  · intro h
    have hwrite : SingleWrite blockTtl emptyGroup (.int 4) (blockRequest, blockResponse)
        ⟨blockRequest.key, blockResponse, .defaultTtl⟩ := ⟨_, rfl, List.mem_singleton_self _⟩
    obtain ⟨-, last, blockNum, hlast, hnum, hle⟩ :=
      h.irreversible _ (.inr ⟨_, List.mem_singleton_self _, hwrite⟩) rfl
    cases hlast
    cases hnum
    exact absurd hle (by decide)
  · intro h
    rcases h.uniform rfl with hnone | hall
    · exact hnone _ List.mem_cons_self rfl
    · have hother := hall (nextRequest, nextResponse) (by simp)
      revert hother
      decide

end Blurt.Sample
