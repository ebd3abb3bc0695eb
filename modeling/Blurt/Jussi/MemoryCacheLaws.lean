import Blurt.Foundation.ExpiringMap
import Blurt.Jussi.MemoryCache
import Mathlib.Data.Set.Finite.Basic
import Mathlib.Order.Monotone.Basic
import Mathlib.Data.Nat.Cast.Order.Basic
import Mathlib.Tactic.Linarith

/-! # Laws of the memory cache

As long as nothing is set after `clears` the cache is a bounded expiring map: no call raises, there
are never more entries than there is room for, and what is looked up is what such a map gives. Once
it has been cleared, some further calls raise or leave more entries than that.
-/

namespace Blurt.Jussi

open ExpiringMap

variable {κ β : Type}

/-- What a call does to an expiring map. -/
def MemoryCache.Call.acts (maxTtl : ℚ) : MemoryCache.Call κ β → List (Act κ ℚ β)
  | .gets key => [.get key]
  | .mgets keys => keys.map .get
  | .sets key value expireTime => [.set key (· + MemoryCache.capped maxTtl expireTime) value]
  | .setManys data expireTime => data.map fun pair =>
      .set pair.1 (· + MemoryCache.capped maxTtl expireTime) pair.2
  | .deletes key => [.drop key]
  | .clears => [.clear]

/-- A call that sets values, and so prunes the cache. -/
def MemoryCache.Call.IsSet : MemoryCache.Call κ β → Prop
  | .sets .. => True
  | .setManys data _ => data ≠ []
  | _ => False

namespace MemoryCache

/-- Nothing is set after the cache has been cleared. -/
def SetsFirst (calls : List (Call κ β)) : Prop :=
  calls.Pairwise fun earlier later => earlier = .clears → ¬ later.IsSet

theorem setsFirst_of_notMem {calls : List (Call κ β)} (h : .clears ∉ calls) : SetsFirst calls :=
  List.pairwise_of_forall_mem_list fun _ hearlier _ _ hclears _ => h (hclears ▸ hearlier)

variable [DecidableEq κ] {clock : Nat → ℚ} {tidy left : Prop}

/-- The calls are those of a bounded expiring map. -/
def BoundedMap (clock : Nat → ℚ) (c : MemoryCache κ β) (calls : List (Call κ β)) : Prop :=
  ∃ c' results, c.run clock calls = (c', .ok results) ∧ c'.cache.length ≤ c.maxSize ∧
    ∃ last m, Runs c.maxSize (clock c.reads) ExpiringMap.empty
      (calls.flatMap (Call.acts c.maxTtl)) results last m

/-! ## Calls of a sound cache -/

/-- The state of a cache whose values are those of a map. A tidy one was never cleared. -/
structure Sound (clock : Nat → ℚ) (tidy : Prop) (c : MemoryCache κ β) (m : ExpiringMap κ ℚ β) :
    Prop where
  held : m.Held (clock c.reads) c.cache
  room : c.cache.length ≤ c.maxSize
  some : 1 ≤ c.maxSize
  own : tidy → c.kept = none

/-- From one sound state to another, over acts on the map. -/
structure Follows (clock : Nat → ℚ) (left : Prop) (c : MemoryCache κ β) (m : ExpiringMap κ ℚ β)
    (acts : List (Act κ ℚ β)) (results : List (Option β)) (c' : MemoryCache κ β)
    (m' : ExpiringMap κ ℚ β) : Prop where
  sound : c'.Sound clock left m'
  maxTtl : c'.maxTtl = c.maxTtl
  maxSize : c'.maxSize = c.maxSize
  runs : Runs c.maxSize (clock c.reads) m acts results (clock c'.reads) m'

variable {c c' c'' : MemoryCache κ β} {m m' m'' : ExpiringMap κ ℚ β} {acts acts' : List (Act κ ℚ β)}
  {results results' : List (Option β)}

theorem Follows.trans (h : Follows clock tidy c m acts results c' m')
    (h' : Follows clock left c' m' acts' results' c'' m'') :
    Follows clock left c m (acts ++ acts') (results ++ results') c'' m'' where
  sound := h'.sound
  maxTtl := h'.maxTtl.trans h.maxTtl
  maxSize := h'.maxSize.trans h.maxSize
  runs := by
    have hruns := h'.runs
    rw [h.maxSize] at hruns
    exact h.runs.append hruns

omit [DecidableEq κ] in
theorem Sound.weaken (h : c.Sound clock tidy m) (hleft : left → tidy) : c.Sound clock left m :=
  ⟨h.held, h.room, h.some, fun hown => h.own (hleft hown)⟩

theorem Follows.weaken (h : Follows clock tidy c m acts results c' m') (hleft : left → tidy) :
    Follows clock left c m acts results c' m' :=
  ⟨h.sound.weaken hleft, h.maxTtl, h.maxSize, h.runs⟩

theorem Follows.boundedMap {calls : List (Call κ β)}
    (h : Follows clock left c ExpiringMap.empty (calls.flatMap (Call.acts c.maxTtl)) results c' m')
    (hrun : c.run clock calls = (c', .ok results)) : BoundedMap clock c calls := by
  have hroom := h.sound.room
  rw [h.maxSize] at hroom
  exact ⟨c', results, hrun, hroom, _, m', h.runs⟩

theorem gets_follows (hclock : Monotone clock) (h : c.Sound clock tidy m) (key : κ) :
    Follows clock tidy c m [.get key] [(c.gets clock key).2] (c.gets clock key).1 m := by
  have hlate : clock c.reads ≤ clock (c.reads + 1) := hclock (Nat.le_succ _)
  have hget := h.held.get_eq key
  unfold gets
  split
  next other timestamp result hfind =>
    rw [hfind, Option.bind_some] at hget
    obtain ⟨hmem, hkey⟩ := (List.find?_key h.held.nodup).mp hfind
    split
    next hlive =>
      have hlt : clock c.reads < timestamp := by linarith
      rw [if_pos hlt] at hget
      have hruns : Runs c.maxSize (clock c.reads) m [.get key] [m.get (clock c.reads) key]
          (clock (c.reads + 1)) m := .get le_rfl (.done hlate)
      rw [hget] at hruns
      exact ⟨⟨h.held.mono hlate, h.room, h.some, h.own⟩, rfl, rfl, hruns⟩
    next hexpired =>
      have hge : ¬ clock c.reads < timestamp := by
        intro hlt
        exact hexpired (by linarith)
      rw [if_neg hge] at hget
      have hruns : Runs c.maxSize (clock c.reads) m [.get key] [m.get (clock c.reads) key]
          (clock (c.reads + 1)) m := .get le_rfl (.done hlate)
      rw [hget] at hruns
      refine ⟨⟨(h.held.filter ?_).mono hlate, ?_, h.some, h.own⟩, rfl, rfl, hruns⟩
      · intro entry hentry hdropped
        have hsame : entry = (other, timestamp, result) := by
          refine List.inj_on_of_nodup_map h.held.nodup hentry hmem ?_
          rw [hkey]
          simpa using hdropped
        rw [hsame]
        exact not_lt.mp hge
      · exact (List.length_dropKey_le _ _).trans h.room
  next hfind =>
    rw [hfind, Option.bind_none] at hget
    have hruns : Runs c.maxSize (clock c.reads) m [.get key] [m.get (clock c.reads) key]
        (clock c.reads) m := .get le_rfl (.done le_rfl)
    rw [hget] at hruns
    exact ⟨h, rfl, rfl, hruns⟩

theorem mgets_follows (hclock : Monotone clock) (h : c.Sound clock tidy m) (keys : List κ) :
    Follows clock tidy c m (keys.map .get) (c.mgets clock keys).2 (c.mgets clock keys).1 m := by
  induction keys generalizing c with
  | nil => exact ⟨h, rfl, rfl, .done le_rfl⟩
  | cons key keys ih =>
      have hfirst := gets_follows hclock h key
      exact hfirst.trans (ih hfirst.sound)

theorem deletes_follows (h : c.Sound clock tidy m) (key : κ) :
    Follows clock tidy c m [.drop key] [] (c.deletes key) (m.drop key) where
  sound := ⟨h.held.drop key, (List.length_dropKey_le _ _).trans h.room, h.some, h.own⟩
  maxTtl := rfl
  maxSize := rfl
  runs := .drop (.done le_rfl)

/-- Deleting keys that are there leaves the other entries. -/
theorem delEach_ok {keys : List κ} (hnodup : keys.Nodup)
    (hkeys : ∀ key ∈ keys, key ∈ c.cache.map Prod.fst) : c.delEach keys =
      ({ c with cache := c.cache.filter fun entry => entry.1 ∉ keys }, .ok ()) := by
  induction keys generalizing c with
  | nil => simp [delEach]
  | cons key keys ih =>
      obtain ⟨hnew, hrest⟩ := List.nodup_cons.mp hnodup
      have hleft : ∀ other ∈ keys, other ∈ (c.cache.dropKey key).map Prod.fst := by
        intro other hother
        rw [List.map_fst_dropKey, List.mem_filter]
        refine ⟨hkeys other (List.mem_cons_of_mem key hother), ?_⟩
        have hne : other ≠ key := by
          rintro rfl
          exact hnew hother
        simpa using hne
      have hih := @ih { c with cache := c.cache.dropKey key } hrest hleft
      rw [delEach, if_pos (hkeys key (by simp)), hih]
      simp only [List.dropKey, List.filter_filter]
      congr 2
      apply List.filter_congr
      intro entry _
      simp [Bool.and_comm]

/-- What `prune` leaves has room for one more, and has forgotten no more than it may. -/
theorem prune_spec (hclock : Monotone clock) (htidy : tidy) (h : c.Sound clock tidy m) :
    ∃ cache room, c.prune clock = ({ c with cache, reads := c.reads + 1 }, .ok ()) ∧
      cache.length < c.maxSize ∧ room.Held (clock (c.reads + 1)) cache ∧
      (room = m ∨ m.Full c.maxSize (clock c.reads) ∧ ∃ victim, room = m.drop victim) := by
  have hlate : clock c.reads ≤ clock (c.reads + 1) := hclock (Nat.le_succ _)
  have hitems : c.items = c.cache := by
    rw [items, h.own htidy]
    rfl
  set expired : List κ :=
    (c.items.filter fun entry => entry.2.1 - clock c.reads < 0).map Prod.fst with hexpired
  have hsublist : expired.Sublist (c.cache.map Prod.fst) := by
    rw [hexpired, hitems]
    exact List.filter_sublist.map _
  have hdeleted := @delEach_ok _ _ _ { c with reads := c.reads + 1 } expired
    (h.held.nodup.sublist hsublist) fun key hkey => hsublist.subset hkey
  set left := c.cache.filter fun entry => entry.1 ∉ expired with hleft
  have hmem : ∀ entry ∈ c.cache, entry.1 ∈ expired ↔ entry.2.1 < clock c.reads := by
    intro entry hentry
    rw [hexpired, hitems, List.mem_map]
    constructor
    · rintro ⟨old, hold, hkey⟩
      obtain ⟨hold, hlt⟩ := List.mem_filter.mp hold
      rw [← List.inj_on_of_nodup_map h.held.nodup hold hentry hkey]
      simpa using hlt
    · intro hlt
      exact ⟨entry, List.mem_filter.mpr ⟨hentry, by simpa using hlt⟩, rfl⟩
  have hheld : m.Held (clock c.reads) left := by
    refine h.held.filter fun entry hentry hgone => ?_
    have hin : entry.1 ∈ expired := by simpa using hgone
    exact ((hmem entry hentry).mp hin).le
  have hlive : ∀ entry ∈ left, clock c.reads ≤ entry.2.1 := by
    intro entry hentry
    obtain ⟨hentry, hkept⟩ := List.mem_filter.mp hentry
    have hnot : entry.1 ∉ expired := by simpa using hkept
    exact not_lt.mp fun hlt => hnot ((hmem entry hentry).mpr hlt)
  have hown : ({ c with cache := left, reads := c.reads + 1 } : MemoryCache κ β).items = left := by
    simp [items, h.own htidy]
  simp only [prune, ← hexpired, hdeleted, hown]
  by_cases hroom : c.maxSize ≤ left.length
  · rw [if_pos hroom]
    cases hcase : left with
    | nil =>
        have hsome := h.some
        rw [hcase, List.length_nil] at hroom
        omega
    | cons first rest =>
        have hfull := hheld.full hroom hlive
        have hle : left.length ≤ c.cache.length := List.length_filter_le _ _
        rw [hcase] at hheld hle
        refine ⟨(first :: rest).dropKey first.1, m.drop first.1, rfl, ?_,
          (hheld.drop first.1).mono hlate, .inr ⟨hfull, first.1, rfl⟩⟩
        have hmem : first.1 ∈ (first :: rest).map Prod.fst := by simp
        have hshorter := List.length_dropKey_lt hmem
        have hbound := h.room
        omega
  · rw [if_neg hroom]
    exact ⟨left, m, rfl, not_le.mp hroom, hheld.mono hlate, .inl rfl⟩

theorem sets_follows (hclock : Monotone clock) (htidy : tidy) (h : c.Sound clock tidy m) (key : κ)
    (value : β) (expireTime : Option ℚ) :
    ∃ c' m', c.sets clock key value expireTime = (c', .ok ()) ∧
      Follows clock tidy c m [.set key (· + capped c.maxTtl expireTime) value] [] c' m' := by
  obtain ⟨cache, room, hprune, hlength, hheld, hroom⟩ := prune_spec hclock htidy h
  have hlate : clock c.reads ≤ clock (c.reads + 1) := hclock (Nat.le_succ _)
  have hlate' : clock (c.reads + 1) ≤ clock (c.reads + 2) := hclock (Nat.le_succ _)
  set expiry := clock (c.reads + 1) + capped c.maxTtl expireTime with hexpiry
  refine ⟨{ c with cache := cache.setKey (key, expiry, value), reads := c.reads + 2 },
    room.put key expiry value, ?_, ?_⟩
  · simp only [sets, hprune]
    rfl
  · refine ⟨⟨?_, ?_, h.some, h.own⟩, rfl, rfl, .set le_rfl hlate hroom (.done hlate')⟩
    · exact (hheld.put key _ value).mono hlate'
    · exact (List.length_setKey_le cache (key, expiry, value)).trans hlength

theorem setManys_follows (hclock : Monotone clock) (htidy : tidy) (h : c.Sound clock tidy m)
    (data : List (κ × β)) (expireTime : Option ℚ) :
    ∃ c' m', c.setManys clock expireTime data = (c', .ok ()) ∧
      Follows clock tidy c m (Call.acts c.maxTtl (.setManys data expireTime)) [] c' m' := by
  induction data generalizing c m with
  | nil => exact ⟨c, m, rfl, h, rfl, rfl, .done le_rfl⟩
  | cons pair data ih =>
      obtain ⟨c₁, m₁, hset, hfirst⟩ := sets_follows hclock htidy h pair.1 pair.2 expireTime
      obtain ⟨c₂, m₂, hrest, hlater⟩ := ih hfirst.sound
      rw [hfirst.maxTtl] at hlater
      refine ⟨c₂, m₂, ?_, hfirst.trans hlater⟩
      rw [setManys, hset]
      exact hrest

theorem clears_follows (h : c.Sound clock tidy m) :
    Follows clock False c m [.clear] [] c.clears ExpiringMap.empty where
  sound := ⟨.empty, Nat.zero_le _, h.some, False.elim⟩
  maxTtl := rfl
  maxSize := rfl
  runs := .clear (.done le_rfl)

theorem call_follows (hclock : Monotone clock) (h : c.Sound clock tidy m) {next : Call κ β}
    (hset : next.IsSet → tidy) : ∃ c' results m', c.call clock next = (c', .ok results) ∧
      Follows clock (tidy ∧ next ≠ .clears) c m (next.acts c.maxTtl) results c' m' := by
  cases next with
  | gets key => exact ⟨_, _, m, rfl, (gets_follows hclock h key).weaken And.left⟩
  | mgets keys => exact ⟨_, _, m, rfl, (mgets_follows hclock h keys).weaken And.left⟩
  | sets key value expireTime =>
      obtain ⟨c', m', hdone, hfollows⟩ := sets_follows hclock (hset trivial) h key value expireTime
      refine ⟨c', [], m', ?_, hfollows.weaken And.left⟩
      simp only [call, hdone]
      rfl
  | setManys data expireTime =>
      cases data with
      | nil => exact ⟨c, [], m, rfl, h.weaken And.left, rfl, rfl, .done le_rfl⟩
      | cons pair data =>
          obtain ⟨c', m', hdone, hfollows⟩ :=
            setManys_follows hclock (hset (List.cons_ne_nil _ _)) h (pair :: data) expireTime
          refine ⟨c', [], m', ?_, hfollows.weaken And.left⟩
          simp only [call, hdone]
          rfl
  | deletes key => exact ⟨_, [], _, rfl, (deletes_follows h key).weaken And.left⟩
  | clears => exact ⟨_, [], _, rfl, (clears_follows h).weaken fun hleft => hleft.2 rfl⟩

/-- A run in which nothing is set after the cache is cleared. -/
theorem run_follows (hclock : Monotone clock) (h : c.Sound clock tidy m) {calls : List (Call κ β)}
    (hset : ∀ next ∈ calls, next.IsSet → tidy) (hsets : SetsFirst calls) :
    ∃ c' results m', c.run clock calls = (c', .ok results) ∧
      Follows clock (tidy ∧ .clears ∉ calls) c m (calls.flatMap (Call.acts c.maxTtl)) results c'
        m' := by
  induction calls generalizing c m tidy with
  | nil => exact ⟨c, [], m, rfl, h.weaken And.left, rfl, rfl, .done le_rfl⟩
  | cons next calls ih =>
      obtain ⟨hnext, hcalls⟩ := List.pairwise_cons.mp hsets
      obtain ⟨c₁, results, m₁, hcall, hfirst⟩ :=
        call_follows hclock h (hset next List.mem_cons_self)
      obtain ⟨c₂, results', m₂, hrun, hlater⟩ := ih hfirst.sound (fun later hlater hissue =>
        ⟨hset later (List.mem_cons_of_mem _ hlater) hissue,
          fun hclears => hnext later hlater hclears hissue⟩) hcalls
      rw [hfirst.maxTtl] at hlater
      refine ⟨c₂, results ++ results', m₂, ?_, (hfirst.trans hlater).weaken ?_⟩
      · rw [run, hcall]
        simp only [hrun]
        rfl
      · rintro ⟨htidy, hclears⟩
        rw [List.mem_cons, not_or] at hclears
        exact ⟨⟨htidy, Ne.symm hclears.1⟩, hclears.2⟩

omit [DecidableEq κ] in
theorem init_sound (maxTtl : Option ℚ) (maxSize : Option Nat) :
    (init maxTtl maxSize : MemoryCache κ β).Sound clock True ExpiringMap.empty where
  held := .empty
  room := Nat.zero_le _
  some := by
    unfold init
    cases maxSize with
    | none => exact Nat.succ_pos _
    | some size =>
        simp only
        split
        · exact Nat.succ_pos _
        · exact Nat.one_le_iff_ne_zero.mpr (by assumption)
  own _ := rfl

/-- The views are of a dictionary that is no longer the cache. -/
structure Detached (c : MemoryCache κ β) (size : Nat) (old : List (κ × ℚ × β)) : Prop where
  room : c.maxSize = size
  kept : c.kept = some old
  nodup : (old.map Prod.fst).Nodup
  -- where the old dictionary is full nothing gets into the new one
  crowded : size ≤ old.length → c.cache = []

/-- An expired key of the old dictionary that the cache does not have. -/
def Gone (clock : Nat → ℚ) (c : MemoryCache κ β) (old : List (κ × ℚ × β)) : Prop :=
  ∃ entry ∈ old, entry.2.1 < clock c.reads ∧ entry.1 ∉ c.cache.map Prod.fst

section Detached

variable {size : Nat} {old : List (κ × ℚ × β)}

/-- Deleting a key that is not there raises. -/
theorem delEach_error {keys : List κ} {key : κ} (hkey : key ∈ keys)
    (hgone : key ∉ c.cache.map Prod.fst) : (c.delEach keys).2 = .error .keyError := by
  induction keys generalizing c with
  | nil => cases hkey
  | cons first keys ih =>
      rw [delEach]
      split
      next hfirst =>
        have hrest : key ∈ keys := by
          rcases List.mem_cons.mp hkey with rfl | hrest
          · exact absurd hfirst hgone
          · exact hrest
        refine ih hrest ?_
        rw [List.map_fst_dropKey]
        exact fun hmem => hgone (List.mem_filter.mp hmem).1
      next => rfl

/-- Pruning a detached cache deletes what has expired in the old dictionary. -/
theorem prune_detached (h : c.Detached size old) (hprune : c.prune clock = (c', .ok ())) :
    ∃ expired : List κ, (∀ key, key ∈ expired ↔ ∃ entry ∈ old, entry.2.1 < clock c.reads ∧
        entry.1 = key) ∧ (∀ key ∈ expired, key ∈ c.cache.map Prod.fst) ∧ old.length < size ∧
      c' = { c with
        cache := c.cache.filter fun entry => entry.1 ∉ expired
        reads := c.reads + 1 } := by
  have hitems : c.items = old := by
    rw [items, h.kept]
    rfl
  simp only [prune, hitems] at hprune
  set expired : List κ :=
    (old.filter fun entry => entry.2.1 - clock c.reads < 0).map Prod.fst with hexpired
  have hmem : ∀ key, key ∈ expired ↔ ∃ entry ∈ old, entry.2.1 < clock c.reads ∧ entry.1 = key := by
    intro key
    simp [hexpired, and_assoc]
  have hin : ∀ key ∈ expired, key ∈ c.cache.map Prod.fst := by
    intro key hkey
    by_contra hgone
    have herror := delEach_error (c := { c with reads := c.reads + 1 }) hkey hgone
    split at hprune
    next hdel =>
      rw [hdel] at herror
      cases hprune
    next hdel =>
      rw [hdel] at herror
      cases herror
  have hdeleted := @delEach_ok _ _ _ { c with reads := c.reads + 1 } expired
    (h.nodup.sublist (List.filter_sublist.map _)) hin
  rw [hdeleted] at hprune
  have hitems' : ({ c with
      cache := c.cache.filter fun entry => entry.1 ∉ expired
      reads := c.reads + 1 } : MemoryCache κ β).items = old := by
    rw [items, h.kept]
    rfl
  simp only [hitems'] at hprune
  by_cases hfull : size ≤ old.length
  · rw [if_pos (by rwa [h.room]), h.crowded hfull] at hprune
    simp at hprune
  · rw [if_neg (by rwa [h.room])] at hprune
    exact ⟨expired, hmem, hin, not_le.mp hfull, (Prod.mk.inj hprune).1.symm⟩

/-- A value is set in a detached cache only where no expired key is gone. Under a new key the
cache grows, unless an expired key goes. -/
theorem sets_detached (hclock : Monotone clock) (h : c.Detached size old) {key : κ} {value : β}
    {expireTime : Option ℚ} (hset : c.sets clock key value expireTime = (c', .ok ())) :
    ¬ Gone clock c old ∧ c'.Detached size old ∧
      (∀ other ∈ c'.cache.map Prod.fst, other = key ∨ other ∈ c.cache.map Prod.fst) ∧
      (key ∉ old.map Prod.fst → key ∉ c.cache.map Prod.fst →
        Gone clock c' old ∨ c'.cache.length = c.cache.length + 1) := by
  cases hprune : c.prune clock with
  | mk c₁ done =>
      cases done with
      | error raised => simp [sets, hprune] at hset
      | ok done =>
          obtain ⟨expired, hmem, hin, hroom, rfl⟩ := prune_detached h hprune
          simp only [sets, hprune, Prod.mk.injEq, and_true] at hset
          subst hset
          refine ⟨?_, ⟨h.room, h.kept, h.nodup, fun hfull => absurd hfull (not_le.mpr hroom)⟩, ?_, ?_⟩
          · rintro ⟨entry, hentry, hlt, hgone⟩
            exact hgone (hin _ ((hmem _).mpr ⟨entry, hentry, hlt, rfl⟩))
          · intro other hother
            obtain ⟨entry, hentry, rfl⟩ := List.mem_map.mp hother
            rcases List.mem_setKey.mp hentry with rfl | ⟨-, hentry⟩
            · exact .inl rfl
            · exact .inr (List.mem_map_of_mem (List.mem_filter.mp hentry).1)
          · intro hfresh hnew
            cases hcase : expired with
            | nil =>
                refine .inr ?_
                simp only [List.not_mem_nil, not_false_eq_true, decide_true, List.filter_true]
                exact List.length_setKey_of_notMem hnew
            | cons first rest =>
                have hfirst : first ∈ expired := by simp [hcase]
                obtain ⟨entry, hentry, hlt, rfl⟩ := (hmem first).mp hfirst
                refine .inl ⟨entry, hentry, hlt.trans_le (hclock (Nat.le_add_right _ 2)), ?_⟩
                rw [← hcase]
                intro hthere
                obtain ⟨other, hother, hkey⟩ := List.mem_map.mp hthere
                rcases List.mem_setKey.mp hother with rfl | ⟨-, hother⟩
                · exact hfresh (List.mem_map.mpr ⟨entry, hentry, hkey.symm⟩)
                · have hkept := (List.mem_filter.mp hother).2
                  rw [hkey] at hkept
                  exact of_decide_eq_true hkept hfirst

theorem gets_detached (h : c.Detached size old) (key : κ) :
    (c.gets clock key).1.Detached size old := by
  have hempty : ∀ cache : List (κ × ℚ × β), cache = [] → cache.dropKey key = [] := by
    rintro cache rfl
    rfl
  unfold gets
  split
  · split
    · exact ⟨h.room, h.kept, h.nodup, h.crowded⟩
    · exact ⟨h.room, h.kept, h.nodup, fun hfull => hempty _ (h.crowded hfull)⟩
  · exact h

theorem mgets_detached (h : c.Detached size old) (keys : List κ) :
    (c.mgets clock keys).1.Detached size old := by
  induction keys generalizing c with
  | nil => exact h
  | cons key keys ih => exact ih (gets_detached h key)

theorem setManys_detached (hclock : Monotone clock) (h : c.Detached size old)
    {data : List (κ × β)} {expireTime : Option ℚ}
    (hset : c.setManys clock expireTime data = (c', .ok ())) : c'.Detached size old := by
  induction data generalizing c with
  | nil =>
      cases hset
      exact h
  | cons pair data ih =>
      rw [setManys] at hset
      split at hset
      · cases hset
      next c₁ hfirst => exact ih (sets_detached hclock h hfirst).2.1 hset

theorem call_detached (hclock : Monotone clock) (h : c.Detached size old) {next : Call κ β}
    (hcall : c.call clock next = (c', .ok results)) : c'.Detached size old := by
  cases next with
  | gets key =>
      cases hcall
      exact gets_detached h key
  | mgets keys =>
      cases hcall
      exact mgets_detached h keys
  | sets key value expireTime =>
      simp only [call] at hcall
      obtain ⟨rfl, hdone⟩ := Prod.mk.inj hcall
      cases hset : c.sets clock key value expireTime with
      | mk c₁ done =>
          rw [hset] at hdone
          cases done with
          | error raised => cases hdone
          | ok done => exact (sets_detached hclock h hset).2.1
  | setManys data expireTime =>
      simp only [call] at hcall
      obtain ⟨rfl, hdone⟩ := Prod.mk.inj hcall
      cases hset : c.setManys clock expireTime data with
      | mk c₁ done =>
          rw [hset] at hdone
          cases done with
          | error raised => cases hdone
          | ok done => exact setManys_detached hclock h hset
  | deletes key =>
      cases hcall
      refine ⟨h.room, h.kept, h.nodup, fun hfull => ?_⟩
      rw [deletes, h.crowded hfull]
      rfl
  | clears =>
      cases hcall
      refine ⟨h.room, ?_, h.nodup, fun _ => rfl⟩
      rw [clears, items, h.kept]
      rfl

end Detached

/-- A run over calls and then others. -/
theorem run_append_ok (calls : List (Call κ β)) {more : List (Call κ β)}
    (h : c.run clock (calls ++ more) = (c', .ok results)) : ∃ c₁ before after,
      c.run clock calls = (c₁, .ok before) ∧ c₁.run clock more = (c', .ok after) := by
  induction calls generalizing c results with
  | nil => exact ⟨c, [], results, rfl, h⟩
  | cons next calls ih =>
      rw [List.cons_append, run] at h
      cases hcall : c.call clock next with
      | mk c₂ answer =>
          cases answer with
          | error raised => simp [hcall] at h
          | ok first =>
              simp only [hcall] at h
              cases hrest : c₂.run clock (calls ++ more) with
              | mk c₃ later =>
                  rw [hrest] at h
                  obtain ⟨rfl, hlater⟩ := Prod.mk.inj h
                  cases later with
                  | error raised => cases hlater
                  | ok later =>
                      obtain ⟨c₁, before, after, hbefore, hafter⟩ := ih hrest
                      refine ⟨c₁, first ++ before, after, ?_, hafter⟩
                      rw [run, hcall]
                      simp only [hbefore]
                      rfl

theorem run_detached (hclock : Monotone clock) {size : Nat} {old : List (κ × ℚ × β)}
    (h : c.Detached size old) {calls : List (Call κ β)}
    (hrun : c.run clock calls = (c', .ok results)) : c'.Detached size old := by
  induction calls generalizing c results with
  | nil =>
      cases hrun
      exact h
  | cons next calls ih =>
      obtain ⟨c₁, before, after, hfirst, hrest⟩ := run_append_ok [next] hrun
      cases hcall : c.call clock next with
      | mk c₂ answer =>
          rw [run, hcall] at hfirst
          cases answer with
          | error raised => cases hfirst
          | ok answer =>
              obtain ⟨rfl, -⟩ := Prod.mk.inj hfirst
              exact ih (call_detached hclock h hcall) hrest

/-- A run that does not raise leaves a detached cache behind once the cache is cleared. -/
theorem run_clears (hclock : Monotone clock) (h : c.Sound clock True m) {calls : List (Call κ β)}
    (hclears : .clears ∈ calls) (hrun : c.run clock calls = (c', .ok results)) :
    ∃ old, c'.Detached c.maxSize old := by
  obtain ⟨before, after, rfl, hbefore⟩ := List.eq_append_cons_of_mem hclears
  obtain ⟨c₁, _, m₁, hfirst, hfollows⟩ :=
    run_follows hclock h (fun _ _ _ => trivial) (setsFirst_of_notMem hbefore)
  obtain ⟨c₂, _, later, hsame, hrest⟩ := run_append_ok _ hrun
  rw [hfirst] at hsame
  obtain ⟨rfl, -⟩ := Prod.mk.inj hsame
  have hitems : c₁.items = c₁.cache := by
    rw [items, hfollows.sound.own ⟨trivial, hbefore⟩]
    rfl
  have hcleared : c₁.clears.Detached c.maxSize c₁.cache :=
    ⟨hfollows.maxSize, congrArg some hitems, hfollows.sound.held.nodup, fun _ => rfl⟩
  obtain ⟨c₃, _, _, hclear, hafter⟩ := run_append_ok [.clears] hrest
  have hcall : c₁.run clock [.clears] = (c₁.clears, .ok []) := rfl
  rw [hcall] at hclear
  obtain ⟨rfl, -⟩ := Prod.mk.inj hclear
  exact ⟨_, run_detached hclock hcleared hafter⟩

theorem run_sets {key : κ} {value : β} {expireTime : Option ℚ}
    (hrun : c.run clock [.sets key value expireTime] = (c', .ok results)) :
    c.sets clock key value expireTime = (c', .ok ()) := by
  simp only [run, call] at hrun
  cases hset : c.sets clock key value expireTime with
  | mk c₁ done =>
      rw [hset] at hrun
      cases done with
      | error raised => simp [Except.map] at hrun
      | ok done =>
          obtain ⟨rfl, -⟩ := Prod.mk.inj hrun
          rfl

/-- Values set under new keys fill a detached cache, or an expired key goes. -/
theorem run_fills (hclock : Monotone clock) {size : Nat} {old : List (κ × ℚ × β)}
    (h : c.Detached size old) {keys : List κ} (value : β) (hnodup : keys.Nodup)
    (hfresh : ∀ key ∈ keys, key ∉ old.map Prod.fst ∧ key ∉ c.cache.map Prod.fst)
    (hrun : c.run clock (keys.map fun key => .sets key value none) = (c', .ok results)) :
    Gone clock c' old ∨ c'.cache.length = c.cache.length + keys.length := by
  induction keys generalizing c results with
  | nil =>
      cases hrun
      exact .inr rfl
  | cons key keys ih =>
      obtain ⟨hnew, hnodup⟩ := List.nodup_cons.mp hnodup
      obtain ⟨c₁, _, later, hfirst, hrest⟩ := run_append_ok [.sets key value none] hrun
      obtain ⟨-, hdetached, hkeys, hgrows⟩ := sets_detached hclock h (run_sets hfirst)
      obtain ⟨hold, hcache⟩ := hfresh key (by simp)
      have hleft : ∀ other ∈ keys, other ∉ old.map Prod.fst ∧ other ∉ c₁.cache.map Prod.fst := by
        intro other hother
        obtain ⟨hold, hcache⟩ := hfresh other (List.mem_cons_of_mem key hother)
        refine ⟨hold, fun hin => ?_⟩
        rcases hkeys other hin with rfl | hin
        · exact hnew hother
        · exact hcache hin
      rcases hgrows hold hcache with hgone | hlength
      · -- nothing more can be set
        cases keys with
        | nil =>
            cases hrest
            exact .inl hgone
        | cons next keys =>
            obtain ⟨c₂, _, _, hnext, -⟩ := run_append_ok [.sets next value none] hrest
            exact absurd hgone (sets_detached hclock hdetached (run_sets hnext)).1
      · rcases ih hdetached hnodup hleft hrest with hgone | hfilled
        · exact .inl hgone
        · refine .inr ?_
          rw [hfilled, hlength, List.length_cons]
          omega

end MemoryCache

end Blurt.Jussi
