import Blurt.Plugins.PruningLaws

/-! # Pruning in the store

What the account_history_rocksdb plugin has written, flushed or not, is an info for each account and
the entries that the info says. A pruning keeps this only if it drops one entry.
-/

namespace Blurt

namespace AccountHistory

open Outcome Retention

/-- The operation of an entry. -/
def Columns.stored (c : Columns) (id s : Nat) : Option OperationObject :=
  ((c.entryById.find? (id, s)).bind fun opId => c.findOperationObject opId).map (·.content)

/-- An info says which entries of an account are stored, and when the oldest was. -/
structure Describes (c : Columns) (info : AccountHistoryInfo) (log : List OperationObject)
    (now : Nat) : Prop where
  newest : info.newestEntryId + 1 = log.length
  retained : Retained (c.stored info.id) 0 30 (Old now) log info.oldestEntryId
  oldest : ∃ x, log[info.oldestEntryId]? = some x ∧ x.timestamp = info.oldestEntryTimestamp

/-- The flushed columns are behind those that the buffered writes lead to. -/
structure Behind (flushed view : Columns) : Prop where
  operations : ∀ id op, flushed.findOperationObject id = some op →
    view.findOperationObject id = some op
  entries : ∀ key opId, flushed.entryById.find? key = some opId →
    (flushed.findOperationObject opId).isSome ∧
      ∀ later, view.entryById.find? key = some later → later = opId
  used : ∀ key, (flushed.entryById.find? key).isSome →
    ∃ name info, view.infoByName.find? name = some info ∧ info.id = key.1 ∧
      key.2 ≤ info.newestEntryId

namespace RecordPlugin

variable (nameOfKey : Nat × Nat → Option AccountName)

/-- What the plugin has recorded of the operations of each account. -/
structure Recorded (p : RecordPlugin) (logs : AccountName → List OperationObject) (now : Nat) :
    Prop where
  cached : ∀ name, p.getAHInfo name = (p.view nameOfKey).infoByName.find? name
  operations : ∀ id, ((p.view nameOfKey).findOperationObject id).isSome ↔ id < p.operationSeqId
  refers : ∀ key opId, (p.view nameOfKey).entryById.find? key = some opId →
    ((p.view nameOfKey).findOperationObject opId).isSome
  given : ∀ name info, (p.view nameOfKey).infoByName.find? name = some info →
    info.id < p.accountHistorySeqId
  distinct : ∀ name other info info', (p.view nameOfKey).infoByName.find? name = some info →
    (p.view nameOfKey).infoByName.find? other = some info' → info.id = info'.id → name = other
  owned : ∀ key opId, (p.view nameOfKey).entryById.find? key = some opId →
    ∃ name info, (p.view nameOfKey).infoByName.find? name = some info ∧ info.id = key.1
  behind : Behind p.storage (p.view nameOfKey)
  absent : ∀ name, (p.view nameOfKey).infoByName.find? name = none → logs name = []
  present : ∀ name info, (p.view nameOfKey).infoByName.find? name = some info →
    Describes (p.view nameOfKey) info (logs name) now

/-- What the visit of an account changes: its info and its entries. -/
structure Visited (p p' : RecordPlugin) (name : AccountName) (obj : OperationObject)
    (info : AccountHistoryInfo) : Prop where
  storage : p'.storage = p.storage
  operationSeqId : p'.operationSeqId = p.operationSeqId
  operations : ∀ id, (p'.view nameOfKey).findOperationObject id =
    (p.view nameOfKey).findOperationObject id
  cache : ∀ other, p'.getAHInfo other = if other = name then some info else p.getAHInfo other
  infos : ∀ other, (p'.view nameOfKey).infoByName.find? other =
    if other = name then some info else (p.view nameOfKey).infoByName.find? other
  entries : ∀ key opId, (p'.view nameOfKey).entryById.find? key = some opId →
    (key = (info.id, info.newestEntryId) ∧ opId = obj.id) ∨
      (p.view nameOfKey).entryById.find? key = some opId
  others : ∀ key, key.1 ≠ info.id →
    (p'.view nameOfKey).entryById.find? key = (p.view nameOfKey).entryById.find? key
  known : ∀ old, (p.view nameOfKey).infoByName.find? name = some old →
    info.id = old.id ∧ old.newestEntryId < info.newestEntryId
  fresh : (p.view nameOfKey).infoByName.find? name = none → info.id = p.accountHistorySeqId
  given : p.accountHistorySeqId ≤ p'.accountHistorySeqId ∧ info.id < p'.accountHistorySeqId

variable {nameOfKey} {p : RecordPlugin} {name : AccountName} {now : Nat}
  {logs : AccountName → List OperationObject}

/-! ## Writes -/

theorem view_write (p : RecordPlugin) (w : Write) :
    (p.write w).view nameOfKey = (p.view nameOfKey).write nameOfKey w := by
  unfold view write
  rw [List.foldl_append]
  rfl

theorem view_putAHInfo (p : RecordPlugin) (name : AccountName) (info : AccountHistoryInfo) :
    (p.putAHInfo name info).view nameOfKey =
      (p.view nameOfKey).write nameOfKey (.info name info) :=
  view_write p (.info name info)

theorem getAHInfo_putAHInfo (p : RecordPlugin) (name : AccountName) (info : AccountHistoryInfo)
    (other : AccountName) : (p.putAHInfo name info).getAHInfo other =
      if other = name then some info else p.getAHInfo other := by
  unfold getAHInfo putAHInfo
  dsimp only
  rw [Store.find?_set]
  by_cases hother : other = name
  · rw [if_pos hother, if_pos hother]
  · rw [if_neg hother, if_neg hother]
    rfl

theorem Recorded.later {later : Nat} (h : p.Recorded nameOfKey logs now) (hlater : now ≤ later) :
    p.Recorded nameOfKey logs later :=
  { h with present := fun name info hinfo =>
      { h.present name info hinfo with
        retained := (h.present name info hinfo).retained.mono fun _ => Old.later hlater } }

theorem Recorded.visited {p' : RecordPlugin} {obj : OperationObject} {info : AccountHistoryInfo}
    (h : p.Recorded nameOfKey logs now) (hv : Visited nameOfKey p p' name obj info)
    (hobj : ((p.view nameOfKey).findOperationObject obj.id).isSome)
    (hdescribes : Describes (p'.view nameOfKey) info (logs name ++ [obj.content]) now) :
    p'.Recorded nameOfKey (Function.update logs name (logs name ++ [obj.content])) now := by
  -- no other account has the id
  have hforeign : ∀ other old, other ≠ name → (p.view nameOfKey).infoByName.find? other = some old →
      old.id ≠ info.id := by
    intro other old hother hold hid
    cases hname : (p.view nameOfKey).infoByName.find? name with
    | none =>
      have hlt := h.given other old hold
      rw [hid, hv.fresh hname] at hlt
      exact Nat.lt_irrefl _ hlt
    | some own =>
      rw [(hv.known own hname).1] at hid
      exact hother (h.distinct other name old own hold hname hid)
  -- an info stays, with its id
  have hstays : ∀ other old, (p.view nameOfKey).infoByName.find? other = some old →
      ∃ new, (p'.view nameOfKey).infoByName.find? other = some new ∧ new.id = old.id ∧
        old.newestEntryId ≤ new.newestEntryId := by
    intro other old hold
    rw [hv.infos]
    by_cases hother : other = name
    · subst hother
      obtain ⟨hid, hnewer⟩ := hv.known old hold
      exact ⟨info, if_pos rfl, hid, Nat.le_of_lt hnewer⟩
    · exact ⟨old, by rw [if_neg hother, hold], rfl, Nat.le_refl _⟩
  refine ⟨?_, ?_, ?_, ?_, ?_, ?_, ?_, ?_, ?_⟩
  · intro other
    rw [hv.cache, hv.infos, h.cached]
  · intro id
    rw [hv.operations, hv.operationSeqId, h.operations]
  · intro key opId hfind
    rw [hv.operations]
    rcases hv.entries key opId hfind with ⟨-, rfl⟩ | hold
    · exact hobj
    · exact h.refers key opId hold
  · intro other new hnew
    rw [hv.infos] at hnew
    split at hnew
    · cases hnew
      exact hv.given.2
    · exact Nat.lt_of_lt_of_le (h.given other new hnew) hv.given.1
  · intro first second new new' hnew hnew' hid
    rw [hv.infos] at hnew hnew'
    split at hnew
    · rename_i hfirst
      cases hnew
      split at hnew'
      · rename_i hsecond
        rw [hfirst, hsecond]
      · rename_i hsecond
        exact absurd hid.symm (hforeign second new' hsecond hnew')
    · rename_i hfirst
      split at hnew'
      · cases hnew'
        exact absurd hid (hforeign first new hfirst hnew)
      · exact h.distinct first second new new' hnew hnew' hid
  · intro key opId hfind
    rcases hv.entries key opId hfind with ⟨rfl, -⟩ | hold
    · exact ⟨name, info, by rw [hv.infos, if_pos rfl], rfl⟩
    · obtain ⟨other, old, hinfo, hid⟩ := h.owned key opId hold
      obtain ⟨new, hnew, hsame, -⟩ := hstays other old hinfo
      exact ⟨other, new, hnew, hsame.trans hid⟩
  · rw [hv.storage]
    refine ⟨fun id op hop => ?_, fun key opId hfind => ?_, fun key hkey => ?_⟩
    · rw [hv.operations]
      exact h.behind.operations id op hop
    · obtain ⟨hop, hsame⟩ := h.behind.entries key opId hfind
      refine ⟨hop, fun later hlater => ?_⟩
      rcases hv.entries key later hlater with ⟨rfl, -⟩ | hold
      · -- the number of a new entry was never used
        obtain ⟨other, old, hinfo, hid, hle⟩ := h.behind.used _ (by rw [hfind]; rfl)
        by_cases hother : other = name
        · subst hother
          have hnewer := (hv.known old hinfo).2
          dsimp only at hle
          omega
        · exact absurd hid (hforeign other old hother hinfo)
      · exact hsame later hold
    · obtain ⟨other, old, hinfo, hid, hle⟩ := h.behind.used key hkey
      obtain ⟨new, hnew, hsame, hnewer⟩ := hstays other old hinfo
      exact ⟨other, new, hnew, hsame.trans hid, Nat.le_trans hle hnewer⟩
  · intro other hnone
    rw [hv.infos] at hnone
    split at hnone
    · cases hnone
    · rename_i hother
      rw [Function.update_of_ne hother]
      exact h.absent other hnone
  · intro other new hnew
    rw [hv.infos] at hnew
    split at hnew
    · rename_i hother
      cases hnew
      rw [hother, Function.update_self]
      exact hdescribes
    · rename_i hother
      rw [Function.update_of_ne hother]
      have hdescribed := h.present other new hnew
      have hsame : (p'.view nameOfKey).stored new.id = (p.view nameOfKey).stored new.id := by
        funext s
        unfold Columns.stored
        rw [hv.others _ (hforeign other new hother hnew)]
        congr 2
        funext opId
        exact hv.operations opId
      exact { hdescribed with retained := hsame ▸ hdescribed.retained }

/-! ## Visits -/

/-- What happens before the info and the entry are written: the entries of an account may change. -/
structure Trimmed (nameOfKey : Nat × Nat → Option AccountName) (p q : RecordPlugin) (id : Nat) :
    Prop where
  storage : q.storage = p.storage
  operationSeqId : q.operationSeqId = p.operationSeqId
  operations : ∀ opId, (q.view nameOfKey).findOperationObject opId =
    (p.view nameOfKey).findOperationObject opId
  cache : ∀ other, q.getAHInfo other = p.getAHInfo other
  infos : ∀ other, (q.view nameOfKey).infoByName.find? other =
    (p.view nameOfKey).infoByName.find? other
  entries : ∀ key opId, (q.view nameOfKey).entryById.find? key = some opId →
    (p.view nameOfKey).entryById.find? key = some opId
  others : ∀ key, key.1 ≠ id →
    (q.view nameOfKey).entryById.find? key = (p.view nameOfKey).entryById.find? key
  given : p.accountHistorySeqId ≤ q.accountHistorySeqId

theorem Trimmed.refl (p : RecordPlugin) (id : Nat) : Trimmed nameOfKey p p id :=
  ⟨rfl, rfl, fun _ => rfl, fun _ => rfl, fun _ => rfl, fun _ _ h => h, fun _ _ => rfl,
    Nat.le_refl _⟩

/-- The info and the entry of an operation are written. -/
def noted (q : RecordPlugin) (name : AccountName) (info : AccountHistoryInfo) (opId : Nat) :
    RecordPlugin :=
  (q.putAHInfo name info).write (.entry (info.id, info.newestEntryId) opId)

theorem view_noted (q : RecordPlugin) (name : AccountName) (info : AccountHistoryInfo)
    (opId : Nat) : (q.noted name info opId).view nameOfKey =
      { q.view nameOfKey with
        infoByName := (q.view nameOfKey).infoByName.set name info
        entryById := (q.view nameOfKey).entryById.set (info.id, info.newestEntryId) opId } := by
  unfold noted
  rw [view_write, view_putAHInfo]
  rfl

theorem Trimmed.visited {q : RecordPlugin} {obj : OperationObject} {info : AccountHistoryInfo}
    (h : Trimmed nameOfKey p q info.id)
    (hknown : ∀ old, (p.view nameOfKey).infoByName.find? name = some old →
      info.id = old.id ∧ old.newestEntryId < info.newestEntryId)
    (hfresh : (p.view nameOfKey).infoByName.find? name = none → info.id = p.accountHistorySeqId)
    (hgiven : info.id < q.accountHistorySeqId) :
    Visited nameOfKey p (q.noted name info obj.id) name obj info where
  storage := h.storage
  operationSeqId := h.operationSeqId
  operations opId := by
    rw [view_noted]
    exact h.operations opId
  cache other := by
    rw [← h.cache]
    exact getAHInfo_putAHInfo q name info other
  infos other := by
    rw [view_noted, ← h.infos]
    exact Store.find?_set _ _ _ _
  entries key opId hfind := by
    rw [view_noted, Store.find?_set] at hfind
    split at hfind
    · rename_i hkey
      exact Or.inl ⟨hkey, (Option.some.inj hfind).symm⟩
    · exact Or.inr (h.entries key opId hfind)
  others key hkey := by
    rw [view_noted, ← h.others key hkey]
    exact Store.find?_set_of_ne (fun hsame => hkey (congrArg Prod.fst hsame)) _ _
  known := hknown
  fresh := hfresh
  given := ⟨h.given, hgiven⟩

theorem stored_noted {q : RecordPlugin} {obj op : OperationObject} {info : AccountHistoryInfo}
    (hobj : (q.view nameOfKey).findOperationObject obj.id = some op) (s : Nat) :
    ((q.noted name info obj.id).view nameOfKey).stored info.id s =
      if s = info.newestEntryId then some op.content
      else (q.view nameOfKey).stored info.id s := by
  rw [view_noted]
  unfold Columns.stored
  dsimp only
  by_cases hs : s = info.newestEntryId
  · rw [if_pos hs, hs, Store.find?_set_self, Option.bind_some]
    exact congrArg _ hobj
  · rw [if_neg hs, Store.find?_set_of_ne fun hkey => hs (congrArg Prod.snd hkey)]

/-- The entries of an account when one more is noted. -/
theorem describes_noted {q : RecordPlugin} {obj : OperationObject} {info : AccountHistoryInfo}
    {log : List OperationObject}
    (hobj : (q.view nameOfKey).findOperationObject obj.id = some obj)
    (hnewest : info.newestEntryId = log.length)
    (hretained : Retained ((q.view nameOfKey).stored info.id) 0 30 (Old now) log
      info.oldestEntryId)
    (holdest : ∃ x, (log ++ [obj.content])[info.oldestEntryId]? = some x ∧
      x.timestamp = info.oldestEntryTimestamp) :
    Describes ((q.noted name info obj.id).view nameOfKey) info (log ++ [obj.content]) now where
  newest := by
    rw [hnewest, List.length_append, List.length_singleton]
  retained := by
    apply hretained.append
    intro s
    rw [stored_noted hobj, hnewest, Nat.zero_add]
  oldest := holdest

/-! ### A new account -/

theorem Recorded.visit_new {obj : OperationObject} (h : p.Recorded nameOfKey logs now)
    (hobj : (p.view nameOfKey).findOperationObject obj.id = some obj)
    (hnone : p.getAHInfo name = none) :
    ∃ info, Visited nameOfKey p (buildAccountHistoryRecord true obj p name) name obj info ∧
      Describes ((buildAccountHistoryRecord true obj p name).view nameOfKey) info
        (logs name ++ [obj.content]) now := by
  have hinfo := hnone
  rw [h.cached] at hinfo
  have hbuild : buildAccountHistoryRecord true obj p name =
      noted { p with accountHistorySeqId := p.accountHistorySeqId + 1 } name
        { id := p.accountHistorySeqId
          oldestEntryId := 0
          newestEntryId := 0
          oldestEntryTimestamp := obj.timestamp } obj.id := by
    unfold buildAccountHistoryRecord
    rw [hnone]
    rfl
  have htrimmed : Trimmed nameOfKey p
      { p with accountHistorySeqId := p.accountHistorySeqId + 1 } p.accountHistorySeqId :=
    { Trimmed.refl p p.accountHistorySeqId with given := Nat.le_succ _ }
  rw [hbuild]
  refine ⟨_, Trimmed.visited htrimmed (fun old hold => ?_) (fun _ => rfl) (Nat.lt_succ_self _), ?_⟩
  · rw [hinfo] at hold
    cases hold
  · rw [h.absent name hinfo]
    refine describes_noted hobj rfl ?_ ⟨obj.content, rfl, rfl⟩
    -- an entry under the new id has an owner
    have hempty : (p.view nameOfKey).stored p.accountHistorySeqId = fun _ => none := by
      funext s
      unfold Columns.stored
      cases hfind : (p.view nameOfKey).entryById.find? (p.accountHistorySeqId, s) with
      | none => rfl
      | some opId =>
        obtain ⟨other, info, hother, hid⟩ := h.owned _ _ hfind
        have hlt := h.given other info hother
        rw [hid] at hlt
        exact absurd hlt (Nat.lt_irrefl _)
    exact hempty ▸ Retained.empty 0 30 (Old now)

/-! ### An account without a pruning -/

/-- The info of an account with one more entry. -/
theorem Recorded.visit_noted {obj : OperationObject} {q : RecordPlugin}
    {info kept : AccountHistoryInfo} (h : p.Recorded nameOfKey logs now)
    (hobj : (p.view nameOfKey).findOperationObject obj.id = some obj)
    (hinfo : (p.view nameOfKey).infoByName.find? name = some info)
    (htrimmed : Trimmed nameOfKey p q info.id)
    (hid : kept.id = info.id) (hnewest : kept.newestEntryId = info.newestEntryId)
    (hkept : Describes (q.view nameOfKey) kept (logs name) now) :
    let next := { kept with newestEntryId := kept.newestEntryId + 1 }
    Visited nameOfKey p (q.noted name next obj.id) name obj next ∧
      Describes ((q.noted name next obj.id).view nameOfKey) next (logs name ++ [obj.content])
        now := by
  have hlength := hkept.newest
  obtain ⟨x, hx, htime⟩ := hkept.oldest
  constructor
  · refine Trimmed.visited (by rwa [← hid] at htrimmed) (fun old hold => ?_) (fun hnone => ?_) ?_
    · rw [hinfo] at hold
      cases hold
      exact ⟨hid, Nat.lt_succ_of_le (Nat.le_of_eq hnewest.symm)⟩
    · rw [hinfo] at hnone
      cases hnone
    · refine Nat.lt_of_lt_of_le ?_ htrimmed.given
      rw [hid]
      exact h.given name info hinfo
  · refine describes_noted ?_ hlength hkept.retained ⟨x, ?_, htime⟩
    · rw [htrimmed.operations, hobj]
    · rw [List.getElem?_append_left (List.getElem?_eq_some_iff.mp hx).1]
      exact hx

/-! ### A pruning -/

/-- A pruning drops one entry: the second entry of the account is recent, more than 30 behind and
flushed, and no account has the name that the key of the first one reads as. -/
def PrunesOne (nameOfKey : Nat × Nat → Option AccountName) (p : RecordPlugin)
    (info : AccountHistoryInfo) (now : Nat) : Prop :=
  info.oldestEntryId + 31 ≤ info.newestEntryId ∧
  (p.storage.entryById.find? (info.id, info.oldestEntryId)).isSome ∧
  (p.storage.entryById.find? (info.id, info.oldestEntryId + 1)).any (fun opId =>
    (p.storage.findOperationObject opId).any fun op => !tooOld now op.timestamp) ∧
  ∀ other ∈ nameOfKey (info.id, info.oldestEntryId),
    (p.view nameOfKey).infoByName.find? other = none

instance (p : RecordPlugin) (info : AccountHistoryInfo) (now : Nat) :
    Decidable (PrunesOne nameOfKey p info now) := by
  unfold PrunesOne
  infer_instance

theorem mem_iterate {lower upper : Nat × Nat} {row : (Nat × Nat) × Nat} :
    row ∈ p.iterate lower upper ↔ p.storage.entryById.find? row.1 = some row.2 ∧
      entryLe lower row.1 ∧ ¬ entryLe upper row.1 := by
  unfold iterate
  rw [List.mem_filter, Store.mem_ordered_iff, decide_eq_true_eq]
  simp only [and_true]

theorem entryLe_total (x y : Nat × Nat) : entryLe x y ∨ entryLe y x := by
  unfold entryLe
  omega

theorem entryLe.trans {x y z : Nat × Nat} (hxy : entryLe x y) (hyz : entryLe y z) :
    entryLe x z := by
  unfold entryLe at *
  omega

theorem entryLe.antisymm {x y : Nat × Nat} (hxy : entryLe x y) (hyx : entryLe y x) : x = y := by
  unfold entryLe at *
  exact Prod.ext (by omega) (by omega)

instance : Std.Total fun x y : (Nat × Nat) × Nat => entryLe x.1 y.1 :=
  ⟨fun _ _ => entryLe_total _ _⟩

instance : IsTrans ((Nat × Nat) × Nat) fun x y => entryLe x.1 y.1 := ⟨fun _ _ _ => entryLe.trans⟩

theorem iterate_sorted (p : RecordPlugin) (lower upper : Nat × Nat) :
    (p.iterate lower upper).Pairwise fun x y => entryLe x.1 y.1 :=
  (List.pairwise_insertionSort _ _).filter _

theorem iterate_nodup (p : RecordPlugin) (lower upper : Nat × Nat) :
    ((p.iterate lower upper).map Prod.fst).Nodup :=
  (Store.ordered_nodup _ _ _).sublist (List.filter_sublist.map _)

/-- The iterator of a pruning starts with the first two entries of the account. -/
theorem iterate_eq_cons_cons {id oldest first second : Nat} {upper : Nat × Nat}
    (hupper : id < upper.1)
    (hfirst : p.storage.entryById.find? (id, oldest) = some first)
    (hsecond : p.storage.entryById.find? (id, oldest + 1) = some second) :
    ∃ rest, p.iterate (id, oldest) upper =
      ((id, oldest), first) :: ((id, oldest + 1), second) :: rest := by
  have hsorted := p.iterate_sorted (id, oldest) upper
  have hnodup := p.iterate_nodup (id, oldest) upper
  have hbelow : ∀ s, ¬ entryLe upper (id, s) := fun s hle => by
    unfold entryLe at hle
    dsimp only at hle
    omega
  have hvalue : ∀ row ∈ p.iterate (id, oldest) upper, ∀ key opId,
      p.storage.entryById.find? key = some opId → row.1 = key → row = (key, opId) := by
    rintro ⟨key, opId⟩ hrow _ _ hfind rfl
    rw [(mem_iterate.mp hrow).1] at hfind
    exact congrArg (Prod.mk key) (Option.some.inj hfind)
  have hmem : ((id, oldest), first) ∈ p.iterate (id, oldest) upper :=
    mem_iterate.mpr ⟨hfirst, Or.inr ⟨rfl, Nat.le_refl _⟩, hbelow _⟩
  have hnext : ((id, oldest + 1), second) ∈ p.iterate (id, oldest) upper :=
    mem_iterate.mpr ⟨hsecond, Or.inr ⟨rfl, Nat.le_succ _⟩, hbelow _⟩
  obtain ⟨rest, hrest⟩ := eq_cons_of_least hsorted hmem
    (fun row hrow => (mem_iterate.mp hrow).2.1)
    (fun row hrow hle hge => hvalue row hrow _ _ hfirst (entryLe.antisymm hle hge))
  have hlater : ∀ row ∈ rest, row ∈ p.iterate (id, oldest) upper := fun row hrow =>
    hrest ▸ List.mem_cons_of_mem _ hrow
  rw [hrest] at hsorted hnodup hnext
  have hother : ((id, oldest + 1), second) ∈ rest := by
    rcases List.mem_cons.mp hnext with heq | hin
    · simp at heq
    · exact hin
  have hleast : ∀ row ∈ rest, entryLe (id, oldest + 1) row.1 := by
    intro row hrow
    have hle := (mem_iterate.mp (hlater row hrow)).2.1
    have hne : row.1 ≠ (id, oldest) := by
      rintro heq
      exact (List.nodup_cons.mp hnodup).1 (List.mem_map.mpr ⟨row, hrow, heq⟩)
    unfold entryLe at *
    by_contra hnot
    exact hne (Prod.ext (by dsimp only at *; omega) (by dsimp only at *; omega))
  obtain ⟨tail, rfl⟩ := eq_cons_of_least (List.pairwise_cons.mp hsorted).2 hother hleast
    (fun row hrow hle hge =>
      hvalue row (hlater row hrow) _ _ hsecond (entryLe.antisymm hle hge))
  exact ⟨tail, hrest⟩

/-- The writes of a pruning that drops one entry. -/
def trimmed (p : RecordPlugin) (key : Nat × Nat) : RecordPlugin :=
  (p.write (.deleteEntry key)).write (.deleteInfo key)

/-- What is deleted in the column of the infos leaves them as they are. -/
theorem Trimmed.trimmed {key : Nat × Nat} (hname : ∀ other ∈ nameOfKey key,
    (p.view nameOfKey).infoByName.find? other = none) :
    Trimmed nameOfKey p (p.trimmed key) key.1 ∧ ∀ s,
      ((p.trimmed key).view nameOfKey).stored key.1 s =
        if s = key.2 then none else (p.view nameOfKey).stored key.1 s := by
  have hview : (p.trimmed key).view nameOfKey =
      ((p.view nameOfKey).write nameOfKey (.deleteEntry key)).write nameOfKey
        (.deleteInfo key) := by
    unfold RecordPlugin.trimmed
    rw [view_write, view_write]
  have hentries : ((p.trimmed key).view nameOfKey).entryById =
      (p.view nameOfKey).entryById.remove key := by
    rw [hview]
    unfold Columns.write
    dsimp only
    split <;> rfl
  have hoperations : ∀ opId, ((p.trimmed key).view nameOfKey).findOperationObject opId =
      (p.view nameOfKey).findOperationObject opId := by
    intro opId
    rw [hview]
    unfold Columns.write
    dsimp only
    split <;> rfl
  have hinfos : ∀ other, ((p.trimmed key).view nameOfKey).infoByName.find? other =
      (p.view nameOfKey).infoByName.find? other := by
    intro other
    rw [hview]
    unfold Columns.write
    dsimp only
    split
    · rename_i gone hgone
      dsimp only
      rw [Store.find?_remove]
      split
      · rename_i hother
        rw [hother, hname gone hgone]
      · rfl
    · rfl
  refine ⟨⟨rfl, rfl, hoperations, fun _ => rfl, hinfos, ?_, ?_, Nat.le_refl _⟩, fun s => ?_⟩
  · intro other opId hfind
    rw [hentries, Store.find?_remove] at hfind
    split at hfind
    · cases hfind
    · exact hfind
  · intro other hother
    rw [hentries, Store.find?_remove, if_neg fun hsame => hother (congrArg Prod.fst hsame)]
  · unfold Columns.stored
    simp only [hoperations]
    rw [hentries, Store.find?_remove]
    by_cases hs : s = key.2
    · rw [if_pos hs, if_pos (show (key.1, s) = key from Prod.ext rfl hs)]
      rfl
    · rw [if_neg hs, if_neg fun hsame => hs (congrArg Prod.snd hsame)]

/-- A flushed operation of an entry is the operation of the log. -/
theorem Recorded.log_of_flushed {info : AccountHistoryInfo} {s opId : Nat} {op : OperationObject}
    (h : p.Recorded nameOfKey logs now)
    (hinfo : (p.view nameOfKey).infoByName.find? name = some info)
    (hs : info.oldestEntryId ≤ s ∧ s ≤ info.newestEntryId)
    (hentry : p.storage.entryById.find? (info.id, s) = some opId)
    (hop : p.storage.findOperationObject opId = some op) :
    (logs name)[s]? = some op.content := by
  have hdescribes := h.present name info hinfo
  have hnewest := hdescribes.newest
  have hthere := (hdescribes.retained.isSome_iff s).mpr (by omega)
  have hlog := hdescribes.retained.stored s
  rw [if_pos (by omega), Nat.sub_zero] at hlog
  rw [← hlog]
  unfold Columns.stored at hthere ⊢
  cases hfind : (p.view nameOfKey).entryById.find? (info.id, s) with
  | none =>
    rw [hfind] at hthere
    cases hthere
  | some later =>
    rw [(h.behind.entries _ _ hentry).2 later hfind, Option.bind_some,
      h.behind.operations _ _ hop, Option.map_some]

/-- A pruning that drops one entry goes on to the second. -/
theorem Recorded.prune_eq {info : AccountHistoryInfo} (h : p.Recorded nameOfKey logs now)
    (hinfo : (p.view nameOfKey).infoByName.find? name = some info)
    (hprunes : PrunesOne nameOfKey p info now) (hold : tooOld now info.oldestEntryTimestamp)
    (hroom : (logs name).length < 2 ^ 32) :
    ∃ op, (logs name)[info.oldestEntryId + 1]? = some op ∧
      p.prunePotentiallyTooOldItems info now =
        (p.trimmed (info.id, info.oldestEntryId),
          { info with
            oldestEntryId := info.oldestEntryId + 1
            oldestEntryTimestamp := op.timestamp }) := by
  obtain ⟨hcount, hthere, hnext, -⟩ := hprunes
  obtain ⟨first, hfirst⟩ := Option.isSome_iff_exists.mp hthere
  obtain ⟨second, hsecond, hnext⟩ := (Option.any_eq_true _ _).mp hnext
  obtain ⟨op, hop, hyoung⟩ := (Option.any_eq_true _ _).mp hnext
  obtain ⟨firstOp, hfirstOp⟩ := Option.isSome_iff_exists.mp (h.behind.entries _ _ hfirst).1
  have hdescribes := h.present name info hinfo
  have hnewest := hdescribes.newest
  -- the first entry is as old as the info says
  obtain ⟨x, hx, htime⟩ := hdescribes.oldest
  have hfirstLog := h.log_of_flushed hinfo ⟨Nat.le_refl _, by omega⟩ hfirst hfirstOp
  have hfirstOld : tooOld now firstOp.timestamp := by
    rw [hx] at hfirstLog
    rw [← htime, Option.some.inj hfirstLog] at hold
    exact hold
  refine ⟨op.content, h.log_of_flushed hinfo ⟨Nat.le_succ _, by omega⟩ hsecond hop, ?_⟩
  have hbound : (info.newestEntryId + 2 ^ 32 - 30 + 1) % 2 ^ 32 = info.newestEntryId - 29 := by
    omega
  obtain ⟨rest, hrest⟩ : ∃ rest, p.iterate (info.id, info.oldestEntryId)
      (info.id + 1, info.newestEntryId - 29) = ((info.id, info.oldestEntryId), first) ::
        ((info.id, info.oldestEntryId + 1), second) :: rest :=
    iterate_eq_cons_cons (Nat.lt_succ_self info.id) hfirst hsecond
  unfold prunePotentiallyTooOldItems
  rw [hbound]
  dsimp only
  rw [hrest, pruneEntries, if_neg (by dsimp only; omega)]
  unfold write
  dsimp only
  rw [hfirstOp, Option.map_some, Option.getD_some, if_pos hfirstOld, pruneEntries,
    if_neg (by dsimp only; omega)]
  unfold write
  dsimp only
  rw [hop, Option.map_some, Option.getD_some, if_neg (by simpa using hyoung)]
  rfl

/-- The account after a pruning. -/
theorem Recorded.describes_pruned {info : AccountHistoryInfo} {op : OperationObject}
    (h : p.Recorded nameOfKey logs now)
    (hinfo : (p.view nameOfKey).infoByName.find? name = some info)
    (hprunes : PrunesOne nameOfKey p info now) (hold : tooOld now info.oldestEntryTimestamp)
    (hop : (logs name)[info.oldestEntryId + 1]? = some op) :
    Describes ((p.trimmed (info.id, info.oldestEntryId)).view nameOfKey)
      { info with
        oldestEntryId := info.oldestEntryId + 1
        oldestEntryTimestamp := op.timestamp } (logs name) now := by
  obtain ⟨hcount, -, -, hname⟩ := hprunes
  have hdescribes := h.present name info hinfo
  have hnewest := hdescribes.newest
  obtain ⟨x, hx, htime⟩ := hdescribes.oldest
  refine ⟨hnewest, hdescribes.retained.drop 1 (by omega) (fun s => ?_) fun i y hi hlt hy => ?_,
    op, hop, rfl⟩
  · rw [(Trimmed.trimmed hname).2]
    by_cases hs : s = info.oldestEntryId
    · rw [if_pos hs, if_pos (by omega)]
    · rw [if_neg hs, if_neg (by omega)]
  · obtain rfl : i = info.oldestEntryId := by omega
    rw [hx] at hy
    refine ⟨by omega, ?_⟩
    unfold Old
    rw [← Option.some.inj hy, htime]
    exact hold

/-- If the visit of an account prunes, it drops one entry. -/
def MeetsVisit (nameOfKey : Nat × Nat → Option AccountName) (obj : OperationObject)
    (p : RecordPlugin) (name : AccountName) : Prop :=
  ∀ info ∈ p.getAHInfo name, 30 < info.getAssociatedOpCount →
    tooOld obj.timestamp info.oldestEntryTimestamp → PrunesOne nameOfKey p info obj.timestamp

instance (obj : OperationObject) (p : RecordPlugin) (name : AccountName) :
    Decidable (MeetsVisit nameOfKey obj p name) := by
  unfold MeetsVisit
  infer_instance

theorem build_known {obj : OperationObject} {q : RecordPlugin} {info kept : AccountHistoryInfo}
    (hget : p.getAHInfo name = some info)
    (hpruned : p.pruneIfDue true info obj.timestamp = (q, kept))
    (hroom : kept.newestEntryId + 1 < 2 ^ 32) :
    buildAccountHistoryRecord true obj p name =
      q.noted name { kept with newestEntryId := kept.newestEntryId + 1 } obj.id := by
  unfold buildAccountHistoryRecord noted
  simp only [hget, hpruned, Nat.mod_eq_of_lt hroom]

theorem Recorded.visit_known {obj : OperationObject} {info : AccountHistoryInfo}
    (h : p.Recorded nameOfKey logs obj.timestamp)
    (hobj : (p.view nameOfKey).findOperationObject obj.id = some obj)
    (hmeets : MeetsVisit nameOfKey obj p name) (hroom : (logs name).length < 2 ^ 32)
    (hget : p.getAHInfo name = some info) :
    ∃ next, Visited nameOfKey p (buildAccountHistoryRecord true obj p name) name obj next ∧
      Describes ((buildAccountHistoryRecord true obj p name).view nameOfKey) next
        (logs name ++ [obj.content]) obj.timestamp := by
  have hinfo := hget
  rw [h.cached] at hinfo
  have hdescribes := h.present name info hinfo
  have hnewest := hdescribes.newest
  have hnext : info.newestEntryId + 1 < 2 ^ 32 := by omega
  by_cases hprune : 30 < info.getAssociatedOpCount ∧
      tooOld obj.timestamp info.oldestEntryTimestamp
  · have hprunes := hmeets info hget hprune.1 hprune.2
    obtain ⟨op, hop, heq⟩ := h.prune_eq hinfo hprunes hprune.2 hroom
    have hpruned : p.pruneIfDue true info obj.timestamp = _ :=
      (if_pos (by simpa using hprune)).trans heq
    rw [build_known hget hpruned hnext]
    exact ⟨_, h.visit_noted hobj hinfo (Trimmed.trimmed hprunes.2.2.2).1 rfl rfl
      (h.describes_pruned hinfo hprunes hprune.2 hop)⟩
  · rw [build_known hget (if_neg (by simpa using hprune)) hnext]
    exact ⟨_, h.visit_noted hobj hinfo (Trimmed.refl p info.id) rfl rfl hdescribes⟩

/-- The visit of an account adds its entry. -/
theorem Recorded.visit {obj : OperationObject} (h : p.Recorded nameOfKey logs obj.timestamp)
    (hobj : (p.view nameOfKey).findOperationObject obj.id = some obj)
    (hmeets : MeetsVisit nameOfKey obj p name) (hroom : (logs name).length < 2 ^ 32) :
    (buildAccountHistoryRecord true obj p name).Recorded nameOfKey
        (Function.update logs name (logs name ++ [obj.content])) obj.timestamp ∧
      ((buildAccountHistoryRecord true obj p name).view nameOfKey).findOperationObject obj.id =
        some obj := by
  obtain ⟨next, hvisited, hdescribes⟩ : ∃ next,
      Visited nameOfKey p (buildAccountHistoryRecord true obj p name) name obj next ∧
        Describes ((buildAccountHistoryRecord true obj p name).view nameOfKey) next
          (logs name ++ [obj.content]) obj.timestamp := by
    cases hget : p.getAHInfo name with
    | none => exact h.visit_new hobj hget
    | some info => exact h.visit_known hobj hmeets hroom hget
  refine ⟨h.visited hvisited ?_ hdescribes, ?_⟩
  · rw [hobj, Option.isSome_some]
  · rw [hvisited.operations, hobj]

end RecordPlugin

end AccountHistory

end Blurt
