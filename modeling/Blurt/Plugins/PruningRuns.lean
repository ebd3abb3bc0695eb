import Blurt.Plugins.StorePruning

/-! # Runs of the history plugins

Both plugins see the same operations. The store is also flushed, and how many operations are
collected before it is flushed changes.
-/

namespace Blurt

namespace AccountHistory

open Outcome Retention

namespace RecordPlugin

variable {nameOfKey : Nat × Nat → Option AccountName} {p : RecordPlugin} {now : Nat}
  {logs : AccountName → List OperationObject}

/-! ## Operations -/

/-- An operation gets the next id. -/
def numbered (p : RecordPlugin) (obj : OperationObject) : OperationObject :=
  { obj with id := p.operationSeqId }

/-- The plugin with an operation written. -/
def withOperation (p : RecordPlugin) (obj : OperationObject) : RecordPlugin :=
  { p.write (.operation (p.numbered obj)) with operationSeqId := p.operationSeqId + 1 }

theorem find_withOperation (p : RecordPlugin) (obj : OperationObject) (id : Nat) :
    ((p.withOperation obj).view nameOfKey).findOperationObject id =
      if id = p.operationSeqId then some (p.numbered obj)
      else (p.view nameOfKey).findOperationObject id := by
  have hview : (p.withOperation obj).view nameOfKey =
      (p.view nameOfKey).write nameOfKey (.operation (p.numbered obj)) :=
    view_write p (.operation (p.numbered obj))
  rw [hview]
  exact Store.find?_set _ _ _ _

theorem view_withOperation (nameOfKey : Nat × Nat → Option AccountName) (p : RecordPlugin)
    (obj : OperationObject) :
    ((p.withOperation obj).view nameOfKey).infoByName = (p.view nameOfKey).infoByName ∧
      ((p.withOperation obj).view nameOfKey).entryById = (p.view nameOfKey).entryById := by
  have hview : (p.withOperation obj).view nameOfKey =
      (p.view nameOfKey).write nameOfKey (.operation (p.numbered obj)) :=
    view_write p (.operation (p.numbered obj))
  rw [hview]
  exact ⟨rfl, rfl⟩

theorem Recorded.withOperation (h : p.Recorded nameOfKey logs now) (obj : OperationObject) :
    (p.withOperation obj).Recorded nameOfKey logs now := by
  obtain ⟨hinfos, hentries⟩ := view_withOperation nameOfKey p obj
  -- the new id was not used
  have hother : ∀ id, ((p.view nameOfKey).findOperationObject id).isSome →
      ((p.withOperation obj).view nameOfKey).findOperationObject id =
        (p.view nameOfKey).findOperationObject id := by
    intro id hid
    rw [find_withOperation, if_neg (Nat.ne_of_lt ((h.operations id).mp hid))]
  refine ⟨?_, ?_, ?_, ?_, ?_, ?_, ⟨?_, ?_, ?_⟩, ?_, ?_⟩
  · intro name
    rw [hinfos]
    exact h.cached name
  · intro id
    have hold := h.operations id
    rw [find_withOperation]
    have hnext : (p.withOperation obj).operationSeqId = p.operationSeqId + 1 := rfl
    split
    · simp only [Option.isSome_some, true_iff]
      omega
    · rw [hold]
      omega
  · intro key opId hfind
    rw [hentries] at hfind
    rw [hother opId (h.refers key opId hfind)]
    exact h.refers key opId hfind
  · rw [hinfos]
    exact h.given
  · rw [hinfos]
    exact h.distinct
  · rw [hinfos, hentries]
    exact h.owned
  · intro id op hop
    have hold := h.behind.operations id op hop
    rw [hother id (by rw [hold, Option.isSome_some]), hold]
  · rw [hentries]
    exact h.behind.entries
  · rw [hinfos]
    exact h.behind.used
  · rw [hinfos]
    exact h.absent
  · intro name info hinfo
    rw [hinfos] at hinfo
    have hsame : ((p.withOperation obj).view nameOfKey).stored info.id =
        (p.view nameOfKey).stored info.id := by
      funext s
      unfold Columns.stored
      rw [hentries]
      cases hfind : (p.view nameOfKey).entryById.find? (info.id, s) with
      | none => rfl
      | some opId =>
        rw [Option.bind_some, Option.bind_some, hother opId (h.refers _ _ hfind)]
    have hdescribed := h.present name info hinfo
    exact { hdescribed with retained := hsame ▸ hdescribed.retained }

theorem Recorded.isSome_stored (h : p.Recorded nameOfKey logs now) (id s : Nat) :
    ((p.view nameOfKey).stored id s).isSome ↔
      ((p.view nameOfKey).entryById.find? (id, s)).isSome := by
  unfold Columns.stored
  cases hfind : (p.view nameOfKey).entryById.find? (id, s) with
  | none => simp
  | some opId => simp [h.refers _ _ hfind]

/-! ## Flushes -/

theorem Recorded.flushBuffer (h : p.Recorded nameOfKey logs now) :
    (p.flushBuffer nameOfKey).Recorded nameOfKey logs now where
  cached _ := rfl
  operations := h.operations
  refers := h.refers
  given := h.given
  distinct := h.distinct
  owned := h.owned
  behind :=
    { operations := fun _ _ hop => hop
      entries := fun key opId hfind => by
        refine ⟨h.refers key opId hfind, fun later hlater => ?_⟩
        have hboth := hfind.symm.trans hlater
        exact (Option.some.inj hboth).symm
      used := fun key hkey => by
        obtain ⟨opId, hfind⟩ := Option.isSome_iff_exists.mp hkey
        obtain ⟨name, info, hinfo, hid⟩ := h.owned key opId hfind
        refine ⟨name, info, hinfo, hid, ?_⟩
        have hdescribes := h.present name info hinfo
        have hnewest := hdescribes.newest
        have hthere : ((p.view nameOfKey).stored info.id key.2).isSome := by
          rw [h.isSome_stored, hid]
          exact hkey
        have hlt := (hdescribes.retained.isSome_iff _).mp hthere
        omega }
  absent := h.absent
  present name info hinfo := by
    have hdescribed := h.present name info hinfo
    exact ⟨hdescribed.newest, hdescribed.retained, hdescribed.oldest⟩

theorem Recorded.collected (h : p.Recorded nameOfKey logs now) (ops limit : Nat) :
    Recorded nameOfKey { p with collectedOps := ops, collectedOpsWriteLimit := limit } logs now :=
  ⟨h.cached, h.operations, h.refers, h.given, h.distinct, h.owned, h.behind, h.absent, h.present⟩

/-! ## Visits -/

/-- Each visit prunes nothing or one entry. -/
def MeetsVisits (nameOfKey : Nat × Nat → Option AccountName) (obj : OperationObject) :
    RecordPlugin → List AccountName → Prop
  | _, [] => True
  | p, name :: rest =>
    MeetsVisit nameOfKey obj p name ∧
      MeetsVisits nameOfKey obj (buildAccountHistoryRecord true obj p name) rest

instance decidableMeetsVisits (obj : OperationObject) : (p : RecordPlugin) →
    (impacted : List AccountName) → Decidable (MeetsVisits nameOfKey obj p impacted)
  | _, [] => instDecidableTrue
  | _, _ :: rest => @instDecidableAnd _ _ _ (decidableMeetsVisits obj _ rest)

theorem Recorded.visits {obj : OperationObject} (impacted : List AccountName)
    (h : p.Recorded nameOfKey logs obj.timestamp)
    (hobj : (p.view nameOfKey).findOperationObject obj.id = some obj)
    (hmeets : MeetsVisits nameOfKey obj p impacted)
    (hroom : ∀ name, (record logs obj impacted name).length < 2 ^ 32) :
    (impacted.foldl (buildAccountHistoryRecord true obj) p).Recorded nameOfKey
      (record logs obj impacted) obj.timestamp := by
  induction impacted generalizing p logs with
  | nil => exact h
  | cons name rest ih =>
    have hmore := length_lt_record logs obj name rest
    have hfits := hroom name
    obtain ⟨hnext, hstill⟩ := h.visit hobj hmeets.1 (by omega)
    exact ih hnext hstill hmeets.2 hroom

end RecordPlugin

/-! ## Runs -/

/-- What happens to both plugins. -/
inductive Event
  | operation (obj : OperationObject) (impacted : List AccountName)
  | flush
  | writeLimit (limit : Nat)

/-- The operations of each account after an event. -/
def logsAfter (logs : AccountName → List OperationObject) :
    Event → AccountName → List OperationObject
  | .operation obj impacted => record logs obj impacted
  | _ => logs

/-- The time of the last operation. -/
def timeAfter (now : Nat) : Event → Nat
  | .operation obj _ => obj.timestamp
  | _ => now

/-- Timestamps do not decrease. -/
def InOrder : Nat → List Event → Prop
  | _, [] => True
  | now, event :: rest => now ≤ timeAfter now event ∧ InOrder (timeAfter now event) rest

instance decidableInOrder : (now : Nat) → (events : List Event) → Decidable (InOrder now events)
  | _, [] => instDecidableTrue
  | _, _ :: rest => @instDecidableAnd _ _ _ (decidableInOrder _ rest)

/-- The operations of each account in a run. -/
def logsOf (events : List Event) : AccountName → List OperationObject :=
  events.foldl logsAfter fun _ => []

/-- How many accounts the operation of an event impacts. -/
def Event.impacts : Event → Nat
  | .operation _ impacted => impacted.length
  | _ => 0

/-- The time of the last operation of a run. -/
def endOf (events : List Event) : Nat := events.foldl timeAfter 0

theorem length_le_logsAfter (logs : AccountName → List OperationObject) (events : List Event)
    (name : AccountName) :
    (logs name).length ≤ (events.foldl logsAfter logs name).length := by
  induction events generalizing logs with
  | nil => exact Nat.le_refl _
  | cons event rest ih =>
    refine Nat.le_trans ?_ (ih _)
    cases event with
    | operation obj impacted => exact length_le_record logs obj impacted name
    | flush => exact Nat.le_refl _
    | writeLimit limit => exact Nat.le_refl _

theorem length_logsAfter_le (logs : AccountName → List OperationObject) (events : List Event)
    (name : AccountName) : (events.foldl logsAfter logs name).length ≤
      (logs name).length + (events.map Event.impacts).sum := by
  induction events generalizing logs with
  | nil => exact Nat.le_refl _
  | cons event rest ih =>
    have hrest := ih (logsAfter logs event)
    have hevent : (logsAfter logs event name).length ≤ (logs name).length + event.impacts := by
      cases event with
      | operation obj impacted => exact length_record_le logs obj impacted name
      | flush => exact Nat.le_refl _
      | writeLimit limit => exact Nat.le_refl _
    rw [List.foldl_cons, List.map_cons, List.sum_cons]
    omega

theorem length_logsOf_le (events : List Event) (name : AccountName) :
    (logsOf events name).length ≤ (events.map Event.impacts).sum := by
  have hle := length_logsAfter_le (fun _ => []) events name
  rwa [List.length_nil, Nat.zero_add] at hle

namespace HistoryIndexes

def step (h : HistoryIndexes) : Event → Except String HistoryIndexes
  | .operation obj impacted => onOperation true h obj impacted
  | _ => .ok h

/-- The indexes after each run keep the recent operations. -/
theorem Kept.run {h : HistoryIndexes} {now : Nat} {logs : AccountName → List OperationObject}
    (hkept : h.Kept logs now) (events : List Event) (htimes : InOrder now events)
    (hroom : ∀ name, (events.foldl logsAfter logs name).length < 2 ^ 32) :
    ∃ h', Outcome.forEach step h events = .ok h' ∧
      h'.Kept (events.foldl logsAfter logs) (events.foldl timeAfter now) := by
  induction events generalizing h now logs with
  | nil => exact ⟨h, rfl, hkept⟩
  | cons event rest ih =>
    obtain ⟨next, hstep, hnext⟩ : ∃ next, h.step event = .ok next ∧
        next.Kept (logsAfter logs event) (timeAfter now event) := by
      cases event with
      | operation obj impacted =>
        exact onOperation_spec hkept htimes.1 fun name =>
          Nat.lt_of_le_of_lt (length_le_logsAfter _ rest name) (hroom name)
      | flush => exact ⟨h, rfl, hkept⟩
      | writeLimit limit => exact ⟨h, rfl, hkept⟩
    obtain ⟨final, hrest, hfinal⟩ := ih hnext htimes.2 hroom
    exact ⟨final, forEach_cons_eq_ok.mpr ⟨next, hstep, hrest⟩, hfinal⟩

theorem kept_empty : Kept {} (fun _ => []) 0 where
  fresh _ _ := rfl
  refers _ _ hfind := by cases hfind
  retained _ := ⟨0, Retained.empty 1 30 (Old 0)⟩

end HistoryIndexes

namespace RecordPlugin

variable {nameOfKey : Nat × Nat → Option AccountName} {p : RecordPlugin} {now : Nat}
  {logs : AccountName → List OperationObject}

def step (nameOfKey : Nat × Nat → Option AccountName) (p : RecordPlugin) : Event → RecordPlugin
  | .operation obj impacted => p.importRecord nameOfKey true obj impacted
  | .flush => p.flushBuffer nameOfKey
  | .writeLimit limit => { p with collectedOpsWriteLimit := limit }

/-- Each pruning of an event drops one entry. -/
def MeetsEvent (nameOfKey : Nat × Nat → Option AccountName) (p : RecordPlugin) : Event → Prop
  | .operation obj impacted =>
    MeetsVisits nameOfKey (p.numbered obj) (p.withOperation obj) impacted
  | _ => True

/-- Each pruning of a run drops one entry. -/
def MeetsRun (nameOfKey : Nat × Nat → Option AccountName) : RecordPlugin → List Event → Prop
  | _, [] => True
  | p, event :: rest => MeetsEvent nameOfKey p event ∧ MeetsRun nameOfKey (p.step nameOfKey event) rest

instance (p : RecordPlugin) : (event : Event) → Decidable (MeetsEvent nameOfKey p event)
  | .operation obj impacted => decidableMeetsVisits (p.numbered obj) (p.withOperation obj) impacted
  | .flush => instDecidableTrue
  | .writeLimit _ => instDecidableTrue

instance decidableMeetsRun : (p : RecordPlugin) → (events : List Event) →
    Decidable (MeetsRun nameOfKey p events)
  | _, [] => instDecidableTrue
  | p, event :: rest => @instDecidableAnd _ _ _ (decidableMeetsRun (p.step nameOfKey event) rest)

theorem Recorded.importRecord {obj : OperationObject} {impacted : List AccountName}
    (h : p.Recorded nameOfKey logs now) (htime : now ≤ obj.timestamp)
    (hmeets : MeetsVisits nameOfKey (p.numbered obj) (p.withOperation obj) impacted)
    (hroom : ∀ name, (record logs obj impacted name).length < 2 ^ 32) :
    (p.importRecord nameOfKey true obj impacted).Recorded nameOfKey (record logs obj impacted)
      obj.timestamp := by
  have hobj : ((p.withOperation obj).view nameOfKey).findOperationObject (p.numbered obj).id =
      some (p.numbered obj) := by
    rw [find_withOperation]
    exact if_pos rfl
  have hlater : (p.withOperation obj).Recorded nameOfKey logs (p.numbered obj).timestamp :=
    (h.later htime).withOperation obj
  have hvisits := hlater.visits impacted hobj hmeets hroom
  unfold RecordPlugin.importRecord
  dsimp only
  split
  · exact (hvisits.collected _ _).flushBuffer
  · exact hvisits.collected _ _

theorem Recorded.run (h : p.Recorded nameOfKey logs now) (events : List Event)
    (htimes : InOrder now events)
    (hroom : ∀ name, (events.foldl logsAfter logs name).length < 2 ^ 32)
    (hmeets : MeetsRun nameOfKey p events) :
    (events.foldl (step nameOfKey) p).Recorded nameOfKey (events.foldl logsAfter logs)
      (events.foldl timeAfter now) := by
  induction events generalizing p now logs with
  | nil => exact h
  | cons event rest ih =>
    refine ih ?_ htimes.2 hroom hmeets.2
    cases event with
    | operation obj impacted =>
      exact h.importRecord htimes.1 hmeets.1 fun name =>
        Nat.lt_of_le_of_lt (length_le_logsAfter _ rest name) (hroom name)
    | flush => exact h.flushBuffer
    | writeLimit limit => exact h.collected _ _

theorem recorded_empty : Recorded nameOfKey {} (fun _ => []) 0 where
  cached _ := rfl
  operations id := by simp [view, Storage.findOperationObject]
  refers _ _ hfind := by cases hfind
  given _ _ hfind := by cases hfind
  distinct _ _ _ _ hfind := by cases hfind
  owned _ _ hfind := by cases hfind
  behind :=
    { operations := fun _ _ hfind => by cases hfind
      entries := fun _ _ hfind => by cases hfind
      used := fun _ hfind => by cases hfind }
  absent _ _ := rfl
  present _ _ hfind := by cases hfind

/-- The entries of an account are numbered as its info says, and are those of the newest
operations. -/
structure Described (p : RecordPlugin) (nameOfKey : Nat × Nat → Option AccountName)
    (log : List OperationObject) (now : Nat) (name : AccountName) : Prop where
  newest : ∀ info, (p.view nameOfKey).infoByName.find? name = some info →
    info.newestEntryId + 1 = log.length
  numbered : ∀ info, (p.view nameOfKey).infoByName.find? name = some info →
    ∀ s, ((p.view nameOfKey).entryById.find? (info.id, s)).isSome ↔
      info.oldestEntryId ≤ s ∧ s ≤ info.newestEntryId
  retained : ∀ info, (p.view nameOfKey).infoByName.find? name = some info →
    Retained ((p.view nameOfKey).stored info.id) 0 30 (Old now) log info.oldestEntryId
  absent : (p.view nameOfKey).infoByName.find? name = none → log = []

theorem Recorded.described (h : p.Recorded nameOfKey logs now) (name : AccountName) :
    p.Described nameOfKey (logs name) now name where
  newest info hinfo := (h.present name info hinfo).newest
  numbered info hinfo s := by
    have hnewest := (h.present name info hinfo).newest
    have hstored := (h.present name info hinfo).retained.isSome_iff s
    rw [h.isSome_stored] at hstored
    rw [hstored]
    omega
  retained info hinfo := (h.present name info hinfo).retained
  absent := h.absent name

end RecordPlugin

/-- The store after a run. -/
def storeAfter (nameOfKey : Nat × Nat → Option AccountName) (events : List Event) : RecordPlugin :=
  events.foldl (RecordPlugin.step nameOfKey) {}

/-- Both plugins keep recent operations under consecutive numbers in a run where each pruning of the
store drops one entry. -/
theorem histories_kept (nameOfKey : Nat × Nat → Option AccountName) (events : List Event)
    (htimes : InOrder 0 events) (hroom : ∀ name, (logsOf events name).length < 2 ^ 32)
    (hmeets : RecordPlugin.MeetsRun nameOfKey {} events) :
    (∃ h, Outcome.forEach HistoryIndexes.step {} events = .ok h ∧
      (∀ key opId, h.history.find? key = some opId → (h.operations.find? opId).isSome) ∧
      ∀ name, ∃ dropped,
        Retained (h.stored name) 1 30 (Old (endOf events)) (logsOf events name) dropped) ∧
    (∀ name, (storeAfter nameOfKey events).Described nameOfKey (logsOf events name) (endOf events)
      name) ∧
    ∀ id, (((storeAfter nameOfKey events).view nameOfKey).findOperationObject id).isSome ↔
      id < (storeAfter nameOfKey events).operationSeqId := by
  have hrecorded := RecordPlugin.recorded_empty.run events htimes hroom hmeets
  refine ⟨?_, hrecorded.described, hrecorded.operations⟩
  obtain ⟨h, hrun, hkept⟩ := HistoryIndexes.kept_empty.run events htimes hroom
  exact ⟨h, hrun, hkept.refers, hkept.retained⟩

end AccountHistory

namespace Sample

open AccountHistory

/-- An operation at a time. -/
def transferAt (time : Nat) : OperationObject where
  id := 0
  trxId := []
  block := time / 3 + 1
  trxInBlock := 0
  opInTrx := 0
  virtualOp := 0
  timestamp := time
  serializedOp := []

/-- An operation of alice, `count` ones some time later, and one a month later. -/
def busyMonth (count later : Nat) : List Event :=
  .operation (transferAt 0) ["alice"] ::
    (List.replicate count (.operation (transferAt later) ["alice"]) ++
      [.operation (transferAt (31 * 24 * 60 * 60)) ["alice"]])

/-- The store after a run, where no account has the name that the key of an entry reads as. -/
def columnsAfter (events : List Event) : Columns :=
  (storeAfter (fun _ => none) events).view fun _ => none

/-- The first entry is deleted, but is the oldest one by the info. -/
theorem busyMonth_lost : InOrder 0 (busyMonth 30 0) ∧
    (columnsAfter (busyMonth 30 0)).infoByName.find? "alice" = some
      { id := 0, oldestEntryId := 0, newestEntryId := 31, oldestEntryTimestamp := 0 } ∧
    (columnsAfter (busyMonth 30 0)).entryById.find? (0, 0) = none := by
  decide +kernel

/-- The second entry is recent when the first one is dropped. -/
theorem busyMonth_kept :
    (∃ h, Outcome.forEach HistoryIndexes.step {} (busyMonth 31 864000) = .ok h ∧
      (∀ key opId, h.history.find? key = some opId → (h.operations.find? opId).isSome) ∧
      ∀ name, ∃ dropped, Retention.Retained (h.stored name) 1 30
        (Old (endOf (busyMonth 31 864000))) (logsOf (busyMonth 31 864000) name) dropped) ∧
    (∀ name, (storeAfter (fun _ => none) (busyMonth 31 864000)).Described (fun _ => none)
      (logsOf (busyMonth 31 864000) name) (endOf (busyMonth 31 864000)) name) ∧
    (∀ id, ((columnsAfter (busyMonth 31 864000)).findOperationObject id).isSome ↔
      id < (storeAfter (fun _ => none) (busyMonth 31 864000)).operationSeqId) ∧
    (columnsAfter (busyMonth 31 864000)).entryById.find? (0, 0) = none := by
  have hroom : ∀ name, (logsOf (busyMonth 31 864000) name).length < 2 ^ 32 := fun name =>
    Nat.lt_of_le_of_lt (length_logsOf_le _ name) (by decide +kernel)
  have hkept := histories_kept (fun _ => none) (busyMonth 31 864000) (by decide +kernel) hroom
    (by decide +kernel)
  exact ⟨hkept.1, hkept.2.1, hkept.2.2, by decide +kernel⟩

end Sample

end Blurt
