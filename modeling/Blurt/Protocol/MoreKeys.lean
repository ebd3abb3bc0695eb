import Blurt.Protocol.SignStateLaws

/-! # More keys

A search that stops early caches less, and what it has not cached may lie too deep for a later
search, or be one account too many for it. Where neither can happen, what a search accepts is a
least fixed point, and more keys lose nothing.
-/

namespace Blurt

open Outcome Threshold

/-- The weights of some members of an authority. -/
def totalWeightOf {α : Type} (members : List (α × Nat)) : Nat := (members.map Prod.snd).sum

namespace Authority

/-- The weights of an authority add up in 32 bits. -/
def AddsUp (auth : Authority) : Prop :=
  totalWeightOf auth.keyAuths + totalWeightOf auth.accountAuths < 2 ^ 32

instance (auth : Authority) : Decidable auth.AddsUp := inferInstanceAs (Decidable (_ < _))

end Authority

/-- The accounts of some members that a search looks up unless they are approved already. -/
def delegatesOf (members : List (AccountName × Nat)) : List AccountName :=
  (members.map Prod.fst).filter (· ≠ blurtTempAccount)

namespace SignState

/-- What `check_authority( id )` answers on a fresh `sign_state` that holds `keys`. -/
def answers (limits : SignLimits) (getActive : AuthorityGetter) (id : AccountName)
    (keys : List PublicKey) : Except String Bool :=
  (checkAuthorityOf limits getActive id (create keys [])).map Prod.fst

/-- The getter of an assignment of authorities. -/
def getterOf (authorities : AccountName → Authority) : AuthorityGetter := fun id =>
  .ok (authorities id)

variable (authorities : AccountName → Authority)

/-- The accounts that the authorities at a depth of a search list, if it starts with `id`. -/
def listedAt (id : AccountName) : (depth : Nat) → List AccountName
  | 0 => delegatesOf (authorities id).accountAuths
  | depth + 1 =>
      (listedAt id depth).flatMap fun a => delegatesOf (authorities a).accountAuths

/-- How many accounts a search may look up for `id`, each as often as it is listed. -/
def lookups : (levels : Nat) → AccountName → Nat
  | 0, _ => 0
  | levels + 1, id => ((authorities id).accountAuths.map fun item =>
      if item.1 = blurtTempAccount then 0 else 1 + lookups levels item.1).sum

end SignState

/-- The cache and the count of accounts do not decide what a search for `id` finds: no account that
is listed too deep to be looked up is listed before, and all accounts before may be looked up. -/
structure SignLimits.Admits (limits : SignLimits) (authorities : AccountName → Authority)
    (id : AccountName) : Prop where
  apart : ∀ depth < limits.maxRecursion, ∀ a ∈ SignState.listedAt authorities id depth,
    a ∉ SignState.listedAt authorities id limits.maxRecursion
  room : limits.maxAccountAuths = 0 ∨
    SignState.lookups authorities limits.maxRecursion id < limits.maxAccountAuths

/-- At least `count` accounts may be looked up. -/
def SignLimits.Allows (limits : SignLimits) (count : Nat) : Prop :=
  limits.maxAccountAuths = 0 ∨ count ≤ limits.maxAccountAuths

theorem SignLimits.Allows.mono {limits : SignLimits} {count fewer : Nat} (h : limits.Allows count)
    (hle : fewer ≤ count) : limits.Allows fewer :=
  h.imp id hle.trans

/-- The loop over keys has decided whether the members reach the threshold, or leaves it to
`rest`, with a weight of at most `bound`. -/
def KeyLoop.Settles (reached : Prop) (bound : Nat) (rest : Nat → Nat → Prop) : KeyLoop → Prop
  | .returned answer => answer = true ↔ reached
  | .finished totalWeight membership => totalWeight ≤ bound ∧ (rest totalWeight membership ↔ reached)

theorem KeyLoop.Settles.mono {reached reached' : Prop} {bound bound' : Nat}
    {rest : Nat → Nat → Prop} {loop : KeyLoop} (h : loop.Settles reached bound rest)
    (hbound : bound ≤ bound') (hiff : reached ↔ reached') : loop.Settles reached' bound' rest := by
  cases loop with
  | returned answer => exact Iff.trans h hiff
  | finished totalWeight membership => exact ⟨h.1.trans hbound, h.2.trans hiff⟩

namespace SignState

/-- The members that a search counts, apart from the accounts that it skips. -/
def membersOf (skipped : List AccountName) (auth : Authority) :
    List ((PublicKey ⊕ AccountName) × Nat) :=
  auth.keyAuths.map (Prod.map .inl id) ++
    (auth.accountAuths.filter fun item => item.1 ∉ skipped).map (Prod.map .inr id)

/-- The members that count, with these keys and these accounts. -/
def counting (keys : List PublicKey) (granted : Set AccountName) : Set (PublicKey ⊕ AccountName) :=
  {member | Sum.elim (· ∈ keys) (· ∈ granted) member}

/-- The loops over the members of an authority accept it. -/
def Accepts (limits : SignLimits) (skipped : List AccountName) (keys : List PublicKey)
    (granted : Set AccountName) (auth : Authority) : Prop :=
  Reaches limits.cutsMembership auth.weightThreshold (counting keys granted)
    (membersOf skipped auth) 0 0

theorem counting_mono {keys more : List PublicKey} {granted larger : Set AccountName}
    (hkeys : keys ⊆ more) (hgranted : granted ⊆ larger) :
    counting keys granted ⊆ counting more larger := by
  intro member hmember
  cases member with
  | inl key => exact hkeys hmember
  | inr account => exact hgranted hmember

theorem Accepts.mono {limits : SignLimits} {skipped : List AccountName} {keys more : List PublicKey}
    {granted larger : Set AccountName} {auth : Authority}
    (h : Accepts limits skipped keys granted auth) (hkeys : keys ⊆ more)
    (hgranted : granted ⊆ larger) : Accepts limits skipped more larger auth :=
  Reaches.mono (counting_mono hkeys hgranted) le_rfl h

/-- The accounts whose authorities are accepted, if those of `granted` count. -/
def approving (limits : SignLimits) (authorities : AccountName → Authority)
    (skipped : List AccountName) (keys : List PublicKey) : Set AccountName →o Set AccountName where
  toFun granted := {id | id = blurtTempAccount ∨
    id ∉ skipped ∧ Accepts limits skipped keys granted (authorities id)}
  monotone' := by
    intro granted larger hle id hid
    exact hid.imp_right fun ⟨hkept, haccepts⟩ =>
      ⟨hkept, haccepts.mono (List.Subset.refl keys) hle⟩

/-- The accounts that a search accepts which skips `skipped` and is not cut at an account. -/
def Found (limits : SignLimits) (authorities : AccountName → Authority)
    (skipped : List AccountName) (keys : List PublicKey) : Set AccountName :=
  (approving limits authorities skipped keys).lfp

section Search

variable {limits : SignLimits} {authorities : AccountName → Authority} {skipped : List AccountName}
  {keys more : List PublicKey} {granted : Set AccountName} {s : SignState}

theorem mem_found_iff {id : AccountName} : id ∈ Found limits authorities skipped keys ↔
    id = blurtTempAccount ∨ id ∉ skipped ∧
      Accepts limits skipped keys (Found limits authorities skipped keys) (authorities id) := by
  have hfixed : approving limits authorities skipped keys
      (Found limits authorities skipped keys) = Found limits authorities skipped keys :=
    (approving limits authorities skipped keys).map_lfp
  conv_lhs => rw [← hfixed]
  rfl

theorem found_mono (hkeys : keys ⊆ more) :
    Found limits authorities skipped keys ⊆ Found limits authorities skipped more := by
  apply (approving limits authorities skipped keys).lfp_le
  intro id hid
  exact mem_found_iff.mpr (hid.imp_right fun ⟨hkept, haccepts⟩ =>
    ⟨hkept, haccepts.mono hkeys subset_rfl⟩)

/-! ## The state of a search -/

/-- The signing keys are `keys`, and only accounts of `granted` are approved. -/
structure Tracks (keys : List PublicKey) (granted : Set AccountName) (s : SignState) : Prop where
  unavailable : s.availableKeys = []
  provided : ∀ k, (s.providedSignatures.find? k).isSome ↔ k ∈ keys
  temp : blurtTempAccount ∈ s.approvedBy
  approved : ∀ id ∈ s.approvedBy, id ∈ granted

theorem tracks_create (htemp : blurtTempAccount ∈ granted) :
    (create keys []).Tracks keys granted where
  unavailable := rfl
  provided := by
    intro k
    have hfind : (create keys []).providedSignatures.find? k =
        if k ∈ keys then some false else none :=
      find?_foldl_provided keys ∅ k
    rw [hfind]
    split <;> simp_all
  temp := List.mem_cons_self
  approved := by
    intro id hid
    rwa [List.mem_singleton.mp hid]

theorem Tracks.approve (h : s.Tracks keys granted) {id : AccountName} (hid : id ∈ granted) :
    (s.approve id).Tracks keys granted where
  unavailable := h.unavailable
  provided := h.provided
  temp := List.mem_cons_of_mem _ h.temp
  approved := by
    intro name hname
    rcases List.mem_cons.mp hname with rfl | hname
    · exact hid
    · exact h.approved name hname

theorem Tracks.signedBy (h : s.Tracks keys granted) (k : PublicKey) :
    (s.signedBy k).2.Tracks keys granted ∧ ((s.signedBy k).1 = true ↔ k ∈ keys) := by
  unfold SignState.signedBy
  split
  next hfind =>
    have hunknown : k ∉ keys := fun hk => by simpa [hfind] using (h.provided k).mpr hk
    rw [if_neg (by simp [h.unavailable])]
    exact ⟨h, by simp [hunknown]⟩
  next hfind =>
    have hk : k ∈ keys := (h.provided k).mp (by simp [hfind])
    refine ⟨⟨h.unavailable, fun key => ?_, h.temp, h.approved⟩, by simp [hk]⟩
    rw [SignState.markUsed, Store.find?_set]
    split
    · rename_i hkey
      simp [hkey, hk]
    · exact h.provided key

theorem addWeight_of_lt {totalWeight weight : Nat} (h : totalWeight + weight < 2 ^ 32) :
    addWeight totalWeight weight = totalWeight + weight :=
  Nat.mod_eq_of_lt h

/-! ## The loop over keys -/

theorem Tracks.checkKeys {threshold : Nat} {items : List (PublicKey × Nat)}
    (rest : List ((PublicKey ⊕ AccountName) × Nat)) {totalWeight membership : Nat}
    (h : s.Tracks keys granted) (hroom : totalWeight + totalWeightOf items < 2 ^ 32) :
    (SignState.checkKeys limits threshold items totalWeight membership s).2.Tracks keys granted ∧
      KeyLoop.Settles
        (Reaches limits.cutsMembership threshold (counting keys granted)
          (items.map (Prod.map .inl id) ++ rest) totalWeight membership)
        (totalWeight + totalWeightOf items)
        (Reaches limits.cutsMembership threshold (counting keys granted) rest)
        (SignState.checkKeys limits threshold items totalWeight membership s).1 := by
  induction items generalizing totalWeight membership s with
  | nil => exact ⟨h, Nat.le_refl _, Iff.rfl⟩
  | cons item items ih =>
      obtain ⟨k, w⟩ := item
      obtain ⟨hsigned, hheld⟩ := h.signedBy k
      have htotal : totalWeightOf ((k, w) :: items) = w + totalWeightOf items := rfl
      rw [htotal] at hroom ⊢
      simp only [SignState.checkKeys, List.map_cons, List.cons_append]
      by_cases hk : k ∈ keys
      · have hmember : (Prod.map Sum.inl id (k, w) : (PublicKey ⊕ AccountName) × Nat).1 ∈
            counting keys granted := hk
        rw [reaches_cons_of_mem hmember, hheld.mpr hk]
        simp only [if_true, true_and, addWeight_of_lt (show totalWeight + w < 2 ^ 32 by omega)]
        split
        · rename_i hreached
          exact ⟨hsigned, iff_of_true rfl (.inl hreached)⟩
        · rename_i hbelow
          split
          · rename_i hcut
            refine ⟨hsigned, iff_of_false (by decide) ?_⟩
            rintro (hreached | ⟨hkept, -⟩)
            · exact hbelow hreached
            · exact hkept hcut
          · rename_i hkept
            obtain ⟨htracks, hsettles⟩ := @ih _ (totalWeight + w) (membership + 1) hsigned (by omega)
            refine ⟨htracks, hsettles.mono (by omega) ?_⟩
            exact ⟨fun hrest => .inr ⟨hkept, hrest⟩,
              fun hreached => (hreached.resolve_left hbelow).2⟩
      · have hmember : (Prod.map Sum.inl id (k, w) : (PublicKey ⊕ AccountName) × Nat).1 ∉
            counting keys granted := hk
        have hunsigned : (s.signedBy k).1 = false := by
          cases hanswer : (s.signedBy k).1 with
          | true => exact absurd (hheld.mp hanswer) hk
          | false => rfl
        rw [reaches_cons_of_notMem hmember, hunsigned]
        simp only [Bool.false_eq_true, if_false, false_and]
        split
        · rename_i hcut
          exact ⟨hsigned, iff_of_false (by decide) fun hreached => hreached.1 hcut⟩
        · rename_i hkept
          obtain ⟨htracks, hsettles⟩ := @ih _ totalWeight (membership + 1) hsigned (by omega)
          refine ⟨htracks, hsettles.mono (by omega) ?_⟩
          exact ⟨fun hrest => ⟨hkept, hrest⟩, fun hreached => hreached.2⟩

/-! ## The loop over accounts -/

/-- What the turns of the loop over the accounts in `listed` come to: accounts of `skipped` are
skipped, the others are answered by whether they are granted, and a turn for `a` looks up at
most `looked a` accounts. -/
def Turns (limits : SignLimits) (getActive : AuthorityGetter)
    (deeper : Option (Authority → Nat → SignState → Except String AuthorityCheck))
    (skipped : List AccountName) (keys : List PublicKey) (granted : Set AccountName)
    (looked : AccountName → Nat) (listed : List AccountName) : Prop :=
  ∀ a ∈ listed, ∀ count s, s.Tracks keys granted → limits.Allows (count + looked a) →
    a ∈ skipped ∧ checkAccount limits getActive deeper a count s = .ok .skipped ∨
      a ∉ skipped ∧ ∃ result, checkAccount limits getActive deeper a count s = .ok (.checked result) ∧
        result.state.Tracks keys granted ∧ result.accountAuthCount ≤ count + looked a ∧
          (result.answer = true ↔ a ∈ granted)

/-- A check of an authority that completes with this answer. -/
def Completes (keys : List PublicKey) (granted : Set AccountName) (bound : Nat) (accepts : Prop)
    (check : Except String AuthorityCheck) : Prop :=
  ∃ result, check = .ok result ∧ result.state.Tracks keys granted ∧
    result.accountAuthCount ≤ bound ∧ (result.answer = true ↔ accepts)

variable {getActive : AuthorityGetter} {looked : AccountName → Nat} {listed : List AccountName}
  {deeper : Option (Authority → Nat → SignState → Except String AuthorityCheck)}

theorem Turns.checkAccounts
    (hturns : Turns limits getActive deeper skipped keys granted looked listed)
    {threshold : Nat} {items : List (AccountName × Nat)} (hitems : ∀ item ∈ items, item.1 ∈ listed)
    {totalWeight membership count : Nat} (h : s.Tracks keys granted)
    (hroom : totalWeight + totalWeightOf items < 2 ^ 32)
    (hallows : limits.Allows (count + (items.map fun item => looked item.1).sum)) :
    Completes keys granted (count + (items.map fun item => looked item.1).sum)
      (Reaches limits.cutsMembership threshold (counting keys granted)
        ((items.filter fun item => item.1 ∉ skipped).map (Prod.map .inr id)) totalWeight membership)
      (SignState.checkAccounts limits getActive deeper threshold items totalWeight membership count
        s) := by
  induction items generalizing totalWeight membership count s with
  | nil => exact ⟨_, rfl, h, Nat.le_refl _, decide_eq_true_iff⟩
  | cons item items ih =>
      obtain ⟨a, w⟩ := item
      have htotal : totalWeightOf ((a, w) :: items) = w + totalWeightOf items := rfl
      rw [htotal] at hroom
      simp only [List.map_cons, List.sum_cons] at hallows ⊢
      have hrest : ∀ item ∈ items, item.1 ∈ listed := fun item hitem =>
        hitems item (List.mem_cons_of_mem _ hitem)
      have hturn := hturns a (hitems _ List.mem_cons_self) count s h
        (hallows.mono (by omega))
      rcases hturn with ⟨hskipped, hturn⟩ | ⟨hkept, turn, hturn, htracks, hcount, hanswer⟩
      · obtain ⟨result, hresult, hfinal, hle, hiff⟩ := @ih s hrest totalWeight membership count h
          (by omega) (hallows.mono (by omega))
        refine ⟨result, ?_, hfinal, by omega, ?_⟩
        · simp only [SignState.checkAccounts, hturn, ok_bind, hresult]
        · rwa [List.filter_cons_of_neg (by simpa using hskipped)]
      · rw [List.filter_cons_of_pos (by simpa using hkept), List.map_cons]
        simp only [SignState.checkAccounts, hturn, ok_bind]
        by_cases ha : a ∈ granted
        · have hmember : (Prod.map Sum.inr id (a, w) : (PublicKey ⊕ AccountName) × Nat).1 ∈
              counting keys granted := ha
          rw [reaches_cons_of_mem hmember]
          simp only [hanswer.mpr ha, if_true, true_and,
            addWeight_of_lt (show totalWeight + w < 2 ^ 32 by omega)]
          split
          · rename_i hreached
            exact ⟨turn, rfl, htracks, by omega, iff_of_true (hanswer.mpr ha) (.inl hreached)⟩
          · rename_i hbelow
            split
            · rename_i hcut
              refine ⟨_, rfl, htracks, hcount.trans (by omega), iff_of_false Bool.false_ne_true ?_⟩
              rintro (hreached | ⟨huncut, -⟩)
              · exact hbelow hreached
              · exact huncut hcut
            · rename_i huncut
              obtain ⟨result, hresult, hfinal, hle, hiff⟩ := @ih turn.state hrest (totalWeight + w)
                (membership + 1) turn.accountAuthCount htracks (by omega)
                (hallows.mono (by omega))
              refine ⟨result, hresult, hfinal, by omega, hiff.trans ?_⟩
              exact ⟨fun hrest => .inr ⟨huncut, hrest⟩,
                fun hreached => (hreached.resolve_left hbelow).2⟩
        · have hmember : (Prod.map Sum.inr id (a, w) : (PublicKey ⊕ AccountName) × Nat).1 ∉
              counting keys granted := ha
          have hrefused : turn.answer = false := by
            cases hturned : turn.answer with
            | true => exact absurd (hanswer.mp hturned) ha
            | false => rfl
          rw [reaches_cons_of_notMem hmember]
          simp only [hrefused, Bool.false_eq_true, if_false, false_and]
          split
          · rename_i hcut
            exact ⟨_, rfl, htracks, hcount.trans (by omega),
              iff_of_false Bool.false_ne_true fun hreached => hreached.1 hcut⟩
          · rename_i huncut
            obtain ⟨result, hresult, hfinal, hle, hiff⟩ := @ih turn.state hrest totalWeight
              (membership + 1) turn.accountAuthCount htracks (by omega)
              (hallows.mono (by omega))
            refine ⟨result, hresult, hfinal, by omega, hiff.trans ?_⟩
            exact ⟨fun hrest => ⟨huncut, hrest⟩, fun hreached => hreached.2⟩

theorem Turns.checkMembers {auth : Authority} (hadds : auth.AddsUp)
    (hturns : Turns limits getActive deeper skipped keys granted looked
      (auth.accountAuths.map Prod.fst))
    {lookups count : Nat} (hlookups : (auth.accountAuths.map fun item => looked item.1).sum = lookups)
    (h : s.Tracks keys granted) (hallows : limits.Allows (count + lookups)) :
    Completes keys granted (count + lookups) (Accepts limits skipped keys granted auth)
      (SignState.checkMembers limits getActive deeper auth count s) := by
  subst hlookups
  unfold Authority.AddsUp at hadds
  obtain ⟨htracks, hsettles⟩ := @Tracks.checkKeys limits keys granted s auth.weightThreshold
    auth.keyAuths ((auth.accountAuths.filter fun item => item.1 ∉ skipped).map (Prod.map .inr id))
    0 0 h (by omega)
  unfold SignState.checkMembers Accepts membersOf
  rcases hloop : SignState.checkKeys limits auth.weightThreshold auth.keyAuths 0 0 s with
    ⟨answer | ⟨totalWeight, membership⟩, s'⟩
  · rw [hloop] at htracks hsettles
    exact ⟨_, rfl, htracks, Nat.le_add_right _ _, hsettles⟩
  · rw [hloop] at htracks hsettles
    obtain ⟨hbound, hiff⟩ := hsettles
    obtain ⟨result, hresult, hfinal, hle, hanswer⟩ := @Turns.checkAccounts limits skipped keys granted
      s' getActive looked _ deeper hturns auth.weightThreshold auth.accountAuths
      (fun item hitem => List.mem_map_of_mem hitem) totalWeight membership count htracks (by omega)
      hallows
    exact ⟨result, hresult, hfinal, hle, hanswer.trans hiff⟩

/-! ## The search -/

/-- What a search lists at its last depth are accounts of `skipped`, and before it other accounts. -/
def Parts (authorities : AccountName → Authority) (skipped : List AccountName) :
    (levels : Nat) → AccountName → Prop
  | 0, id => ∀ a ∈ delegatesOf (authorities id).accountAuths, a ∈ skipped
  | levels + 1, id => ∀ a ∈ delegatesOf (authorities id).accountAuths,
      a ∉ skipped ∧ Parts authorities skipped levels a

theorem mem_delegatesOf {members : List (AccountName × Nat)} {a : AccountName} :
    a ∈ delegatesOf members ↔ a ∈ members.map Prod.fst ∧ a ≠ blurtTempAccount := by
  rw [delegatesOf, List.mem_filter, decide_eq_true_iff]

theorem parts_of_admits {id : AccountName} (h : limits.Admits authorities id)
    {levels depth : Nat} {a : AccountName} (hdepth : depth + levels = limits.maxRecursion)
    (hlisted : ∀ b ∈ delegatesOf (authorities a).accountAuths, b ∈ listedAt authorities id depth) :
    Parts authorities (listedAt authorities id limits.maxRecursion) levels a := by
  induction levels generalizing depth a with
  | zero =>
      rw [Nat.add_zero] at hdepth
      exact hdepth ▸ hlisted
  | succ levels ih =>
      intro b hb
      refine ⟨h.apart depth (by omega) b (hlisted b hb), @ih (depth + 1) b (by omega) ?_⟩
      intro c hc
      exact List.mem_flatMap.mpr ⟨b, hlisted b hb, hc⟩

theorem notMem_listedAt_temp (id : AccountName) (depth : Nat) :
    blurtTempAccount ∉ listedAt authorities id depth := by
  cases depth with
  | zero => exact fun h => (mem_delegatesOf.mp h).2 rfl
  | succ depth =>
      intro h
      obtain ⟨a, -, ha⟩ := List.mem_flatMap.mp h
      exact (mem_delegatesOf.mp ha).2 rfl

section Exact

variable (hadds : ∀ id, (authorities id).AddsUp) (htemp : blurtTempAccount ∉ skipped)

include htemp

theorem notMem_skipped_of_found {a : AccountName}
    (ha : a ∈ Found limits authorities skipped keys) : a ∉ skipped := by
  rcases mem_found_iff.mp ha with rfl | ⟨hkept, -⟩
  · exact htemp
  · exact hkept

/-- At the last depth only approved accounts count. -/
theorem turns_none {members : List (AccountName × Nat)}
    (hparts : ∀ a ∈ delegatesOf members, a ∈ skipped) :
    Turns limits getActive none skipped keys (Found limits authorities skipped keys)
      (fun _ => 0) (members.map Prod.fst) := by
  intro a hlisted count s h _
  unfold checkAccount
  by_cases happroved : a ∈ s.approvedBy
  · have hfound := h.approved a happroved
    rw [if_pos happroved]
    exact .inr ⟨notMem_skipped_of_found htemp hfound, _, rfl, h, Nat.le_refl _,
      iff_of_true rfl hfound⟩
  · have hne : a ≠ blurtTempAccount := fun heq => happroved (heq ▸ h.temp)
    rw [if_neg happroved]
    exact .inl ⟨hparts a (mem_delegatesOf.mpr ⟨hlisted, hne⟩), rfl⟩

/-- Before it, an account is answered by a check that looks up its own accounts. -/
theorem turns_some {levels : Nat} {members : List (AccountName × Nat)}
    (hparts : ∀ a ∈ delegatesOf members, a ∉ skipped ∧ Parts authorities skipped levels a)
    (hcheck : ∀ {id count s}, Parts authorities skipped levels id →
      s.Tracks keys (Found limits authorities skipped keys) →
      limits.Allows (count + lookups authorities levels id) →
      Completes keys (Found limits authorities skipped keys) (count + lookups authorities levels id)
        (Accepts limits skipped keys (Found limits authorities skipped keys) (authorities id))
        (checkAuthorityImpl limits (getterOf authorities) levels (authorities id) count s)) :
    Turns limits (getterOf authorities) (some (checkAuthorityImpl limits (getterOf authorities) levels))
      skipped keys (Found limits authorities skipped keys)
      (fun a => if a = blurtTempAccount then 0 else 1 + lookups authorities levels a)
      (members.map Prod.fst) := by
  intro a hlisted count s h hallows
  right
  unfold checkAccount
  by_cases happroved : a ∈ s.approvedBy
  · have hfound := h.approved a happroved
    rw [if_pos happroved]
    exact ⟨notMem_skipped_of_found htemp hfound, _, rfl, h, Nat.le_add_right _ _,
      iff_of_true rfl hfound⟩
  · have hne : a ≠ blurtTempAccount := fun heq => happroved (heq ▸ h.temp)
    obtain ⟨hkept, hbelow⟩ := hparts a (mem_delegatesOf.mpr ⟨hlisted, hne⟩)
    simp only [if_neg hne] at hallows ⊢
    have huncut : ¬ limits.cutsAccounts count := by
      rintro ⟨hpositive, hcut⟩
      rcases hallows with hnone | hroom
      · omega
      · omega
    have hcounted : (count + 1) % 2 ^ 32 ≤ count + 1 := Nat.mod_le _ _
    obtain ⟨nested, hnested, htracks, hcount, hanswer⟩ :=
      @hcheck a ((count + 1) % 2 ^ 32) s hbelow h (hallows.mono (by omega))
    have hfound : nested.answer = true ↔ a ∈ Found limits authorities skipped keys := by
      rw [hanswer, mem_found_iff, or_iff_right hne, and_iff_right hkept]
    refine ⟨hkept, { nested with
      state := if nested.answer then nested.state.approve a else nested.state }, ?_, ?_,
      hcount.trans (by omega), hfound⟩
    · simp only [if_neg happroved, if_neg huncut, getterOf, ok_bind, hnested]
    · dsimp only
      split
      · rename_i htrue
        exact htracks.approve (hfound.mp htrue)
      · exact htracks

include hadds

/-- What a search accepts for an account is what its members reach with the accounts found. -/
theorem checkAuthorityImpl_found {levels count : Nat} {id : AccountName}
    (hparts : Parts authorities skipped levels id)
    (h : s.Tracks keys (Found limits authorities skipped keys))
    (hallows : limits.Allows (count + lookups authorities levels id)) :
    Completes keys (Found limits authorities skipped keys) (count + lookups authorities levels id)
      (Accepts limits skipped keys (Found limits authorities skipped keys) (authorities id))
      (checkAuthorityImpl limits (getterOf authorities) levels (authorities id) count s) := by
  induction levels generalizing id count s with
  | zero => exact (turns_none htemp hparts).checkMembers (hadds id) (by simp [lookups]) h hallows
  | succ levels ih =>
      exact (turns_some htemp hparts ih).checkMembers (hadds id) rfl h hallows

end Exact

variable {id : AccountName}

/-- Within such limits the answer for an account is what its members reach. -/
theorem answers_iff (hadds : ∀ id, (authorities id).AddsUp) (hadmits : limits.Admits authorities id) :
    answers limits (getterOf authorities) id keys = .ok true ↔
      id = blurtTempAccount ∨
        Accepts limits (listedAt authorities id limits.maxRecursion) keys
          (Found limits authorities (listedAt authorities id limits.maxRecursion) keys)
          (authorities id) := by
  have htracks : (create keys []).Tracks keys
      (Found limits authorities (listedAt authorities id limits.maxRecursion) keys) :=
    tracks_create (mem_found_iff.mpr (.inl rfl))
  unfold answers checkAuthorityOf
  by_cases htemp : id = blurtTempAccount
  · rw [if_pos (htemp ▸ htracks.temp)]
    exact iff_of_true rfl (.inl htemp)
  · have hfresh : id ∉ (create keys []).approvedBy := fun h => htemp (List.mem_singleton.mp h)
    have hallows : limits.Allows (1 + lookups authorities limits.maxRecursion id) :=
      hadmits.room.imp_right fun hroom => by omega
    obtain ⟨result, hresult, -, -, hanswer⟩ := checkAuthorityImpl_found hadds
      (notMem_listedAt_temp id limits.maxRecursion)
      (parts_of_admits hadmits (Nat.zero_add _) fun _ hb => hb) htracks hallows
    rw [if_neg hfresh, or_iff_right htemp, ← hanswer]
    simp only [getterOf, ok_bind] at hresult ⊢
    rw [hresult, ok_bind]
    exact ⟨fun h => Except.ok.inj h, fun h => congrArg Except.ok h⟩

/-- Within such limits an account keeps its authority with more keys. -/
theorem answers_mono (hadds : ∀ id, (authorities id).AddsUp) (hadmits : limits.Admits authorities id)
    (hsub : keys ⊆ more) (h : answers limits (getterOf authorities) id keys = .ok true) :
    answers limits (getterOf authorities) id more = .ok true := by
  rw [answers_iff hadds hadmits] at h ⊢
  exact h.imp_right fun haccepts => haccepts.mono hsub (found_mono hsub)

end Search

end SignState

namespace SignSample

open SignState

/-- Alice needs bob and carol. The key 2 is dave's, who may act for bob and, through erin, for
carol. -/
def delegating : AccountName → Authority
  | "alice" => { weightThreshold := 2, accountAuths := [("bob", 1), ("carol", 1)] }
  | "bob" => { weightThreshold := 1, keyAuths := [(1, 1)], accountAuths := [("dave", 1)] }
  | "carol" => { weightThreshold := 1, accountAuths := [("erin", 1)] }
  | "dave" => { weightThreshold := 1, keyAuths := [(2, 1)] }
  | "erin" => { weightThreshold := 1, accountAuths := [("dave", 1)] }
  | "frank" =>
      { weightThreshold := 2, accountAuths := [("bob", 1), ("grace", 1), ("dave", 1)] }
  | "grace" => { weightThreshold := 1, accountAuths := [("heidi", 1)] }
  | _ => { weightThreshold := 1 }

theorem delegating_addsUp (id : AccountName) : (delegating id).AddsUp := by
  unfold delegating
  split <;> decide

/-- With bob's own key dave is not looked at for bob. For alice he is then too deep under erin, and
for frank he is one account too many. -/
theorem delegating_loses :
    (answers {} (getterOf delegating) "alice" [2] = .ok true ∧
      answers {} (getterOf delegating) "alice" [1, 2] = .ok false) ∧
    (answers { maxAccountAuths := 4 } (getterOf delegating) "frank" [2] = .ok true ∧
      answers { maxAccountAuths := 4 } (getterOf delegating) "frank" [1, 2] = .ok false) := by
  decide

/-- One level deeper alice keeps her authority. -/
theorem alice_keeps :
    answers { maxRecursion := 3 } (getterOf delegating) "alice" [1, 2] = .ok true := by
  have hadmits : ({ maxRecursion := 3 } : SignLimits).Admits delegating "alice" :=
    ⟨by decide, .inr (by decide)⟩
  exact @answers_mono _ delegating [2] [1, 2] "alice" delegating_addsUp hadmits (by decide) (by decide)

end SignSample

end Blurt
