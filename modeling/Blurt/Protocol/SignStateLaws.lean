import Blurt.Foundation.Threshold
import Blurt.Protocol.SignState

/-! # Signature checking is sound

What a check accepts is granted by the graph of authorities, read as rules over keys and
account names. The limits and the cache only make a check refuse more.
-/

namespace Blurt

open Outcome Threshold

namespace Authority

/-- An authority as a rule over keys and account names. -/
def rule (auth : Authority) : Rule PublicKey AccountName where
  threshold := auth.weightThreshold
  keys := auth.keyAuths
  names := auth.accountAuths

end Authority

/-- The rule of each account that has one. -/
def AuthorityGetter.rules (get : AuthorityGetter) (id : AccountName) :
    Option (Rule PublicKey AccountName) :=
  match get id with
  | .ok auth => some auth.rule
  | .error _ => none

/-- The accounts that are satisfied by `sigs` in the sense of the least fixed point. -/
def Satisfied (get : AuthorityGetter) (trusted : List AccountName) (sigs : List PublicKey) :
    Set AccountName :=
  granted get.rules {id | id ∈ trusted} {key | key ∈ sigs}

/-- The threshold of an authority is met by the keys in `sigs` and by satisfied accounts. -/
def Authority.MetBy (auth : Authority) (get : AuthorityGetter) (trusted : List AccountName)
    (sigs : List PublicKey) : Prop :=
  auth.rule.Met {key | key ∈ sigs} (Satisfied get trusted sigs)

theorem mem_satisfied_iff {get : AuthorityGetter} {trusted : List AccountName}
    {sigs : List PublicKey} {id : AccountName} :
    id ∈ Satisfied get trusted sigs ↔
      id ∈ trusted ∨ ∃ auth, get id = .ok auth ∧ auth.MetBy get trusted sigs := by
  rw [Satisfied, mem_granted_iff]
  apply or_congr Iff.rfl
  constructor
  · rintro ⟨rule, hrule, hmet⟩
    unfold AuthorityGetter.rules at hrule
    split at hrule
    · rename_i auth hauth
      cases hrule
      exact ⟨auth, hauth, hmet⟩
    · cases hrule
  · rintro ⟨auth, hauth, hmet⟩
    exact ⟨auth.rule, by simp [AuthorityGetter.rules, hauth], hmet⟩

/-- One of the authorities that `id` has by `roles` is met. -/
def Authorized (roles : List AuthorityGetter) (get : AuthorityGetter) (trusted : List AccountName)
    (sigs : List PublicKey) (id : AccountName) : Prop :=
  ∃ role ∈ roles, ∃ auth, role id = .ok auth ∧ auth.MetBy get trusted sigs

/-- The authorities that a check of `roots` may come to. -/
inductive Consulted (get : AuthorityGetter) (roots : Set Authority) : Authority → Prop
  | root {auth : Authority} (hroot : auth ∈ roots) : Consulted get roots auth
  | member {auth next : Authority} {item : AccountName × Nat} (hauth : Consulted get roots auth)
      (hitem : item ∈ auth.accountAuths) (hnext : get item.1 = .ok next) :
      Consulted get roots next

theorem addWeight_le (totalWeight weight : Nat) : addWeight totalWeight weight ≤ totalWeight + weight :=
  Nat.mod_le _ _

/-- A loop over keys accepts, or has added up, no more than `bound`. -/
def KeyLoop.Within (threshold bound : Nat) : KeyLoop → Prop
  | .returned answer => answer = true → threshold ≤ bound
  | .finished totalWeight _ => totalWeight ≤ bound

namespace SignState

/-- What holds of a signing state throughout a check: the keys are the signing keys, a
key is marked only where an authority consulted lists it, and the approved accounts are
satisfied. -/
structure Sound (get : AuthorityGetter) (trusted : List AccountName) (roots : Set Authority)
    (sigs : List PublicKey) (s : SignState) : Prop where
  unavailable : s.availableKeys = []
  provided : ∀ k, (s.providedSignatures.find? k).isSome ↔ k ∈ sigs
  used : ∀ k, s.providedSignatures.find? k = some true →
    ∃ auth, Consulted get roots auth ∧ k ∈ auth.keyAuths.map Prod.fst
  approved : ∀ id ∈ s.approvedBy, id ∈ Satisfied get trusted sigs

variable {get : AuthorityGetter} {trusted : List AccountName} {roots : Set Authority}
  {sigs : List PublicKey} {limits : SignLimits} {s s' : SignState} {auth : Authority}

theorem Sound.markUsed (h : s.Sound get trusted roots sigs) (hauth : Consulted get roots auth)
    {k : PublicKey} (hlisted : k ∈ auth.keyAuths.map Prod.fst) (hk : k ∈ sigs) :
    (s.markUsed k).Sound get trusted roots sigs where
  unavailable := h.unavailable
  provided := by
    intro key
    by_cases hkey : key = k
    · subst hkey
      simpa [SignState.markUsed] using hk
    · simp only [SignState.markUsed, Store.find?_set_of_ne hkey]
      exact h.provided key
  used := by
    intro key hused
    by_cases hkey : key = k
    · subst hkey
      exact ⟨auth, hauth, hlisted⟩
    · simp only [SignState.markUsed, Store.find?_set_of_ne hkey] at hused
      exact h.used key hused
  approved := h.approved

theorem Sound.approve (h : s.Sound get trusted roots sigs) {id : AccountName}
    (hid : id ∈ Satisfied get trusted sigs) : (s.approve id).Sound get trusted roots sigs where
  unavailable := h.unavailable
  provided := h.provided
  used := h.used
  approved := by
    intro name hname
    rcases List.mem_cons.mp hname with rfl | hname
    · exact hid
    · exact h.approved name hname

theorem Sound.signedBy (h : s.Sound get trusted roots sigs) (hauth : Consulted get roots auth)
    {k : PublicKey} (hlisted : k ∈ auth.keyAuths.map Prod.fst) :
    (s.signedBy k).2.Sound get trusted roots sigs ∧ ((s.signedBy k).1 = true → k ∈ sigs) := by
  unfold SignState.signedBy
  split
  · have havailable : k ∉ s.availableKeys := by simp [h.unavailable]
    rw [if_neg havailable]
    exact ⟨h, by simp⟩
  · rename_i hfind
    have hk : k ∈ sigs := (h.provided k).mp (by simp [hfind])
    exact ⟨h.markUsed hauth hlisted hk, fun _ => hk⟩

/-- The weight of the keys so far and of the signing keys to come bounds the loop. -/
theorem Sound.checkKeys {threshold : Nat} (hauth : Consulted get roots auth)
    {items : List (PublicKey × Nat)} (hitems : ∀ item ∈ items, item ∈ auth.keyAuths)
    {totalWeight membership : Nat} (h : s.Sound get trusted roots sigs) {outcome : KeyLoop}
    (hrun : checkKeys limits threshold items totalWeight membership s = (outcome, s')) :
    s'.Sound get trusted roots sigs ∧
      outcome.Within threshold (totalWeight + weight {key | key ∈ sigs} items) := by
  induction items generalizing totalWeight membership s with
  | nil =>
      cases hrun
      exact ⟨h, Nat.le_refl _⟩
  | cons item rest ih =>
      obtain ⟨k, w⟩ := item
      have hlisted : k ∈ auth.keyAuths.map Prod.fst :=
        List.mem_map.mpr ⟨(k, w), hitems _ List.mem_cons_self, rfl⟩
      obtain ⟨hsigned, hheld⟩ := h.signedBy hauth hlisted
      have hrest : ∀ item ∈ rest, item ∈ auth.keyAuths :=
        fun item hitem => hitems item (List.mem_cons_of_mem _ hitem)
      -- what this key adds is at most its share of the weight to come
      have hadded : (if (s.signedBy k).1 then addWeight totalWeight w else totalWeight) +
          weight {key | key ∈ sigs} rest ≤
            totalWeight + weight {key | key ∈ sigs} ((k, w) :: rest) := by
        cases hanswer : (s.signedBy k).1 with
        | true =>
            have hle := addWeight_le totalWeight w
            rw [weight_cons_of_mem (by exact hheld hanswer), if_pos rfl]
            simp only
            omega
        | false =>
            have hle : weight {key | key ∈ sigs} rest ≤ weight {key | key ∈ sigs} ((k, w) :: rest) :=
              weight_le_cons
            rw [if_neg Bool.false_ne_true]
            omega
      simp only [SignState.checkKeys] at hrun
      generalize (if (s.signedBy k).1 then addWeight totalWeight w else totalWeight) = total
        at hadded hrun
      split at hrun
      · rename_i hreached
        cases hrun
        refine ⟨hsigned, fun _ => ?_⟩
        exact hreached.2.trans ((Nat.le_add_right _ _).trans hadded)
      · split at hrun
        · cases hrun
          exact ⟨hsigned, fun hanswer => absurd hanswer Bool.false_ne_true⟩
        · obtain ⟨hsound, hresult⟩ := ih hrest hsigned hrun
          refine ⟨hsound, ?_⟩
          cases outcome with
          | returned answer => exact fun hanswer => (hresult hanswer).trans hadded
          | finished total _ => exact hresult.trans hadded

/-- What a check of an authority has to guarantee. -/
def SoundCheck (get : AuthorityGetter) (trusted : List AccountName) (roots : Set Authority)
    (sigs : List PublicKey)
    (check : Authority → Nat → SignState → Except String AuthorityCheck) : Prop :=
  ∀ auth count s result, Consulted get roots auth → s.Sound get trusted roots sigs →
    check auth count s = .ok result →
      result.state.Sound get trusted roots sigs ∧
        (result.answer = true → auth.MetBy get trusted sigs)

variable {deeper : Option (Authority → Nat → SignState → Except String AuthorityCheck)}

theorem Sound.checkAccount
    (hdeeper : ∀ check ∈ deeper, SoundCheck get trusted roots sigs check)
    (hauth : Consulted get roots auth) (item : AccountName × Nat)
    (hitem : item ∈ auth.accountAuths) {count : Nat} (h : s.Sound get trusted roots sigs)
    {result : AuthorityCheck}
    (hturn : checkAccount limits get deeper item.1 count s = .ok (.checked result)) :
    result.state.Sound get trusted roots sigs ∧
      (result.answer = true → item.1 ∈ Satisfied get trusted sigs) := by
  unfold SignState.checkAccount at hturn
  split at hturn
  · rename_i happroved
    cases hturn
    exact ⟨h, fun _ => h.approved _ happroved⟩
  · cases deeper with
    | none => cases hturn
    | some check =>
        simp only at hturn
        split at hturn
        · cases hturn
        · simp only [bind_eq_ok] at hturn
          obtain ⟨next, hnext, nested, hnested, hresult⟩ := hturn
          obtain ⟨hsound, hmet⟩ := hdeeper check rfl next _ s nested
            (hauth.member hitem hnext) h hnested
          cases hresult
          cases hanswer : nested.answer with
          | true =>
              have hsatisfied : item.1 ∈ Satisfied get trusted sigs :=
                mem_satisfied_iff.mpr (.inr ⟨next, hnext, hmet hanswer⟩)
              exact ⟨hsound.approve hsatisfied, fun _ => hsatisfied⟩
          | false => exact ⟨hsound, fun h => absurd h (by simp)⟩

theorem Sound.checkAccounts {threshold : Nat}
    (hdeeper : ∀ check ∈ deeper, SoundCheck get trusted roots sigs check)
    (hauth : Consulted get roots auth) {items : List (AccountName × Nat)}
    (hitems : ∀ item ∈ items, item ∈ auth.accountAuths) {totalWeight membership count : Nat}
    (h : s.Sound get trusted roots sigs) {result : AuthorityCheck}
    (hrun : checkAccounts limits get deeper threshold items totalWeight membership count s =
      .ok result) :
    result.state.Sound get trusted roots sigs ∧
      (result.answer = true →
        threshold ≤ totalWeight + weight (Satisfied get trusted sigs) items) := by
  induction items generalizing totalWeight membership count s with
  | nil =>
      cases hrun
      exact ⟨h, by simp⟩
  | cons item rest ih =>
      obtain ⟨a, w⟩ := item
      have hrest : ∀ item ∈ rest, item ∈ auth.accountAuths :=
        fun item hitem => hitems item (List.mem_cons_of_mem _ hitem)
      have hlater : weight (Satisfied get trusted sigs) rest ≤
          weight (Satisfied get trusted sigs) ((a, w) :: rest) := weight_le_cons
      simp only [SignState.checkAccounts, bind_eq_ok] at hrun
      obtain ⟨turn, hturn, hrun⟩ := hrun
      cases turn with
      | skipped =>
          obtain ⟨hsound, hmet⟩ := ih hrest h hrun
          exact ⟨hsound, fun hanswer => (hmet hanswer).trans (by omega)⟩
      | cut =>
          cases hrun
          exact ⟨h, by simp⟩
      | checked nested =>
          obtain ⟨hsound, hsatisfied⟩ :=
            h.checkAccount hdeeper hauth (a, w) (hitems _ List.mem_cons_self) hturn
          have hadded : (if nested.answer then addWeight totalWeight w else totalWeight) +
              weight (Satisfied get trusted sigs) rest ≤
                totalWeight + weight (Satisfied get trusted sigs) ((a, w) :: rest) := by
            cases hanswer : nested.answer with
            | true =>
                have hle := addWeight_le totalWeight w
                rw [weight_cons_of_mem (by exact hsatisfied hanswer), if_pos rfl]
                simp only
                omega
            | false =>
                rw [if_neg Bool.false_ne_true]
                omega
          simp only at hrun
          generalize (if nested.answer then addWeight totalWeight w else totalWeight) = total
            at hadded hrun
          split at hrun
          · rename_i hreached
            cases hrun
            exact ⟨hsound, fun _ => hreached.2.trans ((Nat.le_add_right _ _).trans hadded)⟩
          · split at hrun
            · cases hrun
              exact ⟨hsound, by simp⟩
            · obtain ⟨hfinal, hmet⟩ := ih hrest hsound hrun
              exact ⟨hfinal, fun hanswer => (hmet hanswer).trans hadded⟩

/-- Both loops of `check_authority_impl`, over whatever check of nested authorities. -/
theorem Sound.checkMembers
    (hdeeper : ∀ check ∈ deeper, SoundCheck get trusted roots sigs check)
    (hauth : Consulted get roots auth) {count : Nat} (h : s.Sound get trusted roots sigs)
    {result : AuthorityCheck}
    (hrun : checkMembers limits get deeper auth count s = .ok result) :
    result.state.Sound get trusted roots sigs ∧
      (result.answer = true → auth.MetBy get trusted sigs) := by
  unfold SignState.checkMembers at hrun
  split at hrun
  · rename_i answer s' hkeys
    cases hrun
    obtain ⟨hsound, hwithin⟩ := h.checkKeys hauth (fun _ hitem => hitem) hkeys
    refine ⟨hsound, fun hanswer => ?_⟩
    calc
      auth.weightThreshold ≤ 0 + weight {key | key ∈ sigs} auth.keyAuths := hwithin hanswer
      _ ≤ weight {key | key ∈ sigs} auth.keyAuths +
            weight (Satisfied get trusted sigs) auth.accountAuths := by omega
  · rename_i totalWeight membership s' hkeys
    obtain ⟨hsound, hwithin⟩ := h.checkKeys hauth (fun _ hitem => hitem) hkeys
    obtain ⟨hfinal, hmet⟩ := hsound.checkAccounts hdeeper hauth (fun _ hitem => hitem) hrun
    refine ⟨hfinal, fun hanswer => ?_⟩
    calc
      auth.weightThreshold
        ≤ totalWeight + weight (Satisfied get trusted sigs) auth.accountAuths := hmet hanswer
      _ ≤ weight {key | key ∈ sigs} auth.keyAuths +
            weight (Satisfied get trusted sigs) auth.accountAuths := by
        have hle : totalWeight ≤ 0 + weight {key | key ∈ sigs} auth.keyAuths := hwithin
        omega

/-- Whatever the depth left, a check accepts only authorities that are met. -/
theorem soundCheck_checkAuthorityImpl (levels : Nat) :
    SoundCheck get trusted roots sigs (checkAuthorityImpl limits get levels) := by
  induction levels with
  | zero =>
      intro auth count s result hauth h hrun
      refine h.checkMembers ?_ hauth hrun
      rintro check hcheck
      cases hcheck
  | succ levels ih =>
      intro auth count s result hauth h hrun
      refine h.checkMembers ?_ hauth hrun
      rintro check hcheck
      cases hcheck
      exact ih

/-- A check that may be tried keeps the state sound and accepts only if `granted`. -/
def Grants (get : AuthorityGetter) (trusted : List AccountName) (roots : Set Authority)
    (sigs : List PublicKey) (granted : Prop) (check : Check) : Prop :=
  ∀ s answer s', s.Sound get trusted roots sigs → check s = .ok (answer, s') →
    s'.Sound get trusted roots sigs ∧ (answer = true → granted)

theorem grants_checkAuthority (hauth : auth ∈ roots) :
    Grants get trusted roots sigs (auth.MetBy get trusted sigs)
      (checkAuthority limits get auth) := by
  intro s answer s' h hrun
  simp only [checkAuthority, bind_eq_ok] at hrun
  obtain ⟨result, hresult, hanswer⟩ := hrun
  cases hanswer
  exact soundCheck_checkAuthorityImpl _ auth 0 s result (.root hauth) h hresult

theorem grants_checkAuthorityOf {roles : List AuthorityGetter} {id : AccountName} (hrole : get ∈ roles)
    (hid : ∀ auth, get id = .ok auth → auth ∈ roots) :
    Grants get trusted roots sigs (id ∈ trusted ∨ Authorized roles get trusted sigs id)
      (checkAuthorityOf limits get id) := by
  intro s answer s' h hrun
  unfold checkAuthorityOf at hrun
  split at hrun
  · rename_i happroved
    cases hrun
    refine ⟨h, fun _ => ?_⟩
    rcases mem_satisfied_iff.mp (h.approved id happroved) with htrusted | hmet
    · exact .inl htrusted
    · exact .inr ⟨get, hrole, hmet⟩
  · simp only [bind_eq_ok] at hrun
    obtain ⟨auth, hauth, result, hresult, hanswer⟩ := hrun
    cases hanswer
    obtain ⟨hsound, hmet⟩ :=
      soundCheck_checkAuthorityImpl _ auth 1 s result (.root (hid auth hauth)) h hresult
    exact ⟨hsound, fun hanswer => .inr ⟨get, hrole, auth, hauth, hmet hanswer⟩⟩

theorem grants_checkAuthorityBy {roles : List AuthorityGetter} {role : AuthorityGetter}
    {id : AccountName} {p : Prop} (hrole : role ∈ roles)
    (hid : ∀ auth, role id = .ok auth → auth ∈ roots) :
    Grants get trusted roots sigs (p ∨ Authorized roles get trusted sigs id)
      (checkAuthorityBy limits get role id) := by
  intro s answer s' h hrun
  simp only [checkAuthorityBy, bind_eq_ok] at hrun
  obtain ⟨auth, hauth, hrun⟩ := hrun
  obtain ⟨hsound, hmet⟩ := grants_checkAuthority (hid auth hauth) s answer s' h hrun
  exact ⟨hsound, fun hanswer => .inr ⟨role, hrole, auth, hauth, hmet hanswer⟩⟩

theorem Grants.either {first second : Check} {p : Prop}
    (hfirst : Grants get trusted roots sigs p first)
    (hsecond : Grants get trusted roots sigs p second) :
    Grants get trusted roots sigs p (either first second) := by
  intro s answer s' h hrun
  simp only [SignState.either, bind_eq_ok] at hrun
  obtain ⟨⟨tried, middle⟩, htried, hrun⟩ := hrun
  obtain ⟨hmiddle, hgranted⟩ := hfirst s tried middle h htried
  cases tried with
  | true =>
      cases hrun
      exact ⟨hmiddle, fun _ => hgranted rfl⟩
  | false => exact hsecond middle answer s' hmiddle hrun

/-- A loop of assertions that completes has found every check granted. -/
theorem forEach_assertCheck {α : Type} {check : α → Check} {granted : α → Prop} {message : String}
    {items : List α}
    (hcheck : ∀ a ∈ items, Grants get trusted roots sigs (granted a) (check a))
    (h : s.Sound get trusted roots sigs)
    (hrun : forEach (fun s a => assertCheck (check a) message s) s items = .ok s') :
    s'.Sound get trusted roots sigs ∧ ∀ a ∈ items, granted a := by
  induction items generalizing s with
  | nil =>
      cases hrun
      exact ⟨h, by simp⟩
  | cons a rest ih =>
      obtain ⟨next, hnext, hrest⟩ := forEach_cons_eq_ok.mp hrun
      simp only [assertCheck, bind_eq_ok, ensure_eq_ok] at hnext
      obtain ⟨⟨answer, after⟩, hanswer, _, htrue, hafter⟩ := hnext
      cases hafter
      obtain ⟨hsound, hgranted⟩ := hcheck a List.mem_cons_self s answer after h hanswer
      obtain ⟨hfinal, hall⟩ :=
        ih (fun b hb => hcheck b (List.mem_cons_of_mem _ hb)) hsound hrest
      refine ⟨hfinal, ?_⟩
      rintro b hb
      rcases List.mem_cons.mp hb with rfl | hb
      · exact hgranted htrue
      · exact hall b hb

theorem mem_approvedBy_foldl {names : List AccountName} {id : AccountName} :
    id ∈ (names.foldl approve s).approvedBy ↔ id ∈ names ∨ id ∈ s.approvedBy := by
  induction names generalizing s with
  | nil => simp
  | cons name rest ih =>
      rw [List.foldl_cons, ih]
      simp [approve, or_left_comm, or_assoc]

theorem foldl_approve (names : List AccountName) (s : SignState) :
    (names.foldl approve s).availableKeys = s.availableKeys ∧
      (names.foldl approve s).providedSignatures = s.providedSignatures := by
  induction names generalizing s with
  | nil => exact ⟨rfl, rfl⟩
  | cons name rest ih => exact ih (s.approve name)

theorem find?_foldl_provided (keys : List PublicKey) (provided : Store PublicKey Bool)
    (k : PublicKey) :
    (keys.foldl (fun provided key => provided.set key false) provided).find? k =
      if k ∈ keys then some false else provided.find? k := by
  induction keys generalizing provided with
  | nil => simp
  | cons key rest ih =>
      rw [List.foldl_cons, ih, Store.find?_set]
      by_cases hrest : k ∈ rest
      · simp [hrest]
      · by_cases hkey : k = key <;> simp [hrest, hkey]

/-- The state that `verify_authority` starts from. -/
theorem sound_create (get : AuthorityGetter) (roots : Set Authority) (sigs : List PublicKey)
    (names : List AccountName) :
    (names.foldl approve (create sigs [])).Sound get (blurtTempAccount :: names) roots sigs := by
  obtain ⟨havailable, hprovided⟩ := foldl_approve names (create sigs [])
  have hfind : ∀ k, (names.foldl approve (create sigs [])).providedSignatures.find? k =
      if k ∈ sigs then some false else none := by
    intro k
    rw [hprovided]
    exact find?_foldl_provided sigs ∅ k
  refine ⟨havailable, ?_, ?_, ?_⟩
  · intro k
    rw [hfind]
    split <;> simp_all
  · intro k hused
    rw [hfind] at hused
    split at hused <;> cases hused
  · intro id hid
    apply mem_satisfied_iff.mpr
    rcases mem_approvedBy_foldl.mp hid with hname | htemp
    · exact .inl (List.mem_cons_of_mem _ hname)
    · rw [List.mem_singleton.mp htemp]
      exact .inl List.mem_cons_self

/-- No signing key is left unmarked once nothing is unused. -/
theorem Sound.allUsed (h : s.Sound get trusted roots sigs) (hused : s.assertAllUsed = .ok ())
    {k : PublicKey} (hk : k ∈ sigs) : s.providedSignatures.find? k = some true := by
  obtain ⟨used, hfind⟩ := Option.isSome_iff_exists.mp ((h.provided k).mpr hk)
  cases used with
  | true => exact hfind
  | false =>
      exfalso
      have hunused : (k, false) ∈ s.providedSignatures.rows.filter fun sig => !sig.2 :=
        List.mem_filter.mpr ⟨Store.mem_rows_iff.mpr hfind, rfl⟩
      simp only [assertAllUsed, ensure_eq_ok, removeUnusedSignatures, decide_eq_false_iff_not,
        not_not, List.length_eq_zero_iff] at hused
      rw [hused] at hunused
      cases hunused

end SignState

/-- An authority that `verify_authority` looks at first. -/
inductive IsRoot (getters : AuthorityGetters) (operations : List Operation) : Authority → Prop
  | other {op : Operation} {auth : Authority} (hop : op ∈ operations)
      (hauth : auth ∈ op.requiredAuthorities) : IsRoot getters operations auth
  | posting {op : Operation} {id : AccountName} {role : AuthorityGetter} {auth : Authority}
      (hop : op ∈ operations) (hid : id ∈ op.requiredPosting)
      (hrole : role ∈ [getters.getPosting, getters.getActive, getters.getOwner])
      (hauth : role id = .ok auth) : IsRoot getters operations auth
  | active {op : Operation} {id : AccountName} {role : AuthorityGetter} {auth : Authority}
      (hop : op ∈ operations) (hid : id ∈ op.requiredActive)
      (hrole : role ∈ [getters.getActive, getters.getOwner])
      (hauth : role id = .ok auth) : IsRoot getters operations auth
  | owner {op : Operation} {id : AccountName} {auth : Authority}
      (hop : op ∈ operations) (hid : id ∈ op.requiredOwner)
      (hauth : getters.getOwner id = .ok auth) : IsRoot getters operations auth

/-- The authority by which an account counts as a member of another authority. -/
def memberGetter (getters : AuthorityGetters) (operations : List Operation) : AuthorityGetter :=
  if operations.flatMap Operation.requiredPosting = [] then getters.getActive
  else getters.getPosting

/-- Everything that the operations require is met. -/
structure Justified (getters : AuthorityGetters) (approvals : Approvals)
    (operations : List Operation) (sigs : List PublicKey) : Prop where
  posting : ∀ op ∈ operations, ∀ id ∈ op.requiredPosting,
    id ∈ blurtTempAccount :: approvals.posting ∨
      Authorized [getters.getPosting, getters.getActive, getters.getOwner] getters.getPosting
        (blurtTempAccount :: approvals.posting) sigs id
  active : ∀ op ∈ operations, ∀ id ∈ op.requiredActive,
    id ∈ blurtTempAccount :: (approvals.active ++ approvals.owner) ∨
      Authorized [getters.getActive, getters.getOwner] getters.getActive
        (blurtTempAccount :: (approvals.active ++ approvals.owner)) sigs id
  owner : ∀ op ∈ operations, ∀ id ∈ op.requiredOwner,
    id ∈ approvals.owner ∨
      Authorized [getters.getOwner] getters.getActive
        (blurtTempAccount :: (approvals.active ++ approvals.owner)) sigs id
  other : ∀ op ∈ operations, ∀ auth ∈ op.requiredAuthorities,
    auth.MetBy getters.getActive (blurtTempAccount :: (approvals.active ++ approvals.owner)) sigs

section Verify

open SignState

variable {getters : AuthorityGetters} {limits : SignLimits} {approvals : Approvals}
  {operations : List Operation} {sigs : List PublicKey} {s : SignState}

theorem grants_posting {trusted : List AccountName} {id : AccountName}
    (hid : id ∈ flatSet (operations.flatMap Operation.requiredPosting)) :
    Grants getters.getPosting trusted {auth | IsRoot getters operations auth} sigs
      (id ∈ trusted ∨ Authorized [getters.getPosting, getters.getActive, getters.getOwner]
        getters.getPosting trusted sigs id)
      (either (checkAuthorityOf limits getters.getPosting id)
        (either (checkAuthorityBy limits getters.getPosting getters.getActive id)
          (checkAuthorityBy limits getters.getPosting getters.getOwner id))) := by
  obtain ⟨op, hop, hid⟩ := List.mem_flatMap.mp (mem_flatSet.mp hid)
  apply Grants.either
  · exact grants_checkAuthorityOf (by simp) fun auth hauth => IsRoot.posting hop hid (by simp) hauth
  · apply Grants.either
    · exact grants_checkAuthorityBy (by simp) fun auth hauth =>
        IsRoot.posting hop hid (by simp) hauth
    · exact grants_checkAuthorityBy (by simp) fun auth hauth =>
        IsRoot.posting hop hid (by simp) hauth

theorem grants_active {trusted : List AccountName} {id : AccountName}
    (hid : id ∈ flatSet (operations.flatMap Operation.requiredActive)) :
    Grants getters.getActive trusted {auth | IsRoot getters operations auth} sigs
      (id ∈ trusted ∨
        Authorized [getters.getActive, getters.getOwner] getters.getActive trusted sigs id)
      (either (checkAuthorityOf limits getters.getActive id)
        (checkAuthorityBy limits getters.getActive getters.getOwner id)) := by
  obtain ⟨op, hop, hid⟩ := List.mem_flatMap.mp (mem_flatSet.mp hid)
  apply Grants.either
  · exact grants_checkAuthorityOf (by simp) fun auth hauth => IsRoot.active hop hid (by simp) hauth
  · exact grants_checkAuthorityBy (by simp) fun auth hauth => IsRoot.active hop hid (by simp) hauth

theorem grants_owner {trusted : List AccountName} {id : AccountName}
    (hid : id ∈ flatSet (operations.flatMap Operation.requiredOwner)) :
    Grants getters.getActive trusted {auth | IsRoot getters operations auth} sigs
      (id ∈ approvals.owner ∨ Authorized [getters.getOwner] getters.getActive trusted sigs id)
      (either (fun s => .ok (decide (id ∈ approvals.owner), s))
        (checkAuthorityBy limits getters.getActive getters.getOwner id)) := by
  obtain ⟨op, hop, hid⟩ := List.mem_flatMap.mp (mem_flatSet.mp hid)
  apply Grants.either
  · intro s answer s' h hanswer
    cases hanswer
    exact ⟨h, fun hid => .inl (of_decide_eq_true hid)⟩
  · exact grants_checkAuthorityBy (by simp) fun auth hauth => IsRoot.owner hop hid hauth

/-- Where a posting authority is required, every one of them is authorized. -/
theorem checkPosting_sound
    (hrun : checkPosting getters limits approvals
      (flatSet (operations.flatMap Operation.requiredPosting)) sigs = .ok s) :
    s.Sound getters.getPosting (blurtTempAccount :: approvals.posting)
        {auth | IsRoot getters operations auth} sigs ∧
      ∀ op ∈ operations, ∀ id ∈ op.requiredPosting,
        id ∈ blurtTempAccount :: approvals.posting ∨
          Authorized [getters.getPosting, getters.getActive, getters.getOwner] getters.getPosting
            (blurtTempAccount :: approvals.posting) sigs id := by
  obtain ⟨hsound, hgranted⟩ :=
    forEach_assertCheck (fun _ => grants_posting) (sound_create _ _ _ _) hrun
  refine ⟨hsound, ?_⟩
  intro op hop id hid
  exact hgranted id (mem_flatSet.mpr (List.mem_flatMap.mpr ⟨op, hop, hid⟩))

/-- Where no posting authority is required, the other ones are authorized. -/
theorem checkActive_sound
    (hrun : checkActive getters limits approvals
      (operations.flatMap Operation.requiredAuthorities)
      (flatSet (operations.flatMap Operation.requiredActive))
      (flatSet (operations.flatMap Operation.requiredOwner)) sigs = .ok s) :
    s.Sound getters.getActive (blurtTempAccount :: (approvals.active ++ approvals.owner))
        {auth | IsRoot getters operations auth} sigs ∧
      (∀ op ∈ operations, ∀ auth ∈ op.requiredAuthorities,
        auth.MetBy getters.getActive
          (blurtTempAccount :: (approvals.active ++ approvals.owner)) sigs) ∧
      (∀ op ∈ operations, ∀ id ∈ op.requiredActive,
        id ∈ blurtTempAccount :: (approvals.active ++ approvals.owner) ∨
          Authorized [getters.getActive, getters.getOwner] getters.getActive
            (blurtTempAccount :: (approvals.active ++ approvals.owner)) sigs id) ∧
      ∀ op ∈ operations, ∀ id ∈ op.requiredOwner,
        id ∈ approvals.owner ∨
          Authorized [getters.getOwner] getters.getActive
            (blurtTempAccount :: (approvals.active ++ approvals.owner)) sigs id := by
  simp only [checkActive, bind_eq_ok] at hrun
  obtain ⟨afterOther, hother, afterActive, hactive, howner⟩ := hrun
  have hroot : ∀ auth ∈ operations.flatMap Operation.requiredAuthorities,
      auth ∈ {auth | IsRoot getters operations auth} := by
    intro auth hauth
    obtain ⟨op, hop, hauth⟩ := List.mem_flatMap.mp hauth
    exact IsRoot.other hop hauth
  obtain ⟨hotherSound, hotherMet⟩ :=
    forEach_assertCheck (fun auth hauth => grants_checkAuthority (hroot auth hauth))
      (sound_create _ _ _ _) hother
  obtain ⟨hactiveSound, hactiveMet⟩ :=
    forEach_assertCheck (fun _ => grants_active) hotherSound hactive
  obtain ⟨hsound, hownerMet⟩ := forEach_assertCheck (fun _ => grants_owner) hactiveSound howner
  refine ⟨hsound, ?_, ?_, ?_⟩
  · intro op hop auth hauth
    exact hotherMet auth (List.mem_flatMap.mpr ⟨op, hop, hauth⟩)
  · intro op hop id hid
    exact hactiveMet id (mem_flatSet.mpr (List.mem_flatMap.mpr ⟨op, hop, hid⟩))
  · intro op hop id hid
    exact hownerMet id (mem_flatSet.mpr (List.mem_flatMap.mpr ⟨op, hop, hid⟩))

/-- A verification that does not throw has found everything required to be met, and has
found a use for every signing key. -/
theorem checkRequired_sound
    (hrun : checkRequired getters limits approvals operations sigs = .ok s) :
    Justified getters approvals operations sigs ∧
      ∃ trusted, s.Sound (memberGetter getters operations) trusted
        {auth | IsRoot getters operations auth} sigs := by
  simp only [checkRequired] at hrun
  split at hrun
  · rename_i hposting
    simp only [bind_eq_ok, ensure_eq_ok, List.length_eq_zero_iff] at hrun
    obtain ⟨_, hactive, _, howner, _, hother, hrun⟩ := hrun
    obtain ⟨hsound, hgranted⟩ := checkPosting_sound hrun
    have hrequired : operations.flatMap Operation.requiredPosting ≠ [] := by
      rintro hnil
      simp [hnil, flatSet] at hposting
    refine ⟨⟨hgranted, ?_, ?_, ?_⟩, blurtTempAccount :: approvals.posting, ?_⟩
    · intro op hop id hid
      have hmem : id ∈ flatSet (operations.flatMap Operation.requiredActive) :=
        mem_flatSet.mpr (List.mem_flatMap.mpr ⟨op, hop, hid⟩)
      rw [hactive] at hmem
      cases hmem
    · intro op hop id hid
      have hmem : id ∈ flatSet (operations.flatMap Operation.requiredOwner) :=
        mem_flatSet.mpr (List.mem_flatMap.mpr ⟨op, hop, hid⟩)
      rw [howner] at hmem
      cases hmem
    · intro op hop auth hauth
      have hmem : auth ∈ operations.flatMap Operation.requiredAuthorities :=
        List.mem_flatMap.mpr ⟨op, hop, hauth⟩
      rw [hother] at hmem
      cases hmem
    · rw [memberGetter, if_neg hrequired]
      exact hsound
  · rename_i hposting
    have hnone : flatSet (operations.flatMap Operation.requiredPosting) = [] := by
      simpa using hposting
    have hrequired : operations.flatMap Operation.requiredPosting = [] := by
      apply List.eq_nil_iff_forall_not_mem.mpr
      intro id hid
      have hmem := mem_flatSet.mpr hid
      rw [hnone] at hmem
      cases hmem
    obtain ⟨hsound, hother, hactive, howner⟩ := checkActive_sound hrun
    refine ⟨⟨?_, hactive, howner, hother⟩,
      blurtTempAccount :: (approvals.active ++ approvals.owner), ?_⟩
    · intro op hop id hid
      have hmem : id ∈ operations.flatMap Operation.requiredPosting :=
        List.mem_flatMap.mpr ⟨op, hop, hid⟩
      rw [hrequired] at hmem
      cases hmem
    · rw [memberGetter, if_pos hrequired]
      exact hsound

/-- Signature checking is sound, whatever the limits: all authorities required are met in
the sense of the least fixed point, and every signing key was looked up, in an authority
that the operations lead to. -/
theorem verifyAuthority_sound
    (hverify : verifyAuthority getters limits approvals operations sigs = .ok ()) :
    Justified getters approvals operations sigs ∧
      ∃ s, checkRequired getters limits approvals operations sigs = .ok s ∧
        ∀ key ∈ sigs, s.providedSignatures.find? key = some true ∧
          ∃ auth, Consulted (memberGetter getters operations)
            {auth | IsRoot getters operations auth} auth ∧ key ∈ auth.keyAuths.map Prod.fst := by
  simp only [verifyAuthority, bind_eq_ok] at hverify
  obtain ⟨s, hrun, hused⟩ := hverify
  obtain ⟨hjustified, trusted, hsound⟩ := checkRequired_sound hrun
  refine ⟨hjustified, s, hrun, ?_⟩
  intro key hkey
  have hmarked := hsound.allUsed hused hkey
  exact ⟨hmarked, hsound.used key hmarked⟩

end Verify

namespace SignSample

/-- Bob may act for alice, and alice or the key 7 for bob. -/
def cyclic : AuthorityGetter
  | "alice" => .ok { weightThreshold := 1, accountAuths := [("bob", 1)] }
  | "bob" =>
      .ok { weightThreshold := 2, accountAuths := [("alice", 1)], keyAuths := [(7, 2), (8, 1)] }
  | _ => .error "unknown key"

def getters : AuthorityGetters := ⟨cyclic, cyclic, cyclic⟩

def payment : Operation :=
  .transfer { fromAccount := "alice", toAccount := "bob", amount := ⟨1, .blurt⟩, memo := "" }

/-- Alice waits for bob and bob for alice, so only the key 7 makes the payment hers. -/
theorem payment_verified :
    verifyAuthority getters {} {} [payment] [7] = .ok () ∧
      Authorized [cyclic, cyclic] cyclic [blurtTempAccount] [7] "alice" := by
  have hverify : verifyAuthority getters {} {} [payment] [7] = .ok () := by decide
  refine ⟨hverify, ?_⟩
  have hactive := (verifyAuthority_sound hverify).1.active payment (by simp) "alice" (by decide)
  exact hactive.resolve_left (by decide)

example : verifyAuthority getters {} {} [payment] [8] =
    .error "Missing Active Authority ${id}" := by
  decide

end SignSample

end Blurt
