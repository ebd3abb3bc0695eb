import Blurt.Ledger.BlockInvariants
import Blurt.Ledger.OperationRuns
import Blurt.Protocol.SignStateLaws

/-! # Transactions as runs of entries

Nobody can sign for the null account, so no accepted transaction acts for it, and the
transaction with its fee is a run of entries that balances.
-/

namespace Blurt

/-- The members of an impossible authority do not reach its threshold. -/
theorem Authority.not_metBy_of_isImpossible {auth : Authority} (h : auth.isImpossible)
    (get : AuthorityGetter) (trusted : List AccountName) (sigs : List PublicKey) :
    ¬ auth.MetBy get trusted sigs := by
  intro hmet
  have hkeys : Threshold.weight {key | key ∈ sigs} auth.keyAuths ≤
      (auth.keyAuths.map Prod.snd).sum := Threshold.weight_le_sum _
  have hnames : Threshold.weight (Satisfied get trusted sigs) auth.accountAuths ≤
      (auth.accountAuths.map Prod.snd).sum := Threshold.weight_le_sum _
  have hthreshold : auth.weightThreshold ≤ Threshold.weight {key | key ∈ sigs} auth.keyAuths +
      Threshold.weight (Satisfied get trusted sigs) auth.accountAuths := hmet
  simp only [isImpossible, decide_eq_true_eq] at h
  omega

namespace Ledger

open Outcome

/-- The operations of a transaction act for the accounts that they require. -/
def BlockTransaction.ActsFor (t : BlockTransaction) (name : AccountName) : Prop :=
  ∃ op ∈ t.trx.operations, name ∈ op.required

/-- Only accounts that `may` set a proxy set one. -/
def BlockTransaction.Proxies (may : AccountName → Prop) (t : BlockTransaction) : Prop :=
  ∀ o, .accountWitnessProxy o ∈ t.trx.operations → may o.account

namespace Database

variable {may : AccountName → Prop} {db db' : Database} {host : Host} {t : BlockTransaction}

/-! ## The null account -/

/-- The null account is authorized by none of its authorities. -/
theorem not_authorized_null (db : Database) {roles : List AuthorityGetter}
    (hroles : ∀ role ∈ roles, ∃ of : AccountAuthority → Authority, role = db.getAuthority of ∧
      ∀ auth, db.authorities.find? blurtNullAccount = some auth → (of auth).isImpossible)
    (get : AuthorityGetter) (trusted : List AccountName) (sigs : List PublicKey) :
    ¬ Authorized roles get trusted sigs blurtNullAccount := by
  rintro ⟨role, hrole, auth, hauth, hmet⟩
  obtain ⟨of, rfl, himpossible⟩ := hroles role hrole
  unfold getAuthority at hauth
  split at hauth
  · rename_i found hfound
    cases hauth
    exact Authority.not_metBy_of_isImpossible (himpossible found hfound) _ _ _ hmet
  · cases hauth

theorem justified_spares_null (hnull : db.books.NullPapers)
    (h : Blurt.Justified db.authorityGetters {} t.trx.operations t.sigs) :
    ¬ t.ActsFor blurtNullAccount := by
  have hauth : ∀ auth, db.authorities.find? blurtNullAccount = some auth →
      auth.owner.isImpossible ∧ auth.active.isImpossible ∧ auth.posting.isImpossible := by
    intro auth hfound
    exact hnull.authority auth (by rw [find?_authorities, hfound])
  have howner : ∃ of : AccountAuthority → Authority,
      db.authorityGetters.getOwner = db.getAuthority of ∧ ∀ auth,
        db.authorities.find? blurtNullAccount = some auth → (of auth).isImpossible :=
    ⟨_, rfl, fun auth hfound => (hauth auth hfound).1⟩
  have hactive : ∃ of : AccountAuthority → Authority,
      db.authorityGetters.getActive = db.getAuthority of ∧ ∀ auth,
        db.authorities.find? blurtNullAccount = some auth → (of auth).isImpossible :=
    ⟨_, rfl, fun auth hfound => (hauth auth hfound).2.1⟩
  have hposting : ∃ of : AccountAuthority → Authority,
      db.authorityGetters.getPosting = db.getAuthority of ∧ ∀ auth,
        db.authorities.find? blurtNullAccount = some auth → (of auth).isImpossible :=
    ⟨_, rfl, fun auth hfound => (hauth auth hfound).2.2⟩
  rintro ⟨op, hop, hrequired⟩
  simp only [Operation.required, List.mem_append] at hrequired
  rcases hrequired with (hrequired | hrequired) | hrequired
  · refine not_authorized_null db ?_ _ _ _ ((h.active op hop _ hrequired).resolve_left (by decide))
    simpa using ⟨hactive, howner⟩
  · refine not_authorized_null db ?_ _ _ _ ((h.owner op hop _ hrequired).resolve_left (by decide))
    simpa using howner
  · refine not_authorized_null db ?_ _ _ _ ((h.posting op hop _ hrequired).resolve_left (by decide))
    simpa using ⟨hposting, hactive, howner⟩

/-- Signatures that are accepted act for the null account in no block but those in which a
missing authority is excused. -/
theorem checkSignatures_spares_null (hnull : db.books.NullPapers)
    (hexcused : db.dgp.headBlockNumber + 1 ∈ sharedDbMerkle → ¬ t.ActsFor blurtNullAccount)
    (h : db.checkSignatures t = .ok ()) : ¬ t.ActsFor blurtNullAccount := by
  unfold checkSignatures at h
  split at h
  · rename_i hverify
    simp only [verifyAuthority, bind_eq_ok] at hverify
    obtain ⟨s, hrun, -⟩ := hverify
    exact justified_spares_null hnull (checkRequired_sound hrun).1
  · split at h
    · rename_i hexcuse
      exact hexcused hexcuse.2
    · cases h

/-! ## Transactions -/

theorem processTxFee_enters {trx : SignedTransaction} (h : db.processTxFee trx = .ok db') :
    Enters may db 0 db' := by
  unfold processTxFee at h
  split at h
  · obtain ⟨fee, -, h⟩ := bind_eq_ok.mp h
    apply forEach_invariant (Enters may db 0) _ (Run.refl _) h
    intro state auth next _ hstate hnext
    exact hstate.append (payFee_enters hnext)
  · cases h
    exact .refl _

/-- The operations of a transaction, in their order. -/
theorem applyOperations_enters {operations : List Operation} (hb : db.books.Sound)
    (hvalid : ∀ op ∈ operations, op.validate host.rules = .ok ())
    (hnull : ∀ op ∈ operations, blurtNullAccount ∉ op.required)
    (hmay : ∀ o, .accountWitnessProxy o ∈ operations → may o.account)
    (h : Outcome.forEach (applyOperation host) db operations = .ok db') : Enters may db 0 db' := by
  apply forEach_invariant (Enters may db 0) _ (Run.refl _) h
  intro state op next hop hstate hnext
  have hsound := hb.run hstate rfl
  have hentry := applyOperation_enters hsound (hvalid op hop) (hnull op hop)
    (fun o ho => hmay o (ho ▸ hop)) hnext
  exact hstate.append hentry

/-- An accepted transaction balances. -/
theorem acceptTransaction_enters (hb : db.books.Sound)
    (hexcused : db.dgp.headBlockNumber + 1 ∈ sharedDbMerkle → ¬ t.ActsFor blurtNullAccount)
    (hmay : t.Proxies may) (h : acceptTransaction host db t = .ok db') : Enters may db 0 db' := by
  simp only [acceptTransaction, bind_eq_ok] at h
  obtain ⟨⟨⟩, hvalid, ⟨⟩, hsigned, h⟩ := h
  have hspares := checkSignatures_spares_null hb.null.papers hexcused hsigned
  simp only [applyTransaction, bind_eq_ok] at h
  obtain ⟨paid, hpaid, h⟩ := h
  have hfee : Enters may db 0 paid := processTxFee_enters hpaid
  have hrest := applyOperations_enters (hb.run hfee rfl) (fun op => validate_operations hvalid)
    (fun op hop hrequired => hspares ⟨op, hop, hrequired⟩) hmay h
  exact hfee.append hrest

end Database

end Ledger

end Blurt
