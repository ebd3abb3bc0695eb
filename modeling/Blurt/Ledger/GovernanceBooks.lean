import Blurt.Ledger.BooksLaws
import Blurt.Ledger.GovernanceEvaluators

/-! # The books of witnesses, proxies and proposals -/

namespace Blurt

namespace Ledger

namespace Database

variable {db db' : Database}

/-! ## Witnesses -/

theorem witnessUpdate_books {o : WitnessUpdateOperation} (h : db.witnessUpdate o = .ok db') :
    db'.books = db.books.register o.owner := by
  simp only [witnessUpdate, Outcome.bind_eq_ok, Outcome.ensure_eq_ok, Outcome.pure_eq_ok] at h
  obtain ⟨_, -, _, -, _, -, _, -, rfl⟩ := h
  simp only [books, Books.register, Table.view_set, Table.find?_view]
  cases db.witnesses.find? o.owner <;> rfl

/-- A fee moves from its payer to the account that receives fees. -/
theorem payFee_books {payer : AccountName} {fee : Int} (h : db.payFee payer fee = .ok db') :
    db'.books = (db.books.credit payer .balance (-fee)).credit db.feeAccount .balance fee ∧
      db' = { db with accounts := db'.accounts } := by
  simp only [payFee, Outcome.bind_eq_ok, Outcome.ensure_eq_ok] at h
  obtain ⟨_, -, _, -, debited, hdebited, h⟩ := h
  obtain ⟨hdebit, hdebitFrame⟩ := adjustBalance_blurt hdebited rfl
  obtain ⟨hcredit, hcreditFrame⟩ := adjustBalance_blurt h rfl
  refine ⟨?_, by rw [hcreditFrame, hdebitFrame]⟩
  rw [hcredit, hdebit]
  rfl

/-- The fee of `witness_set_properties_evaluator`. -/
def setPropertiesFee (host : Host) (db : Database) (o : WitnessSetPropertiesOperation) : Int :=
  atLeastOne db.wso.medianProps.operationFlatFee.amount +
    bandwidthFee (host.packSize o) db.wso.medianProps.bandwidthKbytesFee.amount

theorem setPropertiesFee_pos (host : Host) (db : Database) (o : WitnessSetPropertiesOperation) :
    0 < setPropertiesFee host db o := by
  rw [setPropertiesFee, bandwidthFee, atLeastOne, atLeastOne]
  omega

/-- The signing key that an operation names belongs to the witness, which pays the fee. -/
theorem witnessSetProperties_books {host : Host} {o : WitnessSetPropertiesOperation}
    (h : witnessSetProperties host db o = .ok db') :
    (∃ witness, db.witnesses.find? o.owner = some witness ∧
        o.props.key = some witness.signingKey) ∧
      (db'.books = db.books ∨
        db'.books = (db.books.credit o.owner .balance (-setPropertiesFee host db o)).credit
          db.feeAccount .balance (setPropertiesFee host db o)) := by
  simp only [witnessSetProperties, getWitness, ensureEntry, Outcome.bind_eq_ok, Outcome.ensure_eq_ok,
    Outcome.require_eq_ok] at h
  obtain ⟨witness, hwitness, _, hkey, _, -, _, -, _, -, h⟩ := h
  refine ⟨⟨witness, hwitness, hkey⟩, ?_⟩
  have hquiet := books_setWitness_quiet db (Witness.setProperties witness o.props) hwitness rfl
  split at h
  · simp only [Outcome.bind_eq_ok, shareType_eq_ok] at h
    obtain ⟨fee, ⟨-, rfl⟩, h⟩ := h
    obtain ⟨hpay, -⟩ := payFee_books h
    right
    rw [hpay, hquiet]
    rfl
  · cases h
    exact .inl hquiet

/-- What the vote of an account for a witness weighs. -/
def voteWeight (db : Database) (name : AccountName) (voter : Account) : Int :=
  if name = blurtRegentAccount then db.dgp.regentVestingShares else voter.witnessVoteWeight

theorem find?_witnessVotes (key : AccountName × AccountName) :
    db.books.witnessVotes.find? key = db.witnessVotes.find? key := by
  simp [books]

theorem accountWitnessVote_books {o : AccountWitnessVoteOperation}
    (h : db.accountWitnessVote o = .ok db') :
    ∃ voter, db.accounts.find? o.account = some voter ∧
      voter.proxy = blurtProxyToSelfAccount ∧
      (db.witnesses.find? o.witness).isSome ∧
      (o.approve ∧ voter.canVote ∧
          db.books.witnessVotes.find? (o.account, o.witness) = none ∧
          db'.books = (db.books.castVote o.account o.witness).creditWitness o.witness
            (db.voteWeight o.account voter) ∨
        !o.approve ∧ (db.books.witnessVotes.find? (o.account, o.witness)).isSome ∧
          db'.books = (db.books.creditWitness o.witness
            (-db.voteWeight o.account voter)).retractVote o.account o.witness) := by
  simp only [accountWitnessVote, getWitness, Outcome.bind_eq_ok, Outcome.ensure_eq_ok,
    Outcome.require_eq_ok, getAccount_eq_ok, shareType_eq_ok] at h
  obtain ⟨voter, hvoter, _, hproxy, _, hcanVote, _, hwitness, _, ⟨-, rfl⟩, h⟩ := h
  refine ⟨voter, hvoter, hproxy, by rw [hwitness]; rfl, ?_⟩
  rw [find?_witnessVotes]
  split at h
  · rename_i hnew
    simp only [Outcome.bind_eq_ok, Outcome.ensure_eq_ok] at h
    obtain ⟨_, happrove, _, -, voted, hvoted, h⟩ := h
    obtain ⟨hvote, -⟩ := adjustWitnessVote_books hvoted
    obtain ⟨hquiet, -⟩ := modifyAccount_quiet h fun a b hb => by cases hb; rfl
    refine .inl ⟨happrove, hcanVote happrove, by simpa using hnew, ?_⟩
    rw [hquiet, hvote]
    simp only [books, Books.castVote, Table.view_set]
    rfl
  · rename_i hold
    simp only [Outcome.bind_eq_ok, Outcome.ensure_eq_ok, Outcome.pure_eq_ok] at h
    obtain ⟨_, hreject, unvoted, hunvoted, counted, hcounted, rfl⟩ := h
    obtain ⟨hvote, -⟩ := adjustWitnessVote_books hunvoted
    obtain ⟨hquiet, -⟩ := modifyAccount_quiet hcounted fun a b hb => by
      cases hb
      exact a.holder_witnessesVotedFor _
    refine .inr ⟨hreject, by simpa [Option.isSome_iff_ne_none] using hold, ?_⟩
    have hbooks : counted.books = db.books.creditWitness o.witness
        (-db.voteWeight o.account voter) := by
      rw [hquiet, hvote]
      rfl
    rw [← hbooks]
    simp only [books, Books.retractVote, Table.view_remove]

/-! ## Proxies -/

theorem accountWitnessProxy_books {o : AccountWitnessProxyOperation}
    (h : db.accountWitnessProxy o = .ok db') :
    ∃ account, db.accounts.find? o.account = some account ∧ account.proxy ≠ o.proxy ∧
      account.canVote ∧
      (o.proxy ≠ "" ∧ (∃ withdrawn : Database,
            withdrawn.books = db.books.shiftVotes o.account (fun i => -account.voteDelta i)
              blurtMaxProxyRecursionDepth ∧
            (withdrawn.accounts.find? o.proxy).isSome ∧
            withdrawn.checkProxyChain [o.proxy, o.account] o.proxy
              (blurtMaxProxyRecursionDepth + 1) = .ok ()) ∧
          db'.books = (((db.books.shiftVotes o.account (fun i => -account.voteDelta i)
            blurtMaxProxyRecursionDepth).clearVotes o.account).setProxy o.account o.proxy).shiftVotes
              o.account account.voteDelta blurtMaxProxyRecursionDepth ∨
        o.proxy = "" ∧
          db'.books = (db.books.shiftVotes o.account (fun i => -account.voteDelta i)
            blurtMaxProxyRecursionDepth).setProxy o.account o.proxy) := by
  simp only [accountWitnessProxy, Outcome.bind_eq_ok, Outcome.ensure_eq_ok, getAccount_eq_ok] at h
  obtain ⟨account, haccount, _, hchange, _, hcanVote, withdrawn, hwithdrawn, h⟩ := h
  obtain ⟨hwithdraw, -⟩ := adjustProxiedArray_books hwithdrawn
  refine ⟨account, haccount, hchange, hcanVote, ?_⟩
  split at h
  · rename_i hproxy
    simp only [Outcome.bind_eq_ok, getAccount_eq_ok] at h
    obtain ⟨_, hexists, ⟨⟩, hchain, cleared, hcleared, proxied, hproxied, h⟩ := h
    obtain ⟨hclear, -⟩ := clearWitnessVotes_books hcleared
    obtain ⟨hset, -⟩ := modifyAccount_books (f := fun holder => { holder with proxy := o.proxy })
      hproxied fun a b hb => by cases hb; rfl
    obtain ⟨hshift, -⟩ := adjustProxiedArray_books h
    refine .inl ⟨hproxy, ⟨withdrawn, hwithdraw, by rw [hexists]; rfl, hchain⟩, ?_⟩
    rw [hshift, hset, hclear, hwithdraw]
    rfl
  · rename_i hself
    have hself : o.proxy = "" := by simpa using hself
    obtain ⟨hset, -⟩ := modifyAccount_books (f := fun holder => { holder with proxy := o.proxy })
      h fun a b hb => by cases hb; rfl
    refine .inr ⟨hself, ?_⟩
    rw [hset, hwithdraw]
    rfl

theorem declineVotingRights_books {o : DeclineVotingRightsOperation}
    (h : db.declineVotingRights o = .ok db') : db'.books = db.books := by
  simp only [declineVotingRights, Outcome.bind_eq_ok] at h
  obtain ⟨_, -, h⟩ := h
  split at h <;>
    · simp only [Outcome.bind_eq_ok, Outcome.ensure_eq_ok, Outcome.pure_eq_ok] at h
      obtain ⟨_, -, rfl⟩ := h
      rfl

/-! ## Proposals -/

theorem createProposal_books {o : CreateProposalOperation} (h : db.createProposal o = .ok db') :
    db'.books = (db.books.credit o.creator .balance (-blurtTreasuryFee)).credit
      blurtTreasuryAccount .balance blurtTreasuryFee := by
  simp only [createProposal, Outcome.bind_eq_ok, Outcome.ensure_eq_ok] at h
  obtain ⟨_, -, _, -, _, -, _, -, _, -, debited, hdebited, h⟩ := h
  obtain ⟨hdebit, -⟩ := adjustBalance_blurt hdebited rfl
  obtain ⟨hcredit, -⟩ := adjustBalance_blurt h rfl
  rw [hcredit, hdebit]
  rfl

theorem updateProposalVotes_books (db : Database) (o : UpdateProposalVotesOperation) :
    (db.updateProposalVotes o).books = db.books := by
  unfold updateProposalVotes
  induction o.proposalIds generalizing db with
  | nil => rfl
  | cons id rest ih =>
      rw [List.foldl_cons, ih, updateProposalVote]
      split
      · rfl
      · split
        · rfl
        · split <;> rfl

theorem removeVotes_books (id : Nat) (voters : List AccountName) (state : Database × Reducer) :
    (removeVotes id voters state).1.books = state.1.books := by
  induction voters generalizing state with
  | nil => rfl
  | cons voter rest ih =>
      rw [removeVotes]
      split
      · rfl
      · exact ih _

theorem removeProposalObject_books (id : Nat) (state : Database × Reducer) :
    (removeProposalObject id state).1.books = state.1.books := by
  have hvotes := removeVotes_books id (state.1.proposalVoters id) state
  unfold removeProposalObject
  simp only
  split
  · exact hvotes
  · split
    · exact hvotes
    · exact hvotes

theorem removeProposals_books {owner : AccountName} {ids : List Int}
    {state final : Database × Reducer} (h : removeProposals owner ids state = .ok final) :
    final.1.books = state.1.books := by
  induction ids generalizing state with
  | nil =>
      cases h
      rfl
  | cons id rest ih =>
      rw [removeProposals] at h
      split at h
      · exact ih h
      · simp only [Outcome.bind_eq_ok, Outcome.ensure_eq_ok] at h
        obtain ⟨_, -, h⟩ := h
        split at h
        · cases h
          exact removeProposalObject_books _ _
        · rw [ih h]
          exact removeProposalObject_books _ _

theorem markRemoved_books (db : Database) (ids : List Int) :
    (ids.foldl markRemoved db).books = db.books := by
  induction ids generalizing db with
  | nil => rfl
  | cons id rest ih =>
      rw [List.foldl_cons, ih, markRemoved]
      split
      · rfl
      · split <;> rfl

theorem removeProposal_books {host : Host} {op : RemoveProposalOperation}
    (h : removeProposal host db op = .ok db') : db'.books = db.books := by
  simp only [removeProposal, Outcome.bind_eq_ok, Outcome.pure_eq_ok] at h
  obtain ⟨removed, hremoved, rfl⟩ := h
  rw [markRemoved_books, removeProposals_books hremoved]

end Database

end Ledger

end Blurt
